import LoginServer.WorkersTasks

/-! # The workers when the pool is shut down

`workerLoop` tests the state before it locks, and waits for no other reason than an empty queue. A
worker that has tested the state before `shutdownWorkers` changed it, and has not come to its wait
when the only `notify_all` is executed, waits for a notification that nobody sends. -/
namespace LoginServer.Workers

open Runs

variable {n : ℕ} {α : Type*}

def Sleeper (s : State n α) : Prop := s.terminated = true ∧ ∃ w, (s.workers w).place = .waiting

/-- The steps of workers and of the calls of `asyncTask` and `shutdownWorkers`. -/
def WithoutStop (_ : State n α) : Event n α → Prop
  | .call _ .stopWorkers => False
  | _ => True

/-- No worker is between its test of the state and the end of its look at the queue. -/
def NoneBetween (s : State n α) : Prop :=
  ∀ w, (s.workers w).place ≠ .locking ∧ (s.workers w).place ≠ .locked

/-- At `notify_all` no worker is on its way to the wait. -/
def Clear (s : State n α) (e : Event n α) : Prop :=
  WithoutStop s e ∧ ∀ i, e = .notifyAll i → NoneBetween s

instance (s : State n α) (e : Event n α) : Decidable (WithoutStop s e) :=
  match e with
  | .call _ .stopWorkers => .isFalse id
  | .call _ (.asyncTask _) | .call _ .shutdownWorkers => .isTrue trivial
  | .callerLock _ | .enter _ | .callerUnlock _ | .notifyOne _ _ | .drain _ | .executed _
  | .notifyAll _ | .test _ | .lock _ | .check _ | .wake _ | .relock _ | .take _ | .unlock _
  | .next _ | .finish _ => .isTrue trivial

instance (s : State n α) : Decidable (NoneBetween s) :=
  inferInstanceAs (Decidable (∀ _, _ ∧ _))

instance (s : State n α) (e : Event n α) : Decidable (Clear s e) :=
  match e with
  | .notifyAll i => decidable_of_iff (NoneBetween s)
      ⟨fun h => ⟨trivial, fun _ _ => h⟩, fun h => h.2 i rfl⟩
  | .call i call => decidable_of_iff (WithoutStop s (.call i call))
      ⟨fun h => ⟨h, fun _ he => by cases he⟩, fun h => h.1⟩
  | .callerLock _ | .enter _ | .callerUnlock _ | .notifyOne _ _ | .drain _ | .executed _
  | .test _ | .lock _ | .check _ | .wake _ | .relock _ | .take _ | .unlock _
  | .next _ | .finish _ => .isTrue ⟨trivial, fun _ he => by cases he⟩

/-- A call that ends the workers is under way, or has ended them for good. -/
structure Ends (s : State n α) : Prop where
  entering : ∀ i, s.callers i ≠ .entering .stopWorkers ∧ s.callers i ≠ .locked .stopWorkers
  closing : ∀ i, (s.callers i).Closing → s.s_workerState = .STATE_TERMINATED
  terminated : s.terminated = true → s.s_workerState = .STATE_TERMINATED

/-- No worker waits or is on its way to the wait. -/
def Awake (s : State n α) : Prop :=
  ∀ w, (s.workers w).place ≠ .locking ∧ (s.workers w).place ≠ .locked ∧
    (s.workers w).place ≠ .waiting

namespace Ends

variable {s : State n α} (h : Ends s)
include h

theorem of_update {u : State n α} {i : ℕ} {p : CallerPlace α}
    (hc : u.callers = Function.update s.callers i p)
    (hstate : u.s_workerState = s.s_workerState) (ht : u.terminated = s.terminated)
    (hentering : p ≠ .entering .stopWorkers ∧ p ≠ .locked .stopWorkers)
    (hclosing : p.Closing → s.s_workerState = .STATE_TERMINATED) : Ends u := by
  refine ⟨fun j => ?_, fun j hj => ?_, fun hu => hstate.trans (h.terminated (ht ▸ hu))⟩
  · by_cases hji : j = i
    · subst hji
      simpa [hc] using hentering
    · simpa [hc, hji] using h.entering j
  · rw [hstate]
    by_cases hji : j = i
    · subst hji
      exact hclosing (by simpa [hc] using hj)
    · exact h.closing j (by simpa [hc, hji] using hj)

theorem of_eq {u : State n α} (hc : u.callers = s.callers)
    (hstate : u.s_workerState = s.s_workerState) (ht : u.terminated = s.terminated) : Ends u :=
  ⟨hc ▸ h.entering, hc ▸ hstate ▸ h.closing, ht ▸ hstate ▸ h.terminated⟩

end Ends

theorem released_not_locked {p q : CallerPlace α} (h : p.released = some q) :
    q ≠ .entering .stopWorkers ∧ q ≠ .locked .stopWorkers := by
  cases p with
  | pushed signal => cases signal <;> cases h <;> simp
  | closed | drained => cases h; simp
  | _ => cases h

theorem step_ends {s u : State n α} {e : Event n α} (hs : Ends s) (hok : WithoutStop s e)
    (h : step s e = some u) : Ends u := by
  cases step_effect h with
  | @call i call hi =>
    refine hs.of_update rfl rfl rfl ⟨?_, by simp⟩ fun hp => hp.elim
    intro heq
    cases heq
    exact hok
  | @callerLock i call hi hm =>
    refine hs.of_update rfl rfl rfl ⟨by simp, ?_⟩ fun hp => hp.elim
    intro heq
    cases heq
    exact (hs.entering i).1 hi
  | @enter i call hi =>
    cases call with
    | stopWorkers => exact absurd hi (hs.entering i).2
    | shutdownWorkers =>
      have hended : Ends { s with s_workerState := .STATE_TERMINATED } :=
        ⟨hs.entering, fun _ _ => rfl, fun _ => rfl⟩
      exact hended.of_update rfl rfl rfl (by simp) fun _ => rfl
    | asyncTask job =>
      simp only [enter, asyncTask]
      split <;> exact hs.of_update rfl rfl rfl (by simp) fun hp => hp.elim
  | callerUnlock hp =>
    exact hs.of_update rfl rfl rfl (released_not_locked hp)
      fun hq => hs.closing _ ((released_places hp).1 hq)
  | notifyOne hi hw => exact hs.of_update rfl rfl rfl (by simp) fun hp => hp.elim
  | notifyNone hi hw => exact hs.of_update rfl rfl rfl (by simp) fun hp => hp.elim
  | @drain i hi =>
    have hclosing := hs.closing i (by rw [hi]; trivial)
    rw [drain]
    split <;> exact hs.of_update rfl rfl rfl (by simp) fun _ => hclosing
  | @executed i t hi =>
    have hclosing := hs.closing i (by rw [hi]; trivial)
    exact hs.of_update rfl rfl rfl (by simp) fun _ => hclosing
  | @notifyAll i hi =>
    have hclosing := hs.closing i (by rw [hi]; trivial)
    have hnotified : Ends { s with
        workers := fun w => (s.workers w).notified, terminated := true } :=
      ⟨hs.entering, hs.closing, fun _ => hclosing⟩
    exact hnotified.of_update rfl rfl rfl (by simp) fun hp => hp.elim
  | @take w hw =>
    rw [takeTask]
    split
    · exact hs.of_eq rfl rfl rfl
    · split <;> exact hs.of_eq rfl rfl rfl
  | test | lock | wait | proceed | wake | relock | unlock | next | finish =>
    exact hs.of_eq rfl rfl rfl

theorem Awake.of_update {s u : State n α} (h : Awake s) {w : Fin n} {worker : Worker α}
    (hu : u.workers = Function.update s.workers w worker)
    (hw : worker.place ≠ .locking ∧ worker.place ≠ .locked ∧ worker.place ≠ .waiting) :
    Awake u := by
  intro v
  rw [hu]
  by_cases hv : v = w
  · subst hv
    simpa using hw
  · simpa [hv] using h v

theorem notified_of_ne {w : Worker α} (h : w.place ≠ .waiting) : w.notified = w := by
  obtain ⟨place, task⟩ := w
  cases place with
  | waiting => exact absurd rfl h
  | _ => rfl

theorem notified_awake {w : Worker α} (h : w.place ≠ .locking ∧ w.place ≠ .locked) :
    w.notified.place ≠ .locking ∧ w.notified.place ≠ .locked ∧ w.notified.place ≠ .waiting := by
  obtain ⟨place, task⟩ := w
  cases place <;> simp_all [Worker.notified]

/-- A worker that is told to end at its loop head never comes near the wait again. -/
theorem step_awake {s u : State n α} {e : Event n α}
    (hstate : s.s_workerState = .STATE_TERMINATED) (hs : Awake s) (h : step s e = some u) :
    Awake u := by
  cases step_effect h with
  | @test w hw =>
    rw [if_pos hstate]
    exact hs.of_update rfl (by simp)
  | @lock w hw hm => exact absurd hw (hs w).1
  | @wait w hw hq => exact absurd hw (hs w).2.1
  | @proceed w hw hq => exact absurd hw (hs w).2.1
  | @notifyOne i w hi hw => exact absurd hw (hs w).2.2
  | @wake w hw => exact absurd hw (hs w).2.2
  | relock hw hm => exact hs.of_update rfl (by simp)
  | unlock hw => exact hs.of_update rfl (by simp)
  | next hw =>
    refine hs.of_update rfl ?_
    split <;> simp
  | finish hw => exact hs.of_update rfl (by simp)
  | take hw =>
    rw [takeTask]
    split
    · exact hs.of_update rfl (by simp)
    · split <;> exact hs.of_update rfl (by simp)
  | @enter i call hi =>
    cases call with
    | stopWorkers | shutdownWorkers => exact hs
    | asyncTask job =>
      simp only [enter, asyncTask]
      split <;> exact hs
  | @drain i hi =>
    rw [drain]
    split <;> exact hs
  | @notifyAll i hi =>
    exact fun w => notified_awake ⟨(hs w).1, (hs w).2.1⟩
  | call | callerLock | callerUnlock | notifyNone | executed => exact hs

theorem awake_of_notifyAll {s t : State n α} {i : ℕ} (hs : NoneBetween s)
    (h : step s (.notifyAll i) = some t) : Awake t := by
  cases step_effect h with
  | notifyAll hi =>
    exact fun w => notified_awake (hs w)

theorem ends_start {s : State n α} (h : (machine n α).start s) : Ends s := by
  cases h
  constructor <;> simp [startWorkers, CallerPlace.Closing]

theorem step_terminated_cases {s u : State n α} {e : Event n α} (h : step s e = some u)
    (hu : u.terminated = true) : s.terminated = true ∨ ∃ i, e = .notifyAll i := by
  cases step_effect h with
  | @enter i call hi =>
    cases call with
    | stopWorkers | shutdownWorkers => exact .inl hu
    | asyncTask job =>
      simp only [enter, asyncTask] at hu
      split at hu <;> exact .inl hu
  | @drain i hi =>
    rw [drain] at hu
    split at hu <;> exact .inl hu
  | @take w hw =>
    rw [takeTask] at hu
    split at hu
    · exact .inl hu
    · split at hu <;> exact .inl hu
  | @notifyAll i hi => exact .inr ⟨i, rfl⟩
  | _ => exact .inl hu

/-- When no worker is on its way to the wait at the `notify_all`, nobody waits after it. -/
theorem no_sleeper {s : State n α} (h : (machine n α).ReachableBy Clear s) : ¬ Sleeper s := by
  have hinv : Ends s ∧ (s.terminated = true → Awake s) := by
    refine Machine.invariant_by (I := fun s => Ends s ∧ (s.terminated = true → Awake s)) ?_ ?_ h
    · intro s hs
      refine ⟨ends_start hs, fun ht => ?_⟩
      cases hs
      cases ht
    · intro s e u hs hok hstep
      refine ⟨step_ends hs.1 hok.1 hstep, fun hu => ?_⟩
      rcases step_terminated_cases hstep hu with ht | ⟨i, rfl⟩
      · exact step_awake (hs.1.terminated ht) (hs.2 ht) hstep
      · exact awake_of_notifyAll (hok.2 i rfl) hstep
  rintro ⟨ht, w, hw⟩
  exact (hinv.2 ht w).2.2 hw

def CallerPlace.InLock : CallerPlace α → Prop
  | .locked _ | .pushed _ | .closed | .draining | .executing _ | .drained => True
  | _ => False

def Place.InLock : Place → Prop
  | .locked | .resumed | .taken => True
  | _ => False

def InLock (s : State n α) : Thread n → Prop
  | .worker w => (s.workers w).place.InLock
  | .caller i => (s.callers i).InLock

/-- Whoever owns the mutex is inside a critical section. -/
def Mutexed (s : State n α) : Prop := ∀ t, s.s_taskMutex = some t → InLock s t

namespace Mutexed

variable {s u : State n α}

theorem released (hm : u.s_taskMutex = none) : Mutexed u := by
  intro t ht
  rw [hm] at ht
  cases ht

theorem acquired {t : Thread n} (hm : u.s_taskMutex = some t) (ht : InLock u t) : Mutexed u := by
  intro x hx
  rw [hm] at hx
  cases hx
  exact ht

theorem of_caller (h : Mutexed s) {i : ℕ} {p : CallerPlace α}
    (hc : u.callers = Function.update s.callers i p) (hm : u.s_taskMutex = s.s_taskMutex)
    (hw : ∀ w, (s.workers w).place.InLock → (u.workers w).place.InLock)
    (hp : (s.callers i).InLock → p.InLock) : Mutexed u := by
  intro t ht
  have hin := h t (hm ▸ ht)
  cases t with
  | worker w => exact hw w hin
  | caller j =>
    by_cases hj : j = i
    · subst hj
      simpa [InLock, hc] using hp hin
    · simpa [InLock, hc, hj] using hin

theorem of_worker (h : Mutexed s) {w : Fin n} {worker : Worker α}
    (hu : u.workers = Function.update s.workers w worker) (hm : u.s_taskMutex = s.s_taskMutex)
    (hc : u.callers = s.callers) (hw : (s.workers w).place.InLock → worker.place.InLock) :
    Mutexed u := by
  intro t ht
  have hin := h t (hm ▸ ht)
  cases t with
  | caller i => simpa [InLock, hc] using hin
  | worker v =>
    by_cases hv : v = w
    · subst hv
      simpa [InLock, hu] using hw hin
    · simpa [InLock, hu, hv] using hin

end Mutexed

theorem step_mutexed {s u : State n α} {e : Event n α} (hs : Mutexed s) (h : step s e = some u) :
    Mutexed u := by
  cases step_effect h with
  | @call i call hi =>
    exact hs.of_caller rfl rfl (fun _ hw => hw) (by simp [hi, CallerPlace.InLock])
  | @callerLock i call hi hm =>
    refine .acquired (t := .caller i) rfl ?_
    simp [InLock, State.setCaller, CallerPlace.InLock]
  | @enter i call hi =>
    cases call with
    | stopWorkers | shutdownWorkers => exact hs.of_caller rfl rfl (fun _ hw => hw) fun _ => trivial
    | asyncTask job =>
      simp only [enter, asyncTask]
      split <;> exact hs.of_caller rfl rfl (fun _ hw => hw) fun _ => trivial
  | callerUnlock hp => exact .released rfl
  | @notifyOne i w hi hw =>
    have hwoken : Mutexed (s.setPlace w .woken) :=
      hs.of_worker rfl rfl rfl (by simp [hw, Place.InLock])
    have hout : (s.setPlace w .woken).callers i = .signalling := hi
    exact hwoken.of_caller rfl rfl (fun _ hw => hw) (by simp [hout, CallerPlace.InLock])
  | notifyNone hi hw =>
    exact hs.of_caller rfl rfl (fun _ hw => hw) (by simp [hi, CallerPlace.InLock])
  | drain hi =>
    rw [drain]
    split <;> exact hs.of_caller rfl rfl (fun _ hw => hw) fun _ => trivial
  | executed hi => exact hs.of_caller rfl rfl (fun _ hw => hw) fun _ => trivial
  | notifyAll hi =>
    refine hs.of_caller rfl rfl (fun w hw => ?_) (by simp [hi, CallerPlace.InLock])
    change (s.workers w).notified.place.InLock
    revert hw
    obtain ⟨place, task⟩ := s.workers w
    cases place <;> exact id
  | test hw | next hw =>
    refine hs.of_worker rfl rfl rfl (by simp [hw, Place.InLock])
  | @lock w hw hm | @relock w hw hm =>
    refine .acquired (t := .worker w) rfl ?_
    simp [InLock, State.setPlace, State.setWorker, Place.InLock]
  | wait hw hq => exact .released rfl
  | proceed hw hq => exact hs.of_worker rfl rfl rfl fun _ => trivial
  | wake hw => exact hs.of_worker rfl rfl rfl (by simp [hw, Place.InLock])
  | take hw =>
    rw [takeTask]
    split
    · exact hs.of_worker rfl rfl rfl fun _ => trivial
    · split <;> exact hs.of_worker rfl rfl rfl fun _ => trivial
  | unlock hw => exact .released rfl
  | finish hw => exact hs.of_worker rfl rfl rfl (by simp [hw, Place.InLock])

theorem mutexed_start {s : State n α} (h : (machine n α).start s) : Mutexed s := by
  cases h
  exact .released rfl

def Leads (s u : State n α) : Prop :=
  ∃ es, (machine n α).AllSteps WithoutStop s es ∧ (machine n α).run s es = some u

theorem Leads.head {s t u : State n α} {e : Event n α} (h : step s e = some t)
    (hok : WithoutStop s e) (ht : Leads t u) : Leads s u := by
  obtain ⟨es, hall, hrun⟩ := ht
  refine ⟨e :: es, ?_, ?_⟩
  · exact (Machine.allSteps_cons (M := machine n α) h).mpr ⟨hok, hall⟩
  · exact Option.bind_eq_some_iff.mpr ⟨t, h, hrun⟩

/-- After the end a worker has tested the state and is about to lock. -/
structure Late (w : Fin n) (s : State n α) : Prop where
  queue : s.s_taskQueue = []
  ended : s.s_workerState ≠ .STATE_RUNNING
  terminated : s.terminated = true
  place : (s.workers w).place = .locking

def WillSleep (w : Fin n) (s : State n α) : Prop :=
  ∃ u, Leads s u ∧ u.terminated = true ∧ (u.workers w).place = .waiting

namespace WillSleep

variable {w : Fin n} {s t : State n α}

theorem head {e : Event n α} (h : Effect s e t) (hok : WithoutStop s e) (ht : WillSleep w t) :
    WillSleep w s := by
  obtain ⟨u, hleads, hu⟩ := ht
  exact ⟨u, hleads.head (effect_step h) hok, hu⟩

theorem locked (hq : s.s_taskQueue = []) (ht : s.terminated = true)
    (hw : (s.workers w).place = .locked) : WillSleep w s := by
  refine head (.wait hw hq) trivial ⟨_, ⟨[], trivial, rfl⟩, ht, ?_⟩
  simp [State.setPlace, State.setWorker]

theorem free (h : Late w s) (hm : s.s_taskMutex = none) : WillSleep w s := by
  refine head (.lock h.place hm) trivial ?_
  exact locked h.queue h.terminated (by simp [State.setPlace, State.setWorker])

theorem released (h : Late w s) {i : ℕ} {p : CallerPlace α}
    (hp : (s.callers i).released = some p) : WillSleep w s := by
  refine head (.callerUnlock hp) trivial ?_
  exact free ⟨h.queue, h.ended, h.terminated, h.place⟩ rfl

theorem draining (h : Late w s) {i : ℕ} (hi : s.callers i = .draining) : WillSleep w s := by
  refine head (.drain hi) trivial ?_
  have hdrain : drain s i = s.setCaller i .drained := by rw [drain, h.queue]
  rw [hdrain]
  exact released (i := i) (p := .notifying) ⟨h.queue, h.ended, h.terminated, h.place⟩
    (by simp [State.setCaller, CallerPlace.released])

theorem caller (h : Late w s) {i : ℕ} (hi : (s.callers i).InLock)
    (hstop : s.callers i ≠ .locked .stopWorkers) : WillSleep w s := by
  cases hplace : s.callers i with
  | locked call =>
    refine head (.enter hplace) trivial ?_
    cases call with
    | stopWorkers => exact absurd hplace hstop
    | shutdownWorkers =>
      refine draining (i := i) ⟨h.queue, by simp [enter, State.setCaller], h.terminated, h.place⟩ ?_
      simp [enter, State.setCaller]
    | asyncTask job =>
      rw [enter, asyncTask, if_pos h.ended]
      exact released (i := i) (p := .outside) ⟨h.queue, h.ended, h.terminated, h.place⟩
        (by simp [State.setCaller, CallerPlace.released])
  | pushed signal =>
    cases signal with
    | true => exact released (p := .signalling) h (by rw [hplace]; rfl)
    | false => exact released (p := .outside) h (by rw [hplace]; rfl)
  | closed => exact released (p := .outside) h (by rw [hplace]; rfl)
  | drained => exact released (p := .notifying) h (by rw [hplace]; rfl)
  | draining => exact draining h hplace
  | executing t =>
    refine head (.executed hplace) trivial ?_
    exact draining (i := i) ⟨h.queue, h.ended, h.terminated, h.place⟩ (by simp [State.setCaller])
  | outside | entering | signalling | notifying =>
    rw [hplace] at hi
    exact hi.elim

theorem setPlace (h : Late w s) {v : Fin n} (hv : v ≠ w) (p : Place) : Late w (s.setPlace v p) := by
  refine ⟨h.queue, h.ended, h.terminated, ?_⟩
  simpa [State.setPlace, State.setWorker, hv.symm] using h.place

theorem taken (h : Late w s) {v : Fin n} (hv : v ≠ w) (hplace : (s.workers v).place = .taken) :
    WillSleep w s := by
  refine head (.unlock hplace) trivial ?_
  have hlate : Late w { s with s_taskMutex := none } :=
    ⟨h.queue, h.ended, h.terminated, h.place⟩
  exact free (setPlace hlate hv .unlocked) rfl

theorem worker (h : Late w s) {v : Fin n} (hin : (s.workers v).place.InLock) : WillSleep w s := by
  have hv : v ≠ w := by
    rintro rfl
    rw [h.place] at hin
    exact hin
  cases hplace : (s.workers v).place with
  | locked =>
    refine head (.wait hplace h.queue) trivial ?_
    have hlate : Late w { s with s_taskMutex := none } :=
      ⟨h.queue, h.ended, h.terminated, h.place⟩
    exact free (setPlace hlate hv .waiting) rfl
  | resumed =>
    refine head (.take hplace) trivial ?_
    have htake : takeTask s v = s.setPlace v .taken := by rw [takeTask, h.queue]
    rw [htake]
    exact taken (setPlace h hv .taken) hv (by simp [State.setPlace, State.setWorker])
  | taken => exact taken h hv hplace
  | loop | locking | waiting | woken | unlocked | running | exited =>
    rw [hplace] at hin
    exact hin.elim

theorem late (h : Late w s) (hm : Mutexed s) (hs : Ends s) : WillSleep w s := by
  cases hmutex : s.s_taskMutex with
  | none => exact free h hmutex
  | some t =>
    have hin := hm t hmutex
    cases t with
    | worker v => exact worker h hin
    | caller i => exact caller h hin (hs.entering i).2

end WillSleep

theorem run_awake {s u : State n α} {es : List (Event n α)} (hs : Ends s)
    (ht : s.terminated = true) (ha : Awake s) (hall : (machine n α).AllSteps WithoutStop s es)
    (h : (machine n α).run s es = some u) : Awake u := by
  induction es generalizing s with
  | nil =>
    cases h
    exact ha
  | cons e es ih =>
    obtain ⟨v, hv, h⟩ := Machine.run_cons h
    exact ih (step_ends hs hall.1 hv) (step_terminated hv ht)
      (step_awake (hs.terminated ht) ha hv) (hall.2 v hv) h

/-- A `notify_all` leaves no way to a sleeper exactly when no worker is on its way to the wait. -/
theorem no_sleeper_after_iff {s t : State n α} {i : ℕ}
    (hs : (machine n α).ReachableBy WithoutStop s) (h : step s (.notifyAll i) = some t) :
    (∀ es u, (machine n α).AllSteps WithoutStop t es → (machine n α).run t es = some u →
      ¬ Sleeper u) ↔ NoneBetween s := by
  have hends : Ends s := Machine.invariant_by (fun _ => ends_start) (fun _ _ _ => step_ends) hs
  have hmutexed : Mutexed s :=
    Machine.invariant (fun _ => mutexed_start) (fun _ _ _ => step_mutexed) hs.reachable
  have hsound := step_sound (reachable_sound hs.reachable) h
  have ht : t.terminated = true := by
    cases step_effect h with
    | notifyAll hi => rfl
  have hendst : Ends t := step_ends (e := .notifyAll i) hends trivial h
  constructor
  · intro hnone w
    have hawake : ¬ WillSleep w t := by
      rintro ⟨u, ⟨es, hall, hrun⟩, hu⟩
      exact hnone es u hall hrun ⟨hu.1, w, hu.2⟩
    have hplace : ∀ p, p ≠ Place.waiting → (s.workers w).place = p → (t.workers w).place = p := by
      intro p hp hw
      cases step_effect h with
      | notifyAll hi =>
        change (s.workers w).notified.place = p
        rw [notified_of_ne (hw ▸ hp), hw]
    refine ⟨fun hw => hawake ?_, fun hw => hawake ?_⟩
    · have hlate : Late w t := ⟨(hsound.terminated ht).2, (hsound.terminated ht).1, ht,
        hplace _ (by simp) hw⟩
      exact .late hlate (step_mutexed hmutexed h) hendst
    · exact .locked (hsound.terminated ht).2 ht (hplace _ (by simp) hw)
  · rintro hnone es u hall hrun ⟨-, w, hw⟩
    exact (run_awake hendst ht (awake_of_notifyAll hnone h) hall hrun w).2.2 hw

def sleeperTrace (w : Fin 2) : List (Event 2 ℕ) :=
  [.test w, .call 0 .shutdownWorkers, .callerLock 0, .enter 0, .drain 0, .callerUnlock 0,
    .notifyAll 0, .lock w, .check w]

theorem worker_sleeps : ¬ ∀ s, (machine 2 ℕ).ReachableBy WithoutStop s → ¬ Sleeper s := by
  intro h
  have hrun : ∃ s, (machine 2 ℕ).run (startWorkers 2 ℕ) (sleeperTrace 0) = some s ∧
      (s.terminated = true ∧ (s.workers 0).place = .waiting) :=
    Machine.exists_run (by decide +kernel)
  have hall : (machine 2 ℕ).AllSteps WithoutStop (startWorkers 2 ℕ) (sleeperTrace 0) := by
    decide +kernel
  obtain ⟨s, hs, hterminated, hwaiting⟩ := hrun
  exact h s (Machine.run_reachable_by (.start rfl) hall hs) ⟨hterminated, 0, hwaiting⟩

/-- Worker `w` waits when it is notified, worker `v` comes to its loop head later. -/
def clearTrace (w v : Fin 2) : List (Event 2 ℕ) :=
  [.test w, .lock w, .check w, .call 0 .shutdownWorkers, .callerLock 0, .enter 0, .drain 0,
    .callerUnlock 0, .notifyAll 0, .relock w, .test v, .take w, .unlock w, .next w, .test w]

theorem clear_trace_no_sleeper : ∃ s,
    (machine 2 ℕ).run (startWorkers 2 ℕ) (clearTrace 0 1) = some s ∧ s.terminated = true ∧
      (∀ w, (s.workers w).place = .exited) ∧ ¬ Sleeper s := by
  have hrun : ∃ s, (machine 2 ℕ).run (startWorkers 2 ℕ) (clearTrace 0 1) = some s ∧
      (s.terminated = true ∧ ∀ w, (s.workers w).place = .exited) :=
    Machine.exists_run (by decide +kernel)
  have hall : (machine 2 ℕ).AllSteps Clear (startWorkers 2 ℕ) (clearTrace 0 1) := by
    decide +kernel
  obtain ⟨s, hs, hterminated, hexited⟩ := hrun
  exact ⟨s, hs, hterminated, hexited, no_sleeper (Machine.run_reachable_by (.start rfl) hall hs)⟩

end LoginServer.Workers
