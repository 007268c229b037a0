import LoginServer.Workers

/-! # Every accepted task runs once

The queue, the tasks in the hands of workers and of the drain, and the executed tasks are a pool of
owned items, and every step of the threads moves at most one of them. A worker may keep its
variable `task` over several rounds: it is empty wherever a task is taken. -/
namespace LoginServer.Workers

open Runs Ownership

variable {n : ℕ} {α : Type*}

def CallerPlace.task : CallerPlace α → Option (Task α)
  | .executing t => some t
  | _ => none

def holds (s : State n α) : Thread n → Option (Task α)
  | .worker w => (s.workers w).task
  | .caller i => (s.callers i).task

def pool (s : State n α) : Pool (Thread n) (Task α) :=
  ⟨s.s_taskQueue, holds s, s.executed, s.accepted⟩

def Worker.Sound (w : Worker α) : Prop :=
  match w.place with
  | .taken | .unlocked => True
  | .running => w.task ≠ none
  | _ => w.task = none

def CallerPlace.Closing : CallerPlace α → Prop
  | .draining | .executing _ | .drained | .notifying => True
  | _ => False

def CallerPlace.Emptied : CallerPlace α → Prop
  | .drained | .notifying => True
  | _ => False

structure Sound (s : State n α) : Prop where
  tasks : ∀ w, (s.workers w).Sound
  serials : ∀ t ∈ s.accepted, t.serial < s.accepted.length
  closing : ∀ i, (s.callers i).Closing → s.s_workerState ≠ .STATE_RUNNING
  emptied : ∀ i, (s.callers i).Emptied → s.s_taskQueue = []
  terminated : s.terminated = true → s.s_workerState ≠ .STATE_RUNNING ∧ s.s_taskQueue = []

theorem Worker.Sound.notified {w : Worker α} (h : w.Sound) : w.notified.Sound := by
  obtain ⟨place, task⟩ := w
  cases place <;> exact h

theorem CallerPlace.Emptied.closing {p : CallerPlace α} (h : p.Emptied) : p.Closing := by
  cases p <;> trivial

theorem pool_update_caller (s : State n α) (i : ℕ) (p : CallerPlace α) :
    pool (s.setCaller i p) =
      { pool s with holds := Function.update (holds s) (.caller i) p.task } := by
  refine congrArg (Pool.mk _ · _ _) (funext fun t => ?_)
  cases t with
  | worker w => rfl
  | caller j =>
    by_cases hj : j = i
    · subst hj
      simp [holds, State.setCaller]
    · simp [holds, State.setCaller, hj]

theorem pool_update_worker (s : State n α) (w : Fin n) (worker : Worker α) :
    pool (s.setWorker w worker) =
      { pool s with holds := Function.update (holds s) (.worker w) worker.task } := by
  refine congrArg (Pool.mk _ · _ _) (funext fun t => ?_)
  cases t with
  | caller i => rfl
  | worker v =>
    by_cases hv : v = w
    · subst hv
      simp [holds, State.setWorker]
    · simp [holds, State.setWorker, hv]

theorem pool_setCaller {s : State n α} {i : ℕ} {p : CallerPlace α}
    (h : p.task = (s.callers i).task) : pool (s.setCaller i p) = pool s := by
  have hsame : p.task = holds s (.caller i) := h
  rw [pool_update_caller, hsame, Function.update_eq_self]
  rfl

theorem pool_setPlace (s : State n α) (w : Fin n) (p : Place) : pool (s.setPlace w p) = pool s := by
  have hsame : (s.workers w).task = holds s (.worker w) := rfl
  rw [State.setPlace, pool_update_worker, hsame, Function.update_eq_self]
  rfl

theorem released_task {p q : CallerPlace α} (h : p.released = some q) : q.task = p.task := by
  cases p with
  | pushed signal => cases signal <;> cases h <;> rfl
  | closed | drained => cases h; rfl
  | _ => cases h

theorem moved_of_eq {p q : Pool (Thread n) (Task α)} (h : q = p) : Pool.Moved p q := h ▸ .same

theorem enter_moved {s : State n α} (hs : Sound s) {i : ℕ} {call : Call α}
    (hi : s.callers i = .locked call) : Pool.Moved (pool s) (pool (enter s i call)) := by
  cases call with
  | stopWorkers | shutdownWorkers =>
    exact moved_of_eq (pool_setCaller (by simp [hi, CallerPlace.task]))
  | asyncTask job =>
    simp only [enter, asyncTask]
    split
    · exact moved_of_eq (pool_setCaller (by simp [hi, CallerPlace.task]))
    · rw [pool_setCaller (by simp [hi, CallerPlace.task])]
      refine Pool.Moved.accept (p := pool s) fun ht => ?_
      exact absurd (hs.serials _ ht) (Nat.lt_irrefl _)

theorem drain_moved {s : State n α} {i : ℕ} (hi : s.callers i = .draining) :
    Pool.Moved (pool s) (pool (drain s i)) := by
  rw [drain]
  split
  · exact moved_of_eq (pool_setCaller (by simp [hi, CallerPlace.task]))
  · rename_i t rest hq
    have hn : (pool s).holds (.caller i) = none := by simp [pool, holds, hi, CallerPlace.task]
    rw [pool_update_caller]
    exact Pool.Moved.take (p := pool s) hq hn

theorem takeTask_moved {s : State n α} (hs : Sound s) {w : Fin n}
    (hw : (s.workers w).place = .resumed) : Pool.Moved (pool s) (pool (takeTask s w)) := by
  have hn : (pool s).holds (.worker w) = none := by
    have hsound := hs.tasks w
    rwa [Worker.Sound, hw] at hsound
  rw [takeTask]
  split
  · exact moved_of_eq (pool_setPlace ..)
  · rename_i t rest hq
    split
    · rw [pool_update_worker]
      exact Pool.Moved.take (p := pool s) hq hn
    · exact moved_of_eq (pool_setPlace ..)

/-- Every step moves at most one task, as the pool allows. -/
theorem step_moved {s u : State n α} {e : Event n α} (hs : Sound s) (h : step s e = some u) :
    Pool.Moved (pool s) (pool u) := by
  cases step_effect h with
  | enter hi => exact enter_moved hs hi
  | drain hi => exact drain_moved hi
  | take hw => exact takeTask_moved hs hw
  | @executed i t hi =>
    have ht : (pool s).holds (.caller i) = some t := by simp [pool, holds, hi, CallerPlace.task]
    rw [pool_update_caller]
    exact Pool.Moved.finish (p := pool s) ht
  | @finish w t hw =>
    have ht : (pool s).holds (.worker w) = some t := by simp [pool, holds, hw]
    rw [pool_update_worker]
    exact Pool.Moved.finish (p := pool s) ht
  | call call hi => exact moved_of_eq (pool_setCaller (by simp [hi, CallerPlace.task]))
  | callerLock hi hm => exact moved_of_eq (pool_setCaller (by simp [hi, CallerPlace.task]))
  | callerUnlock hp => exact moved_of_eq (pool_setCaller (released_task hp))
  | @notifyOne i w hi hw =>
    have hc : (s.setPlace w .woken).callers i = .signalling := hi
    exact moved_of_eq ((pool_setCaller (by simp [hc, CallerPlace.task])).trans (pool_setPlace ..))
  | notifyNone hi hw => exact moved_of_eq (pool_setCaller (by simp [hi, CallerPlace.task]))
  | @notifyAll i hi =>
    refine moved_of_eq ((pool_setCaller (by simp [hi, CallerPlace.task])).trans ?_)
    exact congrArg (Pool.mk _ · _ _) (funext fun t => by cases t <;> rfl)
  | test | lock | wait | proceed | wake | relock | unlock | next =>
    exact moved_of_eq (pool_setPlace ..)

namespace Sound

variable {s : State n α} (h : Sound s)
include h

theorem setWorker (w : Fin n) {worker : Worker α} (hw : worker.Sound) :
    Sound (s.setWorker w worker) := by
  refine ⟨fun v => ?_, h.serials, h.closing, h.emptied, h.terminated⟩
  by_cases hv : v = w
  · subst hv
    simpa [State.setWorker] using hw
  · simpa [State.setWorker, hv] using h.tasks v

theorem setCaller (i : ℕ) {p : CallerPlace α}
    (hclosing : p.Closing → s.s_workerState ≠ .STATE_RUNNING)
    (hemptied : p.Emptied → s.s_taskQueue = []) : Sound (s.setCaller i p) := by
  refine ⟨h.tasks, h.serials, fun j hj => ?_, fun j hj => ?_, h.terminated⟩
  · by_cases hji : j = i
    · subst hji
      exact hclosing (by simpa [State.setCaller] using hj)
    · exact h.closing j (by simpa [State.setCaller, hji] using hj)
  · by_cases hji : j = i
    · subst hji
      exact hemptied (by simpa [State.setCaller] using hj)
    · exact h.emptied j (by simpa [State.setCaller, hji] using hj)

theorem mutex (m : Option (Thread n)) : Sound { s with s_taskMutex := m } :=
  ⟨h.tasks, h.serials, h.closing, h.emptied, h.terminated⟩

theorem executed (l : List (Task α)) : Sound { s with executed := l } :=
  ⟨h.tasks, h.serials, h.closing, h.emptied, h.terminated⟩

theorem ended {state : Scheduler.ThreadState} (hstate : state ≠ .STATE_RUNNING) :
    Sound { s with s_workerState := state } :=
  ⟨h.tasks, h.serials, fun _ _ => hstate, h.emptied, fun ht => ⟨hstate, (h.terminated ht).2⟩⟩

theorem shorten {t : Task α} {rest : List (Task α)} (hq : s.s_taskQueue = t :: rest) :
    Sound { s with s_taskQueue := rest } := by
  refine ⟨h.tasks, h.serials, h.closing, fun i hi => ?_, fun ht => ?_⟩
  · have := h.emptied i hi
    simp [hq] at this
  · have := (h.terminated ht).2
    simp [hq] at this

theorem accept {job : Job α} (hrunning : s.s_workerState = .STATE_RUNNING) :
    Sound { s with
      s_taskQueue := s.s_taskQueue ++ [⟨s.accepted.length, job⟩]
      accepted := s.accepted ++ [⟨s.accepted.length, job⟩] } := by
  refine ⟨h.tasks, fun t ht => ?_, h.closing, fun i hi => ?_, fun ht => ?_⟩
  · rw [List.length_append, List.length_singleton]
    rcases List.mem_append.mp ht with ht | ht
    · exact Nat.lt_succ_of_lt (h.serials t ht)
    · rw [List.mem_singleton.mp ht]
      exact Nat.lt_succ_self _
  · exact absurd hrunning (h.closing i hi.closing)
  · exact absurd hrunning (h.terminated ht).1

theorem enter (i : ℕ) (call : Call α) : Sound (enter s i call) := by
  cases call with
  | stopWorkers => exact (h.ended (by decide)).setCaller i (fun hp => hp.elim) fun hp => hp.elim
  | shutdownWorkers =>
    exact (h.ended (by decide)).setCaller i (fun _ => by simp) fun hp => hp.elim
  | asyncTask job =>
    simp only [Workers.enter, asyncTask]
    split
    · exact h.setCaller i (fun hp => hp.elim) fun hp => hp.elim
    · rename_i hrunning
      exact (h.accept (not_not.mp hrunning)).setCaller i (fun hp => hp.elim) fun hp => hp.elim

theorem drain {i : ℕ} (hi : s.callers i = .draining) : Sound (drain s i) := by
  have hclosing : s.s_workerState ≠ .STATE_RUNNING := h.closing i (by rw [hi]; trivial)
  rw [Workers.drain]
  split
  · rename_i hq
    exact h.setCaller i (fun _ => hclosing) fun _ => hq
  · rename_i hq
    exact (h.shorten hq).setCaller i (fun _ => hclosing) fun hp => hp.elim

theorem takeTask (w : Fin n) : Sound (takeTask s w) := by
  rw [Workers.takeTask]
  split
  · exact h.setWorker w trivial
  · rename_i hq
    split
    · exact (h.shorten hq).setWorker w trivial
    · exact h.setWorker w trivial

theorem setPlace {w : Fin n} {p : Place} (hp : (⟨p, (s.workers w).task⟩ : Worker α).Sound) :
    Sound (s.setPlace w p) := h.setWorker w hp

theorem task_eq_none {w : Fin n} {p : Place} (hw : (s.workers w).place = p)
    (hp : p ≠ .taken ∧ p ≠ .unlocked ∧ p ≠ .running) : (s.workers w).task = none := by
  have hsound := h.tasks w
  rw [Worker.Sound, hw] at hsound
  cases p <;> simp_all

end Sound

theorem released_places {p q : CallerPlace α} (h : p.released = some q) :
    (q.Closing → p.Closing) ∧ (q.Emptied → p.Emptied) := by
  cases p with
  | pushed signal => cases signal <;> cases h <;> exact ⟨id, id⟩
  | closed | drained => cases h; exact ⟨id, id⟩
  | _ => cases h

theorem step_sound {s u : State n α} {e : Event n α} (hs : Sound s) (h : step s e = some u) :
    Sound u := by
  cases step_effect h with
  | call call hi => exact hs.setCaller _ (fun hp => hp.elim) fun hp => hp.elim
  | callerLock hi hm => exact (hs.mutex _).setCaller _ (fun hp => hp.elim) fun hp => hp.elim
  | enter hi => exact hs.enter _ _
  | callerUnlock hp =>
    have hplaces := released_places hp
    exact (hs.mutex _).setCaller _ (fun hq => hs.closing _ (hplaces.1 hq))
      fun hq => hs.emptied _ (hplaces.2 hq)
  | notifyOne hi hw =>
    have hnone := hs.task_eq_none hw (by decide)
    exact (hs.setPlace (p := .woken) hnone).setCaller _ (fun hp => hp.elim) fun hp => hp.elim
  | notifyNone hi hw => exact hs.setCaller _ (fun hp => hp.elim) fun hp => hp.elim
  | drain hi => exact hs.drain hi
  | executed hi =>
    have hclosing := hs.closing _ (by rw [hi]; trivial)
    exact (hs.executed _).setCaller _ (fun _ => hclosing) fun hp => hp.elim
  | @notifyAll i hi =>
    have hempty := hs.emptied i (by rw [hi]; trivial)
    have hclosing := hs.closing i (by rw [hi]; trivial)
    have hnotified : Sound { s with
        workers := fun w => (s.workers w).notified, terminated := true } := by
      refine ⟨fun w => ?_, hs.serials, hs.closing, hs.emptied, fun _ => ⟨hclosing, hempty⟩⟩
      exact (hs.tasks w).notified
    exact hnotified.setCaller i (fun hp => hp.elim) fun hp => hp.elim
  | @test w hw =>
    have hnone := hs.task_eq_none hw (by decide)
    refine hs.setPlace ?_
    split <;> exact hnone
  | lock hw hm => exact (hs.mutex _).setPlace (p := .locked) (hs.task_eq_none hw (by decide))
  | wait hw hq => exact (hs.mutex _).setPlace (p := .waiting) (hs.task_eq_none hw (by decide))
  | proceed hw hq => exact hs.setPlace (p := .resumed) (hs.task_eq_none hw (by decide))
  | wake hw => exact hs.setPlace (p := .woken) (hs.task_eq_none hw (by decide))
  | relock hw hm => exact (hs.mutex _).setPlace (p := .resumed) (hs.task_eq_none hw (by decide))
  | take hw => exact hs.takeTask _
  | unlock hw => exact (hs.mutex _).setPlace (p := .unlocked) trivial
  | @next w hw =>
    refine hs.setPlace ?_
    cases htask : (s.workers w).task with
    | none => exact rfl
    | some t => exact Option.some_ne_none t
  | finish hw => exact (hs.executed _).setWorker _ rfl

theorem sound_start {s : State n α} (h : (machine n α).start s) : Sound s := by
  cases h
  refine ⟨fun _ => rfl, ?_, ?_, ?_, ?_⟩ <;>
    simp [startWorkers, CallerPlace.Closing, CallerPlace.Emptied]

theorem reachable_sound {s : State n α} (h : (machine n α).Reachable s) : Sound s :=
  Machine.invariant (fun _ => sound_start) (fun _ _ _ => step_sound) h

theorem reachable_owned {s : State n α} (h : (machine n α).Reachable s) : (pool s).Owned := by
  have hboth : Sound s ∧ (pool s).Owned := by
    refine Machine.invariant (I := fun s => Sound s ∧ (pool s).Owned) ?_ ?_ h
    · intro s hs
      refine ⟨sound_start hs, ?_⟩
      cases hs
      exact Pool.owned_empty rfl rfl rfl fun t => by cases t <;> rfl
    · intro s e u hs hstep
      exact ⟨step_sound hs.1 hstep, (step_moved hs.1 hstep).owned hs.2⟩
  exact hboth.2

theorem step_ended {s u : State n α} {e : Event n α} (h : step s e = some u)
    (hs : s.s_workerState ≠ .STATE_RUNNING) :
    u.s_workerState ≠ .STATE_RUNNING ∧ u.accepted = s.accepted := by
  cases step_effect h with
  | @enter i call hi =>
    cases call with
    | stopWorkers | shutdownWorkers => exact ⟨by simp [enter, State.setCaller], rfl⟩
    | asyncTask job =>
      rw [enter, asyncTask, if_pos hs]
      exact ⟨hs, rfl⟩
  | @drain i hi =>
    rw [drain]
    split <;> exact ⟨hs, rfl⟩
  | @take w hw =>
    rw [takeTask]
    split
    · exact ⟨hs, rfl⟩
    · split <;> exact ⟨hs, rfl⟩
  | _ => exact ⟨hs, rfl⟩

theorem run_ended {s u : State n α} {es : List (Event n α)} (h : (machine n α).run s es = some u)
    (hs : s.s_workerState ≠ .STATE_RUNNING) : u.accepted = s.accepted := by
  have hboth : u.s_workerState ≠ .STATE_RUNNING ∧ u.accepted = s.accepted := by
    refine Machine.run_stable
      (P := fun u => u.s_workerState ≠ .STATE_RUNNING ∧ u.accepted = s.accepted) ?_ h ⟨hs, rfl⟩
    intro v e t hv hstep
    obtain ⟨hstate, haccepted⟩ := step_ended hstep hv.1
    exact ⟨hstate, haccepted.trans hv.2⟩
  exact hboth.2

theorem step_terminated {s u : State n α} {e : Event n α} (h : step s e = some u)
    (hs : s.terminated = true) : u.terminated = true := by
  cases step_effect h with
  | @enter i call hi =>
    cases call with
    | stopWorkers | shutdownWorkers => exact hs
    | asyncTask job =>
      rw [enter, asyncTask]
      split <;> exact hs
  | @drain i hi =>
    rw [drain]
    split <;> exact hs
  | @take w hw =>
    rw [takeTask]
    split
    · exact hs
    · split <;> exact hs
  | notifyAll hi => rfl
  | _ => exact hs

/-- In every reachable state each accepted task is in the queue, in the hands of one thread, or
executed once; nothing is accepted after the running state; and the queue stays empty when
`shutdownWorkers` has returned. -/
theorem tasks_run_once {s : State n α} (h : (machine n α).Reachable s) :
    (pool s).Once ∧
    (s.s_workerState ≠ .STATE_RUNNING →
      ∀ es u, (machine n α).run s es = some u → u.accepted = s.accepted) ∧
    (s.terminated = true → ∀ es u, (machine n α).run s es = some u → u.s_taskQueue = []) := by
  refine ⟨(reachable_owned h).once, fun hs es u hrun => run_ended hrun hs, fun hs es u hrun => ?_⟩
  have hterminated : u.terminated = true :=
    Machine.run_stable (P := fun u => u.terminated = true)
      (fun _ _ _ ht hstep => step_terminated hstep ht) hrun hs
  exact ((reachable_sound (Machine.run_reachable h hrun)).terminated hterminated).2

def drainTrace (w : Fin 2) : List (Event 2 ℕ) :=
  [.test w, .lock w, .check w,
    .call 0 (.asyncTask (.callback 7)), .callerLock 0, .enter 0, .callerUnlock 0,
    .notifyOne 0 (some w), .relock w, .take w, .unlock w, .next w,
    .call 0 (asyncQuery "UPDATE"), .callerLock 0, .enter 0, .callerUnlock 0, .notifyOne 0 none,
    .call 1 .shutdownWorkers, .callerLock 1, .enter 1, .drain 1, .executed 1, .drain 1,
    .call 0 (.asyncTask (.callback 8)), .callerUnlock 1, .notifyAll 1, .finish w, .callerLock 0,
    .enter 0]

theorem drain_trace_runs_once : ∃ s, (machine 2 ℕ).run (startWorkers 2 ℕ) (drainTrace 0) = some s ∧
    s.executed = [⟨1, .query "UPDATE"⟩, ⟨0, .callback 7⟩] ∧ (pool s).Once ∧
    ∀ es u, (machine 2 ℕ).run s es = some u → u.accepted = s.accepted ∧ u.s_taskQueue = [] := by
  have hrun : ∃ s, (machine 2 ℕ).run (startWorkers 2 ℕ) (drainTrace 0) = some s ∧
      (s.executed = [⟨1, .query "UPDATE"⟩, ⟨0, .callback 7⟩] ∧
        s.s_workerState ≠ .STATE_RUNNING ∧ s.terminated = true) :=
    Machine.exists_run (by decide +kernel)
  obtain ⟨s, hs, hexecuted, hstate, hterminated⟩ := hrun
  obtain ⟨honce, haccepted, hqueue⟩ := tasks_run_once (Machine.run_reachable (.start rfl) hs)
  exact ⟨s, hs, hexecuted, honce, fun es u hu =>
    ⟨haccepted hstate es u hu, hqueue hterminated es u hu⟩⟩

end LoginServer.Workers
