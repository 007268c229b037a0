import LoginServer.SchedulerOwners
import LoginServer.DispatcherQueue

/-! # The scheduler feeding the dispatcher

Both machines side by side. The scheduler thread is caller 0 of `Dispatcher::addTask`: it enters
the call with `front = true` when it hands an event over and does nothing else until the call
has returned. All other callers add tasks of their own at either end. -/
namespace LoginServer.Feed

open Runs Lines
open Scheduler (SchedulerTask)
open scoped List

/-- What a task of the dispatcher runs: the callback of an event, or anything else. -/
inductive Callback where
  | event (t : SchedulerTask)
  | other
  deriving DecidableEq

def Callback.task : Callback → Option SchedulerTask
  | .event t => some t
  | .other => none

abbrev Dispatch := Dispatcher.State Callback

structure State where
  scheduler : Scheduler.State
  dispatcher : Dispatch

inductive Event where
  | scheduler (e : Scheduler.Event)
  | dispatcher (e : Dispatcher.Event Callback)
  deriving DecidableEq

def ofThread : Scheduler.Event → Bool
  | .test | .lock | .wait _ | .wake _ | .relock | .pop _ | .popEmpty | .skip | .unlock
  | .finish => true
  | _ => false

def handedOver (s : Scheduler.State) (e : Scheduler.Event) : Option SchedulerTask :=
  match e, s.thread with
  | .finish, .unlocked (some (t, true)) => some t
  | _, _ => none

/-- `addTask(task, true)` after `unsetExpiration`. -/
def handOver (t : SchedulerTask) : Dispatcher.Event Callback := .call 0 true none (.event t)

/-- The other callers do not make events, and the two threads read one clock. -/
def Permitted (s : State) : Dispatcher.Event Callback → Prop
  | .call i _ _ callback => i ≠ 0 ∧ callback = .other
  | .next now => now = s.scheduler.now
  | _ => True

instance (s : State) (e : Dispatcher.Event Callback) : Decidable (Permitted s e) := by
  cases e <;> simp only [Permitted] <;> infer_instance

def step (s : State) : Event → Option State
  | .scheduler e =>
    if ofThread e = true ∧ s.dispatcher.callers 0 ≠ .outside then none
    else (Scheduler.step s.scheduler e).bind fun u =>
      match handedOver s.scheduler e with
      | some t => (Dispatcher.step s.dispatcher (handOver t)).map fun d => ⟨u, d⟩
      | none => some ⟨u, s.dispatcher⟩
  | .dispatcher e =>
    if Permitted s e then (Dispatcher.step s.dispatcher e).map fun d => ⟨s.scheduler, d⟩ else none

def machine : Machine State Event where
  start s := ∃ now, s = ⟨Scheduler.initial now, Dispatcher.initial⟩
  step := step

inductive Effect (s : State) : Event → State → Prop where
  | scheduler {e u} : (ofThread e = true → s.dispatcher.callers 0 = .outside) →
      handedOver s.scheduler e = none → Scheduler.step s.scheduler e = some u →
      Effect s (.scheduler e) ⟨u, s.dispatcher⟩
  | handOver {t d} : s.scheduler.thread = .unlocked (some (t, true)) →
      s.dispatcher.callers 0 = .outside → Dispatcher.step s.dispatcher (handOver t) = some d →
      Effect s (.scheduler .finish) ⟨Scheduler.finishLoop s.scheduler (some (t, true)), d⟩
  | dispatcher {e d} : Permitted s e → Dispatcher.step s.dispatcher e = some d →
      Effect s (.dispatcher e) ⟨s.scheduler, d⟩

theorem handedOver_some {s : Scheduler.State} {e : Scheduler.Event} {t : SchedulerTask}
    (h : handedOver s e = some t) : e = .finish ∧ s.thread = .unlocked (some (t, true)) := by
  unfold handedOver at h
  split at h
  · rename_i ht
    cases h
    exact ⟨rfl, ht⟩
  · cases h

theorem step_effect {s u : State} {e : Event} (h : step s e = some u) : Effect s e u := by
  cases e with
  | scheduler e =>
    simp only [step] at h
    split at h
    · cases h
    · rename_i hbusy
      have hfree : ofThread e = true → s.dispatcher.callers 0 = .outside := by
        intro ht
        by_contra hne
        exact hbusy ⟨ht, hne⟩
      obtain ⟨v, hv, h⟩ := Option.bind_eq_some_iff.mp h
      cases hh : handedOver s.scheduler e with
      | none =>
        simp only [hh, Option.some.injEq] at h
        subst h
        exact .scheduler hfree hh hv
      | some t =>
        obtain ⟨rfl, ht⟩ := handedOver_some hh
        simp only [hh, Option.map_eq_some_iff] at h
        obtain ⟨d, hd, rfl⟩ := h
        have hv' : Scheduler.finishLoop s.scheduler (some (t, true)) = v := by
          simpa [Scheduler.step, ht] using hv
        subst hv'
        exact .handOver ht (hfree rfl) hd
  | dispatcher e =>
    simp only [step] at h
    split at h
    · rename_i hp
      obtain ⟨d, hd, rfl⟩ := Option.map_eq_some_iff.mp h
      exact .dispatcher hp hd
    · cases h

def fed (d : Dispatch) : Option SchedulerTask := (d.callers 0).task.bind (·.m_callback.task)

def eventOf (t : Dispatcher.Task Callback) : Option SchedulerTask := t.m_callback.task

def eventLine (d : Dispatch) : Line SchedulerTask :=
  ⟨(Dispatcher.removed d).filterMap eventOf, d.m_taskList.filterMap eventOf⟩

def executedEvents (d : Dispatch) : List SchedulerTask :=
  (Dispatcher.executed d).filterMap eventOf

def pendingEvent (d : Dispatch) : Option SchedulerTask :=
  match d.thread with
  | .taken (some t) | .unlocked (some t) => eventOf t
  | _ => none

/-- The task of an event has no expiration any more. -/
def Timeless (t : Dispatcher.Task Callback) : Prop := eventOf t ≠ none → t.m_expiration = none

structure Fed (d : Dispatch) : Prop where
  own : ∀ t front, d.callers 0 = .entering t front ∨ d.callers 0 = .locked t front →
    (∃ x, eventOf t = some x) ∧ Timeless t ∧ front = true
  others : ∀ i t front, i ≠ 0 → d.callers i = .entering t front ∨ d.callers i = .locked t front →
    eventOf t = none
  waiting : ∀ t ∈ d.m_taskList, Timeless t
  taken : ∀ t, d.thread = .taken (some t) ∨ d.thread = .unlocked (some t) → Timeless t
  executing : (eventLine d).past = executedEvents d ++ (pendingEvent d).toList

theorem initial_fed : Fed (Dispatcher.initial : Dispatch) := by
  constructor <;> simp [Dispatcher.initial, eventLine, executedEvents, pendingEvent,
    Dispatcher.removed, Dispatcher.executed]

theorem Fed.executing_of_eq {d v : Dispatch} (h : Fed d)
    (hr : Dispatcher.removed v = Dispatcher.removed d)
    (hx : Dispatcher.executed v = Dispatcher.executed d) (hp : pendingEvent v = pendingEvent d) :
    (eventLine v).past = executedEvents v ++ (pendingEvent v).toList := by
  have he := h.executing
  simp only [eventLine, executedEvents] at he ⊢
  rw [hr, hx, hp]
  exact he

theorem Fed.frame {d v : Dispatch} (h : Fed d) (hl : v.m_taskList = d.m_taskList)
    (hh : v.history = d.history) (hp : pendingEvent v = pendingEvent d)
    (ht : ∀ t, v.thread = .taken (some t) ∨ v.thread = .unlocked (some t) →
      d.thread = .taken (some t) ∨ d.thread = .unlocked (some t))
    (hc : ∀ i t front, v.callers i = .entering t front ∨ v.callers i = .locked t front →
      d.callers i = .entering t front ∨ d.callers i = .locked t front) : Fed v where
  own t front hv := h.own t front (hc 0 t front hv)
  others i t front hi hv := h.others i t front hi (hc i t front hv)
  waiting := by rw [hl]; exact h.waiting
  taken t hv := h.taken t (ht t hv)
  executing := h.executing_of_eq (by rw [Dispatcher.removed, hh, Dispatcher.removed])
    (by rw [Dispatcher.executed, hh, Dispatcher.executed]) hp

theorem callers_of_setCaller {d v : Dispatch} {i : ℕ} {p : Dispatcher.CallerPlace Callback}
    (hc : v.callers = (d.setCaller i p).callers)
    (hp : ∀ t front, p = .entering t front ∨ p = .locked t front →
      d.callers i = .entering t front ∨ d.callers i = .locked t front) :
    ∀ j t front, v.callers j = .entering t front ∨ v.callers j = .locked t front →
      d.callers j = .entering t front ∨ d.callers j = .locked t front := by
  intro j t front hj
  rw [hc] at hj
  by_cases hji : j = i
  · subst hji
    exact hp t front (by simpa [Dispatcher.State.setCaller] using hj)
  · simpa [Dispatcher.State.setCaller, hji] using hj

theorem call_fed {d : Dispatch} {i : ℕ} {t : Dispatcher.Task Callback} {front : Bool} (h : Fed d)
    (hown : i = 0 → (∃ x, eventOf t = some x) ∧ Timeless t ∧ front = true)
    (hother : i ≠ 0 → eventOf t = none) :
    Fed ({ d with allocated := d.allocated + 1 }.setCaller i (.entering t front)) := by
  have hcase : ∀ j v f, (({ d with allocated := d.allocated + 1 }.setCaller i
      (.entering t front)).callers j = .entering v f ∨
      ({ d with allocated := d.allocated + 1 }.setCaller i (.entering t front)).callers j =
        .locked v f) → j = i ∧ v = t ∧ f = front ∨
        (d.callers j = .entering v f ∨ d.callers j = .locked v f) := by
    intro j v f hj
    by_cases hji : j = i
    · left
      simpa [Dispatcher.State.setCaller, hji, eq_comm] using hj
    · exact Or.inr (by simpa [Dispatcher.State.setCaller, hji] using hj)
  refine ⟨?_, ?_, h.waiting, h.taken, h.executing⟩
  · intro v f hj
    rcases hcase 0 v f hj with ⟨hi, rfl, rfl⟩ | hj
    · exact hown hi.symm
    · exact h.own v f hj
  · intro j v f hj0 hj
    rcases hcase j v f hj with ⟨rfl, rfl, rfl⟩ | hj
    · exact hother hj0
    · exact h.others j v f hj0 hj

theorem addTask_fed {d : Dispatch} {i : ℕ} {t : Dispatcher.Task Callback} {front : Bool}
    (h : Fed d) (hc : d.callers i = .locked t front) : Fed (Dispatcher.addTask d i t front) := by
  have htime : Timeless t := by
    by_cases hi : i = 0
    · subst hi
      exact (h.own t front (Or.inr hc)).2.1
    · intro he
      exact absurd (h.others i t front hi (Or.inr hc)) he
  have hcallers : ∀ v : Dispatch, ∀ signal, v.callers = (d.setCaller i (.pushed signal)).callers →
      ∀ j x f, v.callers j = .entering x f ∨ v.callers j = .locked x f →
        d.callers j = .entering x f ∨ d.callers j = .locked x f :=
    fun v signal hv => callers_of_setCaller hv nofun
  have hrec : ∀ (v : Dispatch) (r : Dispatcher.Record Callback), v.history = d.history ++ [r] →
      v.thread = d.thread → r.removedTask = none → r.executedTask = none →
      (eventLine v).past = executedEvents v ++ (pendingEvent v).toList := by
    intro v r hv ht hr hx
    apply h.executing_of_eq
    · simp [Dispatcher.removed, hv, hr]
    · simp [Dispatcher.executed, hv, hx]
    · simp only [pendingEvent, ht]
  unfold Dispatcher.addTask
  split
  · have hcall := hcallers (({ d with m_taskList := if front then t :: d.m_taskList
      else d.m_taskList ++ [t] }.record (.accepted t front)).setCaller i
        (.pushed d.m_taskList.isEmpty)) _ rfl
    refine ⟨fun v f hv => h.own v f (hcall 0 v f hv),
      fun j v f hj hv => h.others j v f hj (hcall j v f hv), ?_, h.taken, hrec _ _ rfl rfl rfl rfl⟩
    intro v hv
    have hm : v = t ∨ v ∈ d.m_taskList := by
      cases front <;> simpa [Dispatcher.State.setCaller, Dispatcher.State.record, or_comm] using hv
    rcases hm with rfl | hm
    · exact htime
    · exact h.waiting v hm
  · have hcall := hcallers ((d.record (.refused t)).setCaller i (.pushed false)) _ rfl
    exact ⟨fun v f hv => h.own v f (hcall 0 v f hv),
      fun j v f hj hv => h.others j v f hj (hcall j v f hv), h.waiting, h.taken,
      hrec _ _ rfl rfl rfl rfl⟩

theorem takeTask_fed {d : Dispatch} (h : Fed d) (ht : d.thread = .resumed) :
    Fed (Dispatcher.takeTask d) := by
  have hp : pendingEvent d = none := by simp [pendingEvent, ht]
  have he := h.executing
  rw [hp] at he
  unfold Dispatcher.takeTask
  split
  · exact h.frame rfl rfl (by simp [pendingEvent, ht]) nofun fun _ _ _ => id
  · rename_i t rest hl
    split
    · refine ⟨h.own, h.others, ?_, ?_, ?_⟩
      · intro v hv
        exact h.waiting v (hl ▸ List.mem_cons_of_mem t hv)
      · intro v hv
        rcases hv with hv | hv
        · obtain rfl := Option.some.inj (Dispatcher.Place.taken.inj hv)
          exact h.waiting t (hl ▸ List.mem_cons_self)
        · cases hv
      · simp only [eventLine, executedEvents, pendingEvent, Dispatcher.removed,
          Dispatcher.executed, Dispatcher.State.record, List.filterMap_append] at he ⊢
        rw [he]
        cases hev : eventOf t <;> simp [Dispatcher.Record.removedTask,
          Dispatcher.Record.executedTask, hev]
    · exact h.frame rfl rfl (by simp [pendingEvent, ht]) nofun fun _ _ _ => id

theorem nextTask_fed {d : Dispatch} {o : Option (Dispatcher.Task Callback)} (h : Fed d) (now : ℕ)
    (ht : d.thread = .unlocked o) : Fed (Dispatcher.nextTask d now o) := by
  have he := h.executing
  cases o with
  | none =>
    exact h.frame rfl rfl (by simp [pendingEvent, ht, Dispatcher.nextTask])
      (by simp [Dispatcher.nextTask]) fun _ _ _ => id
  | some t =>
    have htime := h.taken t (Or.inr ht)
    have hp : pendingEvent d = eventOf t := by simp [pendingEvent, ht]
    rw [hp] at he
    simp only [Dispatcher.nextTask]
    split
    · rename_i hexp
      have hnone : eventOf t = none := by
        by_contra hne
        simp [Dispatcher.Task.hasExpired, htime hne] at hexp
      exact h.frame rfl rfl (by simp [pendingEvent, ht, hnone]) (by simp) fun _ _ _ => id
    · refine ⟨h.own, h.others, h.waiting, (by simp), ?_⟩
      simp only [eventLine, executedEvents, pendingEvent, Dispatcher.removed, Dispatcher.executed,
        Dispatcher.State.record, List.filterMap_append] at he ⊢
      rw [he]
      cases hev : eventOf t <;> simp [Dispatcher.Record.removedTask,
        Dispatcher.Record.executedTask, hev]

theorem step_fed {d v : Dispatch} {e : Dispatcher.Event Callback} (h : Fed d)
    (hown : ∀ i front m_expiration callback, e = .call i front m_expiration callback →
      if i = 0 then (∃ t, e = handOver t) else callback = .other)
    (hs : Dispatcher.step d e = some v) : Fed v := by
  cases Dispatcher.step_effect hs with
  | @call i front m_expiration callback _ =>
    have hc := hown i front m_expiration callback rfl
    apply call_fed h
    · intro hi
      rw [if_pos hi] at hc
      obtain ⟨t, he⟩ := hc
      obtain ⟨_, rfl, rfl, rfl⟩ := Dispatcher.Event.call.inj he
      exact ⟨⟨t, rfl⟩, fun _ => rfl, rfl⟩
    · intro hi
      rw [if_neg hi] at hc
      subst hc
      rfl
  | @callerLock i t front hc _ =>
    refine h.frame rfl rfl rfl (fun _ => id) (callers_of_setCaller rfl ?_)
    rintro x f (hx | hx)
    · cases hx
    · obtain ⟨rfl, rfl⟩ := Dispatcher.CallerPlace.locked.inj hx
      exact Or.inl hc
  | push hc => exact addTask_fed h hc
  | callerUnlock _ | quiet _ =>
    exact h.frame rfl rfl rfl (fun _ => id) (callers_of_setCaller rfl nofun)
  | notify _ =>
    have hset : ∀ i p, (d.signalled.setCaller i p).thread = d.signalled.thread := fun _ _ => rfl
    rcases Dispatcher.signalled_thread d with hth | ⟨hb, hth⟩
    · refine h.frame rfl rfl ?_ ?_ (callers_of_setCaller rfl nofun)
      · simp only [pendingEvent, hset, hth]
      · simp only [hset, hth]
        exact fun _ => id
    · refine h.frame rfl rfl ?_ ?_ (callers_of_setCaller rfl nofun)
      · simp [pendingEvent, hset, hth, hb]
      · simp [hset, hth]
  | stop _ => exact h.frame rfl rfl rfl (fun _ => id) fun _ _ _ => id
  | test ht =>
    by_cases hst : d.m_threadState = .STATE_TERMINATED <;>
      exact h.frame rfl rfl (by simp [pendingEvent, ht, hst]) (by simp [hst]) fun _ _ _ => id
  | lock ht _ | wait ht _ | proceed ht _ | relock ht _ | finish ht =>
    exact h.frame rfl rfl (by simp [pendingEvent, ht]) nofun fun _ _ _ => id
  | wake ht =>
    refine h.frame rfl rfl ?_ nofun fun _ _ _ => id
    rcases ht with ht | ht <;> simp [pendingEvent, ht]
  | take ht => exact takeTask_fed h ht
  | @unlock o ht =>
    refine h.frame rfl rfl (by cases o <;> simp [pendingEvent, ht]) ?_ fun _ _ _ => id
    rintro t (hv | hv)
    · cases hv
    · exact Or.inl (ht.trans (congrArg _ (Dispatcher.Place.unlocked.inj hv)))
  | next now ht => exact nextTask_fed h now ht

end LoginServer.Feed
