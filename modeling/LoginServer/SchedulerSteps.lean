import LoginServer.Scheduler

/-! # What a step of the scheduler may do

Each step is said once, with its guard and the state it leaves, so that no invariant has to
take the step function apart again. -/
namespace LoginServer.Scheduler

def pushed (s : State) (i : ℕ) (signal : Bool) (t : SchedulerTask) : State :=
  (((s.assignId t).1.enqueue (s.assignId t).2).record (.queued (s.assignId t).2)).setCaller i
    (.pushed (s.assignId t).2 signal)

section Pushed

variable (s : State) (i : ℕ) (signal : Bool) (t : SchedulerTask)

theorem assignId_fst : (s.assignId t).1 = { s with m_lastEvent := (s.assignId t).1.m_lastEvent } := by
  unfold State.assignId
  split <;> rfl

@[simp] theorem assignId_ptr : (s.assignId t).2.ptr = t.ptr := by
  unfold State.assignId
  split <;> rfl

@[simp] theorem assignId_getCycle : (s.assignId t).2.getCycle = t.getCycle := by
  unfold State.assignId
  split <;> rfl

@[simp] theorem pushed_now : (pushed s i signal t).now = s.now := by
  rw [pushed, assignId_fst]; rfl

@[simp] theorem pushed_allocated : (pushed s i signal t).allocated = s.allocated := by
  rw [pushed, assignId_fst]; rfl

@[simp] theorem pushed_thread : (pushed s i signal t).thread = s.thread := by
  rw [pushed, assignId_fst]; rfl

@[simp] theorem pushed_eventList :
    (pushed s i signal t).m_eventList = (s.assignId t).2 :: s.m_eventList := by
  rw [pushed, assignId_fst]; rfl

@[simp] theorem pushed_history :
    (pushed s i signal t).history = s.history ++ [.queued (s.assignId t).2] := by
  rw [pushed, assignId_fst]; rfl

theorem pushed_callers : (pushed s i signal t).callers =
    (s.setCaller i (.pushed (s.assignId t).2 signal)).callers := by
  rw [pushed, assignId_fst]; rfl

end Pushed

inductive Effect (s : State) : Event → State → Prop where
  | tick (d) : Effect s (.tick d) { s with now := s.now + d }
  | call (i delay) : s.callers i = .outside →
      Effect s (.call i delay) ({ s with allocated := s.allocated + 1 }.setCaller i
        (.entering (createSchedulerTask s.allocated s.now delay)))
  | callerLock {i t} : s.callers i = .entering t → s.m_eventLock = none →
      Effect s (.callerLock i) ({ s with m_eventLock := some (.caller i) }.setCaller i (.locked t))
  | push {i signal t} : s.callers i = .locked t → s.m_threadState = .STATE_RUNNING →
      SignalAnswer t signal s.m_eventList → Effect s (.push i signal) (pushed s i signal t)
  | refuse {i t} : s.callers i = .locked t → s.m_threadState ≠ .STATE_RUNNING →
      Effect s (.push i false) (s.setCaller i (.refused t))
  | callerUnlock {i t signal} : s.callers i = .pushed t signal →
      Effect s (.callerUnlock i) ({ s with m_eventLock := none }.setCaller i (.unlocked t signal))
  | drop {i t} : s.callers i = .refused t →
      Effect s (.callerUnlock i)
        (({ s with m_eventLock := none }.record (.deleted t.ptr)).setCaller i .outside)
  | notify {i t w} : s.callers i = .unlocked t true → s.thread = .blocked w →
      Effect s (.notify i) ({ s with thread := .notified w }.setCaller i (.returning t))
  | quiet {i t signal} : s.callers i = .unlocked t signal →
      (signal = true → ∀ w, s.thread ≠ .blocked w) →
      Effect s (.notify i) (s.setCaller i (.returning t))
  | callerReturn {i t} : s.callers i = .returning t →
      Effect s (.callerReturn i) ((s.record (.returned t.ptr t.getEventId)).setCaller i .outside)
  | stopFound {eventId} : s.m_eventLock = none → eventId ∈ s.m_eventIds →
      Effect s (.stopEvent eventId)
        ({ s with m_eventIds := s.m_eventIds.erase eventId }.record (.stopped eventId true))
  | stopMissed {eventId} : eventId = 0 ∨ eventId ∉ s.m_eventIds →
      Effect s (.stopEvent eventId) (s.record (.stopped eventId false))
  | stop : s.m_eventLock = none → Effect s .stop { s with m_threadState := .STATE_CLOSING }
  | shutdown : s.m_eventLock = none → Effect s .shutdown
      { s with m_threadState := .STATE_TERMINATED, m_eventList := [], m_eventIds := ∅ }
  | exit : s.thread = .loop → s.m_threadState = .STATE_TERMINATED →
      Effect s .test { s with thread := .exited }
  | test : s.thread = .loop → s.m_threadState ≠ .STATE_TERMINATED →
      Effect s .test { s with thread := .locking }
  | lock : s.thread = .locking → s.m_eventLock = none →
      Effect s .lock { s with thread := .locked, m_eventLock := some .scheduler }
  | waitEmpty : s.thread = .locked → s.m_eventList = [] →
      Effect s (.wait none) { s with thread := .blocked .untimed, m_eventLock := none }
  | waitTop {t} : s.thread = .locked → IsTop t s.m_eventList →
      Effect s (.wait (some t)) { s with thread := .blocked (.timed t.getCycle), m_eventLock := none }
  | wake {w action} : s.thread = .blocked w ∨ s.thread = .notified w → WaitAnswer s.now action w →
      Effect s (.wake action) { s with thread := .woken w action }
  | relock {w action} : s.thread = .woken w action → s.m_eventLock = none →
      Effect s .relock { s with thread := .resumed w action, m_eventLock := some .scheduler }
  | pop {w t} : s.thread = .resumed w false → s.m_threadState ≠ .STATE_TERMINATED →
      IsTop t s.m_eventList → Effect s (.pop t) (popTop s t)
  | popEmpty {w} : s.thread = .resumed w false → s.m_threadState ≠ .STATE_TERMINATED →
      s.m_eventList = [] → Effect s .popEmpty { s with thread := .undefined }
  | skip {w action} : s.thread = .resumed w action →
      action = true ∨ s.m_threadState = .STATE_TERMINATED →
      Effect s .skip { s with thread := .popped none }
  | unlock {o} : s.thread = .popped o →
      Effect s .unlock { s with thread := .unlocked o, m_eventLock := none }
  | again : s.thread = .unlocked none → Effect s .finish { s with thread := .loop }
  | hand {t} : s.thread = .unlocked (some (t, true)) →
      Effect s .finish { s.record (.handed t s.now) with thread := .loop }
  | discard {t} : s.thread = .unlocked (some (t, false)) →
      Effect s .finish { s.record (.deleted t.ptr) with thread := .loop }

theorem addEventPush_effect {s u : State} {i : ℕ} {signal : Bool} {t : SchedulerTask}
    (hc : s.callers i = .locked t) (h : addEventPush s i signal t = some u) :
    Effect s (.push i signal) u := by
  rw [addEventPush] at h
  by_cases hrun : s.m_threadState = .STATE_RUNNING
  · by_cases ha : SignalAnswer t signal s.m_eventList
    · simp only [hrun, ha, ↓reduceIte, Option.some.injEq] at h
      subst h
      exact .push hc hrun ha
    · simp [hrun, ha] at h
  · cases signal with
    | true => simp [hrun] at h
    | false =>
      simp only [hrun, ↓reduceIte, Bool.false_eq_true, Option.some.injEq] at h
      subst h
      exact .refuse hc hrun

theorem addEventUnlock_effect {s u : State} {i : ℕ} (h : addEventUnlock s i = some u) :
    Effect s (.callerUnlock i) u := by
  rw [addEventUnlock] at h
  split at h
  · rename_i hc
    cases h
    exact .callerUnlock hc
  · rename_i hc
    cases h
    exact .drop hc
  · cases h

theorem notify_effect {s : State} {i : ℕ} {t : SchedulerTask} (hc : s.callers i = .unlocked t true) :
    Effect s (.notify i) (s.signalled.setCaller i (.returning t)) := by
  rw [State.signalled]
  split
  · rename_i hw
    exact .notify hc hw
  · rename_i hw
    exact .quiet hc fun _ => hw

theorem stopEvent_effect {s : State} {eventId : ℕ} (hl : eventId = 0 ∨ s.m_eventLock = none) :
    Effect s (.stopEvent eventId) (stopEvent s eventId) := by
  rw [stopEvent]
  split
  · rename_i h0
    exact .stopMissed (Or.inl h0)
  · rename_i h0
    split
    · rename_i hm
      exact .stopFound (hl.resolve_left h0) hm
    · rename_i hm
      exact .stopMissed (Or.inr hm)

theorem finishLoop_effect {s : State} {o : Option (SchedulerTask × Bool)}
    (ho : s.thread = .unlocked o) : Effect s .finish (finishLoop s o) := by
  rcases o with _ | ⟨t, _ | _⟩
  · exact .again ho
  · exact .discard ho
  · exact .hand ho

theorem step_effect {s u : State} {e : Event} (h : step s e = some u) : Effect s e u := by
  cases e with
  | tick d => cases h; exact .tick d
  | call i delay =>
    simp only [step] at h
    split at h <;> cases h
    rename_i hc
    exact .call i delay hc
  | callerLock i =>
    simp only [step] at h
    split at h <;> cases h
    rename_i hc hl
    exact .callerLock hc hl
  | push i signal =>
    simp only [step] at h
    split at h
    · rename_i hc
      exact addEventPush_effect hc h
    · cases h
  | callerUnlock i => exact addEventUnlock_effect h
  | notify i =>
    simp only [step] at h
    split at h <;> cases h
    · rename_i hc
      exact notify_effect hc
    · rename_i hc
      exact .quiet hc nofun
  | callerReturn i =>
    simp only [step] at h
    split at h <;> cases h
    rename_i hc
    exact .callerReturn hc
  | stopEvent eventId =>
    simp only [step] at h
    split at h <;> cases h
    rename_i hl
    exact stopEvent_effect hl
  | stop =>
    simp only [step] at h
    split at h <;> cases h
    rename_i hl
    exact .stop hl
  | shutdown =>
    simp only [step] at h
    split at h <;> cases h
    rename_i hl
    exact .shutdown hl
  | test =>
    simp only [step] at h
    split at h <;> cases h
    rename_i ht
    split
    · rename_i hst
      exact .exit ht hst
    · rename_i hst
      exact .test ht hst
  | lock =>
    simp only [step] at h
    split at h <;> cases h
    rename_i ht
    exact .lock ht.1 ht.2
  | wait top =>
    simp only [step] at h
    split at h
    · rename_i ht
      split at h <;> cases h
      rename_i hl
      exact .waitEmpty ht hl
    · rename_i ht
      split at h <;> cases h
      rename_i hl
      exact .waitTop ht hl
    · cases h
  | wake action =>
    simp only [step] at h
    split at h
    · rename_i ht
      split at h <;> cases h
      rename_i ha
      exact .wake (Or.inl ht) ha
    · rename_i ht
      split at h <;> cases h
      rename_i ha
      exact .wake (Or.inr ht) ha
    · cases h
  | relock =>
    simp only [step] at h
    split at h <;> cases h
    rename_i ht hl
    exact .relock ht hl
  | pop t =>
    simp only [step] at h
    split at h
    · rename_i ht
      split at h <;> cases h
      rename_i hp
      exact .pop ht hp.1 hp.2
    · cases h
  | popEmpty =>
    simp only [step] at h
    split at h
    · rename_i ht
      split at h <;> cases h
      rename_i hp
      exact .popEmpty ht hp.1 hp.2
    · cases h
  | skip =>
    simp only [step] at h
    split at h
    · rename_i ht
      split at h <;> cases h
      rename_i ha
      exact .skip ht ha
    · cases h
  | unlock =>
    simp only [step] at h
    split at h <;> cases h
    rename_i ht
    exact .unlock ht
  | finish =>
    simp only [step] at h
    split at h <;> cases h
    rename_i ht
    exact finishLoop_effect ht

/-- The history only grows, so neither a queued task nor a stop is ever taken back. -/
theorem step_history {s u : State} {e : Event} (hs : step s e = some u) :
    s.history <+: u.history := by
  cases step_effect hs with
  | push _ _ _ =>
    rw [pushed_history]
    exact List.prefix_append _ _
  | drop _ | callerReturn _ | stopFound _ _ | stopMissed _ | hand _ | discard _ =>
    exact List.prefix_append _ _
  | _ => exact List.prefix_rfl

end LoginServer.Scheduler
