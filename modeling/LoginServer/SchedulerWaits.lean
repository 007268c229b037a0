import LoginServer.SchedulerSteps

/-! # What the two waits of the scheduler thread guarantee

The thread takes the top of the queue whenever its wait ended without a notification, and the
untimed wait always ends so. A timed wait leaves its event in the queue; nothing does that for
the untimed one. On the other side no event is overslept: an event that is earlier than the
deadline of the sleeper was pushed as the top, and its signal is still to come. -/
namespace LoginServer.Scheduler

open Runs

/-- There is an event to take, or the thread is told to end and takes none. -/
def Stocked (s : State) : Prop := s.m_eventList ≠ [] ∨ s.m_threadState = .STATE_TERMINATED

instance (s : State) : Decidable (Stocked s) := inferInstanceAs (Decidable (_ ∨ _))

/-- Where `schedulerThread` goes on to `m_eventList.top()` and `pop()`, the queue has an event. -/
def TopAvailable (s : State) : Prop := s.thread ≠ .undefined ∧
  ∀ w, s.thread = .resumed w false → s.m_threadState ≠ .STATE_TERMINATED → s.m_eventList ≠ []

/-- The branch that goes wrong: the untimed wait is left while the queue is empty. The second
case keeps `stop` from calling a terminated thread back to the queue that `shutdown` emptied. -/
def UntimedWaitFilled (s : State) : Event → Prop
  | .relock => s.thread = .woken .untimed false → Stocked s
  | .stop => s.m_threadState ≠ .STATE_TERMINATED
  | _ => True

instance (s : State) : ∀ e, Decidable (UntimedWaitFilled s e)
  | .relock => inferInstanceAs (Decidable (_ → _))
  | .stop => inferInstanceAs (Decidable (_ ≠ _))
  | .tick _ | .call _ _ | .callerLock _ | .push _ _ | .callerUnlock _ | .notify _ | .callerReturn _
  | .stopEvent _ | .shutdown | .test | .lock | .wait _ | .wake _ | .pop _ | .popEmpty | .skip
  | .unlock | .finish => isTrue trivial

/-- Where the thread relies on a queued event. -/
def PlaceStocked (s : State) : Place → Prop
  | .blocked (.timed _) | .notified (.timed _) | .woken (.timed _) _ => Stocked s
  | .resumed _ false => Stocked s
  | .undefined => False
  | _ => True

theorem place_stocked_of_imp {s u : State} (h : Stocked s → Stocked u) {p : Place}
    (hp : PlaceStocked s p) : PlaceStocked u p := by
  cases p with
  | blocked w | notified w =>
    cases w with
    | untimed => trivial
    | timed d => exact h hp
  | woken w action =>
    cases w with
    | untimed => trivial
    | timed d => exact h hp
  | resumed w action =>
    cases action with
    | false => exact h hp
    | true => trivial
  | undefined => exact hp
  | _ => trivial

theorem place_stocked_of_frame {s u : State} (h : PlaceStocked s s.thread)
    (ht : u.thread = s.thread) (hs : Stocked s → Stocked u) : PlaceStocked u u.thread := by
  rw [ht]
  exact place_stocked_of_imp hs h

theorem pushed_stocked (s : State) (i : ℕ) (signal : Bool) (t : SchedulerTask) :
    Stocked (pushed s i signal t) := by
  left
  simp

theorem step_place_stocked {s u : State} {e : Event} (h : PlaceStocked s s.thread)
    (hok : UntimedWaitFilled s e) (hs : step s e = some u) : PlaceStocked u u.thread := by
  cases step_effect hs with
  | tick _ | call _ _ _ | callerLock _ _ | refuse _ _ | callerUnlock _ | drop _ | quiet _ _
  | callerReturn _ | stopFound _ _ | stopMissed _ => exact place_stocked_of_frame h rfl id
  | push _ _ _ =>
    exact place_stocked_of_frame h (pushed_thread _ _ _ _) fun _ => pushed_stocked _ _ _ _
  | @notify i t w _ hw =>
    rw [hw] at h
    cases w with
    | untimed => trivial
    | timed d => exact h
  | stop _ =>
    refine place_stocked_of_frame h rfl ?_
    rintro (hl | hst)
    · exact Or.inl hl
    · exact absurd hst hok
  | shutdown _ => exact place_stocked_of_frame h rfl fun _ => Or.inr rfl
  | exit _ _ | test _ _ | lock _ _ | waitEmpty _ _ | skip _ _ | unlock _ | pop _ _ _ | again _
  | hand _ | discard _ => trivial
  | waitTop _ htop => exact Or.inl (List.ne_nil_of_mem htop.1)
  | @wake w _ hw _ =>
    cases w with
    | untimed => trivial
    | timed d =>
      rcases hw with hw | hw
      · rw [hw] at h
        exact h
      · rw [hw] at h
        exact h
  | @relock w action hw _ =>
    rw [hw] at h
    cases action with
    | true => trivial
    | false =>
      cases w with
      | untimed => exact hok hw
      | timed d => exact h
  | popEmpty hw hst hnil =>
    rw [hw] at h
    rcases h with hl | ht
    · exact hl hnil
    · exact hst ht

/-- In every run in which the untimed wait is left only for a queue that has an event, the
thread never asks an empty queue for its top. -/
theorem top_available {s : State} (h : machine.ReachableBy UntimedWaitFilled s) :
    TopAvailable s := by
  have hp : PlaceStocked s s.thread := by
    refine Machine.invariant_by (I := fun s => PlaceStocked s s.thread) ?_ ?_ h
    · rintro _ ⟨now, rfl⟩
      trivial
    · intro s e u hi ho hs
      exact step_place_stocked hi ho hs
  constructor
  · intro hu
    rw [hu] at hp
    exact hp
  · intro w hw hst
    rw [hw] at hp
    rcases hp with hl | ht
    · exact hl
    · exact absurd ht hst

def poppedTrace : List Event :=
  let t := (createSchedulerTask 0 0 0).setEventId 1
  [.call 0 0, .callerLock 0, .push 0 true, .callerUnlock 0, .test, .lock, .wait (some t),
    .tick 50000, .wake false, .relock, .pop t, .unlock, .finish, .test, .lock, .wait none]

theorem popped_trace_top_available :
    ∃ s, machine.run (initial 0) poppedTrace = some s ∧ TopAvailable s := by
  have hr : (machine.run (initial 0) poppedTrace).isSome := by decide
  obtain ⟨s, hs⟩ := Option.isSome_iff_exists.mp hr
  exact ⟨s, hs, top_available (Machine.run_reachable_by (.start ⟨0, rfl⟩) (by decide) hs)⟩

/-- The late notification ends the untimed wait, `action` stays false and `top()` is called on
an empty queue. -/
theorem late_notification_takes_empty_top :
    ¬ ∀ s, machine.ReachableBy (fun _ e => e ≠ .shutdown) s → TopAvailable s := by
  intro hall
  obtain ⟨s, hs, hw⟩ : ∃ s, machine.run (initial 0)
      (poppedTrace ++ [.notify 0, .wake false, .relock, .popEmpty]) = some s ∧
      s.thread = .undefined := Machine.exists_run (by decide)
  exact (hall s (Machine.run_reachable_by (.start ⟨0, rfl⟩) (by decide) hs)).1 hw

/-- The side condition leaves out nothing else: a thread that leaves the untimed wait with the
queue empty has no step before it calls `top()`. -/
theorem emptied_wait_takes_top {s : State} (hw : s.thread = .woken .untimed false)
    (hl : s.m_eventLock = none) (hs : ¬ Stocked s) :
    ∃ u, machine.run s [.relock, .popEmpty] = some u ∧ u.thread = .undefined := by
  have hnil : s.m_eventList = [] := by
    by_contra hne
    exact hs (Or.inl hne)
  have hst : s.m_threadState ≠ .STATE_TERMINATED := fun ht => hs (Or.inr ht)
  exact ⟨{ s with thread := .undefined, m_eventLock := some .scheduler },
    by simp [Machine.run, machine, step, hw, hl, hnil, hst], rfl⟩

/-- The event expires before the wait would end by itself. -/
def Wait.Oversleeps (t : SchedulerTask) : Wait → Prop
  | .untimed => True
  | .timed deadline => t.getCycle < deadline

/-- Some `addEvent` has decided to signal and has not yet called `notify_one`. -/
def SignalPending (s : State) : Prop :=
  ∃ i t, s.callers i = .pushed t true ∨ s.callers i = .unlocked t true

def NotOverslept (s : State) : Prop :=
  ∀ w, s.thread = .blocked w → ∀ t ∈ s.m_eventList, w.Oversleeps t → SignalPending s

theorem Wait.Oversleeps.earlier {w : Wait} {t v : SchedulerTask} (h : w.Oversleeps t)
    (hle : v.getCycle ≤ t.getCycle) : w.Oversleeps v := by
  cases w with
  | untimed => trivial
  | timed deadline => exact Nat.lt_of_le_of_lt hle h

theorem signalPending_setCaller {s : State} {i : ℕ} {p : CallerPlace} (h : SignalPending s)
    (hp : ∀ t, s.callers i ≠ .pushed t true)
    (hu : ∀ t, s.callers i = .unlocked t true → ∃ v, p = .unlocked v true) :
    SignalPending (s.setCaller i p) := by
  obtain ⟨j, t, hj⟩ := h
  by_cases hji : j = i
  · subst hji
    rcases hj with hj | hj
    · exact absurd hj (hp t)
    · obtain ⟨v, rfl⟩ := hu t hj
      exact ⟨j, v, Or.inr (by simp [State.setCaller])⟩
  · exact ⟨j, t, by simpa [State.setCaller, hji] using hj⟩

theorem notOverslept_of_frame {s u : State} (h : NotOverslept s) (ht : u.thread = s.thread)
    (hl : u.m_eventList = s.m_eventList) (hp : SignalPending s → SignalPending u) :
    NotOverslept u := by
  intro w hw t hm ho
  rw [ht] at hw
  rw [hl] at hm
  exact hp (h w hw t hm ho)

theorem notOverslept_of_awake {u : State} (h : ∀ w, u.thread ≠ .blocked w) : NotOverslept u :=
  fun w hw => absurd hw (h w)

/-- A push that does not signal was preceded by an event no later, whose signal is pending. -/
theorem pushed_notOverslept {s : State} {i : ℕ} {signal : Bool} {t : SchedulerTask}
    (h : NotOverslept s) (hc : s.callers i = .locked t)
    (ha : SignalAnswer t signal s.m_eventList) : NotOverslept (pushed s i signal t) := by
  have keep : SignalPending s → SignalPending (pushed s i signal t) := by
    intro hs
    have hset : SignalPending (s.setCaller i (.pushed (s.assignId t).2 signal)) :=
      signalPending_setCaller hs (by simp [hc]) (by simp [hc])
    simpa [SignalPending, pushed_callers] using hset
  intro w hw v hv ho
  rw [pushed_thread] at hw
  rw [pushed_eventList] at hv
  cases signal with
  | true => exact ⟨i, (s.assignId t).2, Or.inl (by simp [pushed, State.setCaller])⟩
  | false =>
    rcases List.mem_cons.mp hv with rfl | hv
    · obtain ⟨x, hx, hle⟩ := ha
      exact keep (h w hw x hx (ho.earlier (by simpa using hle)))
    · exact keep (h w hw v hv ho)

theorem step_notOverslept {s u : State} {e : Event} (h : NotOverslept s)
    (hs : step s e = some u) : NotOverslept u := by
  cases step_effect hs with
  | tick _ => exact notOverslept_of_frame h rfl rfl id
  | call _ _ hc | callerLock hc _ | refuse hc _ | drop hc | callerReturn hc =>
    exact notOverslept_of_frame h rfl rfl fun hp =>
      signalPending_setCaller hp (by simp [hc]) (by simp [hc])
  | push hc _ ha => exact pushed_notOverslept h hc ha
  | @callerUnlock i t signal hc =>
    refine notOverslept_of_frame h rfl rfl fun ⟨j, v, hj⟩ => ?_
    by_cases hji : j = i
    · subst hji
      rw [hc] at hj
      rcases hj with hj | hj
      · obtain ⟨rfl, rfl⟩ := CallerPlace.pushed.inj hj
        exact ⟨j, t, Or.inr (by simp [State.setCaller])⟩
      · cases hj
    · exact ⟨j, v, by simpa [State.setCaller, hji] using hj⟩
  | notify _ _ => exact notOverslept_of_awake nofun
  | @quiet i t signal hc hawake =>
    cases signal with
    | true => exact notOverslept_of_awake (hawake rfl)
    | false =>
      exact notOverslept_of_frame h rfl rfl fun hp =>
        signalPending_setCaller hp (by simp [hc]) (by simp [hc])
  | stopFound _ _ | stopMissed _ | stop _ => exact notOverslept_of_frame h rfl rfl id
  | shutdown _ => exact fun _ _ t hm => absurd hm List.not_mem_nil
  | waitEmpty _ hnil => exact fun _ _ t hm => absurd (hnil ▸ hm) List.not_mem_nil
  | waitTop _ htop =>
    intro w hw t hm ho
    obtain rfl := Place.blocked.inj hw
    exact absurd (htop.2 t hm) (Nat.not_le.mpr ho)
  | exit _ _ | test _ _ | lock _ _ | wake _ _ | relock _ _ | pop _ _ _ | popEmpty _ _ _ | skip _ _
  | unlock _ | again _ | hand _ | discard _ => exact notOverslept_of_awake nofun

/-- While the thread sleeps past an event of the queue, the signal for it is on its way. -/
theorem earlier_event_signalled {s : State} (h : machine.Reachable s) : NotOverslept s := by
  refine Machine.invariant (I := NotOverslept) ?_ ?_ h
  · rintro _ ⟨now, rfl⟩
    exact notOverslept_of_awake (by simp [initial])
  · intro s e u hi hs
    exact step_notOverslept hi hs

def supersededTrace : List Event :=
  [.call 0 200, .callerLock 0, .push 0 true, .callerUnlock 0, .test, .lock,
    .wait (some ((createSchedulerTask 0 0 200).setEventId 1)), .call 1 50, .call 2 100,
    .callerLock 1, .push 1 true, .callerUnlock 1, .callerLock 2, .push 2 false, .callerUnlock 2]

theorem superseded_trace_signalled :
    ∃ s, machine.run (initial 0) supersededTrace = some s ∧ NotOverslept s := by
  have hr : (machine.run (initial 0) supersededTrace).isSome := by decide
  obtain ⟨s, hs⟩ := Option.isSome_iff_exists.mp hr
  exact ⟨s, hs, earlier_event_signalled (Machine.run_reachable (.start ⟨0, rfl⟩) hs)⟩

end LoginServer.Scheduler
