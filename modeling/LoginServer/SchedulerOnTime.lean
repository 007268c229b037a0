import LoginServer.SchedulerSteps

/-! # No event is handed over early

A timed wait is taken for a queued event, so when it times out some event is due; the untimed
wait gives no such bound. The invariant says what each place of the thread owes to the clock. -/
namespace LoginServer.Scheduler

open Runs

/-- Some queued event expires by `deadline`; only `shutdown` can take that away. -/
def DueBy (s : State) (deadline : ℕ) : Prop :=
  (∃ t ∈ s.m_eventList, t.getCycle ≤ deadline) ∨
    s.m_eventList = [] ∧ s.m_threadState ≠ .STATE_RUNNING

def Wait.Covered (s : State) : Wait → Prop
  | .untimed => True
  | .timed deadline => DueBy s deadline

/-- What each place of the thread owes to the clock: a timed wait was taken for a queued event,
and a task on its way to the dispatcher has expired. -/
def PlaceOnTime (s : State) : Place → Prop
  | .blocked w | .notified w => w.Covered s
  | .woken w action | .resumed w action => w.Covered s ∧ WaitAnswer s.now action w
  | .popped (some (t, true)) | .unlocked (some (t, true)) => t.getCycle ≤ s.now
  | _ => True

def HandedOnTime (s : State) : Prop :=
  ∀ t time, .handed t time ∈ s.history →
    t.created + milliseconds (max t.delay SCHEDULER_MINTICKS) ≤ time

structure OnTime (s : State) : Prop where
  place : PlaceOnTime s s.thread
  handed : HandedOnTime s

/-- The branch that goes wrong: the thread leaves the untimed wait and pops an event that has
not expired yet. -/
def UntimedTopDue (s : State) : Event → Prop
  | .pop t => s.thread = .resumed .untimed false → t.getCycle ≤ s.now
  | _ => True

instance (s : State) (e : Event) : Decidable (UntimedTopDue s e) := by
  cases e <;> simp only [UntimedTopDue] <;> infer_instance

theorem wait_answer_later {now later : ℕ} (h : now ≤ later) {action : Bool} {w : Wait}
    (hw : WaitAnswer now action w) : WaitAnswer later action w := by
  cases w with
  | untimed => exact hw
  | timed deadline => exact fun ha => (hw ha).trans h

theorem place_on_time_later {s u : State} (hn : s.now ≤ u.now)
    (hd : ∀ deadline, DueBy s deadline → DueBy u deadline) {p : Place}
    (h : PlaceOnTime s p) : PlaceOnTime u p := by
  have covered : ∀ w : Wait, w.Covered s → w.Covered u := by
    intro w hw
    cases w with
    | untimed => trivial
    | timed deadline => exact hd deadline hw
  cases p with
  | blocked w => exact covered w h
  | notified w => exact covered w h
  | woken w action => exact ⟨covered w h.1, wait_answer_later hn h.2⟩
  | resumed w action => exact ⟨covered w h.1, wait_answer_later hn h.2⟩
  | popped o =>
    rcases o with _ | ⟨t, _ | _⟩
    · trivial
    · trivial
    · exact Nat.le_trans h hn
  | unlocked o =>
    rcases o with _ | ⟨t, _ | _⟩
    · trivial
    · trivial
    · exact Nat.le_trans h hn
  | _ => trivial

theorem on_time_of_place {s u : State} (h : OnTime s) (hp : PlaceOnTime u u.thread)
    (hh : ∀ t time, .handed t time ∈ u.history → .handed t time ∈ s.history) : OnTime u :=
  ⟨hp, fun t time hm => h.handed t time (hh t time hm)⟩

/-- A step that leaves the thread where it is, the clock no earlier and every covered deadline
covered keeps the invariant; all steps of the callers are of this kind. -/
theorem on_time_of_frame {s u : State} (h : OnTime s) (hn : s.now ≤ u.now)
    (hd : ∀ deadline, DueBy s deadline → DueBy u deadline) (ht : u.thread = s.thread)
    (hh : ∀ t time, .handed t time ∈ u.history → .handed t time ∈ s.history) : OnTime u :=
  on_time_of_place h (by rw [ht]; exact place_on_time_later hn hd h.place) hh

theorem dueBy_congr {s u : State} (hl : u.m_eventList = s.m_eventList)
    (ht : u.m_threadState = s.m_threadState) (deadline : ℕ) (h : DueBy s deadline) :
    DueBy u deadline := by
  unfold DueBy at *
  rwa [hl, ht]

theorem pushed_on_time {s : State} {i : ℕ} {signal : Bool} {t : SchedulerTask} (h : OnTime s)
    (hrun : s.m_threadState = .STATE_RUNNING) : OnTime (pushed s i signal t) := by
  refine on_time_of_frame h (pushed_now s i signal t).ge ?_ (pushed_thread s i signal t) (by simp)
  rintro deadline (⟨v, hv, hle⟩ | ⟨_, hne⟩)
  · exact Or.inl ⟨v, by simp [hv], hle⟩
  · exact absurd hrun hne

/-- The top is no later than the event a timed wait was taken for, so after the deadline it is
due; the untimed wait gives no such bound and needs the side condition. -/
theorem popTop_on_time {s : State} {w : Wait} {t : SchedulerTask} (h : OnTime s)
    (hw : s.thread = .resumed w false) (htop : IsTop t s.m_eventList)
    (hok : UntimedTopDue s (.pop t)) : OnTime (popTop s t) := by
  have hp := h.place
  rw [hw] at hp
  have due : t.getCycle ≤ s.now := by
    cases w with
    | untimed => exact hok hw
    | timed deadline =>
      have hdl : deadline ≤ s.now := hp.2 rfl
      rcases hp.1 with ⟨v, hv, hle⟩ | ⟨hnil, _⟩
      · exact (htop.2 v hv).trans (hle.trans hdl)
      · rw [hnil] at htop; exact absurd htop.1 List.not_mem_nil
  refine on_time_of_place h ?_ (by simp [popTop])
  by_cases hid : t.getEventId ∈ s.m_eventIds
  · simpa [popTop, hid, PlaceOnTime] using due
  · simp [popTop, hid, PlaceOnTime]

theorem handed_on_time {s : State} {t : SchedulerTask} (h : OnTime s)
    (ho : s.thread = .unlocked (some (t, true))) :
    OnTime { s.record (.handed t s.now) with thread := .loop } := by
  have hp := h.place
  rw [ho] at hp
  refine ⟨trivial, ?_⟩
  intro v time hm
  rcases List.mem_append.mp hm with hm | hm
  · exact h.handed v time hm
  · simp only [List.mem_singleton, Record.handed.injEq] at hm
    obtain ⟨rfl, rfl⟩ := hm
    rw [← v.expires]
    exact hp

theorem step_on_time {s u : State} {e : Event} (h : OnTime s) (hok : UntimedTopDue s e)
    (hs : step s e = some u) : OnTime u := by
  have hp := h.place
  cases step_effect hs with
  | tick d =>
    exact on_time_of_frame h (Nat.le_add_right _ _) (dueBy_congr rfl rfl) rfl (by simp)
  | push _ hrun _ => exact pushed_on_time h hrun
  | call _ _ _ | callerLock _ _ | refuse _ _ | callerUnlock _ | drop _ | quiet _ _ | callerReturn _
  | stopFound _ _ | stopMissed _ =>
    exact on_time_of_frame h le_rfl (dueBy_congr rfl rfl) rfl (by simp)
  | notify _ hw =>
    rw [hw] at hp
    exact on_time_of_place h hp (by simp)
  | stop _ =>
    refine on_time_of_frame h le_rfl ?_ rfl (by simp)
    rintro deadline (hl | ⟨hl, _⟩)
    · exact Or.inl hl
    · exact Or.inr ⟨hl, by simp⟩
  | shutdown _ =>
    exact on_time_of_frame h le_rfl (fun _ _ => Or.inr ⟨rfl, by simp⟩) rfl (by simp)
  | exit _ _ | test _ _ | lock _ _ | waitEmpty _ _ | popEmpty _ _ _ | skip _ _ | again _
  | discard _ =>
    exact on_time_of_place h trivial (by simp)
  | @waitTop t _ htop => exact on_time_of_place h (Or.inl ⟨t, htop.1, le_rfl⟩) (by simp)
  | wake hw ha =>
    rcases hw with hw | hw
    · rw [hw] at hp
      exact on_time_of_place h ⟨hp, ha⟩ (by simp)
    · rw [hw] at hp
      exact on_time_of_place h ⟨hp, ha⟩ (by simp)
  | relock hw _ =>
    rw [hw] at hp
    exact on_time_of_place h hp (by simp)
  | pop hw _ htop => exact popTop_on_time h hw htop hok
  | @unlock o ho =>
    rw [ho] at hp
    refine on_time_of_place h ?_ (by simp)
    rcases o with _ | ⟨t, _ | _⟩ <;> exact hp
  | hand ho => exact handed_on_time h ho

theorem initial_on_time (now : ℕ) : OnTime (initial now) :=
  ⟨trivial, by simp [HandedOnTime, initial]⟩

/-- In every run in which the untimed wait is never left for an unexpired top, no event is
handed over before its creation time plus `max delay SCHEDULER_MINTICKS`. -/
theorem handed_over_no_earlier_than_expiration {s : State}
    (h : machine.ReachableBy UntimedTopDue s) : HandedOnTime s := by
  refine (Machine.invariant_by (I := OnTime) ?_ ?_ h).handed
  · rintro _ ⟨now, rfl⟩
    exact initial_on_time now
  · intro s e u hi ho hs
    exact step_on_time hi ho hs

def timedTrace : List Event :=
  let t := (createSchedulerTask 0 0 1000).setEventId 1
  [.call 0 1000, .callerLock 0, .push 0 true, .callerUnlock 0, .notify 0, .test, .lock,
    .wait (some t), .tick 1000000, .wake false, .relock, .pop t, .unlock, .finish, .callerReturn 0]

theorem timed_trace_on_time : ∃ s, machine.run (initial 0) timedTrace = some s ∧
    .handed ((createSchedulerTask 0 0 1000).setEventId 1) 1000000 ∈ s.history ∧
    HandedOnTime s := by
  have hr : (machine.run (initial 0) timedTrace).isSome := by decide
  obtain ⟨s, hs⟩ := Option.isSome_iff_exists.mp hr
  refine ⟨s, hs, ?_, ?_⟩
  · have hm : ∀ u ∈ machine.run (initial 0) timedTrace,
        .handed ((createSchedulerTask 0 0 1000).setEventId 1) 1000000 ∈ u.history := by decide
    exact hm s hs
  · exact handed_over_no_earlier_than_expiration
      (Machine.run_reachable_by (.start ⟨0, rfl⟩) (by decide) hs)

/-- The event of `motdReloadTask`, one minute ahead, added while the thread is in the untimed
wait of an empty queue. -/
def motdReloadEvent : SchedulerTask := (createSchedulerTask 0 0 60000).setEventId 1

def untimedTrace : List Event :=
  [.test, .lock, .wait none, .call 0 60000, .callerLock 0, .push 0 true, .callerUnlock 0,
    .notify 0, .wake false, .relock, .pop motdReloadEvent, .unlock, .finish]

/-- The wait on the empty queue leaves `action` false, so its notification is taken for a
timeout and the event that was just added is handed over at once. -/
theorem scheduler_fires_early : ¬ ∀ s, machine.Reachable s → HandedOnTime s := by
  intro hall
  have hr : (machine.run (initial 0) untimedTrace).isSome := by decide
  obtain ⟨s, hs⟩ := Option.isSome_iff_exists.mp hr
  have hm : ∀ u ∈ machine.run (initial 0) untimedTrace,
      .handed motdReloadEvent 0 ∈ u.history := by decide
  have hle := hall s (Machine.run_reachable (.start ⟨0, rfl⟩) hs) _ _ (hm s hs)
  revert hle
  decide

/-- The side condition leaves out nothing else: where a step breaks it, the thread can go on at
once and hands the event over early, unless it was stopped meanwhile. -/
theorem untimed_pop_fires_early {s : State} {t : SchedulerTask}
    (hw : s.thread = .resumed .untimed false) (hrun : s.m_threadState ≠ .STATE_TERMINATED)
    (htop : IsTop t s.m_eventList) (hid : t.getEventId ∈ s.m_eventIds)
    (hearly : s.now < t.getCycle) :
    ∃ u, machine.run s [.pop t, .unlock, .finish] = some u ∧ ¬ HandedOnTime u := by
  let u := finishLoop { popTop s t with
    thread := .unlocked (some (t, true)), m_eventLock := none } (some (t, true))
  refine ⟨u, ?_, ?_⟩
  · simp [Machine.run, machine, step, hw, hrun, htop, popTop, hid, u]
  · intro hon
    have hle := hon t s.now (by simp [u, finishLoop, popTop])
    rw [← t.expires] at hle
    exact absurd hearly (Nat.not_lt.mpr hle)

end LoginServer.Scheduler
