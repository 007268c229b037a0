import LoginServer.FeedOrder
import LoginServer.SchedulerEvents

/-! # The last use of an added event

`addEvent` reads the id of its task once more when it no longer holds the lock. By then the
scheduler thread may have deleted the task as a stopped one, or the dispatcher may have got, run
and deleted it. The pointers of the deleted events are kept beside the two machines. All these
deletions go back to a pop of the scheduler thread, so a call whose task is not popped before it
returns reads a task that is there, whatever is stopped, handed on or run meanwhile. -/
namespace LoginServer.Lifetime

open Runs
open Scheduler (SchedulerTask createSchedulerTask)
open Feed (eventOf outer)

structure State where
  feed : Feed.State
  deleted : List ℕ

/-- The event that the step deletes: a refused one by its caller, a stopped one by the scheduler
thread, one that has run or expired by the dispatcher thread, and one that the dispatcher does
not take any more. -/
def deletedBy (s : Feed.State) : Feed.Event → Option ℕ
  | .scheduler (.callerUnlock i) =>
    match s.scheduler.callers i with
    | .refused t => some t.ptr
    | _ => none
  | .scheduler .finish =>
    match s.scheduler.thread with
    | .unlocked (some (t, false)) => some t.ptr
    | _ => none
  | .dispatcher (.push i) =>
    match s.dispatcher.callers i with
    | .locked t _ =>
      if s.dispatcher.m_threadState = .STATE_RUNNING then none
      else (eventOf t).map SchedulerTask.ptr
    | _ => none
  | .dispatcher (.next now) =>
    match s.dispatcher.thread with
    | .unlocked (some t) => if t.hasExpired now then (eventOf t).map SchedulerTask.ptr else none
    | _ => none
  | .dispatcher .finish =>
    match s.dispatcher.thread with
    | .running t => (eventOf t).map SchedulerTask.ptr
    | _ => none
  | _ => none

def step (s : State) (e : Feed.Event) : Option State :=
  (Feed.step s.feed e).map fun u => ⟨u, (deletedBy s.feed e).toList ++ s.deleted⟩

def machine : Machine State Feed.Event where
  start s := Feed.machine.start s.feed ∧ s.deleted = []
  step := step

/-- The task of a caller between its push and its return. -/
def inCall (s : State) (i : ℕ) : Option SchedulerTask := (s.feed.scheduler.callers i).queued

/-- Whenever a caller returns, its task is there, and the answer is the id it was queued under. -/
def ReadsLive (s : State) : Prop :=
  ∀ i u, step s (.scheduler (.callerReturn i)) = some u →
    ∃ t, s.feed.scheduler.callers i = .returning t ∧ t.ptr ∉ s.deleted ∧
      .queued t ∈ s.feed.scheduler.history ∧
      u.feed.scheduler.history = s.feed.scheduler.history ++ [.returned t.ptr t.getEventId]

def popped : Feed.Event → Option SchedulerTask
  | .scheduler (.pop t) => some t
  | _ => none

/-- The scheduler thread pops an event only when the `addEvent` call that queued it has returned. -/
def PopsReturned (s : State) (e : Feed.Event) : Prop :=
  ∀ t ∈ popped e, .returned t.ptr t.getEventId ∈ s.feed.scheduler.history

instance (s : State) (e : Feed.Event) : Decidable (PopsReturned s e) :=
  inferInstanceAs (Decidable (∀ t ∈ popped e, _ ∈ _))

/-- The step does not delete an event in a call. -/
def Timely (s : State) (e : Feed.Event) : Prop :=
  ∀ p ∈ deletedBy s.feed e, ∀ i, ∀ t ∈ inCall s i, t.ptr ≠ p

section Scheduler

variable {s u : Scheduler.State} {e : Scheduler.Event}

theorem step_queued (hs : Scheduler.step s e = some u) {i : ℕ} {t : SchedulerTask}
    (ht : (u.callers i).queued = some t) :
    (s.callers i).queued = some t ∨
      (∃ signal, e = .push i signal) ∧ .queued t ∈ u.history ∧
        ∃ v, (s.callers i).held = some v ∧ t.ptr = v.ptr := by
  cases Scheduler.step_effect hs with
  | @push j signal v hc _ _ =>
    rw [Scheduler.pushed_callers] at ht
    by_cases hij : i = j
    · subst hij
      right
      have hv : (s.assignId v).2 = t := by
        simpa [Scheduler.State.setCaller, Scheduler.CallerPlace.queued] using ht
      refine ⟨⟨signal, rfl⟩, ?_, v, by rw [hc]; rfl, by rw [← hv, Scheduler.assignId_ptr]⟩
      rw [Scheduler.pushed_history, hv]
      exact List.mem_append_right _ (List.mem_singleton_self _)
    · left
      simpa [Scheduler.State.setCaller, hij] using ht
  | call _ _ _ | callerLock _ _ | refuse _ _ | drop _ | callerReturn _ =>
    refine Or.inl (Scheduler.view_setCaller Scheduler.CallerPlace.queued (s := s) rfl ?_ i t ht)
    intro t h
    cases h
  | callerUnlock hc | notify hc _ | quiet hc _ =>
    refine Or.inl (Scheduler.view_setCaller Scheduler.CallerPlace.queued (s := s) rfl ?_ i t ht)
    rw [hc]
    exact fun _ => id
  | _ => exact Or.inl ht

def callerPtr : Scheduler.CallerPlace → Option ℕ
  | .outside => none
  | .entering t | .locked t | .pushed t _ | .refused t | .unlocked t _ | .returning t => some t.ptr

def called (s : Scheduler.State) (i : ℕ) : Option ℕ := callerPtr (s.callers i)

theorem called_of_queued {i : ℕ} {t : SchedulerTask} (h : (s.callers i).queued = some t) :
    called s i = some t.ptr := by
  unfold called
  cases hplace : s.callers i <;> rw [hplace] at h <;> cases h <;> rfl

theorem step_called (hs : Scheduler.step s e = some u) {i p : ℕ} (hp : called u i = some p) :
    called s i = some p ∨ (∃ delay, e = .call i delay) ∧ p = s.allocated := by
  cases Scheduler.step_effect hs with
  | @call j delay _ =>
    by_cases hij : i = j
    · subst hij
      have he : some s.allocated = some p := by
        simpa [called, callerPtr, createSchedulerTask, Scheduler.State.setCaller] using hp
      exact Or.inr ⟨⟨delay, rfl⟩, (Option.some.inj he).symm⟩
    · left
      simpa [called, Scheduler.State.setCaller, hij] using hp
  | @push j signal v hc _ _ =>
    have hcallers := Scheduler.pushed_callers s j signal v
    refine Or.inl (Scheduler.view_setCaller callerPtr hcallers (fun p hp => ?_) i p hp)
    rw [hc]
    exact (congrArg some (Scheduler.assignId_ptr s v)).symm.trans hp
  | callerLock hc _ | refuse hc _ | callerUnlock hc | notify hc _ | quiet hc _ =>
    refine Or.inl (Scheduler.view_setCaller callerPtr (s := s) rfl ?_ i p hp)
    rw [hc]
    exact fun _ => id
  | drop _ | callerReturn _ =>
    refine Or.inl (Scheduler.view_setCaller callerPtr (s := s) rfl ?_ i p hp)
    intro p hp
    cases hp
  | _ => exact Or.inl hp

theorem step_returned (hs : Scheduler.step s e = some u) {p eventId : ℕ}
    (hp : .returned p eventId ∈ u.history) : .returned p eventId ∈ s.history ∨
      ∃ i, e = .callerReturn i ∧ called s i = some p ∧ called u i = none := by
  cases Scheduler.step_effect hs with
  | @callerReturn i t hc =>
    rcases List.mem_append.mp hp with hp | hp
    · exact Or.inl hp
    · obtain ⟨rfl, -⟩ := Scheduler.Record.returned.inj (List.mem_singleton.mp hp)
      refine Or.inr ⟨i, rfl, by rw [called, hc]; rfl, ?_⟩
      simp [called, callerPtr, Scheduler.State.setCaller]
  | push _ _ _ =>
    left
    rw [Scheduler.pushed_history] at hp
    simpa using hp
  | drop _ | stopFound _ _ | stopMissed _ | hand _ | discard _ =>
    left
    simpa [Scheduler.State.setCaller] using hp
  | _ => exact Or.inl hp

/-- No two calls have the same task, and no call has one whose call has returned. -/
structure CallsApart (s : Scheduler.State) : Prop where
  old : ∀ i p, called s i = some p → p < s.allocated
  apart : ∀ i j p, called s i = some p → called s j = some p → i = j
  returned : ∀ p eventId, .returned p eventId ∈ s.history →
    p < s.allocated ∧ ∀ i, called s i ≠ some p

theorem step_callsApart (h : CallsApart s) (hs : Scheduler.step s e = some u) : CallsApart u := by
  have hle := Scheduler.step_allocated hs
  constructor
  · intro i p hp
    rcases step_called hs hp with hbefore | ⟨⟨delay, rfl⟩, rfl⟩
    · exact Nat.lt_of_lt_of_le (h.old i p hbefore) hle
    · cases Scheduler.step_effect hs with
      | call _ _ _ => exact Nat.lt_succ_self _
  · intro i j p hi hj
    rcases step_called hs hi with hi | ⟨⟨delay, rfl⟩, rfl⟩
    · rcases step_called hs hj with hj | ⟨-, rfl⟩
      · exact h.apart i j p hi hj
      · exact absurd (h.old i _ hi) (lt_irrefl _)
    · rcases step_called hs hj with hj | ⟨⟨_, he⟩, -⟩
      · exact absurd (h.old j _ hj) (lt_irrefl _)
      · exact (Scheduler.Event.call.inj he).1
  · intro p eventId hp
    rcases step_returned hs hp with hbefore | ⟨j, rfl, hj, hnone⟩
    · obtain ⟨hlt, hcalled⟩ := h.returned p eventId hbefore
      refine ⟨Nat.lt_of_lt_of_le hlt hle, fun i hi => ?_⟩
      rcases step_called hs hi with hi | ⟨-, rfl⟩
      · exact hcalled i hi
      · exact absurd hlt (lt_irrefl _)
    · refine ⟨Nat.lt_of_lt_of_le (h.old j p hj) hle, fun i hi => ?_⟩
      rcases step_called hs hi with hi' | ⟨⟨_, he⟩, -⟩
      · obtain rfl := h.apart i j p hi' hj
        rw [hnone] at hi
        cases hi
      · cases he

theorem step_return {i : ℕ} (hs : Scheduler.step s (.callerReturn i) = some u) :
    ∃ t, s.callers i = .returning t ∧
      u.history = s.history ++ [.returned t.ptr t.getEventId] := by
  cases Scheduler.step_effect hs with
  | callerReturn hc => exact ⟨_, hc, rfl⟩

theorem step_refused {i : ℕ} {t : SchedulerTask} (hc : s.callers i = .refused t)
    (hs : Scheduler.step s (.callerUnlock i) = some u) : (u.callers i).held = none := by
  cases Scheduler.step_effect hs with
  | callerUnlock hc' => cases hc.symm.trans hc'
  | drop _ => simp [Scheduler.State.setCaller, Scheduler.CallerPlace.held]

theorem step_refused_callers {i j : ℕ} {t : SchedulerTask} (hc : s.callers j = .refused t)
    (hs : Scheduler.step s (.callerUnlock j) = some u) (hij : i ≠ j) :
    u.callers i = s.callers i := by
  cases Scheduler.step_effect hs with
  | callerUnlock hc' => cases hc.symm.trans hc'
  | drop _ => simp [Scheduler.State.setCaller, Scheduler.State.record, hij]

theorem step_finish_callers (hs : Scheduler.step s .finish = some u) : u.callers = s.callers := by
  cases Scheduler.step_effect hs with
  | again _ | hand _ | discard _ => rfl

end Scheduler

section Dispatcher

variable {d v : Feed.Dispatch} {e : Dispatcher.Event Feed.Callback}

def RunsExecuted (d : Feed.Dispatch) : Prop :=
  ∀ t, d.thread = .running t → t ∈ Dispatcher.executed d

theorem RunsExecuted.frame (h : RunsExecuted d) (ht : v.thread = d.thread)
    (hh : d.history <+: v.history) : RunsExecuted v := by
  intro t hrun
  rw [ht] at hrun
  exact (hh.filterMap _).subset (h t hrun)

theorem step_runsExecuted (h : RunsExecuted d) (hs : Dispatcher.step d e = some v) :
    RunsExecuted v := by
  cases Dispatcher.step_effect hs with
  | call _ _ _ _ | callerLock _ _ | callerUnlock _ | quiet _ | stop _ =>
    exact h.frame rfl List.prefix_rfl
  | @push i t front _ =>
    unfold Dispatcher.addTask
    split
    · exact h.frame rfl (List.prefix_append _ _)
    · exact h.frame rfl (List.prefix_append _ _)
  | notify _ =>
    intro t hrun
    rcases Dispatcher.signalled_thread d with hth | ⟨-, hth⟩
    · exact h t (hth.symm.trans hrun)
    · cases hth.symm.trans hrun
  | test _ =>
    intro t hrun
    dsimp only at hrun
    split at hrun <;> cases hrun
  | take _ =>
    intro t hrun
    unfold Dispatcher.takeTask at hrun
    split at hrun
    · cases hrun
    · split at hrun <;> cases hrun
  | @next o now _ =>
    intro t hrun
    cases o with
    | none => cases hrun
    | some x =>
      unfold Dispatcher.nextTask at hrun ⊢
      dsimp only at hrun ⊢
      split at hrun
      · cases hrun
      · rename_i hlive
        obtain rfl := Dispatcher.Place.running.inj hrun
        rw [if_neg hlive]
        simp [Dispatcher.executed, Dispatcher.State.record, Dispatcher.Record.executedTask]
  | _ =>
    intro t hrun
    cases hrun

end Dispatcher

section Feed

variable {f g : Feed.State} {e : Feed.Event} {p : ℕ}

theorem step_feed_runsExecuted (h : RunsExecuted f.dispatcher) (hs : Feed.step f e = some g) :
    RunsExecuted g.dispatcher := by
  cases Feed.step_effect hs with
  | scheduler _ _ _ => exact h
  | handOver _ _ hd | dispatcher _ hd => exact step_runsExecuted h hd

theorem outer_of_executed (h : Feed.Sound f) {x : SchedulerTask}
    (hx : x ∈ Feed.executedEvents f.dispatcher ++ (Feed.pendingEvent f.dispatcher).toList) :
    x.ptr ∈ outer f.dispatcher := by
  rw [← h.feed.executing] at hx
  exact Feed.outer_of_lined (List.mem_append_left _ hx)

/-- The events that have left the scheduler's queue by a pop: with its thread or the dispatcher. -/
def away (f : Feed.State) : List ℕ :=
  (f.scheduler.carried.map fun o => o.1.ptr).toList ++ outer f.dispatcher

theorem away_owned (f : Feed.State) : away f ⊆ Scheduler.ptrs f.scheduler ++ outer f.dispatcher := by
  apply List.append_subset.mpr
  refine ⟨fun p hp => ?_, List.subset_append_right _ _⟩
  exact List.mem_append_left _ (List.mem_append_left _ (List.mem_append_right _ hp))

theorem step_away (h : Feed.Sound f) (hs : Feed.step f e = some g) (hp : p ∈ away g) :
    p ∈ away f ∨ ∃ t, e = .scheduler (.pop t) ∧ p = t.ptr := by
  cases Feed.step_effect hs with
  | @scheduler e' v _ _ hv =>
    rcases List.mem_append.mp hp with hp | hp
    · obtain ⟨⟨x, run⟩, hx, rfl⟩ := Option.map_eq_some_iff.mp (Option.mem_toList.mp hp)
      rcases Scheduler.step_carried hv hx with hc | ⟨rfl, -⟩
      · refine Or.inl (List.mem_append_left _ ?_)
        simp [hc]
      · exact Or.inr ⟨x, rfl, rfl⟩
    · exact Or.inl (List.mem_append_right _ hp)
  | @handOver t d ht hc hd =>
    obtain ⟨hfed, hline, -⟩ := Feed.handOver_effect hd
    have hcarried : f.scheduler.carried = some (t, true) := by simp [Scheduler.State.carried, ht]
    have houter : outer d = t.ptr :: outer f.dispatcher := by
      simp [outer, hfed, hline, Feed.fed_of_outside hc]
    left
    rw [away, houter] at hp
    rw [away, hcarried]
    exact hp
  | @dispatcher e' d hpermitted hd =>
    have hshift := Feed.step_shifts h.feed (fun i _ _ _ he => (hpermitted.callers he).1) hd
    left
    rcases List.mem_append.mp hp with hp | hp
    · exact List.mem_append_left _ hp
    · exact List.mem_append_right _ (hshift.outer_subperm.subset hp)

inductive Deletes (f : Feed.State) : Feed.Event → ℕ → Prop
  | refused {i t} : f.scheduler.callers i = .refused t →
      Deletes f (.scheduler (.callerUnlock i)) t.ptr
  | stopped {t} : f.scheduler.thread = .unlocked (some (t, false)) →
      Deletes f (.scheduler .finish) t.ptr
  | closed {i t front x} : f.dispatcher.callers i = .locked t front → eventOf t = some x →
      Deletes f (.dispatcher (.push i)) x.ptr
  | expired {now t x} : f.dispatcher.thread = .unlocked (some t) → eventOf t = some x →
      Deletes f (.dispatcher (.next now)) x.ptr
  | executed {t x} : f.dispatcher.thread = .running t → eventOf t = some x →
      Deletes f (.dispatcher .finish) x.ptr

theorem deletes_of_deletedBy (hp : deletedBy f e = some p) : Deletes f e p := by
  unfold deletedBy at hp
  split at hp
  · split at hp
    · rename_i t ht
      cases hp
      exact .refused ht
    · cases hp
  · split at hp
    · rename_i t ht
      cases hp
      exact .stopped ht
    · cases hp
  · split at hp
    · rename_i t front ht
      split at hp
      · cases hp
      · obtain ⟨x, hx, rfl⟩ := Option.map_eq_some_iff.mp hp
        exact .closed ht hx
    · cases hp
  · split at hp
    · rename_i t ht
      split at hp
      · obtain ⟨x, hx, rfl⟩ := Option.map_eq_some_iff.mp hp
        exact .expired ht hx
      · cases hp
    · cases hp
  · split at hp
    · rename_i t ht
      obtain ⟨x, hx, rfl⟩ := Option.map_eq_some_iff.mp hp
      exact .executed ht hx
    · cases hp
  · cases hp

theorem deletedBy_cases (h : Feed.Sound f) (hr : RunsExecuted f.dispatcher)
    (hp : deletedBy f e = some p) :
    (∃ i t, e = .scheduler (.callerUnlock i) ∧ f.scheduler.callers i = .refused t ∧ p = t.ptr) ∨
      p ∈ away f := by
  cases deletes_of_deletedBy hp with
  | @refused i t ht => exact Or.inl ⟨i, t, rfl, ht, rfl⟩
  | stopped ht =>
    refine Or.inr (List.mem_append_left _ ?_)
    simp [Scheduler.State.carried, ht]
  | @closed i t front x ht hx =>
    by_cases hi : i = 0
    · subst hi
      have hfed : Feed.fed f.dispatcher = some x := by
        simp only [Feed.fed, ht, Dispatcher.CallerPlace.task, Option.bind_some]
        exact hx
      exact Or.inr (List.mem_append_right _ (Feed.outer_of_fed hfed))
    · cases (h.feed.others i t front hi (Or.inr ht)).symm.trans hx
  | @expired now t x ht hx =>
    have hpending : Feed.pendingEvent f.dispatcher = some x := by
      simp only [Feed.pendingEvent, ht, hx]
    refine Or.inr (List.mem_append_right _ (outer_of_executed h ?_))
    rw [hpending]
    exact List.mem_append_right _ (List.mem_singleton_self x)
  | @executed t x ht hx =>
    have hexecuted : x ∈ Feed.executedEvents f.dispatcher :=
      List.mem_filterMap.mpr ⟨t, hr t ht, hx⟩
    exact Or.inr (List.mem_append_right _
      (outer_of_executed h (List.mem_append_left _ hexecuted)))

end Feed

variable {s u : State} {e : Feed.Event}

/-- What is deleted is with no caller any more, and was made before. -/
structure Deleted (s : State) : Prop where
  sound : Feed.Sound s.feed
  executed : RunsExecuted s.feed.dispatcher
  old : ∀ p ∈ s.deleted, p < s.feed.scheduler.allocated
  held : ∀ i t, (s.feed.scheduler.callers i).held = some t → t.ptr ∉ s.deleted

theorem step_feed (hs : step s e = some u) :
    Feed.step s.feed e = some u.feed ∧ u.deleted = (deletedBy s.feed e).toList ++ s.deleted := by
  obtain ⟨g, hg, rfl⟩ := Option.map_eq_some_iff.mp hs
  exact ⟨hg, rfl⟩

theorem initial_deleted (h : machine.start s) : Deleted s := by
  obtain ⟨hstart, hnone⟩ := h
  have hsound := Feed.initial_sound hstart
  obtain ⟨now, hfeed⟩ := hstart
  refine ⟨hsound, ?_, ?_, ?_⟩
  · rw [hfeed]
    intro t hrun
    cases hrun
  · rw [hnone]
    intro p hp
    cases hp
  · rw [hnone]
    exact fun i t _ => List.not_mem_nil

theorem Deleted.lt (h : Deleted s) {p : ℕ} (hp : deletedBy s.feed e = some p) :
    p < s.feed.scheduler.allocated := by
  rcases deletedBy_cases h.sound h.executed hp with ⟨i, t, -, ht, rfl⟩ | hmem
  · exact (h.sound.owned.held i t (by rw [ht]; rfl)).1
  · exact h.sound.owned.lt p (away_owned _ hmem)

theorem allocated_le (hs : Feed.step s.feed e = some u.feed) :
    s.feed.scheduler.allocated ≤ u.feed.scheduler.allocated := by
  rcases Feed.step_scheduler hs with ⟨-, heq⟩ | ⟨e', -, hstep⟩
  · rw [heq]
  · exact Scheduler.step_allocated hstep

theorem Deleted.step_held (h : Deleted s) (hs : Feed.step s.feed e = some u.feed) {i : ℕ}
    {t : SchedulerTask} (ht : (u.feed.scheduler.callers i).held = some t) :
    t.ptr ∉ (deletedBy s.feed e).toList ++ s.deleted := by
  rw [List.mem_append, Option.mem_toList, not_or]
  have hbefore : (s.feed.scheduler.callers i).held = some t ∨
      t.ptr = s.feed.scheduler.allocated := by
    rcases Feed.step_scheduler hs with ⟨-, heq⟩ | ⟨e', -, hstep⟩
    · exact Or.inl (heq ▸ ht)
    · exact Scheduler.step_held hstep ht
  rcases hbefore with hheld | hnew
  · refine ⟨?_, h.held i t hheld⟩
    intro hp
    rcases deletedBy_cases h.sound h.executed hp with ⟨j, v, rfl, hv, hptr⟩ | hmem
    · obtain rfl := h.sound.owned.apart i j t v hheld (by rw [hv]; rfl) hptr
      rcases Feed.step_scheduler hs with ⟨⟨_, he⟩, -⟩ | ⟨e', he, hstep⟩
      · cases he
      · obtain rfl := Feed.Event.scheduler.inj he
        cases ht.symm.trans (step_refused hv hstep)
    · exact (h.sound.owned.held i t hheld).2 (away_owned _ hmem)
  · rw [hnew]
    exact ⟨fun hp => absurd (h.lt hp) (lt_irrefl _), fun hp => absurd (h.old _ hp) (lt_irrefl _)⟩

theorem step_deleted (h : Deleted s) (hs : step s e = some u) : Deleted u := by
  obtain ⟨hfeed, hdeleted⟩ := step_feed hs
  refine ⟨Feed.step_sound h.sound hfeed, step_feed_runsExecuted h.executed hfeed, ?_, ?_⟩
  · intro p hp
    rw [hdeleted, List.mem_append, Option.mem_toList] at hp
    rcases hp with hp | hp
    · exact Nat.lt_of_lt_of_le (h.lt hp) (allocated_le hfeed)
    · exact Nat.lt_of_lt_of_le (h.old p hp) (allocated_le hfeed)
  · intro i t ht
    rw [hdeleted]
    exact h.step_held hfeed ht

/-- Every task in a call is there, and has been queued as it is. -/
def CallsLive (s : State) : Prop :=
  ∀ i, ∀ t ∈ inCall s i, t.ptr ∉ s.deleted ∧ .queued t ∈ s.feed.scheduler.history

theorem step_callsLive (h : Deleted s) (hl : CallsLive s) (hok : Timely s e)
    (hs : step s e = some u) : CallsLive u := by
  obtain ⟨hfeed, hdeleted⟩ := step_feed hs
  intro i t ht
  have hkeep : t ∈ inCall s i → t.ptr ∉ u.deleted := by
    intro hin
    rw [hdeleted, List.mem_append, Option.mem_toList, not_or]
    exact ⟨fun hp => hok _ hp i t hin rfl, (hl i t hin).1⟩
  rcases Feed.step_scheduler hfeed with ⟨-, heq⟩ | ⟨e', rfl, hstep⟩
  · have hin : t ∈ inCall s i := by
      unfold inCall at ht ⊢
      rwa [heq] at ht
    exact ⟨hkeep hin, heq ▸ (hl i t hin).2⟩
  · rcases step_queued hstep ht with hin | ⟨⟨signal, rfl⟩, hqueued, v, hv, hptr⟩
    · exact ⟨hkeep hin, (Scheduler.step_history hstep).subset (hl i t hin).2⟩
    · refine ⟨?_, hqueued⟩
      rw [hdeleted, hptr]
      exact h.held i v hv

/-- A task in a call has not been popped. -/
structure CallsQueued (s : State) : Prop where
  apart : CallsApart s.feed.scheduler
  queued : ∀ i, ∀ t ∈ inCall s i, t.ptr ∉ away s.feed

theorem step_callsQueued (hd : Deleted s) (h : CallsQueued s) (hok : PopsReturned s e)
    (hs : step s e = some u) : CallsQueued u := by
  obtain ⟨hfeed, -⟩ := step_feed hs
  rcases Feed.step_scheduler hfeed with ⟨⟨e', rfl⟩, heq⟩ | ⟨e', rfl, hstep⟩
  · refine ⟨heq ▸ h.apart, fun i t ht haway => ?_⟩
    have hin : t ∈ inCall s i := by
      unfold inCall at ht ⊢
      rwa [heq] at ht
    rcases step_away hd.sound hfeed haway with hbefore | ⟨v, he, -⟩
    · exact h.queued i t hin hbefore
    · cases he
  · refine ⟨step_callsApart h.apart hstep, fun i t ht haway => ?_⟩
    rcases step_queued hstep ht with hin | ⟨⟨signal, rfl⟩, -, v, hv, hptr⟩
    · rcases step_away hd.sound hfeed haway with hbefore | ⟨v, he, hptr⟩
      · exact h.queued i t hin hbefore
      · obtain rfl := Feed.Event.scheduler.inj he
        -- the popped event has been returned, so no call has it any more
        exact (h.apart.returned v.ptr _ (hok v rfl)).2 i (hptr ▸ called_of_queued hin)
    · rw [hptr] at haway
      rcases step_away hd.sound hfeed haway with hbefore | ⟨x, he, -⟩
      · exact (hd.sound.owned.held i v hv).2 (away_owned _ hbefore)
      · cases he

/-- Then no step deletes a task in a call: it is neither refused nor popped. -/
theorem CallsQueued.timely (h : CallsQueued s) (hd : Deleted s) (e : Feed.Event) : Timely s e := by
  intro p hp i t ht heq
  rcases deletedBy_cases hd.sound hd.executed hp with ⟨j, v, -, hv, rfl⟩ | haway
  · have hcalled : called s.feed.scheduler j = some v.ptr := by rw [called, hv]; rfl
    obtain rfl := h.apart.apart i j v.ptr (heq ▸ called_of_queued ht) hcalled
    rw [inCall, hv] at ht
    cases ht
  · exact h.queued i t ht (heq ▸ haway)

theorem callsLive_readsLive (h : CallsLive s) : ReadsLive s := by
  intro i u hs
  obtain ⟨hfeed, -⟩ := step_feed hs
  rcases Feed.step_scheduler hfeed with ⟨⟨_, he⟩, -⟩ | ⟨e', he, hstep⟩
  · cases he
  · obtain rfl := Feed.Event.scheduler.inj he
    obtain ⟨t, ht, hhistory⟩ := step_return hstep
    have hin : t ∈ inCall s i := by
      rw [inCall, ht]
      rfl
    obtain ⟨hlive, hqueued⟩ := h i t hin
    exact ⟨t, ht, hlive, hqueued, hhistory⟩

theorem initial_calls (h : machine.start s) : CallsQueued s ∧ CallsLive s := by
  obtain ⟨⟨now, hfeed⟩, -⟩ := h
  have hplaces : s.feed.scheduler = Scheduler.initial now := by rw [hfeed]
  have hnone : ∀ i t, t ∉ inCall s i := by
    intro i t ht
    rw [inCall, hplaces] at ht
    cases ht
  refine ⟨⟨?_, fun i t ht => absurd ht (hnone i t)⟩, fun i t ht => absurd ht (hnone i t)⟩
  rw [hplaces]
  refine ⟨nofun, nofun, fun p eventId hp => ?_⟩
  cases hp

/-- In a run in which no event is popped before its call has returned, no caller reads an event
that is deleted. -/
theorem reads_live (h : machine.ReachableBy PopsReturned s) : ReadsLive s := by
  have hall : Deleted s ∧ CallsQueued s ∧ CallsLive s := by
    refine Machine.invariant_by (I := fun s => Deleted s ∧ CallsQueued s ∧ CallsLive s) ?_ ?_ h
    · intro s hstart
      obtain ⟨hqueued, hlive⟩ := initial_calls hstart
      exact ⟨initial_deleted hstart, hqueued, hlive⟩
    · intro s e u ⟨hd, hq, hl⟩ hok hs
      exact ⟨step_deleted hd hs, step_callsQueued hd hq hok hs,
        step_callsLive hd hl (hq.timely hd e) hs⟩
  exact callsLive_readsLive hall.2.2

/-! ## A deletion in a call is fatal -/

theorem deletedBy_scheduler {f : Feed.State} {e' : Scheduler.Event} {p : ℕ}
    (hp : deletedBy f (.scheduler e') = some p) :
    e' = .finish ∨ ∃ j v, e' = .callerUnlock j ∧ f.scheduler.callers j = .refused v := by
  cases deletes_of_deletedBy hp with
  | @refused j v hv => exact Or.inr ⟨j, v, rfl, hv⟩
  | stopped _ => exact Or.inl rfl

theorem callers_of_deletedBy {f g : Feed.State} {p i : ℕ} {t : SchedulerTask}
    (hp : deletedBy f e = some p) (hs : Feed.step f e = some g)
    (ht : (f.scheduler.callers i).queued = some t) :
    g.scheduler.callers i = f.scheduler.callers i := by
  rcases Feed.step_scheduler hs with ⟨-, heq⟩ | ⟨e', rfl, hstep⟩
  · rw [heq]
  · rcases deletedBy_scheduler hp with rfl | ⟨j, v, rfl, hv⟩
    · rw [step_finish_callers hstep]
    · refine step_refused_callers hv hstep ?_
      rintro rfl
      rw [hv] at ht
      cases ht

theorem caller_step {e' : Scheduler.Event} {v : Scheduler.State}
    (hthread : Feed.ofThread e' = false) (hv : Scheduler.step s.feed.scheduler e' = some v) :
    ∃ w, step s (.scheduler e') = some w ∧ w.feed.scheduler = v ∧ s.deleted ⊆ w.deleted := by
  have hnone : Feed.handedOver s.feed.scheduler e' = none := by
    cases hh : Feed.handedOver s.feed.scheduler e' with
    | none => rfl
    | some t =>
      rw [(Feed.handedOver_some hh).1] at hthread
      cases hthread
  have hfeed : Feed.step s.feed (.scheduler e') = some ⟨v, s.feed.dispatcher⟩ := by
    simp [Feed.step, hthread, hv, hnone]
  exact ⟨_, by rw [step, hfeed, Option.map_some], rfl, List.subset_append_right _ _⟩

theorem dead_returning {i : ℕ} {t : SchedulerTask}
    (ht : s.feed.scheduler.callers i = .returning t) (hp : t.ptr ∈ s.deleted) :
    ¬ ReadsLive s := by
  intro hlive
  have hstep : Scheduler.step s.feed.scheduler (.callerReturn i) =
      some ((s.feed.scheduler.record (.returned t.ptr t.getEventId)).setCaller i .outside) := by
    simp only [Scheduler.step, ht]
  obtain ⟨w, hw, -⟩ := caller_step rfl hstep
  obtain ⟨v, hv, hnot, -⟩ := hlive i w hw
  obtain rfl := Scheduler.CallerPlace.returning.inj (ht.symm.trans hv)
  exact hnot hp

theorem dead_unlocked {i : ℕ} {t : SchedulerTask} {signal : Bool}
    (ht : s.feed.scheduler.callers i = .unlocked t signal) (hp : t.ptr ∈ s.deleted) :
    ∃ es w, machine.run s es = some w ∧ ¬ ReadsLive w := by
  have hstep : ∃ v : Scheduler.State, Scheduler.step s.feed.scheduler (.notify i) =
      some (v.setCaller i (.returning t)) := by
    cases signal with
    | true => exact ⟨s.feed.scheduler.signalled, by simp only [Scheduler.step, ht]⟩
    | false => exact ⟨s.feed.scheduler, by simp only [Scheduler.step, ht]⟩
  obtain ⟨v, hv⟩ := hstep
  obtain ⟨w, hw, hwv, hsub⟩ := caller_step rfl hv
  have hreturning : w.feed.scheduler.callers i = .returning t := by
    rw [hwv]
    exact if_pos rfl
  exact ⟨[.scheduler (.notify i)], w, by simp [Machine.run, machine, hw],
    dead_returning hreturning (hsub hp)⟩

/-- A task that is deleted in its call is read in it, as soon as the call goes on. -/
theorem dead_in_call {i : ℕ} {t : SchedulerTask} (ht : t ∈ inCall s i) (hp : t.ptr ∈ s.deleted) :
    ∃ es w, machine.run s es = some w ∧ ¬ ReadsLive w := by
  rw [inCall, Option.mem_def] at ht
  cases hplace : s.feed.scheduler.callers i with
  | pushed v signal =>
    rw [hplace] at ht
    obtain rfl := Option.some.inj ht
    have hstep : Scheduler.step s.feed.scheduler (.callerUnlock i) =
        some ({ s.feed.scheduler with m_eventLock := none }.setCaller i (.unlocked v signal)) := by
      simp only [Scheduler.step, Scheduler.addEventUnlock, hplace]
    obtain ⟨w, hw, hwv, hsub⟩ := caller_step rfl hstep
    have hunlocked : w.feed.scheduler.callers i = .unlocked v signal := by
      rw [hwv]
      exact if_pos rfl
    obtain ⟨es, x, hx, hdead⟩ := dead_unlocked hunlocked (hsub hp)
    refine ⟨.scheduler (.callerUnlock i) :: es, x, ?_, hdead⟩
    exact Option.bind_eq_some_iff.mpr ⟨w, hw, hx⟩
  | unlocked v signal =>
    rw [hplace] at ht
    obtain rfl := Option.some.inj ht
    exact dead_unlocked hplace hp
  | returning v =>
    rw [hplace] at ht
    obtain rfl := Option.some.inj ht
    exact ⟨[], s, rfl, dead_returning hplace hp⟩
  | _ =>
    rw [hplace] at ht
    cases ht

/-- A step that is not timely lets a caller read a deleted task. -/
theorem untimely_reads_dead (hs : step s e = some u) (h : ¬ Timely s e) :
    ∃ es w, machine.run u es = some w ∧ ¬ ReadsLive w := by
  simp only [Timely, not_forall, Option.mem_def, not_not] at h
  obtain ⟨p, hp, i, t, ht, rfl⟩ := h
  obtain ⟨hfeed, hdeleted⟩ := step_feed hs
  have hin : t ∈ inCall u i := by
    rw [inCall, callers_of_deletedBy hp hfeed ht]
    exact ht
  apply dead_in_call hin
  rw [hdeleted, hp]
  exact List.mem_append_left _ (List.mem_singleton_self _)

def start : State := ⟨⟨Scheduler.initial 0, Dispatcher.initial⟩, []⟩

def callTrace : List Feed.Event :=
  [.call 0 0, .callerLock 0, .push 0 true, .callerUnlock 0, .notify 0].map .scheduler

def added : SchedulerTask := (createSchedulerTask 0 0 0).setEventId 1
def other : SchedulerTask := (createSchedulerTask 1 0 100).setEventId 2

/-- The event of a call that has returned is stopped, and the scheduler thread waits for it, pops
it and deletes it while another call is on its way back. -/
def stoppedTrace : List Feed.Event :=
  callTrace ++
    [.callerReturn 0, .stopEvent 1, .call 1 100, .callerLock 1, .push 1 false, .callerUnlock 1,
      .notify 1, .test, .lock, .wait (some added), .tick 50000, .wake false, .relock, .pop added,
      .unlock, .finish].map .scheduler

theorem call_reads_live : ∃ s, machine.run start stoppedTrace = some s ∧
    s.deleted = [added.ptr] ∧ s.feed.scheduler.callers 1 = .returning other ∧ ReadsLive s := by
  obtain ⟨s, hs, hdeleted, hreturning⟩ : ∃ s, machine.run start stoppedTrace = some s ∧
      s.deleted = [added.ptr] ∧ s.feed.scheduler.callers 1 = .returning other :=
    Machine.exists_run (by decide)
  exact ⟨s, hs, hdeleted, hreturning,
    reads_live (Machine.run_reachable_by (.start ⟨⟨0, rfl⟩, rfl⟩) (by decide) hs)⟩

/-- The thread waits on the empty queue and pops the event without waiting for its time; the
dispatcher runs and deletes it while the call is still on its way back. -/
def overtakenTrace : List Feed.Event :=
  [.test, .lock, .wait none].map .scheduler ++ callTrace ++
    [.wake false, .relock, .pop added, .unlock, .finish].map .scheduler ++
    [.callerLock 0, .push 0, .callerUnlock 0, .notify 0].map .dispatcher ++ Feed.execute 0

theorem overtaken_reads_dead : ¬ ∀ s, machine.Reachable s → ReadsLive s := by
  intro hall
  obtain ⟨s, hs, hc, hp⟩ : ∃ s, machine.run start overtakenTrace = some s ∧
      s.feed.scheduler.callers 0 = .returning added ∧ added.ptr ∈ s.deleted :=
    Machine.exists_run (by decide)
  exact dead_returning hc hp (hall s (Machine.run_reachable (.start ⟨⟨0, rfl⟩, rfl⟩) hs))

end LoginServer.Lifetime
