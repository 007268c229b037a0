import LoginServer.Feed

/-! # In which order the callbacks of two events run

Both events leave the scheduler's queue in the order of their expirations, and the later one
enters the dispatcher's list in front. What has been removed by then stays ahead of it; what
still waits falls behind it. So the order of two callbacks is decided in one step of the run. -/
namespace LoginServer.Feed

open Runs Lines
open Scheduler (SchedulerTask createSchedulerTask)
open scoped List

/-- The pointers of the events that the dispatcher has or is about to get. -/
def outer (d : Dispatch) : List ℕ :=
  ((fed d).toList ++ (eventLine d).all).map SchedulerTask.ptr

structure Sound (s : State) : Prop where
  owned : Scheduler.Owned s.scheduler (outer s.dispatcher)
  feed : Fed s.dispatcher

inductive Shifts (d v : Dispatch) : Dispatcher.Event Callback → Prop where
  | keep {e} : (eventLine v).all = (eventLine d).all → fed v = fed d →
      (v.m_threadState = d.m_threadState ∨ v.m_threadState ≠ .STATE_RUNNING) →
      (e = .push 0 → fed d = none) → Shifts d v e
  | push {t} : fed d = some t → d.m_threadState = .STATE_RUNNING →
      eventLine v = (eventLine d).pushFront t → fed v = none →
      v.m_threadState = d.m_threadState → Shifts d v (.push 0)
  | refuse {t} : fed d = some t → d.m_threadState ≠ .STATE_RUNNING →
      (eventLine v).all = (eventLine d).all → fed v = none →
      v.m_threadState = d.m_threadState → Shifts d v (.push 0)

theorem eventLine_all (d : Dispatch) :
    (eventLine d).all = ((Dispatcher.line d).all).filterMap eventOf := by
  simp [eventLine, Line.all, Dispatcher.line]

theorem fed_setCaller {d v : Dispatch} {i : ℕ} {p : Dispatcher.CallerPlace Callback}
    (hc : v.callers = (d.setCaller i p).callers)
    (hp : i = 0 → (p.task.bind eventOf) = fed d) : fed v = fed d := by
  by_cases hi : i = 0
  · subst hi
    have he := hp rfl
    rw [← he]
    simp only [fed, hc, Dispatcher.State.setCaller, if_true]
    rfl
  · simp [fed, hc, Dispatcher.State.setCaller, Ne.symm hi]

theorem addTask_shifts {d : Dispatch} {i : ℕ} {t : Dispatcher.Task Callback} {front : Bool}
    (h : Fed d) (hc : d.callers i = .locked t front) :
    Shifts d (Dispatcher.addTask d i t front) (.push i) := by
  by_cases hi : i = 0
  · subst hi
    obtain ⟨⟨x, hx⟩, _, rfl⟩ := h.own t front (Or.inr hc)
    have hfed : fed d = some x := by
      simp only [fed, hc, Dispatcher.CallerPlace.task, Option.bind_some]
      exact hx
    have hnone : ∀ signal, ∀ v : Dispatch, v.callers = (d.setCaller 0 (.pushed signal)).callers →
        fed v = none := by
      intro signal v hv
      simp [fed, hv, Dispatcher.State.setCaller, Dispatcher.CallerPlace.task]
    unfold Dispatcher.addTask
    split
    · rename_i hrun
      refine .push hfed hrun ?_ (hnone _ _ rfl) rfl
      have hr : Dispatcher.removed (({ d with m_taskList := t :: d.m_taskList }.record
          (.accepted t true)).setCaller 0 (.pushed d.m_taskList.isEmpty)) =
          Dispatcher.removed d := by
        simp [Dispatcher.removed, Dispatcher.State.setCaller, Dispatcher.State.record,
          Dispatcher.Record.removedTask]
      simp only [if_true, eventLine, hr, Line.pushFront]
      simp [Dispatcher.State.setCaller, Dispatcher.State.record, hx]
    · rename_i hrun
      refine .refuse hfed hrun ?_ (hnone _ _ rfl) rfl
      simp [eventLine, Line.all, Dispatcher.removed, Dispatcher.State.setCaller,
        Dispatcher.State.record, Dispatcher.Record.removedTask]
  · have ht := h.others i t front hi (Or.inr hc)
    have hfed : ∀ signal, ∀ v : Dispatch, v.callers = (d.setCaller i (.pushed signal)).callers →
        fed v = fed d := by
      intro signal v hv
      exact fed_setCaller hv fun h0 => absurd h0 hi
    have hne : Dispatcher.Event.push (α := Callback) i = .push 0 → fed d = none := by
      intro he
      exact absurd (Dispatcher.Event.push.inj he) hi
    unfold Dispatcher.addTask
    split
    · refine .keep ?_ (hfed _ _ rfl) (Or.inl rfl) hne
      cases front <;> simp [eventLine, Line.all, Dispatcher.removed, Dispatcher.State.setCaller,
        Dispatcher.State.record, Dispatcher.Record.removedTask, ht]
    · refine .keep ?_ (hfed _ _ rfl) (Or.inl rfl) hne
      simp [eventLine, Line.all, Dispatcher.removed, Dispatcher.State.setCaller,
        Dispatcher.State.record, Dispatcher.Record.removedTask]

theorem step_shifts {d v : Dispatch} {e : Dispatcher.Event Callback} (h : Fed d)
    (hcall : ∀ i front m_expiration callback, e = .call i front m_expiration callback → i ≠ 0)
    (hs : Dispatcher.step d e = some v) : Shifts d v e := by
  cases Dispatcher.step_effect hs with
  | push hc => exact addTask_shifts h hc
  | @call i front m_expiration callback _ =>
    refine .keep rfl (fed_setCaller rfl fun h0 => ?_) (Or.inl rfl) (by simp)
    exact absurd h0 (hcall i front m_expiration callback rfl)
  | @callerLock i t front hc _ =>
    refine .keep rfl (fed_setCaller rfl fun h0 => ?_) (Or.inl rfl) (by simp)
    subst h0
    simp only [fed, hc]
    rfl
  | @callerUnlock i signal hc =>
    refine .keep rfl (fed_setCaller rfl fun h0 => ?_) (Or.inl rfl) (by simp)
    subst h0
    simp only [fed, hc]
    rfl
  | @notify i hc | @quiet i hc =>
    refine .keep rfl (fed_setCaller (i := i) (p := .outside) rfl ?_) (Or.inl rfl) (by simp)
    rintro rfl
    simp only [fed, hc]
    rfl
  | stop _ => exact .keep rfl rfl (Or.inr (by simp)) (by simp)
  | take _ =>
    have hall : (eventLine (Dispatcher.takeTask d)).all = (eventLine d).all := by
      rw [eventLine_all, eventLine_all, Dispatcher.takeTask_line_all]
    refine .keep hall ?_ (Or.inl ?_) (by simp)
    · unfold Dispatcher.takeTask
      split
      · rfl
      · split <;> rfl
    · unfold Dispatcher.takeTask
      split
      · rfl
      · split <;> rfl
  | @next o now _ =>
    cases o with
    | none => exact .keep rfl rfl (Or.inl rfl) (by simp)
    | some t =>
      simp only [Dispatcher.nextTask] at hs ⊢
      split
      · exact .keep rfl rfl (Or.inl rfl) (by simp)
      · refine .keep ?_ rfl (Or.inl rfl) (by simp)
        simp [eventLine, Line.all, Dispatcher.removed, Dispatcher.State.record,
          Dispatcher.Record.removedTask]
  | _ => exact .keep rfl rfl (Or.inl rfl) (by simp)

def OnWay (x : SchedulerTask) (s : State) : Prop :=
  s.scheduler.carried = some (x, true) ∨ fed s.dispatcher = some x

def Dropped (x : SchedulerTask) (s : Scheduler.State) : Prop :=
  (∃ t, s.carried = some (t, false) ∧ t.ptr = x.ptr) ∨ x.ptr ∈ Scheduler.deletedPtrs s

/-- What becomes of the event is settled: it is in the line, dropped, or will not be accepted. -/
def Settled (x : SchedulerTask) (s : State) : Prop :=
  x ∈ (eventLine s.dispatcher).all ∨ Dropped x s.scheduler ∨
    s.dispatcher.m_threadState ≠ .STATE_RUNNING

/-- The later event is in the line ahead of the earlier one, or the earlier one is lost. -/
def Overtaken (a b : SchedulerTask) (s : State) : Prop :=
  [b, a] <+ (eventLine s.dispatcher).all ∨ Dropped a s.scheduler

/-- The two ways to go wrong: the later event is pushed in front while the earlier one still
waits in the list, or the earlier one is popped when `m_eventIds` has lost its id. -/
def InTurn (a b : SchedulerTask) (s : State) : Event → Prop
  | .scheduler (.pop t) => t = a → a.getEventId ∈ s.scheduler.m_eventIds
  | .dispatcher (.push i) => i = 0 → fed s.dispatcher = some b →
      s.dispatcher.m_threadState = .STATE_RUNNING → a ∉ (eventLine s.dispatcher).queue
  | _ => True

instance (a b : SchedulerTask) (s : State) (e : Event) : Decidable (InTurn a b s e) := by
  unfold InTurn
  split <;> infer_instance

structure Following (a b : SchedulerTask) (s : State) : Prop where
  known : a.ptr < s.scheduler.allocated ∧ b.ptr < s.scheduler.allocated
  released : ∀ i t, (s.scheduler.callers i).held = some t → t.ptr ≠ a.ptr ∧ t.ptr ≠ b.ptr
  named : ∀ t ∈ s.scheduler.m_eventList, t.ptr = a.ptr → t = a
  queued : b ∈ s.scheduler.m_eventList → a ∈ s.scheduler.m_eventList ∨ OnWay a s ∨ Settled a s
  coming : OnWay b s → Settled a s
  lined : b ∈ (eventLine s.dispatcher).all →
    a ∈ (eventLine s.dispatcher).all ∨ Dropped a s.scheduler

section Scheduler

variable {s u : Scheduler.State} {e : Scheduler.Event} {a : SchedulerTask}

theorem step_dropped (hh : ∀ i t, (s.callers i).held = some t → t.ptr ≠ a.ptr)
    (hn : ∀ t ∈ s.m_eventList, t.ptr = a.ptr → t = a) (hs : Scheduler.step s e = some u) :
    Dropped a u ↔ Dropped a s ∨ e = .pop a ∧ a.getEventId ∉ s.m_eventIds := by
  have hsame : u.carried = s.carried → Scheduler.deletedPtrs u = Scheduler.deletedPtrs s →
      (∀ t, e ≠ .pop t) →
      (Dropped a u ↔ Dropped a s ∨ e = .pop a ∧ a.getEventId ∉ s.m_eventIds) := by
    intro hc hd he
    simp only [Dropped, hc, hd, he a, false_and, or_false]
  cases Scheduler.step_effect hs with
  | tick _ | call _ _ _ | callerLock _ _ | refuse _ _ | callerUnlock _ | quiet _ _ | stop _
  | shutdown _ => exact hsame rfl rfl (by simp)
  | push _ _ _ =>
    refine hsame (by simp [Scheduler.State.carried]) ?_ (by simp)
    exact Scheduler.deletedPtrs_quiet (Scheduler.pushed_history _ _ _ _) rfl
  | @drop i t hi =>
    have hne := hh i t (by rw [hi]; rfl)
    have hd : Scheduler.deletedPtrs (({ s with m_eventLock := none }.record
        (.deleted t.ptr)).setCaller i .outside) = Scheduler.deletedPtrs s ++ [t.ptr] :=
      Scheduler.deletedPtrs_note (r := .deleted t.ptr) rfl
    have hc : (({ s with m_eventLock := none }.record (.deleted t.ptr)).setCaller i
        .outside).carried = s.carried := rfl
    simp [Dropped, hd, hc, hne.symm]
  | notify _ hw =>
    exact hsame (by simp [Scheduler.State.carried, Scheduler.State.setCaller, hw]) rfl (by simp)
  | callerReturn _ | stopFound _ _ | stopMissed _ =>
    exact hsame rfl (Scheduler.deletedPtrs_quiet rfl rfl) (by simp)
  | exit ht _ | test ht _ | lock ht _ | waitEmpty ht _ | waitTop ht _ | relock ht _
  | popEmpty ht _ _ | skip ht _ | unlock ht | again ht =>
    exact hsame (by simp [Scheduler.State.carried, ht]) rfl (by simp)
  | wake ht _ =>
    refine hsame ?_ rfl (by simp)
    rcases ht with ht | ht <;> simp [Scheduler.State.carried, ht]
  | @pop w t hw _ htop =>
    have hc : s.carried = none := by simp [Scheduler.State.carried, hw]
    have hc' : (Scheduler.popTop s t).carried =
      some (t, decide (t.getEventId ∈ s.m_eventIds)) := rfl
    have hd : Scheduler.deletedPtrs (Scheduler.popTop s t) = Scheduler.deletedPtrs s := rfl
    simp only [Dropped, hc, hc', hd, Option.some.injEq, Prod.mk.injEq, decide_eq_false_iff_not,
      Scheduler.Event.pop.injEq]
    constructor
    · rintro (⟨v, ⟨rfl, hid⟩, hv⟩ | hm)
      · obtain rfl := hn t htop.1 hv
        exact Or.inr ⟨rfl, hid⟩
      · exact Or.inl (Or.inr hm)
    · rintro ((⟨v, hv, _⟩ | hm) | ⟨rfl, hid⟩)
      · cases hv
      · exact Or.inr hm
      · exact Or.inl ⟨t, ⟨rfl, hid⟩, rfl⟩
  | @hand t ht =>
    have hc : s.carried = some (t, true) := by simp [Scheduler.State.carried, ht]
    have hd : Scheduler.deletedPtrs { s.record (.handed t s.now) with thread := .loop } =
        Scheduler.deletedPtrs s := Scheduler.deletedPtrs_quiet rfl rfl
    have hc' : ({ s.record (.handed t s.now) with thread := .loop } :
        Scheduler.State).carried = none := rfl
    simp only [Dropped, hc, hc', hd]
    simp
  | @discard t ht =>
    have hc : s.carried = some (t, false) := by simp [Scheduler.State.carried, ht]
    have hd : Scheduler.deletedPtrs { s.record (.deleted t.ptr) with thread := .loop } =
        Scheduler.deletedPtrs s ++ [t.ptr] := Scheduler.deletedPtrs_note (r := .deleted t.ptr) rfl
    have hc' : ({ s.record (.deleted t.ptr) with thread := .loop } :
        Scheduler.State).carried = none := rfl
    simp only [Dropped, hc, hc', hd]
    simp [or_comm, eq_comm]

end Scheduler

section Sound

variable {s u : State} {d v : Dispatch} {x : SchedulerTask}

theorem Shifts.outer_subperm {e : Dispatcher.Event Callback} (h : Shifts d v e) :
    outer v <+~ outer d := by
  cases h with
  | keep hl hf _ _ => rw [outer, outer, hl, hf]
  | push hf _ hl hv _ =>
    rw [outer, outer, hl, hf, hv]
    exact (Line.pushFront_perm.map SchedulerTask.ptr).subperm
  | refuse hf _ hl hv _ =>
    rw [outer, outer, hl, hf, hv]
    exact (List.sublist_cons_self _ _).subperm

theorem fed_of_outside (h : d.callers 0 = .outside) : fed d = none := by
  simp [fed, h, Dispatcher.CallerPlace.task]

theorem handOver_effect {t : SchedulerTask} (h : Dispatcher.step d (handOver t) = some v) :
    fed v = some t ∧ eventLine v = eventLine d ∧ v.m_threadState = d.m_threadState := by
  cases Dispatcher.step_effect h with
  | call _ _ _ _ => exact ⟨rfl, rfl, rfl⟩

theorem initial_sound (h : machine.start s) : Sound s := by
  obtain ⟨now, rfl⟩ := h
  exact ⟨Scheduler.initial_owned now, initial_fed⟩

theorem Permitted.callers {e : Dispatcher.Event Callback} (h : Permitted s e) {i : ℕ}
    {front : Bool} {m_expiration : Option ℕ} {callback : Callback}
    (he : e = .call i front m_expiration callback) : i ≠ 0 ∧ callback = .other := by
  subst he
  exact h

theorem step_sound {e : Event} (h : Sound s) (hs : step s e = some u) : Sound u := by
  cases step_effect hs with
  | scheduler _ _ hv => exact ⟨Scheduler.step_owned h.owned hv, h.feed⟩
  | @handOver t v ht hc hv =>
    obtain ⟨hf, hl, _⟩ := handOver_effect hv
    constructor
    · have ho : outer v = t.ptr :: outer s.dispatcher := by
        simp [outer, hf, hl, fed_of_outside hc]
      rw [ho]
      exact Scheduler.hand_owned h.owned ht
    · apply step_fed h.feed _ hv
      intro i front m_expiration callback he
      obtain ⟨rfl, _⟩ := Dispatcher.Event.call.inj he
      exact ⟨t, rfl⟩
  | @dispatcher e v hp hv =>
    have hshift := step_shifts h.feed (fun i _ _ _ he => (hp.callers he).1) hv
    constructor
    · exact h.owned.shrink rfl ((List.Subperm.refl _).append hshift.outer_subperm) fun _ _ => id
    · apply step_fed h.feed _ hv
      intro i front m_expiration callback he
      obtain ⟨hi, hcb⟩ := hp.callers he
      rw [if_neg hi]
      exact hcb

theorem Sound.line_nodup (h : Sound s) : (eventLine s.dispatcher).all.Nodup := by
  have ho := (List.nodup_append.mp h.owned.nodup).2.1
  rw [outer, List.map_append] at ho
  exact (List.nodup_append.mp ho).2.1.of_map _

theorem Sound.not_owned (h : Sound s) (hx : x.ptr ∈ outer s.dispatcher) :
    x.ptr ∉ Scheduler.ptrs s.scheduler := by
  intro hm
  exact (List.nodup_append.mp h.owned.nodup).2.2 _ hm _ hx rfl

theorem outer_of_fed (h : fed d = some x) : x.ptr ∈ outer d := by
  simp [outer, h]

theorem outer_of_lined (h : x ∈ (eventLine d).all) : x.ptr ∈ outer d :=
  List.mem_map_of_mem (List.mem_append_right _ h)

theorem Sound.fed_not_lined (h : Sound s) (hx : fed s.dispatcher = some x) :
    x ∉ (eventLine s.dispatcher).all := by
  intro hm
  have ho := (List.nodup_append.mp h.owned.nodup).2.1
  simp only [outer, hx, Option.toList_some, List.singleton_append, List.map_cons] at ho
  exact (List.nodup_cons.mp ho).1 (List.mem_map_of_mem hm)

theorem ptrs_of_dropped (h : Dropped x s.scheduler) : x.ptr ∈ Scheduler.ptrs s.scheduler := by
  rcases h with ⟨t, ht, he⟩ | h
  · simp [Scheduler.ptrs, ht, he]
  · exact List.mem_append_right _ h

theorem Sound.lined_not_dropped (h : Sound s) (hx : x ∈ (eventLine s.dispatcher).all) :
    ¬ Dropped x s.scheduler :=
  fun hd => h.not_owned (outer_of_lined hx) (ptrs_of_dropped hd)

theorem ptrs_of_queued (h : x ∈ s.scheduler.m_eventList) :
    x.ptr ∈ Scheduler.ptrs s.scheduler := by
  rw [Scheduler.ptrs, List.append_assoc]
  exact List.mem_append_left _ (List.mem_map_of_mem h)

theorem Sound.queued_only (h : Sound s) (hx : x ∈ s.scheduler.m_eventList) :
    ¬ OnWay x s ∧ x ∉ (eventLine s.dispatcher).all ∧ ¬ Dropped x s.scheduler := by
  have hin := ptrs_of_queued hx
  have hn := (List.nodup_append.mp h.owned.nodup).1
  rw [Scheduler.ptrs, List.append_assoc] at hn
  have hsep := (List.nodup_append.mp hn).2.2 _ (List.mem_map_of_mem hx)
  refine ⟨?_, fun hl => h.not_owned (outer_of_lined hl) hin, ?_⟩
  · rintro (hc | hf)
    · exact hsep x.ptr (by simp [hc]) rfl
    · exact h.not_owned (outer_of_fed hf) hin
  · rintro (⟨t, ht, he⟩ | hd)
    · exact hsep t.ptr (by simp [ht]) he.symm
    · exact hsep x.ptr (List.mem_append_right _ hd) rfl

theorem Sound.queued_named (h : Sound s) (hx : x ∈ s.scheduler.m_eventList) :
    ∀ t ∈ s.scheduler.m_eventList, t.ptr = x.ptr → t = x := by
  intro t ht he
  have hn := (List.nodup_append.mp h.owned.nodup).1
  rw [Scheduler.ptrs, List.append_assoc] at hn
  exact List.inj_on_of_nodup_map (List.nodup_append.mp hn).1 ht hx he

end Sound

section Following

variable {s u : State} {e : Event} {a b : SchedulerTask}

theorem Shifts.lined {d v : Dispatch} {e : Dispatcher.Event Callback} {x : SchedulerTask}
    (h : Shifts d v e) (hx : x ∈ (eventLine d).all) : x ∈ (eventLine v).all := by
  cases h with
  | keep hl _ _ _ | refuse _ _ hl _ _ => exact hl ▸ hx
  | push _ _ hl _ _ =>
    rw [hl]
    exact Line.sublist_pushFront.subset hx

theorem Shifts.closed {d v : Dispatch} {e : Dispatcher.Event Callback}
    (h : Shifts d v e) (hd : d.m_threadState ≠ .STATE_RUNNING) :
    v.m_threadState ≠ .STATE_RUNNING := by
  cases h with
  | keep _ _ hst _ =>
    rcases hst with hst | hst
    · exact hst ▸ hd
    · exact hst
  | push _ hr _ _ _ => exact absurd hr hd
  | refuse _ _ _ _ hst => exact hst ▸ hd

theorem step_scheduler (hs : step s e = some u) :
    (∃ e', e = .dispatcher e') ∧ u.scheduler = s.scheduler ∨
    ∃ e', e = .scheduler e' ∧ Scheduler.step s.scheduler e' = some u.scheduler := by
  cases step_effect hs with
  | scheduler _ _ hv => exact Or.inr ⟨_, rfl, hv⟩
  | handOver ht _ _ => exact Or.inr ⟨.finish, rfl, by simp [Scheduler.step, ht]⟩
  | dispatcher _ _ => exact Or.inl ⟨⟨_, rfl⟩, rfl⟩

theorem step_dispatcher (h : Sound s) (hs : step s e = some u) :
    (∃ e', e = .dispatcher e' ∧ Shifts s.dispatcher u.dispatcher e') ∨
    (∃ e', e = .scheduler e') ∧ (eventLine u.dispatcher) = eventLine s.dispatcher ∧
      u.dispatcher.m_threadState = s.dispatcher.m_threadState := by
  cases step_effect hs with
  | scheduler _ _ _ => exact Or.inr ⟨⟨_, rfl⟩, rfl, rfl⟩
  | handOver _ _ hv =>
    obtain ⟨_, hl, hst⟩ := handOver_effect hv
    exact Or.inr ⟨⟨_, rfl⟩, hl, hst⟩
  | dispatcher hp hv =>
    exact Or.inl ⟨_, rfl, step_shifts h.feed (fun i _ _ _ he => (hp.callers he).1) hv⟩

theorem step_lined {x : SchedulerTask} (h : Sound s) (hs : step s e = some u)
    (hx : x ∈ (eventLine s.dispatcher).all) : x ∈ (eventLine u.dispatcher).all := by
  rcases step_dispatcher h hs with ⟨_, _, hsh⟩ | ⟨_, hl, _⟩
  · exact hsh.lined hx
  · exact hl ▸ hx

theorem Following.dropped (hf : Following a b s) (hs : step s e = some u) :
    Dropped a u.scheduler ↔ Dropped a s.scheduler ∨
      e = .scheduler (.pop a) ∧ a.getEventId ∉ s.scheduler.m_eventIds := by
  rcases step_scheduler hs with ⟨⟨e', rfl⟩, hu⟩ | ⟨e', rfl, hv⟩
  · simp [hu]
  · rw [step_dropped (fun i t ht => (hf.released i t ht).1) hf.named hv]
    simp

theorem Following.settled (h : Sound s) (hf : Following a b s) (hs : step s e = some u)
    (ha : Settled a s) : Settled a u := by
  rcases ha with ha | ha | ha
  · exact Or.inl (step_lined h hs ha)
  · exact Or.inr (Or.inl ((hf.dropped hs).mpr (Or.inl ha)))
  · right; right
    rcases step_dispatcher h hs with ⟨_, _, hsh⟩ | ⟨_, _, hst⟩
    · exact hsh.closed ha
    · exact hst ▸ ha

theorem step_on_way {x : SchedulerTask} (h : Sound s) (hs : step s e = some u)
    (hx : OnWay x s) : OnWay x u ∨ Settled x u := by
  cases step_effect hs with
  | @scheduler e' v _ hnone hv =>
    rcases hx with hx | hx
    · rcases Scheduler.step_carries hv hx with hc | ⟨rfl, ht⟩
      · exact Or.inl (Or.inl hc)
      · simp [handedOver, ht] at hnone
    · exact Or.inl (Or.inr hx)
  | @handOver t d ht hc hd =>
    obtain ⟨hf, _, _⟩ := handOver_effect hd
    rcases hx with hx | hx
    · have ho : s.scheduler.carried = some (t, true) := by simp [Scheduler.State.carried, ht]
      obtain ⟨rfl, _⟩ := Prod.mk.inj (Option.some.inj (ho.symm.trans hx))
      exact Or.inl (Or.inr hf)
    · rw [fed_of_outside hc] at hx
      cases hx
  | @dispatcher e' d hp hd =>
    rcases hx with hx | hx
    · exact Or.inl (Or.inl hx)
    · cases step_shifts h.feed (fun i _ _ _ he => (hp.callers he).1) hd with
      | keep _ hf _ _ => exact Or.inl (Or.inr (hf.trans hx))
      | push hf _ hl _ _ =>
        obtain rfl := Option.some.inj (hf.symm.trans hx)
        right; left
        rw [hl]
        exact Line.pushFront_perm.mem_iff.mpr List.mem_cons_self
      | refuse _ hr _ _ hst => exact Or.inr (Or.inr (Or.inr (hst ▸ hr)))

theorem step_comes {x : SchedulerTask} (h : Sound s) (hs : step s e = some u) (hx : OnWay x u) :
    OnWay x s ∨ x ∈ s.scheduler.m_eventList ∧
      (∀ v ∈ s.scheduler.m_eventList, x.getCycle ≤ v.getCycle) ∧
      s.scheduler.carried = none ∧ fed s.dispatcher = none := by
  cases step_effect hs with
  | @scheduler e' v hfree _ hv =>
    rcases hx with hx | hx
    · rcases Scheduler.step_carried hv hx with hc | ⟨rfl, hm, htop, hc⟩
      · exact Or.inl (Or.inl hc)
      · exact Or.inr ⟨hm, htop, hc, fed_of_outside (hfree rfl)⟩
    · exact Or.inl (Or.inr hx)
  | @handOver t d ht hc hd =>
    obtain ⟨hf, _, _⟩ := handOver_effect hd
    rcases hx with hx | hx
    · cases hx
    · obtain rfl := Option.some.inj (hf.symm.trans hx)
      exact Or.inl (Or.inl (by simp [Scheduler.State.carried, ht]))
  | @dispatcher e' d hp hd =>
    left
    rcases hx with hx | hx
    · exact Or.inl hx
    · right
      cases step_shifts h.feed (fun i _ _ _ he => (hp.callers he).1) hd with
      | keep _ hf _ _ => exact hf.symm.trans hx
      | push _ _ _ hn _ | refuse _ _ _ hn _ =>
        rw [hn] at hx
        cases hx

/-- What is new in the line was on its way, and the dispatcher was running. -/
theorem step_joins {x : SchedulerTask} (h : Sound s) (hs : step s e = some u)
    (hx : x ∈ (eventLine u.dispatcher).all) : x ∈ (eventLine s.dispatcher).all ∨
      OnWay x s ∧ s.dispatcher.m_threadState = .STATE_RUNNING := by
  rcases step_dispatcher h hs with ⟨_, _, hsh⟩ | ⟨_, hl, _⟩
  · cases hsh with
    | keep hl _ _ _ | refuse _ _ hl _ _ => exact Or.inl (hl ▸ hx)
    | push hf hr hl _ _ =>
      rw [hl] at hx
      rcases List.mem_cons.mp (Line.pushFront_perm.mem_iff.mp hx) with rfl | hx
      · exact Or.inr ⟨Or.inr hf, hr⟩
      · exact Or.inl hx
  · exact Or.inl (hl ▸ hx)

theorem queued_following (h : Sound s) (ha : a ∈ s.scheduler.m_eventList)
    (hb : b ∈ s.scheduler.m_eventList) : Following a b s where
  known := by
    have hlt : ∀ x ∈ s.scheduler.m_eventList, x.ptr < s.scheduler.allocated := fun x hx =>
      h.owned.lt _ (List.mem_append_left _ (ptrs_of_queued hx))
    exact ⟨hlt a ha, hlt b hb⟩
  released i t ht := by
    have hne : ∀ x ∈ s.scheduler.m_eventList, t.ptr ≠ x.ptr := by
      intro x hx he
      exact (h.owned.held i t ht).2 (he ▸ List.mem_append_left _ (ptrs_of_queued hx))
    exact ⟨hne a ha, hne b hb⟩
  named := h.queued_named ha
  queued _ := Or.inl ha
  coming hw := absurd hw (h.queued_only hb).1
  lined hl := absurd hl (h.queued_only hb).2.1

theorem Following.queued_before {x : SchedulerTask} (hf : Following a b s) (hs : step s e = some u)
    (hx : x ∈ u.scheduler.m_eventList) (hp : x.ptr = a.ptr ∨ x.ptr = b.ptr) :
    x ∈ s.scheduler.m_eventList := by
  rcases step_scheduler hs with ⟨_, hu⟩ | ⟨e', rfl, hv⟩
  · exact hu ▸ hx
  · rcases Scheduler.step_eventList hv hx with hm | ⟨i, t, ht, he⟩
    · exact hm
    · obtain ⟨hna, hnb⟩ := hf.released i t ht
      rcases hp with hp | hp
      · exact absurd (he.symm.trans hp) hna
      · exact absurd (he.symm.trans hp) hnb

theorem Following.step_queued (h : Sound s) (hf : Following a b s) (hs : step s e = some u)
    (hb : b ∈ u.scheduler.m_eventList) :
    a ∈ u.scheduler.m_eventList ∨ OnWay a u ∨ Settled a u := by
  rcases hf.queued (hf.queued_before hs hb (Or.inr rfl)) with ha | ha | ha
  · rcases step_scheduler hs with ⟨_, hu⟩ | ⟨e', rfl, hv⟩
    · exact Or.inl (hu ▸ ha)
    · rcases Scheduler.step_leaves hv ha with hm | hnil | ⟨rfl, hc⟩
      · exact Or.inl hm
      · rw [hnil] at hb
        cases hb
      · right
        by_cases hid : a.getEventId ∈ s.scheduler.m_eventIds
        · exact Or.inl (Or.inl (by simpa [hid] using hc))
        · exact Or.inr (Or.inr (Or.inl (Or.inl ⟨a, by simpa [hid] using hc, rfl⟩)))
  · exact Or.inr (step_on_way h hs ha)
  · exact Or.inr (Or.inr (hf.settled h hs ha))

theorem Following.step_coming (h : Sound s) (hf : Following a b s)
    (hab : a.getCycle < b.getCycle) (hs : step s e = some u) (hb : OnWay b u) : Settled a u := by
  apply hf.settled h hs
  rcases step_comes h hs hb with hb | ⟨hb, htop, hc, hfed⟩
  · exact hf.coming hb
  · rcases hf.queued hb with ha | ha | ha
    · exact absurd (htop a ha) (not_le.mpr hab)
    · rcases ha with ha | ha
      · rw [hc] at ha
        cases ha
      · rw [hfed] at ha
        cases ha
    · exact ha

theorem Following.step_lined (h : Sound s) (hf : Following a b s) (hs : step s e = some u)
    (hb : b ∈ (eventLine u.dispatcher).all) :
    a ∈ (eventLine u.dispatcher).all ∨ Dropped a u.scheduler := by
  have ha : a ∈ (eventLine s.dispatcher).all ∨ Dropped a s.scheduler := by
    rcases step_joins h hs hb with hb | ⟨hb, hr⟩
    · exact hf.lined hb
    · rcases hf.coming hb with ha | ha | ha
      · exact Or.inl ha
      · exact Or.inr ha
      · exact absurd hr ha
  rcases ha with ha | ha
  · exact Or.inl (Feed.step_lined h hs ha)
  · exact Or.inr ((hf.dropped hs).mpr (Or.inl ha))

theorem step_following (h : Sound s) (hf : Following a b s) (hab : a.getCycle < b.getCycle)
    (hs : step s e = some u) : Following a b u where
  known := by
    rcases step_scheduler hs with ⟨_, hu⟩ | ⟨e', rfl, hv⟩
    · exact hu ▸ hf.known
    · have hle := Scheduler.step_allocated hv
      exact ⟨hf.known.1.trans_le hle, hf.known.2.trans_le hle⟩
  released i t ht := by
    rcases step_scheduler hs with ⟨_, hu⟩ | ⟨e', rfl, hv⟩
    · exact hf.released i t (hu ▸ ht)
    · rcases Scheduler.step_held hv ht with hh | hp
      · exact hf.released i t hh
      · rw [hp]
        exact ⟨hf.known.1.ne', hf.known.2.ne'⟩
  named t ht he := hf.named t (hf.queued_before hs ht (Or.inl he)) he
  queued := hf.step_queued h hs
  coming := hf.step_coming h hab hs
  lined := hf.step_lined h hs

theorem step_overtaken (h : Sound s) (hf : Following a b s) (hs : step s e = some u) :
    Overtaken a b u ↔ Overtaken a b s ∨ ¬ InTurn a b s e := by
  rw [Overtaken, hf.dropped hs]
  rcases step_dispatcher h hs with ⟨e', rfl, hsh⟩ | ⟨⟨e', rfl⟩, hl, _⟩
  · cases hsh with
    | keep hl _ _ hn =>
      have hin : InTurn a b s (.dispatcher e') := by
        cases e' with
        | push i =>
          rintro rfl hb
          rw [hn rfl] at hb
          cases hb
        | _ => trivial
      simp [hl, hin, Overtaken]
    | @push t hft hr hl _ _ =>
      have hin : ¬ InTurn a b s (.dispatcher (.push 0)) ↔
          b = t ∧ a ∈ (eventLine s.dispatcher).queue := by
        simp [InTurn, hft, hr, eq_comm]
      have hlost : a = t ∧ b ∈ (eventLine s.dispatcher).past → Dropped a s.scheduler := by
        rintro ⟨rfl, hb⟩
        rcases hf.lined (List.mem_append_left _ hb) with ha | ha
        · exact absurd ha (h.fed_not_lined hft)
        · exact ha
      rw [hl, Line.pair_pushFront, hin, Overtaken]
      simp only [reduceCtorEq, false_and, or_false]
      constructor
      · rintro ((hpair | hturn | hpast) | hdropped)
        · exact .inl (.inl hpair)
        · exact .inr hturn
        · exact .inl (.inr (hlost hpast))
        · exact .inl (.inr hdropped)
      · rintro ((hpair | hdropped) | hturn)
        · exact .inl (.inl hpair)
        · exact .inr hdropped
        · exact .inl (.inr (.inl hturn))
    | refuse _ hr hl _ _ =>
      have hin : InTurn a b s (.dispatcher (.push 0)) := fun _ _ hrun => absurd hrun hr
      simp [hl, hin, Overtaken]
  · have hin : ¬ InTurn a b s (.scheduler e') ↔
        e' = .pop a ∧ a.getEventId ∉ s.scheduler.m_eventIds := by
      cases e' with
      | pop t => simp [InTurn, eq_comm]
      | _ => simp [InTurn]
    rw [hl, hin, Overtaken]
    simp [or_assoc]

theorem queued_not_overtaken (h : Sound s) (ha : a ∈ s.scheduler.m_eventList)
    (hb : b ∈ s.scheduler.m_eventList) : ¬ Overtaken a b s := by
  rintro (hl | hd)
  · exact (h.queued_only hb).2.1 (hl.subset List.mem_cons_self)
  · exact (h.queued_only ha).2.2 hd

/-- Once the later callback has run, the two are in order just when nothing went wrong. -/
theorem executed_in_order (h : Sound s) (hf : Following a b s) (hab : a ≠ b)
    (hb : b ∈ executedEvents s.dispatcher) :
    [a, b] <+ executedEvents s.dispatcher ↔ ¬ Overtaken a b s := by
  have hexec := h.feed.executing
  have hpast : b ∈ (eventLine s.dispatcher).past := hexec ▸ List.mem_append_left _ hb
  have hn := h.line_nodup
  constructor
  · intro hord
    have hall : [a, b] <+ (eventLine s.dispatcher).all :=
      (hexec ▸ hord.trans (List.sublist_append_left _ _)).trans (List.sublist_append_left _ _)
    rintro (hrev | hd)
    · exact pair_asymm hn hall hrev
    · exact h.lined_not_dropped (hall.subset List.mem_cons_self) hd
  · intro hno
    have ha : a ∈ (eventLine s.dispatcher).all := by
      rcases hf.lined (List.mem_append_left _ hpast) with ha | hd
      · exact ha
      · exact absurd (Or.inr hd) hno
    have hall : [a, b] <+ (eventLine s.dispatcher).all := by
      rcases pair_total ha (List.mem_append_left _ hpast) hab with hord | hrev
      · exact hord
      · exact absurd (Or.inl hrev) hno
    have hord := Line.pair_past hn hall hpast
    have hn' := (List.nodup_append.mp hn).1
    rw [hexec] at hord hn'
    exact Line.pair_past (l := ⟨_, _⟩) hn' hord hb

end Following

/-- The callbacks of two events that were queued together run in the order of their expirations
exactly if every step of the run keeps their turn. -/
theorem callbacks_in_order_iff {s u : State} {es : List Event} {a b : SchedulerTask}
    (h : machine.Reachable s) (ha : a ∈ s.scheduler.m_eventList) (hb : b ∈ s.scheduler.m_eventList)
    (hab : a.getCycle < b.getCycle) (hr : machine.run s es = some u)
    (hx : b ∈ executedEvents u.dispatcher) :
    [a, b] <+ executedEvents u.dispatcher ↔ machine.AllSteps (InTurn a b) s es := by
  have hne : a ≠ b := by
    rintro rfl
    exact lt_irrefl _ hab
  have hs : Sound s := Machine.invariant (fun _ => initial_sound) (fun _ _ _ => step_sound) h
  have hboth : Sound s ∧ Following a b s := ⟨hs, queued_following hs ha hb⟩
  have hkeep : ∀ v e w, Sound v ∧ Following a b v → machine.step v e = some w →
      Sound w ∧ Following a b w :=
    fun v e w hv hw => ⟨step_sound hv.1 hw, step_following hv.1 hv.2 hab hw⟩
  obtain ⟨hsound, hfollow⟩ :=
    Machine.run_stable (P := fun v => Sound v ∧ Following a b v) hkeep hr hboth
  have hiff := Machine.run_iff_not_allSteps hkeep
    (fun v e w hv hw => step_overtaken hv.1 hv.2 hw) hboth hr
  rw [executed_in_order hsound hfollow hne hx, hiff]
  simp [queued_not_overtaken hs ha hb]

def queueTrace : List Event :=
  [.call 0 50, .callerLock 0, .push 0 true, .callerUnlock 0, .notify 0, .callerReturn 0,
    .call 1 100, .callerLock 1, .push 1 false, .callerUnlock 1, .notify 1,
    .callerReturn 1].map .scheduler

def earlier : SchedulerTask := (createSchedulerTask 0 0 50).setEventId 1
def later : SchedulerTask := (createSchedulerTask 1 0 100).setEventId 2

def deliver (t : SchedulerTask) : List Event :=
  [.test, .lock, .wait (some t), .wake false, .relock, .pop t, .unlock, .finish].map .scheduler ++
    [.callerLock 0, .push 0, .callerUnlock 0, .notify 0].map .dispatcher

def execute (now : ℕ) : List Event :=
  [.test, .lock, .proceed, .take, .unlock, .next now, .finish].map .dispatcher

def promptTrace : List Event :=
  .scheduler (.tick 100000) :: deliver earlier ++ execute 100000 ++ deliver later ++ execute 100000

def laggingTrace : List Event :=
  .scheduler (.tick 100000) :: deliver earlier ++ deliver later ++ execute 100000 ++ execute 100000

theorem prompt_trace_in_order : ∃ s u, machine.run ⟨Scheduler.initial 0, Dispatcher.initial⟩
    queueTrace = some s ∧ machine.run s promptTrace = some u ∧
      [earlier, later] <+ executedEvents u.dispatcher := by
  obtain ⟨s, hs, ha, hb, hall, hrun⟩ :
      ∃ s, machine.run ⟨Scheduler.initial 0, Dispatcher.initial⟩ queueTrace = some s ∧
        earlier ∈ s.scheduler.m_eventList ∧ later ∈ s.scheduler.m_eventList ∧
        machine.AllSteps (InTurn earlier later) s promptTrace ∧
        (machine.run s promptTrace).any
          (fun u => decide (later ∈ executedEvents u.dispatcher)) = true :=
    Machine.exists_run (by decide)
  obtain ⟨u, hu, hx⟩ := Machine.exists_run hrun
  have hreach : machine.Reachable s := Machine.run_reachable (.start ⟨0, rfl⟩) hs
  exact ⟨s, u, hs, hu,
    (callbacks_in_order_iff hreach ha hb (by decide) hu hx).mpr hall⟩

/-- Both events wait in the list before the thread looks at it, and the later one is in front. -/
theorem lagging_dispatcher_reverses : ¬ ∀ s u es a b, machine.Reachable s →
    a ∈ s.scheduler.m_eventList → b ∈ s.scheduler.m_eventList → a.getCycle < b.getCycle →
    machine.run s es = some u → (∀ n, .scheduler (.stopEvent n) ∉ es) →
    b ∈ executedEvents u.dispatcher → [a, b] <+ executedEvents u.dispatcher := by
  intro hall
  obtain ⟨s, hs, ha, hb, hrun⟩ :
      ∃ s, machine.run ⟨Scheduler.initial 0, Dispatcher.initial⟩ queueTrace = some s ∧
        earlier ∈ s.scheduler.m_eventList ∧ later ∈ s.scheduler.m_eventList ∧
        (machine.run s laggingTrace).any
          (fun u => decide (executedEvents u.dispatcher = [later, earlier])) = true :=
    Machine.exists_run (by decide)
  obtain ⟨u, hu, hx⟩ := Machine.exists_run hrun
  have hreach : machine.Reachable s := Machine.run_reachable (.start ⟨0, rfl⟩) hs
  have hstop : ∀ n, Event.scheduler (.stopEvent n) ∉ laggingTrace := by
    intro n
    simp [laggingTrace, deliver, execute]
  have hord := hall s u laggingTrace earlier later hreach ha hb (by decide) hu hstop (by simp [hx])
  rw [hx] at hord
  exact absurd hord (by decide)

end LoginServer.Feed
