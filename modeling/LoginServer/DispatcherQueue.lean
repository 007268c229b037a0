import LoginServer.Dispatcher
import LoginServer.Library.Lines
import LoginServer.Library.Ownership

/-! # The queue of the dispatcher loses, repeats and reorders nothing

What `tasksThread` has removed and what still waits form one line, and every step moves that
line as a push at either end or a pop does. A push that finds the list empty owes a
notification, so the thread never sleeps on work with none to come. -/
namespace LoginServer.Dispatcher

open Runs Lines
open scoped List

variable {α : Type*}

def Record.acceptedTask : Record α → Option (Task α)
  | .accepted t _ => some t
  | _ => none

def Record.acceptedBackTask : Record α → Option (Task α)
  | .accepted t false => some t
  | _ => none

def Record.removedTask : Record α → Option (Task α)
  | .removed t => some t
  | _ => none

def Record.executedTask : Record α → Option (Task α)
  | .executed t => some t
  | _ => none

def accepted (s : State α) : List (Task α) := s.history.filterMap Record.acceptedTask

/-- The tasks accepted with `front = false`, in the order of their pushes. -/
def acceptedBack (s : State α) : List (Task α) := s.history.filterMap Record.acceptedBackTask

def removed (s : State α) : List (Task α) := s.history.filterMap Record.removedTask

def executed (s : State α) : List (Task α) := s.history.filterMap Record.executedTask

def line (s : State α) : Line (Task α) := ⟨removed s, s.m_taskList⟩

def CallerPlace.task : CallerPlace α → Option (Task α)
  | .entering t _ | .locked t _ => some t
  | _ => none

inductive Moves (s u : State α) : Prop where
  | same : line u = line s → accepted u = accepted s → acceptedBack u = acceptedBack s → Moves s u
  | back {i t} : s.callers i = .locked t false → line u = (line s).pushBack t →
      accepted u = accepted s ++ [t] → acceptedBack u = acceptedBack s ++ [t] → Moves s u
  | front {i t} : s.callers i = .locked t true → line u = (line s).pushFront t →
      accepted u = accepted s ++ [t] → acceptedBack u = acceptedBack s → Moves s u
  | pop : line u = (line s).popFront → accepted u = accepted s →
      acceptedBack u = acceptedBack s → Moves s u

theorem moves_of_eq {s u : State α} (hl : u.m_taskList = s.m_taskList)
    (hh : u.history = s.history) : Moves s u :=
  .same (by simp only [line, removed, hl, hh]) (by simp only [accepted, hh])
    (by simp only [acceptedBack, hh])

theorem addTask_moves {s : State α} {i : ℕ} {t : Task α} {front : Bool}
    (hc : s.callers i = .locked t front) : Moves s (addTask s i t front) := by
  unfold addTask
  split
  · cases front with
    | false =>
      apply Moves.back hc <;> simp [line, removed, accepted, acceptedBack, Line.pushBack,
        State.setCaller, State.record, Record.removedTask, Record.acceptedTask,
        Record.acceptedBackTask]
    | true =>
      apply Moves.front hc <;> simp [line, removed, accepted, acceptedBack, Line.pushFront,
        State.setCaller, State.record, Record.removedTask, Record.acceptedTask,
        Record.acceptedBackTask]
  · apply Moves.same <;> simp [line, removed, accepted, acceptedBack, State.setCaller,
      State.record, Record.removedTask, Record.acceptedTask, Record.acceptedBackTask]

theorem takeTask_moves (s : State α) : Moves s (takeTask s) := by
  unfold takeTask
  split
  · exact moves_of_eq rfl rfl
  · rename_i t rest hl
    split
    · apply Moves.pop <;> simp [line, removed, accepted, acceptedBack, Line.popFront, hl,
        State.record, Record.removedTask, Record.acceptedTask, Record.acceptedBackTask]
    · exact moves_of_eq rfl rfl

theorem takeTask_line_all (s : State α) : (line (takeTask s)).all = (line s).all := by
  unfold takeTask
  split
  · rfl
  · rename_i t rest hl
    split
    · simp [line, Line.all, removed, hl, State.record, Record.removedTask]
    · rfl

theorem nextTask_moves (s : State α) (now : ℕ) (o : Option (Task α)) :
    Moves s (nextTask s now o) := by
  cases o with
  | none => exact moves_of_eq rfl rfl
  | some t =>
    simp only [nextTask]
    split
    · exact moves_of_eq rfl rfl
    · apply Moves.same <;> simp [line, removed, accepted, acceptedBack, State.record,
        Record.removedTask, Record.acceptedTask, Record.acceptedBackTask]

theorem step_moves {s u : State α} {e : Event α} (h : step s e = some u) : Moves s u := by
  cases step_effect h with
  | push hc => exact addTask_moves hc
  | take _ => exact takeTask_moves s
  | next now _ => exact nextTask_moves s now _
  | _ => exact moves_of_eq rfl rfl

/-- Every task has its own `ptr`, also while it is still with its caller. -/
structure Fresh (s : State α) : Prop where
  accepted_lt : ∀ t ∈ accepted s, t.ptr < s.allocated
  held : ∀ i t, (s.callers i).task = some t → t.ptr < s.allocated ∧ ∀ v ∈ accepted s, v.ptr ≠ t.ptr
  apart : ∀ i j t v, (s.callers i).task = some t → (s.callers j).task = some v → t.ptr = v.ptr → i = j
  nodup : ((accepted s).map Task.ptr).Nodup

theorem initial_fresh : Fresh (initial : State α) := by
  constructor <;> simp [initial, accepted, CallerPlace.task]

theorem Fresh.frame {s u : State α} (h : Fresh s) (ha : u.allocated = s.allocated)
    (hq : accepted u = accepted s)
    (hc : ∀ i t, (u.callers i).task = some t → (s.callers i).task = some t) : Fresh u := by
  refine ⟨?_, ?_, ?_, ?_⟩
  · rw [hq, ha]; exact h.accepted_lt
  · rw [hq, ha]
    intro i t ht
    exact h.held i t (hc i t ht)
  · intro i j t v hi hj
    exact h.apart i j t v (hc i t hi) (hc j v hj)
  · rw [hq]; exact h.nodup

theorem Fresh.setCaller {s u : State α} (h : Fresh s) {i : ℕ} {p : CallerPlace α}
    (ha : u.allocated = s.allocated) (hq : accepted u = accepted s)
    (hc : u.callers = (s.setCaller i p).callers)
    (hp : ∀ t, p.task = some t → (s.callers i).task = some t) : Fresh u := by
  apply h.frame ha hq
  intro j t hj
  rw [hc] at hj
  by_cases hji : j = i
  · subst hji
    exact hp t (by simpa [State.setCaller] using hj)
  · simpa [State.setCaller, hji] using hj

theorem call_fresh {s : State α} {i : ℕ} {front : Bool} {m_expiration : Option ℕ} {m_callback : α}
    (h : Fresh s) : Fresh ({ s with allocated := s.allocated + 1 }.setCaller i
      (.entering ⟨s.allocated, m_expiration, m_callback⟩ front)) := by
  have hold : ∀ j t, ((({ s with allocated := s.allocated + 1 }.setCaller i
      (.entering ⟨s.allocated, m_expiration, m_callback⟩ front)).callers j).task = some t) →
      j = i ∧ t.ptr = s.allocated ∨ j ≠ i ∧ (s.callers j).task = some t := by
    intro j t hj
    by_cases hji : j = i
    · left
      have ht : (⟨s.allocated, m_expiration, m_callback⟩ : Task α) = t := by
        simpa [State.setCaller, hji, CallerPlace.task] using hj
      exact ⟨hji, ht ▸ rfl⟩
    · exact Or.inr ⟨hji, by simpa [State.setCaller, hji] using hj⟩
  refine ⟨?_, ?_, ?_, h.nodup⟩
  · intro t ht
    exact (h.accepted_lt t ht).trans (Nat.lt_succ_self _)
  · intro j t hj
    rcases hold j t hj with ⟨_, he⟩ | ⟨_, hj⟩
    · exact ⟨he ▸ Nat.lt_succ_self _, fun v hv => he ▸ (h.accepted_lt v hv).ne⟩
    · obtain ⟨hlt, hne⟩ := h.held j t hj
      exact ⟨hlt.trans (Nat.lt_succ_self _), hne⟩
  · exact Ownership.apart_next (fun j t hj => (h.held j t hj).1) h.apart hold

theorem addTask_fresh {s : State α} {i : ℕ} {t : Task α} {front : Bool} (h : Fresh s)
    (hc : s.callers i = .locked t front) : Fresh (addTask s i t front) := by
  have hi : (s.callers i).task = some t := by rw [hc]; rfl
  unfold addTask
  split
  · have hq : accepted (({ s with m_taskList := if front then t :: s.m_taskList
        else s.m_taskList ++ [t] }.record (.accepted t front)).setCaller i
        (.pushed s.m_taskList.isEmpty)) = accepted s ++ [t] := by
      simp [accepted, State.setCaller, State.record, Record.acceptedTask]
    have hold : ∀ j v, ((({ s with m_taskList := if front then t :: s.m_taskList
        else s.m_taskList ++ [t] }.record (.accepted t front)).setCaller i
        (.pushed s.m_taskList.isEmpty)).callers j).task = some v →
        j ≠ i ∧ (s.callers j).task = some v := by
      intro j v hj
      by_cases hji : j = i
      · simp [State.setCaller, hji, CallerPlace.task] at hj
      · exact ⟨hji, by simpa [State.setCaller, State.record, hji] using hj⟩
    refine ⟨?_, ?_, ?_, ?_⟩
    · rw [hq]
      intro v hv
      rcases List.mem_append.mp hv with hv | hv
      · exact h.accepted_lt v hv
      · rw [List.mem_singleton.mp hv]
        exact (h.held i t hi).1
    · rw [hq]
      intro j v hj
      obtain ⟨hji, hj⟩ := hold j v hj
      refine ⟨(h.held j v hj).1, fun x hx => ?_⟩
      rcases List.mem_append.mp hx with hx | hx
      · exact (h.held j v hj).2 x hx
      · rw [List.mem_singleton.mp hx]
        exact fun he => hji (h.apart j i v t hj hi he.symm)
    · intro j k v x hj hk
      exact h.apart j k v x (hold j v hj).2 (hold k x hk).2
    · rw [hq, List.map_append, List.nodup_append]
      refine ⟨h.nodup, List.nodup_singleton _, ?_⟩
      intro n hn m hm
      obtain ⟨v, hv, rfl⟩ := List.mem_map.mp hn
      rw [List.mem_singleton.mp hm]
      exact (h.held i t hi).2 v hv
  · refine h.setCaller rfl ?_ rfl nofun
    simp [accepted, State.setCaller, State.record, Record.acceptedTask]

theorem accepted_note {s u : State α} {r : Record α} (hh : u.history = s.history ++ [r])
    (hr : r.acceptedTask = none) : accepted u = accepted s := by
  simp [accepted, hh, hr]

theorem step_fresh {s u : State α} {e : Event α} (h : Fresh s) (hs : step s e = some u) :
    Fresh u := by
  cases step_effect hs with
  | call _ _ _ _ => exact call_fresh h
  | callerLock hc _ =>
    refine h.setCaller rfl rfl rfl ?_
    rw [hc]
    exact fun _ => id
  | push hc => exact addTask_fresh h hc
  | callerUnlock _ | notify _ | quiet _ => exact h.setCaller rfl rfl rfl nofun
  | take _ =>
    unfold takeTask
    split
    · exact h.frame rfl rfl fun _ _ => id
    · split
      · exact h.frame rfl (accepted_note rfl rfl) fun _ _ => id
      · exact h.frame rfl rfl fun _ _ => id
  | @next o now _ =>
    cases o with
    | none => exact h.frame rfl rfl fun _ _ => id
    | some t =>
      simp only [nextTask]
      split
      · exact h.frame rfl rfl fun _ _ => id
      · exact h.frame rfl (accepted_note rfl rfl) fun _ _ => id
  | _ => exact h.frame rfl rfl fun _ _ => id

/-- The line holds the accepted tasks, and those pushed at the back in their order. -/
structure Lined (s : State α) : Prop where
  perm : (line s).all.Perm (accepted s)
  order : acceptedBack s <+ (line s).all

theorem Moves.lined {s u : State α} (h : Moves s u) (hl : Lined s) : Lined u := by
  cases h with
  | same hline ha hb => exact ⟨by rw [hline, ha]; exact hl.perm, by rw [hline, hb]; exact hl.order⟩
  | pop hline ha hb =>
    exact ⟨by rw [hline, Line.all_popFront, ha]; exact hl.perm,
      by rw [hline, Line.all_popFront, hb]; exact hl.order⟩
  | back _ hline ha hb =>
    exact ⟨by rw [hline, Line.all_pushBack, ha]; exact hl.perm.append_right _,
      by rw [hline, Line.all_pushBack, hb]; exact hl.order.append_right _⟩
  | front _ hline ha hb =>
    refine ⟨?_, by rw [hline, hb]; exact hl.order.trans Line.sublist_pushFront⟩
    rw [hline, ha]
    exact Line.pushFront_perm.trans ((hl.perm.cons _).trans (List.perm_append_singleton _ _).symm)

/-- Some `addTask` has found the list empty and has not yet called `notify_one`. -/
def SignalPending (s : State α) : Prop :=
  ∃ i, s.callers i = .pushed true ∨ s.callers i = .unlocked true

def NotAsleepOnWork (s : State α) : Prop :=
  s.thread = .blocked → s.m_taskList ≠ [] → SignalPending s

theorem signalPending_setCaller {s : State α} {i : ℕ} {p : CallerPlace α} (h : SignalPending s)
    (hp : s.callers i ≠ .pushed true) (hu : s.callers i ≠ .unlocked true) :
    SignalPending (s.setCaller i p) := by
  obtain ⟨j, hj⟩ := h
  by_cases hji : j = i
  · subst hji
    exact absurd hj (not_or.mpr ⟨hp, hu⟩)
  · exact ⟨j, by simpa [State.setCaller, hji] using hj⟩

theorem notAsleep_of_frame {s u : State α} (h : NotAsleepOnWork s) (ht : u.thread = s.thread)
    (hl : u.m_taskList = s.m_taskList) (hp : SignalPending s → SignalPending u) :
    NotAsleepOnWork u := by
  intro hb hne
  rw [ht] at hb
  rw [hl] at hne
  exact hp (h hb hne)

theorem addTask_notAsleep {s : State α} {i : ℕ} {t : Task α} {front : Bool}
    (h : NotAsleepOnWork s) (hc : s.callers i = .locked t front) :
    NotAsleepOnWork (addTask s i t front) := by
  unfold addTask
  split
  · intro hb _
    by_cases hnil : s.m_taskList = []
    · exact ⟨i, Or.inl (by simp [State.setCaller, hnil])⟩
    · exact signalPending_setCaller (h hb hnil) (by simp [State.record, hc])
        (by simp [State.record, hc])
  · exact notAsleep_of_frame h rfl rfl fun hp =>
      signalPending_setCaller hp (by simp [State.record, hc]) (by simp [State.record, hc])

theorem step_notAsleep {s u : State α} {e : Event α} (h : NotAsleepOnWork s)
    (hs : step s e = some u) : NotAsleepOnWork u := by
  cases step_effect hs with
  | call _ _ _ hc | callerLock hc _ | quiet hc =>
    exact notAsleep_of_frame h rfl rfl fun hp =>
      signalPending_setCaller hp (by simp [hc]) (by simp [hc])
  | push hc => exact addTask_notAsleep h hc
  | @callerUnlock i signal hc =>
    refine notAsleep_of_frame h rfl rfl fun ⟨j, hj⟩ => ?_
    by_cases hji : j = i
    · subst hji
      rw [hc] at hj
      obtain rfl := CallerPlace.pushed.inj (hj.resolve_right nofun)
      exact ⟨j, Or.inr (by simp [State.setCaller])⟩
    · exact ⟨j, by simpa [State.setCaller, hji] using hj⟩
  | notify _ =>
    intro hb
    change s.signalled.thread = .blocked at hb
    rcases signalled_thread s with ht | ⟨_, ht⟩
    · have hn : s.signalled.thread = .notified := by
        unfold State.signalled
        simp [ht.symm.trans hb]
      rw [hn] at hb
      cases hb
    · rw [ht] at hb
      cases hb
  | stop _ => exact notAsleep_of_frame h rfl rfl id
  | wait _ hnil => exact fun _ hne => absurd hnil hne
  | test _ =>
    intro hb
    dsimp only at hb
    split at hb <;> cases hb
  | take _ =>
    intro hb
    unfold takeTask at hb
    split at hb
    · cases hb
    · split at hb <;> cases hb
  | @next o now _ =>
    intro hb
    cases o with
    | none => cases hb
    | some t =>
      simp only [nextTask] at hb
      split at hb <;> cases hb
  | lock _ _ | proceed _ _ | wake _ | relock _ _ | unlock _ | finish _ => exact nofun

/-! ## What becomes of a removed task -/

/-- The task that the thread has removed and not looked at yet. -/
def holding (s : State α) : Option (Task α) :=
  match s.thread with
  | .taken o | .unlocked o => o
  | _ => none

/-- What the thread has removed is what it holds and, before it, what it has executed in the same
order or passed over for its expiration. -/
structure Handled (s : State α) : Prop where
  removed : ∃ done, removed s = done ++ (holding s).toList ∧ executed s <+ done ∧
    ∀ t ∈ done, t ∈ executed s ∨ t.m_expiration ≠ none
  running : ∀ t, s.thread = .running t → (executed s).getLast? = some t

theorem initial_handled : Handled (initial : State α) :=
  ⟨⟨[], rfl, .slnil, nofun⟩, nofun⟩

theorem removed_record (s : State α) (r : Record α) :
    removed (s.record r) = removed s ++ r.removedTask.toList := by
  rw [removed, State.record, List.filterMap_append]
  cases r <;> rfl

theorem executed_record (s : State α) (r : Record α) :
    executed (s.record r) = executed s ++ r.executedTask.toList := by
  rw [executed, State.record, List.filterMap_append]
  cases r <;> rfl

theorem Handled.frame {s u : State α} (h : Handled s)
    (hr : Dispatcher.removed u = Dispatcher.removed s) (hx : executed u = executed s)
    (hh : holding u = holding s) (hrun : ∀ t, u.thread = .running t → s.thread = .running t) :
    Handled u := by
  obtain ⟨done, hd⟩ := h.removed
  refine ⟨⟨done, ?_⟩, fun t ht => ?_⟩
  · rw [hr, hx, hh]
    exact hd
  · rw [hx]
    exact h.running t (hrun t ht)

theorem Handled.idle {s u : State α} (h : Handled s) (hu : u.history = s.history)
    (hs : holding s = none) (hh : holding u = none) (hrun : ∀ t, u.thread ≠ .running t) :
    Handled u :=
  h.frame (congrArg (List.filterMap Record.removedTask) hu)
    (congrArg (List.filterMap Record.executedTask) hu) (hh.trans hs.symm)
    fun t ht => absurd ht (hrun t)

theorem addTask_handled {s : State α} (h : Handled s) (i : ℕ) (t : Task α) (front : Bool) :
    Handled (addTask s i t front) := by
  unfold addTask
  split
  · have hr := removed_record s (.accepted t front)
    have hx := executed_record s (.accepted t front)
    exact h.frame (hr.trans (List.append_nil _)) (hx.trans (List.append_nil _)) rfl fun _ => id
  · have hr := removed_record s (.refused t)
    have hx := executed_record s (.refused t)
    exact h.frame (hr.trans (List.append_nil _)) (hx.trans (List.append_nil _)) rfl fun _ => id

theorem takeTask_handled {s : State α} (h : Handled s) (ht : s.thread = .resumed) :
    Handled (takeTask s) := by
  have hnone : holding s = none := by rw [holding, ht]
  unfold takeTask
  split
  · exact h.idle rfl hnone rfl nofun
  · rename_i t rest _
    split
    · obtain ⟨done, hd, hx, hdone⟩ := h.removed
      rw [hnone, Option.toList_none, List.append_nil] at hd
      have hexecuted : executed (s.record (.removed t)) = executed s :=
        (executed_record s _).trans (List.append_nil _)
      refine ⟨⟨done, ?_, hexecuted.symm ▸ hx, hexecuted.symm ▸ hdone⟩, nofun⟩
      rw [← hd]
      exact removed_record s (.removed t)
    · exact h.idle rfl hnone rfl nofun

theorem nextTask_handled {s : State α} {o : Option (Task α)} (h : Handled s) (now : ℕ)
    (ht : s.thread = .unlocked o) : Handled (nextTask s now o) := by
  have hheld : holding s = o := by rw [holding, ht]
  cases o with
  | none => exact h.idle rfl hheld rfl nofun
  | some t =>
    obtain ⟨done, hd, hx, hdone⟩ := h.removed
    rw [hheld, Option.toList_some] at hd
    simp only [nextTask]
    split
    · rename_i hexpired
      refine ⟨⟨done ++ [t], ?_, hx.trans (List.sublist_append_left done [t]), ?_⟩, nofun⟩
      · simpa [removed, holding] using hd
      · intro v hv
        rcases List.mem_append.mp hv with hv | hv
        · exact hdone v hv
        · obtain rfl := List.mem_singleton.mp hv
          refine Or.inr fun hnone => ?_
          rw [Task.hasExpired, hnone] at hexpired
          cases hexpired
    · have hremoved : removed (s.record (.executed t)) = removed s :=
        (removed_record s _).trans (List.append_nil _)
      have hexecuted : executed { s.record (.executed t) with thread := .running t } =
          executed s ++ [t] := executed_record s (.executed t)
      refine ⟨⟨done ++ [t], ?_, ?_, ?_⟩, ?_⟩
      · exact (hremoved.trans hd).trans (List.append_nil _).symm
      · rw [hexecuted]
        exact hx.append (List.Sublist.refl [t])
      · intro v hv
        rw [hexecuted, List.mem_append]
        rcases List.mem_append.mp hv with hv | hv
        · exact (hdone v hv).imp_left Or.inl
        · exact Or.inl (Or.inr hv)
      · intro v hv
        obtain rfl := Place.running.inj hv
        rw [hexecuted, List.getLast?_concat]

theorem step_handled {s u : State α} {e : Event α} (h : Handled s) (hs : step s e = some u) :
    Handled u := by
  cases step_effect hs with
  | call _ _ _ _ | callerLock _ _ | callerUnlock _ | quiet _ | stop _ =>
    exact h.frame rfl rfl rfl fun _ => id
  | push _ => exact addTask_handled h _ _ _
  | notify _ =>
    rcases signalled_thread s with ht | ⟨hb, ht⟩
    · exact h.frame rfl rfl (by simp only [holding, State.setCaller, ht])
        fun t hrun => ht ▸ hrun
    · have hnone : ∀ t, s.signalled.thread ≠ .running t := by simp [ht]
      exact h.idle rfl (by rw [holding, hb]) (by simp only [holding, State.setCaller, ht]) hnone
  | test ht =>
    refine h.idle rfl (by rw [holding, ht]) ?_ ?_
    · by_cases hend : s.m_threadState = .STATE_TERMINATED <;> simp [holding, hend]
    · by_cases hend : s.m_threadState = .STATE_TERMINATED <;> simp [hend]
  | lock ht _ | wait ht _ | proceed ht _ | relock ht _ | finish ht =>
    exact h.idle rfl (by rw [holding, ht]) rfl nofun
  | wake ht =>
    refine h.idle rfl ?_ rfl nofun
    rcases ht with ht | ht <;> rw [holding, ht]
  | take ht => exact takeTask_handled h ht
  | unlock ht =>
    exact h.frame rfl rfl (by simp only [holding, ht]) nofun
  | next now ht => exact nextTask_handled h now ht

structure QueueKept (s : State α) : Prop where
  placed : (removed s ++ s.m_taskList).Perm (accepted s)
  once : (accepted s).Nodup
  order : ∀ a b, [a, b] <+ acceptedBack s → b ∈ removed s → [a, b] <+ removed s
  handled : Handled s
  awake : NotAsleepOnWork s

/-- Each accepted task is removed once or still waits once, tasks pushed at the back leave in
their order, what is removed is held or handled, and the thread does not sleep on work unless its
notification is to come. -/
theorem dispatcher_queue_kept {s : State α} (h : machine.Reachable s) : QueueKept s := by
  obtain ⟨hf, hl, hh, hw⟩ : Fresh s ∧ Lined s ∧ Handled s ∧ NotAsleepOnWork s := by
    refine Machine.invariant
      (I := fun s : State α => Fresh s ∧ Lined s ∧ Handled s ∧ NotAsleepOnWork s) ?_ ?_ h
    · rintro _ rfl
      exact ⟨initial_fresh, ⟨.nil, List.Sublist.refl _⟩, initial_handled, nofun⟩
    · intro s e u ⟨hf, hl, hh, hw⟩ hs
      exact ⟨step_fresh hf hs, (step_moves hs).lined hl, step_handled hh hs,
        step_notAsleep hw hs⟩
  have hn : (accepted s).Nodup := hf.nodup.of_map
  refine ⟨hl.perm, hn, ?_, hh, hw⟩
  intro a b hab hb
  exact Line.pair_past (hl.perm.nodup_iff.mpr hn) (hab.trans hl.order) hb

def wokenEarlyTrace : List (Event ℕ) :=
  [.test, .lock, .wait, .call 0 false none 7, .call 1 true none 8, .callerLock 0, .push 0, .wake,
    .callerUnlock 0, .callerLock 1, .push 1, .callerUnlock 1, .relock, .take, .notify 0, .unlock,
    .next 0, .finish, .notify 1, .test, .lock, .proceed, .take]

theorem woken_early_trace_kept :
    ∃ s, machine.run initial wokenEarlyTrace = some s ∧ QueueKept s := by
  have hr : (machine.run initial wokenEarlyTrace).isSome := by decide
  obtain ⟨s, hs⟩ := Option.isSome_iff_exists.mp hr
  exact ⟨s, hs, dispatcher_queue_kept (Machine.run_reachable (.start rfl) hs)⟩

end LoginServer.Dispatcher
