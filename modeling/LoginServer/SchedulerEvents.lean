import LoginServer.SchedulerOwners
import Mathlib.Algebra.Group.Nat.Defs
import Mathlib.Data.List.Range

/-! # What becomes of a queued event

`stopEvent` only takes the id out of `m_eventIds`; the task stays in `m_eventList` until the
thread pops it. The ledger relates the two through the history: every task that was queued is in
the list, with the thread, handed over, or was stopped, and its id says which. It holds as long
as the ids have not wrapped around. -/
namespace LoginServer.Scheduler

open Runs

def Record.queuedTask : Record → Option SchedulerTask
  | .queued t => some t
  | _ => none

def Record.handedTask : Record → Option SchedulerTask
  | .handed t _ => some t
  | _ => none

def queuedTasks (s : State) : List SchedulerTask := s.history.filterMap Record.queuedTask

def handedTasks (s : State) : List SchedulerTask := s.history.filterMap Record.handedTask

/-- `stopEvent(eventId)` has returned true. -/
def Stopped (s : State) (eventId : ℕ) : Prop := .stopped eventId true ∈ s.history

def CallerPlace.unqueued : CallerPlace → Option SchedulerTask
  | .entering t | .locked t => some t
  | _ => none

def CallerPlace.queued : CallerPlace → Option SchedulerTask
  | .pushed t _ | .unlocked t _ | .returning t => some t
  | _ => none

/-- Every task that is neither dropped nor still with its caller. -/
def line (s : State) : List SchedulerTask :=
  s.m_eventList ++ (s.carried.map Prod.fst).toList ++ handedTasks s

structure Ledger (s : State) : Prop where
  running : s.m_threadState = .STATE_RUNNING
  ids : (queuedTasks s).map SchedulerTask.getEventId = List.range' 1 s.m_lastEvent
  placed : ((line s).map SchedulerTask.getEventId).Nodup
  known : ∀ t ∈ line s, t ∈ queuedTasks s
  complete : ∀ t ∈ queuedTasks s, t ∈ line s ∨ Stopped s t.getEventId
  listed : ∀ eventId ∈ s.m_eventIds, ∃ t ∈ s.m_eventList, t.getEventId = eventId
  live : ∀ t ∈ s.m_eventList, t.getEventId ∈ s.m_eventIds ↔ ¬ Stopped s t.getEventId
  flag : ∀ t run, s.carried = some (t, run) → (run = true ↔ ¬ Stopped s t.getEventId)
  handed : ∀ t ∈ handedTasks s, ¬ Stopped s t.getEventId
  stopped : ∀ eventId, Stopped s eventId → eventId ≤ s.m_lastEvent
  returned : ∀ ptr eventId, .returned ptr eventId ∈ s.history →
    ∃ t ∈ queuedTasks s, t.getEventId = eventId

/-- A task has its id exactly from the push on. -/
structure Calls (s : State) : Prop where
  unqueued : ∀ i t, (s.callers i).unqueued = some t → t.getEventId = 0
  queued : ∀ i t, (s.callers i).queued = some t → t ∈ queuedTasks s

/-- The threads keep running, and nobody asks an empty queue for its top. -/
def StaysRunning (_ : State) : Event → Prop
  | .stop | .shutdown | .popEmpty => False
  | _ => True

instance (s : State) : ∀ e, Decidable (StaysRunning s e)
  | .stop | .shutdown | .popEmpty => isFalse id
  | .tick _ | .call _ _ | .callerLock _ | .push _ _ | .callerUnlock _ | .notify _ | .callerReturn _
  | .stopEvent _ | .test | .lock | .wait _ | .wake _ | .relock | .pop _ | .skip | .unlock
  | .finish => isTrue trivial

theorem Ledger.frame {s u : State} (h : Ledger s) (hst : u.m_threadState = s.m_threadState)
    (hle : u.m_lastEvent = s.m_lastEvent) (hi : u.m_eventIds = s.m_eventIds)
    (hl : u.m_eventList = s.m_eventList) (hc : u.carried = s.carried)
    (hq : queuedTasks u = queuedTasks s) (hh : handedTasks u = handedTasks s)
    (hs : ∀ eventId, Stopped u eventId ↔ Stopped s eventId)
    (hr : ∀ ptr eventId, .returned ptr eventId ∈ u.history →
      ∃ t ∈ queuedTasks s, t.getEventId = eventId) : Ledger u := by
  have hline : line u = line s := by simp only [line, hl, hc, hh]
  refine ⟨hst.trans h.running, ?_, ?_, ?_, ?_, ?_, ?_, ?_, ?_, ?_, ?_⟩
  · rw [hq, hle]; exact h.ids
  · rw [hline]; exact h.placed
  · rw [hline, hq]; exact h.known
  · rw [hline, hq]; simpa only [hs] using h.complete
  · rw [hi, hl]; exact h.listed
  · rw [hi, hl]; simpa only [hs] using h.live
  · rw [hc]; simpa only [hs] using h.flag
  · rw [hh]; simpa only [hs] using h.handed
  · rw [hle]; simpa only [hs] using h.stopped
  · rw [hq]; exact hr

theorem Ledger.silent {s u : State} (h : Ledger s) (hst : u.m_threadState = s.m_threadState)
    (hle : u.m_lastEvent = s.m_lastEvent) (hi : u.m_eventIds = s.m_eventIds)
    (hl : u.m_eventList = s.m_eventList) (hc : u.carried = s.carried)
    (hh : u.history = s.history) : Ledger u := by
  apply h.frame hst hle hi hl hc
  · simp only [queuedTasks, hh]
  · simp only [handedTasks, hh]
  · simp only [Stopped, hh, implies_true]
  · rw [hh]; exact h.returned

theorem Ledger.queued_le {s : State} (h : Ledger s) {t : SchedulerTask} (ht : t ∈ queuedTasks s) :
    t.getEventId ≤ s.m_lastEvent := by
  have hm := List.mem_map_of_mem (f := SchedulerTask.getEventId) ht
  rw [h.ids, List.mem_range'_1] at hm
  omega

theorem Calls.of_frame {s u : State} (h : Calls s) {i : ℕ} {p : CallerPlace}
    (hc : u.callers = (s.setCaller i p).callers) (hq : queuedTasks u = queuedTasks s)
    (hu : ∀ t, p.unqueued = some t → t.getEventId = 0)
    (hp : ∀ t, p.queued = some t → t ∈ queuedTasks s) : Calls u := by
  constructor
  · intro j t hj
    rw [hc] at hj
    by_cases hji : j = i
    · subst hji
      exact hu t (by simpa [State.setCaller] using hj)
    · exact h.unqueued j t (by simpa [State.setCaller, hji] using hj)
  · intro j t hj
    rw [hc] at hj
    rw [hq]
    by_cases hji : j = i
    · subst hji
      exact hp t (by simpa [State.setCaller] using hj)
    · exact h.queued j t (by simpa [State.setCaller, hji] using hj)

theorem Calls.same {s u : State} (h : Calls s) (hc : u.callers = s.callers)
    (hq : queuedTasks u = queuedTasks s) : Calls u :=
  ⟨by rw [hc]; exact h.unqueued, by rw [hc, hq]; exact h.queued⟩

section Push

variable {s : State} {i : ℕ} {signal : Bool} {t : SchedulerTask}

theorem nextEventId_eq {n : ℕ} (h : n < 0xFFFFFFFF) : nextEventId n = n + 1 := by
  rw [nextEventId]
  split
  · omega
  · rfl

theorem assignId_eq (h0 : t.getEventId = 0) (hn : s.m_lastEvent < 0xFFFFFFFF) :
    s.assignId t =
      ({ s with m_lastEvent := s.m_lastEvent + 1 }, t.setEventId (s.m_lastEvent + 1)) := by
  rw [State.assignId, if_pos h0, nextEventId_eq hn]

variable (i signal) in
theorem queuedTasks_pushed (h0 : t.getEventId = 0) (hn : s.m_lastEvent < 0xFFFFFFFF) :
    queuedTasks (pushed s i signal t) =
      queuedTasks s ++ [t.setEventId (s.m_lastEvent + 1)] := by
  simp [queuedTasks, pushed, assignId_eq h0 hn, State.enqueue, Record.queuedTask]

theorem pushed_ledger (h : Ledger s) (h0 : t.getEventId = 0) (hn : s.m_lastEvent < 0xFFFFFFFF) :
    Ledger (pushed s i signal t) := by
  have hassign := assignId_eq h0 hn
  have hq := queuedTasks_pushed i signal h0 hn
  have hh : handedTasks (pushed s i signal t) = handedTasks s := by
    simp [handedTasks, pushed, hassign, State.enqueue, Record.handedTask]
  have hs : ∀ eventId, Stopped (pushed s i signal t) eventId ↔ Stopped s eventId := by
    simp [Stopped, pushed, hassign, State.enqueue]
  have hl : (pushed s i signal t).m_eventList =
      t.setEventId (s.m_lastEvent + 1) :: s.m_eventList := by
    rw [pushed_eventList, hassign]
  have hi : (pushed s i signal t).m_eventIds = insert (s.m_lastEvent + 1) s.m_eventIds := by
    simp [pushed, hassign, State.enqueue, State.setCaller, State.record, SchedulerTask.getEventId,
      SchedulerTask.setEventId]
  have hc : (pushed s i signal t).carried = s.carried := by
    simp only [State.carried, pushed_thread]
  have hlast : (pushed s i signal t).m_lastEvent = s.m_lastEvent + 1 := by
    simp [pushed, hassign, State.enqueue, State.setCaller, State.record]
  have hline : line (pushed s i signal t) = t.setEventId (s.m_lastEvent + 1) :: line s := by
    simp only [line, hl, hc, hh, List.cons_append]
  have hfresh : ¬ Stopped s (s.m_lastEvent + 1) := fun hf => by
    have hle := h.stopped _ hf
    omega
  refine ⟨?_, ?_, ?_, ?_, ?_, ?_, ?_, ?_, ?_, ?_, ?_⟩
  · simpa [pushed, hassign, State.enqueue] using h.running
  · rw [hq, hlast, List.map_append, h.ids, List.range'_1_concat, Nat.add_comm 1]
    rfl
  · rw [hline, List.map_cons, List.nodup_cons]
    refine ⟨fun hm => ?_, h.placed⟩
    obtain ⟨v, hv, he⟩ := List.mem_map.mp hm
    have hle := h.queued_le (h.known v hv)
    have hid : (t.setEventId (s.m_lastEvent + 1)).getEventId = s.m_lastEvent + 1 := rfl
    omega
  · rw [hline, hq]
    intro v hv
    rcases List.mem_cons.mp hv with rfl | hv
    · simp
    · exact List.mem_append_left _ (h.known v hv)
  · rw [hline, hq]
    intro v hv
    rcases List.mem_append.mp hv with hv | hv
    · rcases h.complete v hv with hm | hm
      · exact Or.inl (List.mem_cons_of_mem _ hm)
      · exact Or.inr ((hs _).mpr hm)
    · rw [List.mem_singleton.mp hv]
      exact Or.inl List.mem_cons_self
  · rw [hi, hl]
    intro eventId hm
    rcases Finset.mem_insert.mp hm with rfl | hm
    · exact ⟨_, List.mem_cons_self, rfl⟩
    · obtain ⟨v, hv, he⟩ := h.listed eventId hm
      exact ⟨v, List.mem_cons_of_mem _ hv, he⟩
  · rw [hi, hl]
    intro v hv
    rw [hs]
    rcases List.mem_cons.mp hv with rfl | hv
    · exact iff_of_true (Finset.mem_insert_self _ _) hfresh
    · have hle := h.queued_le (h.known v (by simp [line, hv]))
      rw [Finset.mem_insert, or_iff_right (by omega)]
      exact h.live v hv
  · rw [hc]; simpa only [hs] using h.flag
  · rw [hh]; simpa only [hs] using h.handed
  · rw [hlast]
    intro eventId hm
    have hle := h.stopped eventId ((hs _).mp hm)
    omega
  · rw [hq]
    intro ptr eventId hm
    obtain ⟨v, hv, he⟩ := h.returned ptr eventId (by simpa [pushed, hassign, State.enqueue] using hm)
    exact ⟨v, List.mem_append_left _ hv, he⟩

theorem pushed_calls (h : Calls s) (h0 : t.getEventId = 0) (hn : s.m_lastEvent < 0xFFFFFFFF) :
    Calls (pushed s i signal t) := by
  have hassign := assignId_eq h0 hn
  have hq := queuedTasks_pushed i signal h0 hn
  have hc : (pushed s i signal t).callers =
      (s.setCaller i (.pushed (t.setEventId (s.m_lastEvent + 1)) signal)).callers := by
    simp [pushed, hassign, State.enqueue, State.setCaller, State.record]
  constructor
  · intro j v hj
    rw [hc] at hj
    by_cases hji : j = i
    · simp [State.setCaller, hji, CallerPlace.unqueued] at hj
    · exact h.unqueued j v (by simpa [State.setCaller, hji] using hj)
  · intro j v hj
    rw [hc] at hj
    rw [hq]
    by_cases hji : j = i
    · have hv : t.setEventId (s.m_lastEvent + 1) = v := by
        simpa [State.setCaller, hji, CallerPlace.queued] using hj
      simp [hv]
    · exact List.mem_append_left _ (h.queued j v (by simpa [State.setCaller, hji] using hj))

end Push

theorem Ledger.noted {s u : State} (h : Ledger s) (hst : u.m_threadState = s.m_threadState)
    (hle : u.m_lastEvent = s.m_lastEvent) (hi : u.m_eventIds = s.m_eventIds)
    (hl : u.m_eventList = s.m_eventList) (hc : u.carried = s.carried) {r : Record}
    (hh : u.history = s.history ++ [r]) (hq : r.queuedTask = none) (hd : r.handedTask = none)
    (hs : ∀ eventId, r ≠ .stopped eventId true)
    (hr : ∀ ptr eventId, r = .returned ptr eventId → ∃ t ∈ queuedTasks s, t.getEventId = eventId) :
    Ledger u := by
  apply h.frame hst hle hi hl hc
  · simp [queuedTasks, hh, hq]
  · simp [handedTasks, hh, hd]
  · intro eventId
    simp [Stopped, hh, (hs eventId).symm]
  · intro ptr eventId hm
    rw [hh] at hm
    rcases List.mem_append.mp hm with hm | hm
    · exact h.returned ptr eventId hm
    · exact hr ptr eventId (List.mem_singleton.mp hm).symm

theorem queuedTasks_note {s u : State} {r : Record} (hh : u.history = s.history ++ [r])
    (hq : r.queuedTask = none) : queuedTasks u = queuedTasks s := by
  simp [queuedTasks, hh, hq]

theorem Ledger.unique {s : State} (h : Ledger s) {t v : SchedulerTask} (ht : t ∈ line s)
    (hv : v ∈ line s) (he : t.getEventId = v.getEventId) : t = v :=
  List.inj_on_of_nodup_map h.placed ht hv he

theorem mem_line {s : State} {t : SchedulerTask} : t ∈ line s ↔
    t ∈ s.m_eventList ∨ (∃ run, s.carried = some (t, run)) ∨ t ∈ handedTasks s := by
  rw [line]
  rcases s.carried with _ | ⟨v, run⟩
  · simp
  · simp [eq_comm]

theorem stopEvent_found_ledger {s : State} {eventId : ℕ} (h : Ledger s)
    (hm : eventId ∈ s.m_eventIds) :
    Ledger ({ s with m_eventIds := s.m_eventIds.erase eventId }.record (.stopped eventId true)) := by
  obtain ⟨x, hx, hxe⟩ := h.listed eventId hm
  have hxl : x ∈ line s := mem_line.mpr (Or.inl hx)
  have hother : ∀ v ∈ line s, v ≠ x → v.getEventId ≠ eventId := by
    intro v hv hne he
    exact hne (h.unique hv hxl (he.trans hxe.symm))
  have hs : ∀ n, Stopped ({ s with m_eventIds := s.m_eventIds.erase eventId }.record
      (.stopped eventId true)) n ↔ Stopped s n ∨ n = eventId := by
    intro n
    simp [Stopped]
  have hapart : ∀ v, (∃ run, s.carried = some (v, run)) ∨ v ∈ handedTasks s → v ≠ x := by
    rintro v hv rfl
    have hn := h.placed
    rw [line, List.append_assoc, List.map_append, List.nodup_append] at hn
    refine hn.2.2 _ (List.mem_map_of_mem hx) _ (List.mem_map_of_mem ?_) rfl
    rcases hv with ⟨run, hv⟩ | hv
    · simp [hv]
    · exact List.mem_append_right _ hv
  have hq : queuedTasks ({ s with m_eventIds := s.m_eventIds.erase eventId }.record
      (.stopped eventId true)) = queuedTasks s := queuedTasks_note rfl rfl
  have hline : line ({ s with m_eventIds := s.m_eventIds.erase eventId }.record
      (.stopped eventId true)) = line s := by
    simp [line, handedTasks, State.carried, Record.handedTask]
  refine ⟨h.running, ?_, ?_, ?_, ?_, ?_, ?_, ?_, ?_, ?_, ?_⟩
  · rw [hq]; exact h.ids
  · rw [hline]; exact h.placed
  · rw [hline, hq]; exact h.known
  · rw [hline, hq]
    intro v hv
    rw [hs]
    exact (h.complete v hv).imp_right Or.inl
  · intro n hn
    exact h.listed n (Finset.mem_of_mem_erase hn)
  · intro v hv
    rw [hs]
    show v.getEventId ∈ s.m_eventIds.erase eventId ↔ _
    rw [Finset.mem_erase, h.live v hv]
    tauto
  · intro v run hv
    have hne := hother v (mem_line.mpr (Or.inr (Or.inl ⟨run, hv⟩))) (hapart v (Or.inl ⟨run, hv⟩))
    rw [hs, or_iff_left hne]
    exact h.flag v run hv
  · intro v hv
    have hv' : v ∈ handedTasks s := by simpa [handedTasks, Record.handedTask] using hv
    have hne := hother v (mem_line.mpr (Or.inr (Or.inr hv'))) (hapart v (Or.inr hv'))
    rw [hs, or_iff_left hne]
    exact h.handed v hv'
  · intro n hn
    rcases (hs n).mp hn with hn | rfl
    · exact h.stopped n hn
    · exact hxe ▸ h.queued_le (h.known x hxl)
  · rw [hq]
    intro ptr n hn
    exact h.returned ptr n (by simpa using hn)

theorem popTop_ledger {s : State} {w : Wait} {t : SchedulerTask} (h : Ledger s)
    (hw : s.thread = .resumed w false) (htop : IsTop t s.m_eventList) : Ledger (popTop s t) := by
  have hnone : s.carried = none := by simp [State.carried, hw]
  have hline : (line (popTop s t)).Perm (line s) := by
    have hc : (popTop s t).carried = some (t, decide (t.getEventId ∈ s.m_eventIds)) := rfl
    have hl : (popTop s t).m_eventList = s.m_eventList.erase t := rfl
    have hd : handedTasks (popTop s t) = handedTasks s := rfl
    have hp : (s.m_eventList.erase t ++ [t]).Perm s.m_eventList :=
      (List.perm_append_singleton _ _).trans (List.perm_cons_erase htop.1).symm
    simp only [line, hc, hl, hd, hnone]
    simpa using hp.append_right (handedTasks s)
  have hsub : ∀ v ∈ s.m_eventList.erase t, v ∈ s.m_eventList ∧ v ≠ t := by
    intro v hv
    have hnd : s.m_eventList.Nodup := by
      have hn := List.Nodup.of_map _ h.placed
      rw [line, List.append_assoc] at hn
      exact (List.nodup_append.mp hn).1
    exact ⟨List.mem_of_mem_erase hv, fun he => hnd.not_mem_erase (he ▸ hv)⟩
  have hin : ∀ v ∈ s.m_eventList, v ∈ line s := fun v hv => mem_line.mpr (Or.inl hv)
  refine ⟨h.running, h.ids, (hline.map _).nodup_iff.mpr h.placed, ?_, ?_, ?_, ?_, ?_, h.handed,
    h.stopped, h.returned⟩
  · intro v hv
    exact h.known v (hline.mem_iff.mp hv)
  · intro v hv
    exact (h.complete v hv).imp_left hline.mem_iff.mpr
  · intro eventId hm
    obtain ⟨hne, hm⟩ := Finset.mem_erase.mp hm
    obtain ⟨v, hv, he⟩ := h.listed eventId hm
    have hvt : v ≠ t := by
      rintro rfl
      exact hne he.symm
    exact ⟨v, (List.mem_erase_of_ne hvt).mpr hv, he⟩
  · intro v hv
    obtain ⟨hv, hvt⟩ := hsub v hv
    have hne : v.getEventId ≠ t.getEventId := fun he =>
      hvt (h.unique (hin v hv) (hin t htop.1) he)
    show v.getEventId ∈ s.m_eventIds.erase t.getEventId ↔ _
    rw [Finset.mem_erase, and_iff_right hne]
    exact h.live v hv
  · intro v run hv
    obtain ⟨rfl, rfl⟩ := Prod.mk.inj (Option.some.inj hv)
    rw [decide_eq_true_iff]
    exact h.live t htop.1

theorem Ledger.laidDown {s : State} {r : Record} (h : Ledger s) (hq : r.queuedTask = none)
    (hs : ∀ eventId, r ≠ .stopped eventId true) (hr : ∀ ptr eventId, r ≠ .returned ptr eventId)
    (hplaced : ((line { s.record r with thread := .loop }).map SchedulerTask.getEventId).Nodup)
    (hold : ∀ t ∈ line { s.record r with thread := .loop }, t ∈ line s)
    (hleft : ∀ t ∈ line s, t ∈ line { s.record r with thread := .loop } ∨ Stopped s t.getEventId)
    (hhanded : ∀ t ∈ r.handedTask, ¬ Stopped s t.getEventId) :
    Ledger { s.record r with thread := .loop } := by
  have hqueued : queuedTasks { s.record r with thread := .loop } = queuedTasks s :=
    queuedTasks_note rfl hq
  have hstopped : ∀ n, Stopped { s.record r with thread := .loop } n ↔ Stopped s n := by
    intro n
    simp [Stopped, (hs n).symm]
  refine ⟨h.running, ?_, hplaced, ?_, ?_, h.listed, ?_, (fun _ _ hv => by cases hv), ?_, ?_, ?_⟩
  · rw [hqueued]; exact h.ids
  · rw [hqueued]
    intro v hv
    exact h.known v (hold v hv)
  · rw [hqueued]
    intro v hv
    rw [hstopped]
    exact (h.complete v hv).elim (hleft v) Or.inr
  · intro v hv
    rw [hstopped]
    exact h.live v hv
  · intro v hv
    rw [hstopped]
    have hcases : v ∈ handedTasks s ∨ v ∈ r.handedTask := by
      rw [handedTasks, record_history, List.filterMap_append, List.mem_append] at hv
      exact hv.imp_right fun hv => by simpa using hv
    exact hcases.elim (h.handed v) (hhanded v)
  · intro n hn
    exact h.stopped n ((hstopped n).mp hn)
  · rw [hqueued]
    intro ptr n hn
    refine h.returned ptr n ?_
    rw [record_history, List.mem_append] at hn
    exact hn.resolve_right fun he => hr ptr n (List.mem_singleton.mp he).symm

theorem handed_ledger {s : State} {t : SchedulerTask} (h : Ledger s)
    (ho : s.thread = .unlocked (some (t, true))) :
    Ledger { s.record (.handed t s.now) with thread := .loop } := by
  have hc : s.carried = some (t, true) := by simp [State.carried, ho]
  have hh : handedTasks { s.record (.handed t s.now) with thread := .loop } =
      handedTasks s ++ [t] := by
    simp [handedTasks, Record.handedTask]
  have hline : (line { s.record (.handed t s.now) with thread := .loop }).Perm (line s) := by
    have hn : ({ s.record (.handed t s.now) with thread := .loop } : State).carried = none := rfl
    have hp : (handedTasks s ++ [t]).Perm ([t] ++ handedTasks s) := List.perm_append_comm
    simp only [line, hn, hc, hh]
    simpa using hp.append_left s.m_eventList
  apply h.laidDown rfl (by simp) (by simp)
  · exact (hline.map _).nodup_iff.mpr h.placed
  · exact fun v => hline.mem_iff.mp
  · exact fun v hv => Or.inl (hline.mem_iff.mpr hv)
  · intro v hv
    obtain rfl := Option.some.inj hv
    exact (h.flag t true hc).mp rfl

theorem dropped_ledger {s : State} {t : SchedulerTask} (h : Ledger s)
    (ho : s.thread = .unlocked (some (t, false))) :
    Ledger { s.record (.deleted t.ptr) with thread := .loop } := by
  have hc : s.carried = some (t, false) := by simp [State.carried, ho]
  have hh : handedTasks { s.record (.deleted t.ptr) with thread := .loop } = handedTasks s := by
    simp [handedTasks, Record.handedTask]
  have hline : line { s.record (.deleted t.ptr) with thread := .loop } =
      s.m_eventList ++ handedTasks s := by
    have hl : ({ s.record (.deleted t.ptr) with thread := .loop } : State).m_eventList =
      s.m_eventList := rfl
    have hn : ({ s.record (.deleted t.ptr) with thread := .loop } : State).carried = none := rfl
    rw [line, hl, hn, hh]
    simp
  have hmem : ∀ v, v ∈ line s ↔ v ∈ s.m_eventList ++ handedTasks s ∨ v = t := by
    intro v
    rw [mem_line, hc, List.mem_append]
    simp only [Option.some.injEq, Prod.mk.injEq, exists_and_left, exists_eq', and_true]
    tauto
  apply h.laidDown rfl (by simp) (by simp)
  · rw [hline]
    have hn := h.placed
    simp only [line, hc, Option.map_some, Option.toList_some] at hn
    exact hn.sublist (((List.sublist_append_left _ _).append_right _).map _)
  · rw [hline]
    exact fun v hv => (hmem v).mpr (Or.inl hv)
  · rw [hline]
    intro v hv
    refine ((hmem v).mp hv).imp_right ?_
    rintro rfl
    by_contra hns
    exact Bool.false_ne_true ((h.flag v false hc).mpr hns)
  · intro v hv
    cases hv

theorem queuedTasks_length_le {s u : State} (h : s.history <+: u.history) :
    (queuedTasks s).length ≤ (queuedTasks u).length :=
  (h.filterMap _).length_le

theorem Ledger.lastEvent {s : State} (h : Ledger s) : s.m_lastEvent = (queuedTasks s).length := by
  have hlen := congrArg List.length h.ids
  rw [List.length_map, List.length_range'] at hlen
  exact hlen.symm

theorem step_ledger {s u : State} {e : Event} (h : Ledger s) (hc : Calls s)
    (hok : StaysRunning s e) (hn : (queuedTasks s).length < 0xFFFFFFFF)
    (hs : step s e = some u) : Ledger u := by
  cases step_effect hs with
  | push hi _ _ => exact pushed_ledger h (hc.unqueued _ _ (by rw [hi]; rfl)) (h.lastEvent ▸ hn)
  | tick _ | call _ _ _ | callerLock _ _ | refuse _ _ | callerUnlock _ | quiet _ _ =>
    exact h.silent rfl rfl rfl rfl rfl rfl
  | drop _ | stopMissed _ => exact h.noted rfl rfl rfl rfl rfl rfl rfl rfl nofun nofun
  | @callerReturn i t hi =>
    refine h.noted rfl rfl rfl rfl rfl rfl rfl rfl nofun ?_
    intro ptr eventId he
    obtain ⟨rfl, rfl⟩ := Record.returned.inj he
    exact ⟨t, hc.queued i t (by rw [hi]; rfl), rfl⟩
  | stopFound _ hm => exact stopEvent_found_ledger h hm
  | stop _ | shutdown _ | popEmpty _ _ _ => exact hok.elim
  | notify _ ht | exit ht _ | test ht _ | lock ht _ | waitEmpty ht _ | waitTop ht _ | relock ht _
  | skip ht _ | unlock ht | again ht =>
    exact h.silent rfl rfl rfl rfl (by simp [State.carried, State.setCaller, ht]) rfl
  | wake ht _ =>
    refine h.silent rfl rfl rfl rfl ?_ rfl
    rcases ht with ht | ht <;> simp [State.carried, ht]
  | pop hw _ htop => exact popTop_ledger h hw htop
  | hand ho => exact handed_ledger h ho
  | discard ho => exact dropped_ledger h ho

theorem step_calls {s u : State} {e : Event} (h : Ledger s) (hc : Calls s)
    (hn : (queuedTasks s).length < 0xFFFFFFFF) (hs : step s e = some u) : Calls u := by
  cases step_effect hs with
  | push hi _ _ => exact pushed_calls hc (hc.unqueued _ _ (by rw [hi]; rfl)) (h.lastEvent ▸ hn)
  | call i delay _ =>
    refine hc.of_frame rfl rfl ?_ nofun
    intro t ht
    obtain rfl := Option.some.inj ht
    rfl
  | @callerLock i t hi _ =>
    refine hc.of_frame rfl rfl ?_ nofun
    intro v hv
    obtain rfl := Option.some.inj hv
    exact hc.unqueued i t (by rw [hi]; rfl)
  | refuse _ _ => exact hc.of_frame rfl rfl nofun nofun
  | @callerUnlock i t _ hi | @notify i t _ hi _ | @quiet i t _ hi _ =>
    refine hc.of_frame rfl rfl nofun ?_
    intro v hv
    obtain rfl := Option.some.inj hv
    exact hc.queued i t (by rw [hi]; rfl)
  | drop _ | callerReturn _ => exact hc.of_frame rfl (queuedTasks_note rfl rfl) nofun nofun
  | stopFound _ _ | stopMissed _ | hand _ | discard _ => exact hc.same rfl (queuedTasks_note rfl rfl)
  | _ => exact hc.same rfl rfl

theorem initial_ledger (now : ℕ) : Ledger (initial now) := by
  constructor <;> simp [initial, queuedTasks, handedTasks, line, State.carried, Stopped]

theorem reachable_ledger {s : State} (h : machine.ReachableBy StaysRunning s)
    (hn : (queuedTasks s).length < 0xFFFFFFFF) : Ledger s := by
  refine (Machine.invariant_by (I := fun s => (queuedTasks s).length < 0xFFFFFFFF →
    Ledger s ∧ Calls s) ?_ ?_ h hn).1
  · rintro _ ⟨now, rfl⟩ _
    refine ⟨initial_ledger now, ?_, ?_⟩
    · intro i t ht
      cases ht
    · intro i t ht
      cases ht
  · intro s e u hi hok hs hu
    have hlt := (queuedTasks_length_le (step_history hs)).trans_lt hu
    obtain ⟨hl, hc⟩ := hi hlt
    exact ⟨step_ledger hl hc hok hlt hs, step_calls hl hc hlt hs⟩

/-- The thread has popped the task to run it and has not yet called `Dispatcher::addTask`. -/
def OnTheWay (s : State) (t : SchedulerTask) : Prop := s.carried = some (t, true)

structure EventsKept (s : State) : Prop where
  ids_listed : ∀ eventId ∈ s.m_eventIds, eventId ∈ s.m_eventList.map SchedulerTask.getEventId
  ids_distinct : (s.m_eventList.map SchedulerTask.getEventId).Nodup
  handed_once : ((handedTasks s).map SchedulerTask.getEventId).Nodup
  stopped_kept_back : ∀ eventId, Stopped s eventId → ∀ t ∈ handedTasks s, t.getEventId ≠ eventId
  stop_refused : ∀ ptr eventId, .returned ptr eventId ∈ s.history →
    stopEvent s eventId = s.record (.stopped eventId false) →
    (∃ t, t.getEventId = eventId ∧ (t ∈ handedTasks s ∨ OnTheWay s t)) ∨ Stopped s eventId
  popped_handed : ∀ t ∈ queuedTasks s, t ∉ s.m_eventList → ¬ Stopped s t.getEventId →
    t ∈ handedTasks s ∨ OnTheWay s t

/-- A task on its way is handed over by the thread's own next steps. -/
theorem on_the_way_is_handed {s : State} {t : SchedulerTask} (h : OnTheWay s t) :
    ∃ es u, machine.run s es = some u ∧ t ∈ handedTasks u := by
  rw [OnTheWay, State.carried] at h
  split at h
  · rename_i o ho
    subst h
    refine ⟨[.unlock, .finish], finishLoop { s with
      thread := .unlocked (some (t, true)), m_eventLock := none } (some (t, true)), ?_, ?_⟩
    · simp [Machine.run, machine, step, ho]
    · simp [handedTasks, finishLoop, Record.handedTask]
  · rename_i o ho
    subst h
    refine ⟨[.finish], finishLoop s (some (t, true)), ?_, ?_⟩
    · simp [Machine.run, machine, step, ho]
    · simp [handedTasks, finishLoop, Record.handedTask]
  · cases h

/-- The events of every run with fewer than 2^32 - 1 of them are accounted for. -/
theorem events_neither_lost_nor_duplicated {s : State} (h : machine.ReachableBy StaysRunning s)
    (hn : (queuedTasks s).length < 2 ^ 32 - 1) : EventsKept s := by
  have hl := reachable_ledger h (by simpa using hn)
  have hplaced := hl.placed
  rw [line, List.map_append, List.map_append] at hplaced
  have hway : ∀ t ∈ queuedTasks s, t ∉ s.m_eventList → ¬ Stopped s t.getEventId →
      t ∈ handedTasks s ∨ OnTheWay s t := by
    intro t ht hout hns
    rcases hl.complete t ht with hm | hm
    · rcases mem_line.mp hm with hm | ⟨run, hm⟩ | hm
      · exact absurd hm hout
      · obtain rfl := (hl.flag t run hm).mpr hns
        exact Or.inr hm
      · exact Or.inl hm
    · exact absurd hm hns
  refine ⟨?_, ?_, ?_, ?_, ?_, hway⟩
  · intro eventId hm
    obtain ⟨t, ht, he⟩ := hl.listed eventId hm
    exact List.mem_map.mpr ⟨t, ht, he⟩
  · exact (List.nodup_append.mp (List.nodup_append.mp hplaced).1).1
  · exact (List.nodup_append.mp hplaced).2.1
  · rintro eventId hs t ht rfl
    exact hl.handed t ht hs
  · intro ptr eventId hr hstop
    by_cases hs : Stopped s eventId
    · exact Or.inr hs
    · left
      obtain ⟨t, ht, rfl⟩ := hl.returned ptr eventId hr
      refine ⟨t, rfl, hway t ht (fun hm => ?_) hs⟩
      have hid := (hl.live t hm).mpr hs
      have hpos : t.getEventId ≠ 0 := by
        have hk := List.mem_map_of_mem (f := SchedulerTask.getEventId) ht
        rw [hl.ids, List.mem_range'_1] at hk
        omega
      simp [stopEvent, hpos, hid, State.record] at hstop

def cancelTrace : List Event :=
  let t := (createSchedulerTask 0 0 0).setEventId 1
  let v := (createSchedulerTask 1 0 100).setEventId 2
  [.call 0 0, .callerLock 0, .push 0 true, .callerUnlock 0, .notify 0, .callerReturn 0,
    .call 1 100, .callerLock 1, .push 1 false, .callerUnlock 1, .notify 1, .callerReturn 1,
    .stopEvent 2, .test, .lock, .wait (some t), .tick 100000, .wake false, .relock, .pop t, .unlock,
    .finish, .test, .lock, .wait (some v), .wake false, .relock, .pop v, .unlock, .finish]

theorem cancel_trace_kept : ∃ s, machine.run (initial 0) cancelTrace = some s ∧ EventsKept s := by
  obtain ⟨s, hs, hn⟩ : ∃ s, machine.run (initial 0) cancelTrace = some s ∧
      (queuedTasks s).length < 2 ^ 32 - 1 := Machine.exists_run (by decide)
  exact ⟨s, hs, events_neither_lost_nor_duplicated
    (Machine.run_reachable_by (.start ⟨0, rfl⟩) (by decide) hs) hn⟩

/-- An id that `addEvent` returned and `stopEvent` refuses is that of an event the dispatcher has
got, or of a stopped one. -/
def RefusedMeansHanded (s : State) : Prop :=
  ∀ ptr eventId, .returned ptr eventId ∈ s.history →
    stopEvent s eventId = s.record (.stopped eventId false) →
    (∃ t ∈ handedTasks s, t.getEventId = eventId) ∨ Stopped s eventId

def betweenTrace : List Event :=
  let t := (createSchedulerTask 0 0 0).setEventId 1
  [.call 0 0, .callerLock 0, .push 0 true, .callerUnlock 0, .notify 0, .callerReturn 0,
    .test, .lock, .wait (some t), .tick 50000, .wake false, .relock, .pop t, .unlock]

theorem refused_before_handed : ¬ ∀ s, machine.ReachableBy StaysRunning s →
    (queuedTasks s).length < 2 ^ 32 - 1 → RefusedMeansHanded s := by
  intro hall
  obtain ⟨s, hs, hn, hr, hid, hh, hst⟩ : ∃ s, machine.run (initial 0) betweenTrace = some s ∧
      (queuedTasks s).length < 2 ^ 32 - 1 ∧ .returned 0 1 ∈ s.history ∧ 1 ∉ s.m_eventIds ∧
      handedTasks s = [] ∧ .stopped 1 true ∉ s.history := Machine.exists_run (by decide)
  have hreach : machine.ReachableBy StaysRunning s :=
    Machine.run_reachable_by (.start ⟨0, rfl⟩) (by decide) hs
  rcases hall s hreach hn 0 1 hr (by simp [stopEvent, hid]) with ⟨t, ht, _⟩ | hst'
  · rw [hh] at ht
    cases ht
  · exact hst hst'

end LoginServer.Scheduler
