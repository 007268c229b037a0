import LoginServer.Library.Ownership
import LoginServer.SchedulerSteps
import Mathlib.Data.List.Perm.Subperm
import Mathlib.Data.List.Nodup

/-! # A task is in one place at a time

A task is with its caller, in the queue, with the thread, deleted, or beyond the scheduler.
The pointers of all these places are pairwise different, for any list of pointers that stands
for what the dispatcher has; every step only moves one of them, or lets it go. -/
namespace LoginServer.Scheduler

open scoped List

theorem nodup_of_subperm {α : Type*} {l k : List α} (h : l <+~ k) (hk : k.Nodup) : l.Nodup := by
  obtain ⟨m, hp, hs⟩ := h
  exact hp.nodup_iff.mp (hk.sublist hs)

/-- The popped task in the hands of the thread, and whether it is to be run. -/
def State.carried (s : State) : Option (SchedulerTask × Bool) :=
  match s.thread with
  | .popped o | .unlocked o => o
  | _ => none

/-- The task that `addEvent` has not pushed, or will delete. -/
def CallerPlace.held : CallerPlace → Option SchedulerTask
  | .entering t | .locked t | .refused t => some t
  | _ => none

def Record.deletedPtr : Record → Option ℕ
  | .deleted ptr => some ptr
  | _ => none

def deletedPtrs (s : State) : List ℕ := s.history.filterMap Record.deletedPtr

/-- The pointers of the tasks in the queue, with the thread, or deleted. -/
def ptrs (s : State) : List ℕ :=
  s.m_eventList.map SchedulerTask.ptr ++ (s.carried.map fun o => o.1.ptr).toList ++ deletedPtrs s

structure Owned (s : State) (outer : List ℕ) : Prop where
  nodup : (ptrs s ++ outer).Nodup
  lt : ∀ p ∈ ptrs s ++ outer, p < s.allocated
  held : ∀ i t, (s.callers i).held = some t → t.ptr < s.allocated ∧ t.ptr ∉ ptrs s ++ outer
  apart : ∀ i j t v, (s.callers i).held = some t → (s.callers j).held = some v →
    t.ptr = v.ptr → i = j

theorem initial_owned (now : ℕ) : Owned (initial now) [] := by
  constructor <;> simp [initial, ptrs, State.carried, deletedPtrs, CallerPlace.held]

theorem Owned.shrink {s u : State} {outer outer' : List ℕ} (h : Owned s outer)
    (ha : u.allocated = s.allocated) (hp : ptrs u ++ outer' <+~ ptrs s ++ outer)
    (hc : ∀ i t, (u.callers i).held = some t → (s.callers i).held = some t) : Owned u outer' := by
  refine ⟨nodup_of_subperm hp h.nodup, ?_, ?_, ?_⟩
  · rw [ha]
    exact fun p hm => h.lt p (hp.subset hm)
  · rw [ha]
    intro i t ht
    obtain ⟨hlt, hout⟩ := h.held i t (hc i t ht)
    exact ⟨hlt, fun hm => hout (hp.subset hm)⟩
  · intro i j t v hi hj
    exact h.apart i j t v (hc i t hi) (hc j v hj)

theorem Owned.grow {s u : State} {outer : List ℕ} (h : Owned s outer) {i : ℕ} {t : SchedulerTask}
    (ha : u.allocated = s.allocated) (hi : (s.callers i).held = some t)
    (hp : (ptrs u ++ outer).Perm (t.ptr :: (ptrs s ++ outer)))
    (hc : ∀ j v, (u.callers j).held = some v → j ≠ i ∧ (s.callers j).held = some v) :
    Owned u outer := by
  obtain ⟨hlt, hout⟩ := h.held i t hi
  refine ⟨hp.nodup_iff.mpr (List.nodup_cons.mpr ⟨hout, h.nodup⟩), ?_, ?_, ?_⟩
  · rw [ha]
    intro p hm
    rcases List.mem_cons.mp (hp.mem_iff.mp hm) with rfl | hm
    · exact hlt
    · exact h.lt p hm
  · rw [ha]
    intro j v hj
    obtain ⟨hji, hj⟩ := hc j v hj
    refine ⟨(h.held j v hj).1, fun hm => ?_⟩
    rcases List.mem_cons.mp (hp.mem_iff.mp hm) with he | hm
    · exact hji (h.apart j i v t hj hi he)
    · exact (h.held j v hj).2 hm
  · intro j k v x hj hk
    exact h.apart j k v x (hc j v hj).2 (hc k x hk).2

theorem view_setCaller {τ : Type*} {s u : State} {i : ℕ} {p : CallerPlace}
    (view : CallerPlace → Option τ) (hc : u.callers = (s.setCaller i p).callers)
    (hp : ∀ t, view p = some t → view (s.callers i) = some t) :
    ∀ j t, view (u.callers j) = some t → view (s.callers j) = some t := by
  intro j t hj
  rw [hc] at hj
  by_cases hji : j = i
  · subst hji
    exact hp t (by simpa [State.setCaller] using hj)
  · simpa [State.setCaller, hji] using hj

theorem held_setCaller {s u : State} {i : ℕ} {p : CallerPlace}
    (hc : u.callers = (s.setCaller i p).callers)
    (hp : ∀ t, p.held = some t → (s.callers i).held = some t) :
    ∀ j t, (u.callers j).held = some t → (s.callers j).held = some t :=
  view_setCaller CallerPlace.held hc hp

theorem held_freed {s u : State} {i : ℕ} {p : CallerPlace}
    (hc : u.callers = (s.setCaller i p).callers) (hp : p.held = none) :
    ∀ j t, (u.callers j).held = some t → j ≠ i ∧ (s.callers j).held = some t := by
  intro j t hj
  rw [hc] at hj
  by_cases hji : j = i
  · simp [State.setCaller, hji, hp] at hj
  · exact ⟨hji, by simpa [State.setCaller, hji] using hj⟩

theorem Owned.same {s u : State} {outer : List ℕ} (h : Owned s outer)
    (ha : u.allocated = s.allocated) (hl : u.m_eventList = s.m_eventList)
    (ht : u.carried = s.carried) (hd : deletedPtrs u = deletedPtrs s)
    (hc : ∀ i t, (u.callers i).held = some t → (s.callers i).held = some t) : Owned u outer := by
  apply h.shrink ha _ hc
  simp only [ptrs, hl, ht, hd]
  exact List.Subperm.refl _

theorem call_owned {s : State} {outer : List ℕ} {i delay : ℕ} (h : Owned s outer) :
    Owned ({ s with allocated := s.allocated + 1 }.setCaller i
      (.entering (createSchedulerTask s.allocated s.now delay))) outer := by
  have hold : ∀ j t, ((({ s with allocated := s.allocated + 1 }.setCaller i
      (.entering (createSchedulerTask s.allocated s.now delay))).callers j).held = some t) →
      j = i ∧ t.ptr = s.allocated ∨ j ≠ i ∧ (s.callers j).held = some t := by
    intro j t hj
    by_cases hji : j = i
    · left
      have ht : createSchedulerTask s.allocated s.now delay = t := by
        simpa [State.setCaller, hji, CallerPlace.held] using hj
      exact ⟨hji, ht ▸ rfl⟩
    · exact Or.inr ⟨hji, by simpa [State.setCaller, hji] using hj⟩
  refine ⟨h.nodup, ?_, ?_, ?_⟩
  · intro p hm
    exact (h.lt p hm).trans (Nat.lt_succ_self _)
  · intro j t hj
    rcases hold j t hj with ⟨_, he⟩ | ⟨_, hj⟩
    · refine ⟨he ▸ Nat.lt_succ_self _, fun hm => ?_⟩
      rw [he] at hm
      exact absurd (h.lt _ hm) (lt_irrefl _)
    · obtain ⟨hlt, hout⟩ := h.held j t hj
      exact ⟨hlt.trans (Nat.lt_succ_self _), hout⟩
  · exact Ownership.apart_next (fun j t hj => (h.held j t hj).1) h.apart hold

theorem pushed_owned {s : State} {outer : List ℕ} {i : ℕ} {signal : Bool} {t : SchedulerTask}
    (h : Owned s outer) (hc : s.callers i = .locked t) : Owned (pushed s i signal t) outer := by
  apply h.grow (i := i) (t := t) (pushed_allocated s i signal t)
  · rw [hc]; rfl
  · have hcar : (pushed s i signal t).carried = s.carried := by simp [State.carried]
    have hdel : deletedPtrs (pushed s i signal t) = deletedPtrs s := by
      simp [deletedPtrs, Record.deletedPtr]
    simp only [ptrs, pushed_eventList, hcar, hdel, List.map_cons, assignId_ptr, List.cons_append]
    exact List.Perm.refl _
  · exact held_freed (pushed_callers s i signal t) rfl

theorem popTop_owned {s : State} {outer : List ℕ} {w : Wait} {t : SchedulerTask}
    (h : Owned s outer) (hw : s.thread = .resumed w false) (hm : t ∈ s.m_eventList) :
    Owned (popTop s t) outer := by
  refine h.shrink rfl ?_ fun _ _ => id
  have hnone : s.carried = none := by simp [State.carried, hw]
  have hl : (popTop s t).m_eventList = s.m_eventList.erase t := rfl
  have hc : (popTop s t).carried = some (t, decide (t.getEventId ∈ s.m_eventIds)) := rfl
  have hd : deletedPtrs (popTop s t) = deletedPtrs s := rfl
  have hp : ((s.m_eventList.erase t).map SchedulerTask.ptr ++ [t.ptr]).Perm
      (s.m_eventList.map SchedulerTask.ptr) :=
    (List.perm_append_singleton _ _).trans ((List.perm_cons_erase hm).symm.map SchedulerTask.ptr)
  apply List.Perm.subperm
  apply List.Perm.append_right
  simp only [ptrs, hnone, hl, hc, hd]
  simpa using hp.append_right (deletedPtrs s)

theorem deletedPtrs_note {s u : State} {r : Record} (hh : u.history = s.history ++ [r]) :
    deletedPtrs u = deletedPtrs s ++ r.deletedPtr.toList := by
  cases hr : r.deletedPtr <;> simp [deletedPtrs, hh, hr]

theorem deletedPtrs_quiet {s u : State} {r : Record} (hh : u.history = s.history ++ [r])
    (hr : r.deletedPtr = none) : deletedPtrs u = deletedPtrs s := by
  rw [deletedPtrs_note hh, hr]
  exact List.append_nil _

theorem ptrs_carried_perm {s : State} {t : SchedulerTask} {run : Bool}
    (hc : s.carried = some (t, run)) :
    (s.m_eventList.map SchedulerTask.ptr ++ deletedPtrs s ++ [t.ptr]).Perm (ptrs s) := by
  have hp := (@List.perm_append_comm _ (deletedPtrs s) [t.ptr]).append_left
    (s.m_eventList.map SchedulerTask.ptr)
  simpa [ptrs, hc] using hp

theorem discard_owned {s : State} {outer : List ℕ} {t : SchedulerTask} (h : Owned s outer)
    (ho : s.thread = .unlocked (some (t, false))) :
    Owned { s.record (.deleted t.ptr) with thread := .loop } outer := by
  have hd : deletedPtrs { s.record (.deleted t.ptr) with thread := .loop } =
      deletedPtrs s ++ [t.ptr] := deletedPtrs_note (r := .deleted t.ptr) rfl
  have hn : ({ s.record (.deleted t.ptr) with thread := .loop } : State).carried = none := rfl
  refine h.shrink rfl (List.Perm.subperm (List.Perm.append_right outer ?_)) fun _ _ => id
  have hc : s.carried = some (t, false) := by simp [State.carried, ho]
  have hp := ptrs_carried_perm hc
  simp only [ptrs, hn, hd] at hp ⊢
  simpa [ptrs] using hp

theorem hand_owned {s : State} {outer : List ℕ} {t : SchedulerTask} (h : Owned s outer)
    (ho : s.thread = .unlocked (some (t, true))) :
    Owned { s.record (.handed t s.now) with thread := .loop } (t.ptr :: outer) := by
  have hd : deletedPtrs { s.record (.handed t s.now) with thread := .loop } = deletedPtrs s :=
    deletedPtrs_quiet rfl rfl
  have hn : ({ s.record (.handed t s.now) with thread := .loop } : State).carried = none := rfl
  refine h.shrink rfl (List.Perm.subperm ?_) fun _ _ => id
  have hc : s.carried = some (t, true) := by simp [State.carried, ho]
  have hp := ptrs_carried_perm hc
  have hl : ({ s.record (.handed t s.now) with thread := .loop } : State).m_eventList =
    s.m_eventList := rfl
  rw [ptrs, hl, hn, hd]
  simpa using hp.append_right outer

theorem Owned.forget {s : State} {p : ℕ} {outer : List ℕ} (h : Owned s (p :: outer)) :
    Owned s outer := by
  refine h.shrink rfl (List.Sublist.subperm ?_) fun _ _ => id
  exact (List.sublist_cons_self p outer).append_left _

theorem step_owned {s u : State} {e : Event} {outer : List ℕ} (h : Owned s outer)
    (hs : step s e = some u) : Owned u outer := by
  cases step_effect hs with
  | call _ _ _ => exact call_owned h
  | push hc _ _ => exact pushed_owned h hc
  | callerLock hc _ | refuse hc _ =>
    refine h.same rfl rfl rfl rfl (held_setCaller rfl ?_)
    rw [hc]
    exact fun _ => id
  | callerUnlock _ | quiet _ _ => exact h.same rfl rfl rfl rfl (held_setCaller rfl nofun)
  | @drop i t hc =>
    refine h.grow (i := i) (t := t) rfl (by rw [hc]; rfl) ?_ (held_freed rfl rfl)
    have hd : deletedPtrs (({ s with m_eventLock := none }.record (.deleted t.ptr)).setCaller i
        .outside) = deletedPtrs s ++ [t.ptr] := deletedPtrs_note (r := .deleted t.ptr) rfl
    simp only [ptrs, hd, ← List.append_assoc]
    exact ((List.perm_append_singleton _ _).append_right outer)
  | notify _ hw =>
    exact h.same rfl rfl (by simp [State.carried, State.setCaller, hw]) rfl
      (held_setCaller rfl nofun)
  | callerReturn _ =>
    exact h.same rfl rfl rfl (deletedPtrs_quiet rfl rfl) (held_setCaller rfl nofun)
  | stopFound _ _ | stopMissed _ =>
    exact h.same rfl rfl rfl (deletedPtrs_quiet rfl rfl) fun _ _ => id
  | shutdown _ =>
    refine h.shrink rfl (List.Subperm.append ?_ (List.Subperm.refl outer)) fun _ _ => id
    have hsub := (List.sublist_append_right (s.m_eventList.map SchedulerTask.ptr)
      ((s.carried.map fun o => o.1.ptr).toList ++ deletedPtrs s)).subperm
    rw [ptrs, ptrs, List.append_assoc, List.append_assoc]
    exact hsub
  | exit ht _ | test ht _ | lock ht _ | waitEmpty ht _ | waitTop ht _ | relock ht _
  | popEmpty ht _ _ | skip ht _ | unlock ht | again ht =>
    exact h.same rfl rfl (by simp [State.carried, ht]) rfl fun _ _ => id
  | wake ht _ =>
    refine h.same rfl rfl ?_ rfl fun _ _ => id
    rcases ht with ht | ht <;> simp [State.carried, ht]
  | pop hw _ htop => exact popTop_owned h hw htop.1
  | hand ho => exact (hand_owned h ho).forget
  | discard ho => exact discard_owned h ho
  | _ => exact h.same rfl rfl rfl rfl fun _ _ => id

theorem step_held {s u : State} {e : Event} (hs : step s e = some u) {i : ℕ} {t : SchedulerTask}
    (ht : (u.callers i).held = some t) : (s.callers i).held = some t ∨ t.ptr = s.allocated := by
  cases step_effect hs with
  | @call j delay _ =>
    by_cases hij : i = j
    · right
      have he : createSchedulerTask s.allocated s.now delay = t := by
        simpa [State.setCaller, hij, CallerPlace.held] using ht
      exact he ▸ rfl
    · left
      simpa [State.setCaller, hij] using ht
  | callerLock hc _ | refuse hc _ =>
    refine Or.inl (held_setCaller rfl ?_ i t ht)
    rw [hc]
    exact fun _ => id
  | callerUnlock _ | notify _ _ | quiet _ _ | drop _ | callerReturn _ =>
    refine Or.inl (held_setCaller (s := s) rfl ?_ i t ht)
    exact nofun
  | @push j signal v _ _ _ => exact Or.inl (held_setCaller (pushed_callers s j signal v) nofun i t ht)
  | _ => exact Or.inl ht

theorem step_eventList {s u : State} {e : Event} (hs : step s e = some u) {x : SchedulerTask}
    (hx : x ∈ u.m_eventList) :
    x ∈ s.m_eventList ∨ ∃ i t, (s.callers i).held = some t ∧ x.ptr = t.ptr := by
  cases step_effect hs with
  | @push i signal t hc _ _ =>
    rw [pushed_eventList] at hx
    rcases List.mem_cons.mp hx with rfl | hx
    · exact Or.inr ⟨i, t, by rw [hc]; rfl, assignId_ptr s t⟩
    · exact Or.inl hx
  | shutdown _ => cases hx
  | pop _ _ _ => exact Or.inl (List.mem_of_mem_erase hx)
  | _ => exact Or.inl hx

theorem step_leaves {s u : State} {e : Event} (hs : step s e = some u) {x : SchedulerTask}
    (hx : x ∈ s.m_eventList) : x ∈ u.m_eventList ∨ u.m_eventList = [] ∨ e = .pop x ∧
      u.carried = some (x, decide (x.getEventId ∈ s.m_eventIds)) := by
  cases step_effect hs with
  | @push i signal t _ _ _ =>
    left
    rw [pushed_eventList]
    exact List.mem_cons_of_mem _ hx
  | shutdown _ => exact Or.inr (Or.inl rfl)
  | @pop w t _ _ _ =>
    by_cases hxt : x = t
    · subst hxt
      exact Or.inr (Or.inr ⟨rfl, rfl⟩)
    · exact Or.inl ((List.mem_erase_of_ne hxt).mpr hx)
  | _ => exact Or.inl hx

theorem step_carried {s u : State} {e : Event} (hs : step s e = some u) {x : SchedulerTask}
    {run : Bool} (hx : u.carried = some (x, run)) : s.carried = some (x, run) ∨
      e = .pop x ∧ x ∈ s.m_eventList ∧ (∀ v ∈ s.m_eventList, x.getCycle ≤ v.getCycle) ∧
        s.carried = none := by
  cases step_effect hs with
  | push _ _ _ => exact Or.inl (by simpa [State.carried] using hx)
  | notify _ _ | exit _ _ | test _ _ | lock _ _ | waitEmpty _ _ | waitTop _ _ | wake _ _ | relock _ _
  | popEmpty _ _ _ | skip _ _ | again _ | hand _ | discard _ => cases hx
  | @pop w t hw _ htop =>
    obtain ⟨rfl, _⟩ := Prod.mk.inj (Option.some.inj hx)
    exact Or.inr ⟨rfl, htop.1, htop.2, by simp [State.carried, hw]⟩
  | unlock ht =>
    left
    rw [State.carried, ht]
    exact hx
  | _ => exact Or.inl hx

theorem step_carries {s u : State} {e : Event} (hs : step s e = some u)
    {o : SchedulerTask × Bool} (ho : s.carried = some o) :
    u.carried = some o ∨ e = .finish ∧ s.thread = .unlocked (some o) := by
  have hplace : s.thread = .popped (some o) ∨ s.thread = .unlocked (some o) := by
    rw [State.carried] at ho
    split at ho
    · rename_i ht
      exact Or.inl (ht.trans (congrArg _ ho))
    · rename_i ht
      exact Or.inr (ht.trans (congrArg _ ho))
    · cases ho
  cases step_effect hs with
  | push _ _ _ => exact Or.inl (by simpa [State.carried] using ho)
  | notify _ ht | exit ht _ | test ht _ | lock ht _ | waitEmpty ht _ | waitTop ht _ | relock ht _
  | popEmpty ht _ _ | skip ht _ | pop ht _ _ | again ht =>
    rcases hplace with hp | hp <;> rw [hp] at ht <;> cases ht
  | wake ht _ =>
    rcases ht with ht | ht <;> rcases hplace with hp | hp <;> rw [hp] at ht <;> cases ht
  | unlock ht =>
    rcases hplace with hp | hp <;> rw [hp] at ht <;> cases ht
    exact Or.inl rfl
  | hand ht | discard ht =>
    rcases hplace with hp | hp
    · rw [hp] at ht
      cases ht
    · exact Or.inr ⟨rfl, hp⟩
  | _ => exact Or.inl ho

theorem step_allocated {s u : State} {e : Event} (hs : step s e = some u) :
    s.allocated ≤ u.allocated := by
  cases step_effect hs with
  | call _ _ _ => exact Nat.le_succ _
  | push _ _ _ => exact (pushed_allocated _ _ _ _).ge
  | _ => exact le_rfl

end LoginServer.Scheduler
