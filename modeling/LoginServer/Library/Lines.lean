import Mathlib.Data.List.Nodup

/-! # A queue fed at both ends, with its past

A line is what has left a queue, in the order it left, followed by what still waits. A move
appends to it, inserts at the border between the two parts, or shifts that border; so the order
of two elements never changes once both are in the line, and what is pushed in front comes after
all that has left and before all that waits. -/
namespace LoginServer.Lines

open scoped List

variable {α : Type*}

structure Line (α : Type*) where
  past : List α
  queue : List α

namespace Line

def all (l : Line α) : List α := l.past ++ l.queue

def pushBack (l : Line α) (t : α) : Line α := ⟨l.past, l.queue ++ [t]⟩
def pushFront (l : Line α) (t : α) : Line α := ⟨l.past, t :: l.queue⟩

def popFront (l : Line α) : Line α :=
  match l.queue with
  | [] => l
  | t :: rest => ⟨l.past ++ [t], rest⟩

variable {l : Line α} {a b t : α}

@[simp] theorem all_pushBack : (l.pushBack t).all = l.all ++ [t] := by
  simp [all, pushBack]

@[simp] theorem all_popFront : l.popFront.all = l.all := by
  unfold popFront all
  split
  · rfl
  · rename_i hq
    simp [hq]

theorem pushFront_perm : (l.pushFront t).all.Perm (t :: l.all) :=
  List.perm_middle

theorem sublist_pushFront : l.all <+ (l.pushFront t).all :=
  (List.sublist_cons_self t l.queue).append_left l.past

theorem past_before_front (h : a ∈ l.past) : [a, t] <+ (l.pushFront t).all :=
  (List.singleton_sublist.mpr h).append (List.singleton_sublist.mpr List.mem_cons_self)

theorem front_before_queue (h : a ∈ l.queue) : [t, a] <+ (l.pushFront t).all :=
  ((List.singleton_sublist.mpr h).cons_cons t).trans (List.sublist_append_right _ _)

theorem pair_pushFront : [a, b] <+ (l.pushFront t).all ↔
    [a, b] <+ l.all ∨ a = t ∧ b ∈ l.queue ∨ b = t ∧ a ∈ l.past := by
  constructor
  · intro h
    obtain ⟨xs, ys, he, hx, hy⟩ := List.sublist_append_iff.mp h
    match xs, he with
    | [], he =>
      obtain rfl : [a, b] = ys := he
      rcases List.sublist_cons_iff.mp hy with hy | ⟨r, hr, hy⟩
      · exact Or.inl (hy.trans (List.sublist_append_right _ _))
      · obtain ⟨rfl, rfl⟩ := List.cons.inj hr
        exact Or.inr (Or.inl ⟨rfl, List.singleton_sublist.mp hy⟩)
    | [x], he =>
      obtain ⟨rfl, rfl⟩ := List.cons.inj he
      rcases List.mem_cons.mp (List.singleton_sublist.mp hy) with rfl | hb
      · exact Or.inr (Or.inr ⟨rfl, List.singleton_sublist.mp hx⟩)
      · exact Or.inl (hx.append (List.singleton_sublist.mpr hb))
    | x :: y :: zs, he =>
      simp only [List.cons_append, List.cons.injEq] at he
      obtain ⟨rfl, rfl, he⟩ := he
      rw [(List.append_eq_nil_iff.mp he.symm).1] at hx
      exact Or.inl (hx.trans (List.sublist_append_left _ _))
  · rintro (h | ⟨rfl, hb⟩ | ⟨rfl, ha⟩)
    · exact h.trans sublist_pushFront
    · exact front_before_queue hb
    · exact past_before_front ha

end Line

theorem pair_total {l : List α} {a b : α} (ha : a ∈ l) (hb : b ∈ l) (hne : a ≠ b) :
    [a, b] <+ l ∨ [b, a] <+ l := by
  induction l with
  | nil => cases ha
  | cons x xs ih =>
    rcases List.mem_cons.mp ha with rfl | hax
    · have hbx : b ∈ xs := (List.mem_cons.mp hb).resolve_left hne.symm
      exact Or.inl ((List.singleton_sublist.mpr hbx).cons_cons a)
    · rcases List.mem_cons.mp hb with rfl | hbx
      · exact Or.inr ((List.singleton_sublist.mpr hax).cons_cons b)
      · exact (ih hax hbx).imp (·.cons x) (·.cons x)

theorem pair_asymm {l : List α} {a b : α} (hn : l.Nodup) (h : [a, b] <+ l) : ¬ [b, a] <+ l := by
  intro k
  induction l with
  | nil => cases h
  | cons x xs ih =>
    obtain ⟨hx, hn⟩ := List.nodup_cons.mp hn
    cases h with
    | cons _ h =>
      cases k with
      | cons _ k => exact ih hn h k
      | cons_cons _ k => exact hx (h.subset (by simp))
    | cons_cons _ h =>
      cases k with
      | cons _ k => exact hx (k.subset (by simp))
      | cons_cons _ k => exact hx (h.subset (by simp))

/-- What leaves after another has left, leaves it behind in the past. -/
theorem Line.pair_past {l : Line α} {a b : α} (hn : l.all.Nodup) (h : [a, b] <+ l.all)
    (hb : b ∈ l.past) : [a, b] <+ l.past := by
  have hd := (List.nodup_append.mp hn).2.2
  obtain ⟨xs, ys, he, hx, hy⟩ := List.sublist_append_iff.mp h
  match xs, he with
  | [], he =>
    obtain rfl : [a, b] = ys := he
    exact absurd rfl (hd b hb b (hy.subset (by simp)))
  | [x], he =>
    obtain ⟨rfl, rfl⟩ := List.cons.inj he
    exact absurd rfl (hd b hb b (hy.subset (by simp)))
  | x :: y :: zs, he =>
    simp only [List.cons_append, List.cons.injEq] at he
    obtain ⟨rfl, rfl, he⟩ := he
    rw [(List.append_eq_nil_iff.mp he.symm).1] at hx
    exact hx

end LoginServer.Lines
