import Mathlib.Data.List.Basic

/-! # Searching a text

The leftmost occurrence of a pattern, as the search of a string class gives it. Behind a front
that is free of the pattern's first letter, the pattern is found where it was put. -/
namespace LoginServer.Search

variable {α : Type*} [DecidableEq α]

def find (pattern : List α) : List α → Option ℕ
  | [] => if pattern = [] then some 0 else none
  | a :: text =>
    if pattern.isPrefixOf (a :: text) then some 0 else (find pattern text).map (· + 1)

variable {c : α} {pattern front back : List α}

theorem find_cons_of_ne {a : α} (h : a ≠ c) (text : List α) :
    find (c :: pattern) (a :: text) = (find (c :: pattern) text).map (· + 1) := by
  rw [find, if_neg]
  intro hhead
  rw [List.isPrefixOf, Bool.and_eq_true, beq_iff_eq] at hhead
  exact h hhead.1.symm

theorem find_self_append : find (c :: pattern) (c :: pattern ++ back) = some 0 := by
  rw [List.cons_append, find, if_pos]
  rw [List.isPrefixOf_iff_prefix]
  exact ⟨back, rfl⟩

theorem find_append (h : c ∉ front) :
    find (c :: pattern) (front ++ (c :: pattern ++ back)) = some front.length := by
  induction front with
  | nil => exact find_self_append
  | cons a front ih =>
    obtain ⟨hfirst, hrest⟩ := List.ne_and_not_mem_of_not_mem_cons h
    rw [List.cons_append, find_cons_of_ne (Ne.symm hfirst), ih hrest]
    rfl

theorem find_eq_none (h : c ∉ front) : find (c :: pattern) front = none := by
  induction front with
  | nil => rfl
  | cons a front ih =>
    obtain ⟨hfirst, hrest⟩ := List.ne_and_not_mem_of_not_mem_cons h
    rw [find_cons_of_ne (Ne.symm hfirst), ih hrest]
    rfl

def split (pattern text : List α) : Option (List α × List α) :=
  (find pattern text).map fun i => (text.take i, text.drop (i + pattern.length))

theorem split_append (h : c ∉ front) :
    split (c :: pattern) (front ++ (c :: pattern ++ back)) = some (front, back) := by
  rw [split, find_append h, Option.map_some, List.take_left, ← List.drop_drop, List.drop_left,
    List.drop_left]

theorem split_eq_none (h : c ∉ front) : split (c :: pattern) front = none := by
  rw [split, find_eq_none h]
  rfl

variable {text : List α}

theorem find_eq_none_iff : find pattern text = none ↔ ¬ pattern <:+: text := by
  induction text with
  | nil => simp [find]
  | cons a text ih =>
    rw [find, List.infix_cons_iff, ← List.isPrefixOf_iff_prefix]
    by_cases hhead : pattern.isPrefixOf (a :: text) = true
    · simp [hhead]
    · simp [hhead, ih]

/-- The pattern is where it is found, and nowhere further left. -/
theorem find_eq_some {i : ℕ} (h : find pattern text = some i) :
    pattern <+: text.drop i ∧ ∀ k < i, ¬ pattern <+: text.drop k := by
  induction text generalizing i with
  | nil =>
    rw [find] at h
    split at h
    · rename_i hnil
      cases h
      rw [hnil]
      exact ⟨List.nil_prefix, fun k hk => absurd hk (Nat.not_lt_zero k)⟩
    · exact nomatch h
  | cons a text ih =>
    rw [find] at h
    split at h
    · rename_i hhead
      cases h
      exact ⟨List.isPrefixOf_iff_prefix.mp hhead, fun k hk => absurd hk (Nat.not_lt_zero k)⟩
    · rename_i hhead
      obtain ⟨j, hj, rfl⟩ := Option.map_eq_some_iff.mp h
      obtain ⟨hat, hleft⟩ := ih hj
      refine ⟨hat, fun k hk => ?_⟩
      cases k with
      | zero => exact fun hp => hhead (List.isPrefixOf_iff_prefix.mpr hp)
      | succ k => exact hleft k (by omega)

theorem split_eq_none_iff : split pattern text = none ↔ ¬ pattern <:+: text := by
  rw [split, Option.map_eq_none_iff, find_eq_none_iff]

theorem split_eq_some (h : split pattern text = some (front, back)) :
    text = front ++ pattern ++ back ∧
      ∀ k < front.length, ¬ pattern <+: text.drop k := by
  obtain ⟨i, hi, hparts⟩ := Option.map_eq_some_iff.mp h
  obtain ⟨⟨rest, hrest⟩, hleft⟩ := find_eq_some hi
  obtain ⟨rfl, rfl⟩ := Prod.mk.inj hparts
  have hback : text.drop (i + pattern.length) = rest := by
    rw [← List.drop_drop, ← hrest, List.drop_left]
  constructor
  · rw [hback, List.append_assoc, hrest, List.take_append_drop]
  · intro k hk
    exact hleft k (Nat.lt_of_lt_of_le hk (List.length_take_le _ _))

/-! ## From the right -/

def findLast (c : α) (text : List α) : Option ℕ :=
  (text.reverse.findIdx? (· = c)).map (text.length - 1 - ·)

theorem findLast_eq_none (h : c ∉ text) : findLast c text = none := by
  rw [findLast, Option.map_eq_none_iff, List.findIdx?_eq_none_iff]
  intro a ha
  rw [decide_eq_false_iff_not]
  rintro rfl
  exact h (List.mem_reverse.mp ha)

theorem findLast_append (h : c ∉ back) : findLast c (front ++ c :: back) = some front.length := by
  have hback : back.reverse.findIdx? (· = c) = none := by
    rw [List.findIdx?_eq_none_iff]
    intro a ha
    rw [decide_eq_false_iff_not]
    rintro rfl
    exact h (List.mem_reverse.mp ha)
  have hplace : (front ++ c :: back).reverse.findIdx? (· = c) = some back.length := by
    rw [List.reverse_append, List.reverse_cons, List.append_assoc, List.findIdx?_append, hback]
    simp [List.findIdx?_cons]
  rw [findLast, hplace, Option.map_some, List.length_append, List.length_cons]
  congr 1
  omega

end LoginServer.Search
