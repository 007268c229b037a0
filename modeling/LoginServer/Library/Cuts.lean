import LoginServer.Library.Search
import Mathlib.Data.List.DropRight

/-! # Cutting a text at a separator

The pieces of a text between the leftmost occurrences of a separator that do not overlap. `cuts`
makes a bounded number of cuts, and `behind` is what is left after them. -/
namespace LoginServer.Search

variable {α : Type*} [DecidableEq α]

/-- Every piece but the last ends at the leftmost occurrence in what it is the front of. -/
inductive Leftmost (separator : List α) : List α → List (List α) → Prop
  | last (text) : Leftmost separator text [text]
  | cut (front back pieces)
      (hleft : ∀ k < front.length, ¬ separator <+: (front ++ separator ++ back).drop k)
      (hback : Leftmost separator back pieces) :
      Leftmost separator (front ++ separator ++ back) (front :: pieces)

def cuts (separator : List α) : ℕ → List α → List (List α)
  | 0, text => [text]
  | n + 1, text =>
    match split separator text with
    | none => [text]
    | some (front, back) => front :: cuts separator n back

def behind (separator : List α) : ℕ → List α → List α
  | 0, text => text
  | n + 1, text =>
    match split separator text with
    | none => text
    | some (_, back) => behind separator n back

variable {separator text front back : List α} {n : ℕ}

theorem cuts_of_none (h : split separator text = none) (n : ℕ) :
    cuts separator n text = [text] := by
  cases n with
  | zero => rfl
  | succ n => rw [cuts, h]

theorem cuts_of_some (h : split separator text = some (front, back)) (n : ℕ) :
    cuts separator (n + 1) text = front :: cuts separator n back := by
  rw [cuts, h]

theorem behind_of_none (h : split separator text = none) (n : ℕ) :
    behind separator n text = text := by
  cases n with
  | zero => rfl
  | succ n => rw [behind, h]

theorem behind_of_some (h : split separator text = some (front, back)) (n : ℕ) :
    behind separator (n + 1) text = behind separator n back := by
  rw [behind, h]

theorem cuts_ne_nil (separator : List α) (n : ℕ) (text : List α) :
    cuts separator n text ≠ [] := by
  cases n with
  | zero => exact List.cons_ne_nil _ _
  | succ n =>
    rw [cuts]
    split <;> exact List.cons_ne_nil _ _

theorem leftmost_cuts (separator : List α) (n : ℕ) (text : List α) :
    Leftmost separator text (cuts separator n text) := by
  induction n generalizing text with
  | zero => exact Leftmost.last text
  | succ n ih =>
    cases h : split separator text with
    | none =>
      rw [cuts_of_none h]
      exact Leftmost.last text
    | some parts =>
      obtain ⟨htext, hleft⟩ := split_eq_some h
      rw [cuts_of_some h, htext]
      rw [htext] at hleft
      exact Leftmost.cut _ _ _ hleft (ih _)

theorem length_cuts_le (separator : List α) (n : ℕ) (text : List α) :
    (cuts separator n text).length ≤ n + 1 := by
  induction n generalizing text with
  | zero => exact le_refl 1
  | succ n ih =>
    cases h : split separator text with
    | none =>
      rw [cuts_of_none h]
      exact Nat.succ_le_succ (Nat.zero_le _)
    | some parts =>
      rw [cuts_of_some h, List.length_cons]
      exact Nat.succ_le_succ (ih _)

theorem getLast_cuts (separator : List α) (n : ℕ) (text : List α) :
    (cuts separator n text).getLast (cuts_ne_nil separator n text) = behind separator n text := by
  induction n generalizing text with
  | zero => rfl
  | succ n ih =>
    cases h : split separator text with
    | none =>
      simp only [cuts_of_none h, behind_of_none h, List.getLast_singleton]
    | some parts =>
      simp only [cuts_of_some h, behind_of_some h, List.getLast_cons (cuts_ne_nil _ _ _), ih]

theorem not_infix_behind (h : (cuts separator n text).length ≤ n) :
    ¬ separator <:+: behind separator n text := by
  induction n generalizing text with
  | zero => exact absurd (List.eq_nil_of_length_eq_zero (Nat.le_zero.mp h)) (cuts_ne_nil _ _ _)
  | succ n ih =>
    cases hsplit : split separator text with
    | none =>
      rw [behind_of_none hsplit]
      exact split_eq_none_iff.mp hsplit
    | some parts =>
      rw [cuts_of_some hsplit, List.length_cons] at h
      rw [behind_of_some hsplit]
      exact ih (Nat.le_of_succ_le_succ h)

theorem cuts_of_uncut {m : ℕ} (hmn : m ≤ n) (h : ¬ separator <:+: behind separator m text) :
    cuts separator n text = cuts separator m text := by
  induction m generalizing n text with
  | zero => exact cuts_of_none (split_eq_none_iff.mpr h) n
  | succ m ih =>
    obtain ⟨n, rfl⟩ := Nat.exists_eq_add_of_le' hmn
    cases hsplit : split separator text with
    | none => rw [cuts_of_none hsplit, cuts_of_none hsplit]
    | some parts =>
      rw [behind_of_some hsplit] at h
      rw [← Nat.add_assoc, cuts_of_some hsplit, cuts_of_some hsplit, ih (by omega) h]

/-- Where nothing is left to cut, all the cuts have been made. -/
theorem cuts_eq_of_not_infix {m : ℕ} (hm : ¬ separator <:+: behind separator m text)
    (hn : ¬ separator <:+: behind separator n text) :
    cuts separator n text = cuts separator m text := by
  rcases Nat.le_total m n with h | h
  · exact cuts_of_uncut h hm
  · exact (cuts_of_uncut h hn).symm

theorem cuts_of_length_le {m : ℕ} (hmn : m ≤ n)
    (h : (cuts separator n text).length ≤ m + 1) :
    cuts separator n text = cuts separator m text := by
  induction m generalizing n text with
  | zero =>
    cases n with
    | zero => rfl
    | succ n =>
      cases hsplit : split separator text with
      | none => rw [cuts_of_none hsplit, cuts_of_none hsplit]
      | some parts =>
        rw [cuts_of_some hsplit, List.length_cons] at h
        exact absurd (List.eq_nil_of_length_eq_zero (by omega)) (cuts_ne_nil separator n parts.2)
  | succ m ih =>
    obtain ⟨n, rfl⟩ := Nat.exists_eq_add_of_le' hmn
    cases hsplit : split separator text with
    | none => rw [cuts_of_none hsplit, cuts_of_none hsplit]
    | some parts =>
      rw [← Nat.add_assoc, cuts_of_some hsplit, List.length_cons] at h
      rw [← Nat.add_assoc, cuts_of_some hsplit, cuts_of_some hsplit, ih (by omega) (by omega)]

theorem length_back_lt (hne : separator ≠ []) (h : split separator text = some (front, back)) :
    back.length < text.length := by
  have hpos := List.length_pos_iff.mpr hne
  rw [(split_eq_some h).1, List.length_append, List.length_append]
  omega

theorem not_infix_behind_of_length_le (hne : separator ≠ []) (hn : text.length ≤ n) :
    ¬ separator <:+: behind separator n text := by
  induction n generalizing text with
  | zero =>
    have hnil : text = [] := List.eq_nil_of_length_eq_zero (Nat.le_zero.mp hn)
    rw [behind, hnil, List.infix_nil]
    exact hne
  | succ n ih =>
    cases h : split separator text with
    | none =>
      rw [behind_of_none h]
      exact split_eq_none_iff.mp h
    | some parts =>
      have hlt := length_back_lt hne h
      rw [behind_of_some h]
      exact ih (by omega)

theorem behind_eq_of_cuts_eq {m : ℕ} (h : cuts separator n text = cuts separator m text) :
    behind separator n text = behind separator m text := by
  rw [← getLast_cuts, ← getLast_cuts]
  exact List.getLast_congr _ _ h

omit [DecidableEq α] in
theorem intercalate_of_leftmost {pieces : List (List α)} (h : Leftmost separator text pieces) :
    separator.intercalate pieces = text := by
  induction h with
  | last text => exact List.intercalate_singleton
  | cut front back pieces hleft hback ih =>
    have hne : pieces ≠ [] := by
      cases hback <;> exact List.cons_ne_nil _ _
    rw [List.intercalate_cons_of_ne_nil hne, ih]

def mapInit {β : Type*} (f : β → β) : List β → List β
  | [] => []
  | [b] => [b]
  | b :: c :: l => f b :: mapInit f (c :: l)

theorem mapInit_cons {β : Type*} (f : β → β) (b : β) {l : List β} (h : l ≠ []) :
    mapInit f (b :: l) = f b :: mapInit f l := by
  cases l with
  | nil => exact absurd rfl h
  | cons c l => rfl

theorem mapInit_eq_map_iff {β : Type*} (f : β → β) {l : List β} (h : l ≠ []) :
    mapInit f l = l.map f ↔ f (l.getLast h) = l.getLast h := by
  induction l with
  | nil => exact absurd rfl h
  | cons b l ih =>
    cases l with
    | nil => simp [mapInit, eq_comm]
    | cons c l =>
      have hne := List.cons_ne_nil c l
      rw [mapInit_cons f b hne, List.map_cons, List.cons_inj_right, List.getLast_cons hne]
      exact ih hne

end LoginServer.Search
