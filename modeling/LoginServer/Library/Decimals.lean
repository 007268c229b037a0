import LoginServer.Library.Bytes

/-! # Numbers in decimal

The text of a number as a stream prints it, its length, and the number read back from it. -/
namespace LoginServer.Decimals

open Bytes

def value (s : List UInt8) : ℕ := s.foldl (fun n c => 10 * n + (c.toNat - 48)) 0

def text (n : ℕ) : List UInt8 := ascii (toString n)

theorem text_eq (n : ℕ) :
    text n = (Nat.toDigits 10 n).map fun c => UInt8.ofNat c.toNat := by
  rw [text, ascii, Nat.toString_eq_repr, Nat.toList_repr]

theorem digit_toNat {n : ℕ} {c : Char} (h : c ∈ Nat.toDigits 10 n) :
    (UInt8.ofNat c.toNat).toNat = c.toNat ∧ 48 ≤ c.toNat ∧ c.toNat ≤ 57 := by
  have hdigit := Nat.isDigit_of_mem_toDigits (by decide) (by decide) h
  simp only [Char.isDigit, Bool.and_eq_true, decide_eq_true_eq, UInt32.le_iff_toNat_le] at hdigit
  have hcode : 48 ≤ c.toNat ∧ c.toNat ≤ 57 := hdigit
  rw [UInt8.toNat_ofNat']
  omega

theorem text_digits (n : ℕ) : ∀ c ∈ text n, 48 ≤ c.toNat ∧ c.toNat ≤ 57 := by
  intro c hc
  rw [text_eq] at hc
  obtain ⟨d, hd, rfl⟩ := List.mem_map.mp hc
  have hcode := digit_toNat hd
  rw [hcode.1]
  exact hcode.2

theorem value_map {l : List Char} (h : ∀ c ∈ l, (UInt8.ofNat c.toNat).toNat = c.toNat) (k : ℕ) :
    (l.map fun c => UInt8.ofNat c.toNat).foldl (fun n c => 10 * n + (c.toNat - 48)) k =
      Nat.ofDigitChars 10 l k := by
  induction l generalizing k with
  | nil => simp
  | cons c l ih =>
    have hc := h c List.mem_cons_self
    have hrest := ih fun b hb => h b (List.mem_cons_of_mem _ hb)
    rw [List.map_cons, List.foldl_cons, hrest, Nat.ofDigitChars_cons, hc]
    rfl

theorem value_text (n : ℕ) : value (text n) = n := by
  rw [value, text_eq, value_map fun c hc => (digit_toNat hc).1]
  exact Nat.ofDigitChars_ten_toDigits

/-- The text of an integer: a minus sign in front of a negative one. -/
def intText (n : ℤ) : List UInt8 := ascii (toString n)

theorem intText_negSucc (n : ℕ) : intText (Int.negSucc n) = 0x2D :: text (n + 1) := by
  have htext : toString (Int.negSucc n) = "-" ++ toString (n + 1) := rfl
  rw [intText, htext, ascii, String.toList_append, List.map_append]
  rfl

theorem text_injective : Function.Injective text := by
  intro m n h
  have hvalue := congrArg value h
  rwa [value_text, value_text] at hvalue

theorem text_ne_nil (n : ℕ) : text n ≠ [] := by
  rw [text_eq, Ne, List.map_eq_nil_iff]
  exact Nat.toDigits_ne_nil

theorem length_text_le_iff {k : ℕ} (hk : 0 < k) (n : ℕ) : (text n).length ≤ k ↔ n < 10 ^ k := by
  rw [text_eq, List.length_map]
  exact Nat.length_toDigits_le_iff (by decide) hk

theorem length_intText_le {k : ℕ} (hk : 0 < k) {n : ℤ} (h : n.natAbs < 10 ^ k) :
    (intText n).length ≤ k + 1 := by
  cases n with
  | ofNat n =>
    have hlength := (length_text_le_iff hk n).mpr h
    exact Nat.le_succ_of_le hlength
  | negSucc n =>
    have hlength := (length_text_le_iff hk (n + 1)).mpr h
    rw [intText_negSucc, List.length_cons]
    exact Nat.succ_le_succ hlength

end LoginServer.Decimals
