import LoginServer.Encryption
import Mathlib.Data.List.Forall2

/-! # What `encryptTest` accepts

Both sides of the comparison are folded, the stored one by `upchar` and the other by the mode.
In a digest mode this accepts the two cases of a hex letter and nothing else; in plain mode it
accepts the two cases of every letter of the password. -/
namespace LoginServer.Encryption

open Bytes Accounts

def digestOf (d : Digests) (g_config : Config) : Option (List UInt8 → List UInt8) :=
  if g_config.ENCRYPTION = ENCRYPTION_MD5 then some d.MD5
  else if g_config.ENCRYPTION = ENCRYPTION_SHA1 then some d.SHA1
  else if g_config.ENCRYPTION = ENCRYPTION_SHA256 then some d.SHA256
  else if g_config.ENCRYPTION = ENCRYPTION_SHA512 then some d.SHA512
  else none

/-- The same character, up to the case of those whose lower case is meant. -/
def SameUpTo (lower : UInt8 → Prop) (c d : UInt8) : Prop :=
  c = d ∨ lower c ∧ d = c - 32 ∨ lower d ∧ c = d - 32

def HexLetter (c : UInt8) : Prop := 97 ≤ c ∧ c ≤ 102

/-- A letter in the ASCII range, and the letters of the high bytes 32 apart. -/
def Letter (c : UInt8) : Prop := 97 ≤ c ∧ c ≤ 122 ∨ 224 ≤ c

def hexText (digest : List UInt8) : List UInt8 :=
  digest.flatMap fun md => [hexDigit (md.toNat / 16), hexDigit (md.toNat % 16)]

theorem encrypt_eq (d : Digests) (g_config : Config) (plain : List UInt8) :
    _encrypt d g_config plain true = match digestOf d g_config with
      | some digest => hexText (digest plain)
      | none => plain.map upchar := by
  simp only [_encrypt, digestOf, transformTo, if_true]
  split_ifs <;> rfl

theorem letter_iff (c : UInt8) :
    Letter c ↔ 97 ≤ c.toNat ∧ c.toNat ≤ 122 ∨ 224 ≤ c.toNat := by
  simp only [Letter, UInt8.le_iff_toNat_le, UInt8.reduceToNat]

theorem toNat_sub_of_letter {c : UInt8} (h : Letter c) : (c - 32).toNat = c.toNat - 32 := by
  rw [letter_iff] at h
  apply UInt8.toNat_sub_of_le
  simp only [UInt8.le_iff_toNat_le, UInt8.reduceToNat]
  omega

theorem upchar_of_letter {c : UInt8} (h : Letter c) : upchar c = c - 32 := if_pos h

theorem upchar_of_not_letter {c : UInt8} (h : ¬ Letter c) : upchar c = c := if_neg h

theorem not_letter_sub {c : UInt8} (h : Letter c) : ¬ Letter (c - 32) := by
  have hlt := c.toNat_lt
  rw [letter_iff, toNat_sub_of_letter h]
  rw [letter_iff] at h
  omega

theorem letter_sub_inj {c d : UInt8} (hc : Letter c) (hd : Letter d) (h : c - 32 = d - 32) :
    c = d := by
  have hnat := congrArg UInt8.toNat h
  rw [toNat_sub_of_letter hc, toNat_sub_of_letter hd] at hnat
  rw [letter_iff] at hc hd
  exact UInt8.toNat_inj.mp (by omega)

theorem upchar_eq_iff (c d : UInt8) : upchar c = upchar d ↔ SameUpTo Letter c d := by
  by_cases hc : Letter c <;> by_cases hd : Letter d
  · rw [upchar_of_letter hc, upchar_of_letter hd]
    constructor
    · intro h
      exact Or.inl (letter_sub_inj hc hd h)
    · rintro (h | ⟨-, h⟩ | ⟨-, h⟩)
      · rw [h]
      · exact absurd (h ▸ hd) (not_letter_sub hc)
      · exact absurd (h ▸ hc) (not_letter_sub hd)
  · rw [upchar_of_letter hc, upchar_of_not_letter hd]
    constructor
    · intro h
      exact Or.inr (Or.inl ⟨hc, h.symm⟩)
    · rintro (h | ⟨-, h⟩ | ⟨h, -⟩)
      · exact absurd (h ▸ hc) hd
      · exact h.symm
      · exact absurd h hd
  · rw [upchar_of_not_letter hc, upchar_of_letter hd]
    constructor
    · intro h
      exact Or.inr (Or.inr ⟨hd, h⟩)
    · rintro (h | ⟨h, -⟩ | ⟨-, h⟩)
      · exact absurd (h ▸ hd) hc
      · exact absurd h hc
      · exact h
  · rw [upchar_of_not_letter hc, upchar_of_not_letter hd]
    constructor
    · intro h
      exact Or.inl h
    · rintro (h | ⟨h, -⟩ | ⟨h, -⟩)
      · exact h
      · exact absurd h hc
      · exact absurd h hd

def HexDigit (c : UInt8) : Prop := 48 ≤ c ∧ c ≤ 57 ∨ 65 ≤ c ∧ c ≤ 70

instance (c : UInt8) : Decidable (HexDigit c) := inferInstanceAs (Decidable (_ ∨ _))

theorem hexDigit_hexDigit : ∀ n < 16, HexDigit (hexDigit n) := by decide

theorem mem_hexText {digest : List UInt8} {c : UInt8} (h : c ∈ hexText digest) :
    HexDigit c := by
  obtain ⟨md, -, hc⟩ := List.mem_flatMap.mp h
  have hlt := md.toNat_lt
  rcases List.mem_pair.mp hc with rfl | rfl
  · exact hexDigit_hexDigit _ (by omega)
  · exact hexDigit_hexDigit _ (by omega)

theorem upchar_eq_hexDigit {c d : UInt8} (hd : HexDigit d) :
    d = upchar c ↔ SameUpTo HexLetter c d := by
  have hbounds : 48 ≤ d.toNat ∧ d.toNat ≤ 57 ∨ 65 ≤ d.toNat ∧ d.toNat ≤ 70 := by
    simpa only [HexDigit, UInt8.le_iff_toNat_le, UInt8.reduceToNat] using hd
  have hnot : ¬ Letter d := by
    rw [letter_iff]
    omega
  have hnotHex : ¬ HexLetter d := by
    simp only [HexLetter, UInt8.le_iff_toNat_le, UInt8.reduceToNat]
    omega
  have hfold := upchar_eq_iff c d
  rw [upchar_of_not_letter hnot] at hfold
  rw [eq_comm, hfold]
  unfold SameUpTo
  constructor
  · rintro (h | ⟨hc, h⟩ | ⟨h, -⟩)
    · exact Or.inl h
    · refine Or.inr (Or.inl ⟨?_, h⟩)
      have hnat := congrArg UInt8.toNat h
      rw [toNat_sub_of_letter hc] at hnat
      rw [letter_iff] at hc
      simp only [HexLetter, UInt8.le_iff_toNat_le, UInt8.reduceToNat]
      omega
    · exact absurd h hnot
  · rintro (h | ⟨hc, h⟩ | ⟨h, -⟩)
    · exact Or.inl h
    · have hletter : Letter c := by
        simp only [HexLetter, UInt8.le_iff_toNat_le, UInt8.reduceToNat] at hc
        rw [letter_iff]
        omega
      exact Or.inr (Or.inl ⟨hletter, h⟩)
    · exact absurd h hnotHex

/-- Equal after folding both is equal up to what the folding hides. -/
theorem map_upchar_eq_iff (k l : List UInt8) :
    k.map upchar = l.map upchar ↔ List.Forall₂ (SameUpTo Letter) k l := by
  rw [← List.forall₂_eq_eq_eq, List.forall₂_map_left_iff, List.forall₂_map_right_iff]
  simp only [upchar_eq_iff]

theorem hexText_eq_map_upchar_iff (digest hash : List UInt8) :
    hexText digest = hash.map upchar ↔ List.Forall₂ (SameUpTo HexLetter) hash (hexText digest) := by
  have hdigits : ∀ c ∈ hexText digest, HexDigit c := fun c => mem_hexText
  revert hdigits
  generalize hexText digest = text
  intro hdigits
  rw [eq_comm, ← List.forall₂_eq_eq_eq, List.forall₂_map_left_iff]
  induction hash generalizing text with
  | nil => simp
  | cons c hash ih =>
    cases text with
    | nil => simp
    | cons d text =>
      have htail := ih text fun e he => hdigits e (List.mem_cons_of_mem d he)
      have hhead := upchar_eq_hexDigit (c := c) (hdigits d (List.mem_cons_self ..))
      rw [List.forall₂_cons, List.forall₂_cons, eq_comm, hhead]
      exact and_congr_right fun _ => htail

/-- A digest mode compares up to the case of the hex letters, the plain mode up to the case of
every letter. -/
theorem encryptTest_accepts_iff (d : Digests) (g_config : Config) (plain hash : List UInt8) :
    (encryptTest d g_config plain hash).1 = true ↔ match digestOf d g_config with
      | some digest => List.Forall₂ (SameUpTo HexLetter) hash (hexText (digest plain))
      | none => List.Forall₂ (SameUpTo Letter) plain hash := by
  simp only [encryptTest, encrypt_eq, decide_eq_true_eq]
  cases digestOf d g_config with
  | none => exact map_upchar_eq_iff plain hash
  | some digest => exact hexText_eq_map_upchar_iff (digest plain) hash

/-- The stored password SECRET accepts the input secret in plain mode. -/
theorem plain_mode_folds_case :
    ¬ ∀ (d : Digests) (g_config : Config) (plain hash : List UInt8),
      ((encryptTest d g_config plain hash).1 = true ↔ match digestOf d g_config with
        | some digest => List.Forall₂ (SameUpTo HexLetter) hash (hexText (digest plain))
        | none => plain = hash) := by
  intro hall
  have h := hall ⟨id, id, id, id⟩
    { MOTD_ID := 0, MOTD_TEXT := [], ON_OR_OFF_CHARLIST := false, FREE_PREMIUM := false,
      LOGIN_TRIES := 3, RETRY_TIMEOUT := 5000, LOGIN_TIMEOUT := 60000, ENCRYPTION := 0,
      GAMEMASTER_GROUP := 3, SERVER_NAME := [], URL := [] }
    (ascii "secret") (ascii "SECRET")
  have hsame : ascii "secret" = ascii "SECRET" := h.mp (by decide)
  exact absurd hsame (by decide)

end LoginServer.Encryption
