import LoginServer.Arguments
import LoginServer.Library.Cuts

/-! # What `explodeString` returns

The loop cuts at the leftmost occurrences. It trims what it pushes, but not what it pushes behind
the loop, and a limit of 65535 is never exceeded by a counter of 16 bits. -/
namespace LoginServer.Configuration

open Bytes Search

/-- The pieces between the leftmost occurrences, with no more cuts than the limit allows and no
fewer; a limit of 0 allows all. -/
structure IsSplit (separator : List UInt8) (limit : UInt16) (string : List UInt8)
    (pieces : List (List UInt8)) : Prop where
  leftmost : Leftmost separator string pieces
  atMost : limit ≠ 0 → pieces.length ≤ limit.toNat + 1
  all : limit = 0 ∨ pieces.length ≤ limit.toNat →
    ∀ last ∈ pieces.getLast?, ¬ separator <:+: last

/-- The pieces are the split, join to the string and come back trimmed when that is asked for. -/
def Explodes (string separator : List UInt8) (trim : Bool) (limit : UInt16) : Prop :=
  ∃ plain, explodeString string separator false limit = some plain ∧
    IsSplit separator limit string plain ∧ separator.intercalate plain = string ∧
    explodeString string separator trim limit =
      some (if trim then plain.map trimString else plain)

def lastPiece (string separator : List UInt8) (limit : UInt16) : List UInt8 :=
  behind separator (if limit = 0 then string.length else limit.toNat) string

/-- What the counter cannot count does not occur. -/
def Counted (string separator : List UInt8) (limit : UInt16) : Prop :=
  limit = 65535 → ¬ separator <:+: behind separator 65535 string

def NoOuterBlank (str : List UInt8) : Prop :=
  str.head? ≠ some 0x20 ∧ str.getLast? ≠ some 0x20

instance (str : List UInt8) : Decidable (NoOuterBlank str) :=
  inferInstanceAs (Decidable (_ ∧ _))

instance (string separator : List UInt8) (limit : UInt16) :
    Decidable (Counted string separator limit) := inferInstanceAs (Decidable (_ → _))

def pushed (trim : Bool) (t : List UInt8) : List UInt8 := if trim then trimString t else t

variable {string separator : List UInt8} {trim : Bool} {limit : UInt16}

theorem explodeFrom_of_none (h : split separator string = none) (fuel : ℕ) (i : UInt16) :
    explodeFrom separator trim limit (fuel + 1) i string = some [string] := by
  rw [explodeFrom, h]

theorem explodeFrom_unlimited (hne : separator ≠ []) (hlimit : limit = 0 ∨ limit = 65535)
    {fuel : ℕ} (hfuel : string.length < fuel) (i : UInt16) :
    explodeFrom separator trim limit fuel i string =
      some (mapInit (pushed trim) (cuts separator fuel string)) := by
  induction fuel generalizing string i with
  | zero => exact absurd hfuel (Nat.not_lt_zero _)
  | succ fuel ih =>
    cases h : split separator string with
    | none =>
      rw [explodeFrom_of_none h, cuts_of_none h]
      rfl
    | some parts =>
      have hlt := length_back_lt hne h
      have hcount : ¬ (limit > 0 ∧ i + 1 > limit) := by
        rintro ⟨hpos, hover⟩
        rcases hlimit with rfl | rfl
        · exact absurd hpos (by decide)
        · rw [gt_iff_lt, UInt16.lt_iff_toNat_lt] at hover
          have hword := (i + 1).toNat_lt
          exact absurd hover (by simp only [UInt16.reduceToNat]; omega)
      rw [explodeFrom, h]
      simp only
      rw [if_neg hcount, ih (by omega), cuts_of_some h, Option.map_some,
        mapInit_cons _ _ (cuts_ne_nil _ _ _)]
      rfl

theorem explodeFrom_limited (hne : separator ≠ []) (hlimit : limit.toNat < 65535) {fuel : ℕ}
    (hfuel : string.length < fuel) {i : UInt16} (hi : 0 < i.toNat) (hil : i.toNat ≤ limit.toNat) :
    explodeFrom separator trim limit fuel i string =
      some (mapInit (pushed trim) (cuts separator (limit.toNat - i.toNat + 1) string)) := by
  induction fuel generalizing string i with
  | zero => exact absurd hfuel (Nat.not_lt_zero _)
  | succ fuel ih =>
    cases h : split separator string with
    | none =>
      rw [explodeFrom_of_none h, cuts_of_none h]
      rfl
    | some parts =>
      have hlt := length_back_lt hne h
      have hnext : (i + 1).toNat = i.toNat + 1 := by
        rw [UInt16.toNat_add, UInt16.toNat_one]
        omega
      have hpos : limit > 0 := by
        rw [gt_iff_lt, UInt16.lt_iff_toNat_lt]
        exact Nat.lt_of_lt_of_le hi hil
      rw [explodeFrom, h, cuts_of_some h]
      simp only
      by_cases hlast : i.toNat = limit.toNat
      · have hover : i + 1 > limit := by
          rw [gt_iff_lt, UInt16.lt_iff_toNat_lt, hnext]
          omega
        rw [if_pos ⟨hpos, hover⟩, hlast, Nat.sub_self]
        rfl
      · have hunder : ¬ (limit > 0 ∧ i + 1 > limit) := by
          rw [gt_iff_lt, gt_iff_lt, UInt16.lt_iff_toNat_lt, UInt16.lt_iff_toNat_lt, hnext]
          omega
        have hleft : limit.toNat - i.toNat = limit.toNat - (i + 1).toNat + 1 := by omega
        rw [if_neg hunder, ih (by omega) (by omega) (by omega), hleft, Option.map_some,
          mapInit_cons _ _ (cuts_ne_nil _ _ _)]
        rfl

def cutsMade (string : List UInt8) (limit : UInt16) : ℕ :=
  if limit = 0 ∨ limit = 65535 then string.length + 1 else limit.toNat

theorem explodeString_eq (hne : separator ≠ []) (trim : Bool) (limit : UInt16) :
    explodeString string separator trim limit =
      some (mapInit (pushed trim) (cuts separator (cutsMade string limit) string)) := by
  unfold explodeString cutsMade
  split
  · exact explodeFrom_unlimited hne ‹_› (Nat.lt_succ_self _) 1
  · rename_i h
    obtain ⟨hzero, hmax⟩ := not_or.mp h
    have hlt := limit.toNat_lt
    have hpos : 0 < limit.toNat := by
      rw [Nat.pos_iff_ne_zero]
      intro h0
      exact hzero (UInt16.toNat_inj.mp h0)
    have hmaxNat : limit.toNat ≠ 65535 := fun h1 => hmax (UInt16.toNat_inj.mp h1)
    have hbelow : limit.toNat < 65535 := by omega
    have hone : (1 : UInt16).toNat = 1 := by decide
    rw [explodeFrom_limited hne hbelow (Nat.lt_succ_self _) (by decide) (by rwa [hone]), hone,
      Nat.sub_add_cancel hpos]

theorem cuts_cutsMade (hne : separator ≠ []) (h : Counted string separator limit) :
    cuts separator (cutsMade string limit) string =
      cuts separator (if limit = 0 then string.length else limit.toNat) string := by
  have hall : ∀ n, string.length ≤ n → ¬ separator <:+: behind separator n string :=
    fun n hn => not_infix_behind_of_length_le hne hn
  unfold cutsMade
  by_cases hzero : limit = 0
  · rw [if_pos (Or.inl hzero), if_pos hzero]
    exact cuts_eq_of_not_infix (hall _ (le_refl _)) (hall _ (Nat.le_succ _))
  · rw [if_neg hzero]
    by_cases hmax : limit = 65535
    · rw [if_pos (Or.inr hmax), hmax]
      exact cuts_eq_of_not_infix (h hmax) (hall _ (Nat.le_succ _))
    · rw [if_neg (not_or.mpr ⟨hzero, hmax⟩)]

theorem last_cuts_iff (n : ℕ) (P : List UInt8 → Prop) :
    (∀ last ∈ (cuts separator n string).getLast?, P last) ↔ P (behind separator n string) := by
  rw [List.getLast?_eq_some_getLast (cuts_ne_nil separator n string), getLast_cuts]
  simp

theorem isSplit_cuts_zero (hne : separator ≠ []) :
    IsSplit separator 0 string (cuts separator string.length string) := by
  refine ⟨leftmost_cuts _ _ _, fun h => absurd rfl h, fun _ => ?_⟩
  rw [last_cuts_iff]
  exact not_infix_behind_of_length_le hne (le_refl _)

theorem isSplit_cuts_limit (hzero : limit ≠ 0) :
    IsSplit separator limit string (cuts separator limit.toNat string) := by
  refine ⟨leftmost_cuts _ _ _, fun _ => length_cuts_le _ _ _, fun h => ?_⟩
  rw [last_cuts_iff]
  exact not_infix_behind (h.resolve_left hzero)

/-- The cuts that are made are those of the limit, unless the counter cannot reach it. -/
theorem isSplit_iff_counted (hne : separator ≠ []) :
    IsSplit separator limit string (cuts separator (cutsMade string limit) string) ↔
      Counted string separator limit := by
  constructor
  · intro hsplit hmax
    have hle := hsplit.atMost (by rw [hmax]; decide)
    rw [cutsMade, if_pos (Or.inr hmax), hmax] at hle
    rcases Nat.le_total 65535 (string.length + 1) with h | h
    · rw [← behind_eq_of_cuts_eq (cuts_of_length_le h hle)]
      exact not_infix_behind_of_length_le hne (Nat.le_succ _)
    · exact not_infix_behind_of_length_le hne (by omega)
  · intro hcounted
    rw [cuts_cutsMade hne hcounted]
    by_cases hzero : limit = 0
    · rw [if_pos hzero, hzero]
      exact isSplit_cuts_zero hne
    · rw [if_neg hzero]
      exact isSplit_cuts_limit hzero

theorem trimString_eq_self_iff (str : List UInt8) : trimString str = str ↔ NoOuterBlank str := by
  have hparts : trimString str = str ↔
      str.rdropWhile (· = 0x20) = str ∧ str.dropWhile (· = 0x20) = str := by
    constructor
    · intro h
      have hback : str.rdropWhile (· = 0x20) = str := by
        apply (List.rdropWhile_prefix _ str).eq_of_length_le
        conv_lhs => rw [← h]
        exact (List.dropWhile_suffix _).length_le
      rw [trimString, hback] at h
      exact ⟨hback, h⟩
    · rintro ⟨hback, hfront⟩
      rw [trimString, hback, hfront]
  rw [hparts, List.rdropWhile_eq_self_iff, List.dropWhile_eq_self_iff, NoOuterBlank]
  cases str with
  | nil => simp
  | cons c str => simp [List.getLast?_eq_some_getLast, and_comm]

theorem pushed_pieces_iff (n : ℕ) :
    mapInit (pushed trim) (cuts separator n string) =
        (if trim then (cuts separator n string).map trimString else cuts separator n string) ↔
      (trim = true → NoOuterBlank (behind separator n string)) := by
  have hiff := mapInit_eq_map_iff (pushed trim) (cuts_ne_nil separator n string)
  rw [getLast_cuts] at hiff
  cases trim with
  | false =>
    have hsame : pushed false = id := rfl
    rw [hsame, List.map_id] at hiff
    simpa [hsame] using hiff
  | true =>
    have htrim : pushed true = trimString := rfl
    rw [htrim, trimString_eq_self_iff] at hiff
    simpa [htrim] using hiff

theorem explodeString_plain (hne : separator ≠ []) (limit : UInt16) :
    explodeString string separator false limit =
      some (cuts separator (cutsMade string limit) string) := by
  have hself : mapInit (pushed false) (cuts separator (cutsMade string limit) string) =
      cuts separator (cutsMade string limit) string :=
    (pushed_pieces_iff (cutsMade string limit)).mpr (fun h => nomatch h)
  rw [explodeString_eq hne, hself]

theorem explodes_iff_isSplit (hne : separator ≠ []) :
    Explodes string separator trim limit ↔
      IsSplit separator limit string (cuts separator (cutsMade string limit) string) ∧
        (trim = true → NoOuterBlank (behind separator (cutsMade string limit) string)) := by
  rw [← pushed_pieces_iff]
  constructor
  · rintro ⟨plain, heq, hsplit, -, htrim⟩
    cases (explodeString_plain hne limit).symm.trans heq
    rw [explodeString_eq hne] at htrim
    exact ⟨hsplit, Option.some.inj htrim⟩
  · rintro ⟨hsplit, htrim⟩
    refine ⟨_, explodeString_plain hne limit, hsplit, intercalate_of_leftmost hsplit.leftmost, ?_⟩
    rw [explodeString_eq hne, htrim]

/-- The string is split at its leftmost occurrences just when the counter suffices and the last
piece has nothing to trim. -/
theorem explodes_iff (hne : separator ≠ []) (trim : Bool) (limit : UInt16) :
    Explodes string separator trim limit ↔
      Counted string separator limit ∧
        (trim = true → NoOuterBlank (lastPiece string separator limit)) := by
  rw [explodes_iff_isSplit hne, isSplit_iff_counted hne]
  apply and_congr_right
  intro hcounted
  rw [behind_eq_of_cuts_eq (cuts_cutsMade hne hcounted), lastPiece]

theorem one_cut_explodes : Explodes (ascii "a =b=c") (ascii "=") true 1 :=
  (explodes_iff (by decide) true 1).mpr ⟨by decide, fun _ => by decide⟩

/-- The blank before the last piece stays. -/
theorem last_piece_untrimmed :
    ¬ ∀ (string separator : List UInt8) (trim : Bool) (limit : UInt16), separator ≠ [] →
      Explodes string separator trim limit := by
  intro hall
  obtain ⟨plain, hplain, -, -, htrim⟩ := hall (ascii "a= b") (ascii "=") true 0 (by decide)
  have hpieces : explodeString (ascii "a= b") (ascii "=") false 0 =
      some [ascii "a", ascii " b"] := by decide
  cases hpieces.symm.trans hplain
  exact absurd htrim (by decide)

end LoginServer.Configuration
