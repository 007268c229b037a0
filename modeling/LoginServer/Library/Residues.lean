import Mathlib.Data.Nat.ChineseRemainder
import Mathlib.Data.Int.ModEq
import Mathlib.FieldTheory.Finite.Basic

/-! # Powers modulo a product of two primes

A number below a product of two coprime moduli is put together from its two residues, with an
inverse of one modulus modulo the other. A power modulo a prime may have its exponent reduced
modulo the prime less one, as long as no power of a multiple of the prime becomes its zeroth. -/
namespace LoginServer.Residues

/-- The number with the residues `x` modulo `a` and `y` modulo `b`, where `u` inverts `b` modulo
`a`. -/
def recombine (a b u x y : ℕ) : ℕ := y + b * (((u : ℤ) * (x - y)) % a).toNat

variable {a b u x y : ℕ}

theorem recombine_mod_right (hy : y < b) : recombine a b u x y % b = y := by
  rw [recombine, Nat.add_mul_mod_self_left, Nat.mod_eq_of_lt hy]

theorem recombine_mod_left (ha : 0 < a) (hu : u * b ≡ 1 [MOD a]) (hx : x < a) :
    recombine a b u x y % a = x := by
  have hpos : 0 ≤ ((u : ℤ) * (x - y)) % a := Int.emod_nonneg _ (by omega)
  have hinv : (b : ℤ) * u ≡ 1 [ZMOD a] := by
    rw [mul_comm]
    exact_mod_cast Int.natCast_modEq_iff.mpr hu
  have hcast : (recombine a b u x y : ℤ) ≡ x [ZMOD a] := by
    calc (recombine a b u x y : ℤ)
        = y + b * (((u : ℤ) * (x - y)) % a) := by
          rw [recombine, Nat.cast_add, Nat.cast_mul, Int.toNat_of_nonneg hpos]
      _ ≡ y + b * (u * (x - y)) [ZMOD a] := (Int.mod_modEq _ _).mul_left _ |>.add_left _
      _ = y + b * u * (x - y) := by ring
      _ ≡ y + 1 * (x - y) [ZMOD a] := (hinv.mul_right _).add_left _
      _ = x := by ring
  have hmod : recombine a b u x y ≡ x [MOD a] := Int.natCast_modEq_iff.mp hcast
  rw [hmod, Nat.mod_eq_of_lt hx]

theorem recombine_lt (ha : 0 < a) (hy : y < b) : recombine a b u x y < a * b := by
  have hlt : ((u : ℤ) * (x - y)) % a < a := Int.emod_lt_of_pos _ (by omega)
  have hle : (((u : ℤ) * (x - y)) % a).toNat + 1 ≤ a := by omega
  calc recombine a b u x y
      < b + b * (((u : ℤ) * (x - y)) % a).toNat := Nat.add_lt_add_right hy _
    _ = b * ((((u : ℤ) * (x - y)) % a).toNat + 1) := by ring
    _ ≤ b * a := Nat.mul_le_mul_left _ hle
    _ = a * b := Nat.mul_comm _ _

theorem recombine_eq_mod_iff (hab : a.Coprime b) (hu : u * b ≡ 1 [MOD a]) (hx : x < a)
    (hy : y < b) (z : ℕ) :
    recombine a b u x y = z % (a * b) ↔ x = z % a ∧ y = z % b := by
  have ha : 0 < a := by omega
  constructor
  · intro h
    constructor
    · have hmod := congrArg (· % a) h
      simpa [recombine_mod_left ha hu hx] using hmod
    · have hmod := congrArg (· % b) h
      simpa [recombine_mod_right hy] using hmod
  · rintro ⟨hxz, hyz⟩
    have hleft : recombine a b u x y ≡ z [MOD a] := (recombine_mod_left ha hu hx).trans hxz
    have hright : recombine a b u x y ≡ z [MOD b] := (recombine_mod_right hy).trans hyz
    have hmod := (Nat.modEq_and_modEq_iff_modEq_mul hab).mp ⟨hleft, hright⟩
    rw [← hmod, Nat.mod_eq_of_lt (recombine_lt ha hy)]

/-- Fermat's theorem for an exponent that is reduced. -/
theorem pow_mod_pred {p : ℕ} (hp : p.Prime) {c : ℕ} (hc : ¬ p ∣ c) (d : ℕ) :
    c ^ (d % (p - 1)) ≡ c ^ d [MOD p] := by
  have : Fact p.Prime := ⟨hp⟩
  have hunit : c ^ (p - 1) ≡ 1 [MOD p] := by
    have hzero : (c : ZMod p) ≠ 0 := by
      rwa [Ne, ZMod.natCast_eq_zero_iff]
    have hone := ZMod.pow_card_sub_one_eq_one hzero
    apply (ZMod.natCast_eq_natCast_iff _ _ _).mp
    push_cast
    exact hone
  have hsplit : d = d % (p - 1) + (p - 1) * (d / (p - 1)) := (Nat.mod_add_div _ _).symm
  calc c ^ (d % (p - 1))
      = c ^ (d % (p - 1)) * 1 ^ (d / (p - 1)) := by rw [one_pow, mul_one]
    _ ≡ c ^ (d % (p - 1)) * (c ^ (p - 1)) ^ (d / (p - 1)) [MOD p] :=
        ((hunit.symm.pow _).mul_left _)
    _ = c ^ d := by rw [← pow_mul, ← pow_add, ← hsplit]

theorem pow_modEq_self {p : ℕ} (hp : p.Prime) {x : ℕ} (hx0 : x ≠ 0) (hx : x ≡ 1 [MOD p - 1])
    (c : ℕ) : c ^ x ≡ c [MOD p] := by
  by_cases hc : p ∣ c
  · have hzero := Nat.modEq_zero_iff_dvd.mpr hc
    exact (Nat.modEq_zero_iff_dvd.mpr (hc.trans (dvd_pow_self c hx0))).trans hzero.symm
  · have hreduced : c ^ (x % (p - 1)) ≡ c ^ (1 % (p - 1)) [MOD p] := by rw [hx]
    have hone := (pow_mod_pred hp hc x).symm.trans (hreduced.trans (pow_mod_pred hp hc 1))
    rwa [pow_one] at hone

/-- With an exponent that is invertible modulo `p - 1` the reduction is wrong for one prime only,
whose exponents all become zero. -/
theorem pow_mod_pred_iff {p : ℕ} (hp : p.Prime) {d e : ℕ} (hd : d ≠ 0)
    (hde : d * e ≡ 1 [MOD p - 1]) (c : ℕ) :
    c ^ (d % (p - 1)) % p = c ^ d % p ↔ ¬ (p = 2 ∧ 2 ∣ c) := by
  by_cases hc : p ∣ c
  · have hzero : c ^ d % p = 0 := Nat.mod_eq_zero_of_dvd (hc.trans (dvd_pow_self c hd))
    rw [hzero]
    by_cases h2 : p = 2
    · subst h2
      simp [hc, Nat.mod_one]
    · have hne : d % (p - 1) ≠ 0 := by
        intro h0
        have hdvd : p - 1 ∣ d * e := (Nat.dvd_of_mod_eq_zero h0).mul_right e
        have hone : p - 1 ∣ 1 := (hde.dvd_iff dvd_rfl).mp hdvd
        have hle := Nat.le_of_dvd Nat.one_pos hone
        have h2le := hp.two_le
        omega
      have hred : c ^ (d % (p - 1)) % p = 0 :=
        Nat.mod_eq_zero_of_dvd (hc.trans (dvd_pow_self c hne))
      simp [hred, h2]
  · have hmod : c ^ (d % (p - 1)) % p = c ^ d % p := pow_mod_pred hp hc d
    constructor
    · rintro _ ⟨rfl, hdvd⟩
      exact hc hdvd
    · intro _
      exact hmod

end LoginServer.Residues
