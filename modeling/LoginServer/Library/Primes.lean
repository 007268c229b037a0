import Mathlib.NumberTheory.LucasPrimality

/-! # Primes behind a prime and a power of two

A number that exceeds a prime times a power of two by one is shown to be prime by two chains of
squares, so that a large one can be checked without its large powers. -/
namespace LoginServer.Primes

def squares (p : ℕ) : ℕ → ℕ → ℕ
  | 0, x => x
  | n + 1, x => squares p n (x * x % p)

theorem cast_squares (p n x : ℕ) : (squares p n x : ZMod p) = (x : ZMod p) ^ 2 ^ n := by
  induction n generalizing x with
  | zero => simp [squares]
  | succ n ih =>
    rw [squares, ih, ZMod.natCast_mod, Nat.cast_mul, ← sq, ← pow_mul, ← Nat.pow_succ']

variable {k m a p : ℕ}

theorem cast_half (hhalf : squares p m (a ^ k % p) = p - 1) (hp : 0 < p) :
    (a : ZMod p) ^ (k * 2 ^ m) = -1 := by
  have hcast := cast_squares p m (a ^ k % p)
  rw [hhalf, ZMod.natCast_mod, Nat.cast_pow, ← pow_mul, Nat.cast_sub hp, ZMod.natCast_self,
    Nat.cast_one, zero_sub] at hcast
  exact hcast.symm

/-- Lucas' test for a number whose predecessor has no prime factor but `k` and 2. -/
theorem prime_of_squares (hk : k.Prime) (hp : p = k * 2 ^ (m + 1) + 1)
    (hhalf : squares p m (a ^ k % p) = p - 1) (hrest : squares p (m + 1) a % p ≠ 1) :
    p.Prime := by
  have hpos : 0 < 2 ^ m := Nat.two_pow_pos m
  have hpred : p - 1 = k * 2 ^ m * 2 := by
    rw [hp, Nat.add_sub_cancel, Nat.pow_succ, Nat.mul_assoc]
  have hlarge : 2 < p := by
    have h2 := hk.two_le
    have hmul := Nat.mul_le_mul h2 hpos
    omega
  have hone : (1 : ZMod p) ≠ -1 := by
    have : Fact (2 < p) := ⟨hlarge⟩
    exact (ZMod.neg_one_ne_one (n := p)).symm
  have hminus := cast_half hhalf (by omega)
  apply lucas_primality p (a : ZMod p)
  · rw [hpred, pow_mul, hminus]
    ring
  · intro q hq hdvd
    rw [hpred, Nat.mul_assoc, ← Nat.pow_succ] at hdvd
    rcases (Nat.Prime.dvd_mul hq).mp hdvd with hqk | hq2
    · obtain rfl := (Nat.prime_dvd_prime_iff_eq hq hk).mp hqk
      rw [hpred, Nat.mul_assoc, ← Nat.pow_succ, Nat.mul_div_cancel_left _ hq.pos,
        ← cast_squares]
      intro h1
      have hmod := (ZMod.natCast_eq_natCast_iff' _ 1 p).mp (by rw [h1, Nat.cast_one])
      rw [Nat.mod_eq_of_lt (show 1 < p by omega)] at hmod
      exact hrest hmod
    · obtain rfl := (Nat.prime_dvd_prime_iff_eq hq Nat.prime_two).mp (hq.dvd_of_dvd_pow hq2)
      rw [hpred, Nat.mul_div_cancel _ Nat.two_pos, hminus]
      exact hone.symm

end LoginServer.Primes
