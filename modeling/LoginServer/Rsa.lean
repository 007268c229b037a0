import LoginServer.Library.Residues
import LoginServer.Protocol

/-! # The RSA key

What `otlogin` computes from the key of the settings, and the private operation that OpenSSL
performs with it, by way of the residues modulo the two primes. The key is what
`RSA_check_key` lets through. -/
namespace LoginServer.Rsa

open Bytes Message Residues

structure Key where
  p : ℕ
  q : ℕ
  n : ℕ
  e : ℕ
  d : ℕ

/-- What OpenSSL tests of a key with both factors. -/
structure RSA_check_key (k : Key) : Prop where
  p_prime : k.p.Prime
  q_prime : k.q.Prime
  distinct : k.p ≠ k.q
  modulus : k.n = k.p * k.q
  exponents : k.d * k.e ≡ 1 [MOD Nat.lcm (k.p - 1) (k.q - 1)]

/-- The inverse in range, which only a coprime number has. -/
def BN_mod_inverse (a n : ℕ) : Option ℕ :=
  if a.Coprime n then some (a.gcdA n % n).toNat else none

structure CrtParams where
  dmp1 : ℕ
  dmq1 : ℕ
  iqmp : ℕ

/-- The numbers that `otlogin` hands to `RSA_set0_crt_params`; an inverse that does not exist
would leave the zero of `BN_new`. -/
def crtParams (k : Key) : CrtParams :=
  let r1 := k.p - 1
  let r2 := k.q - 1
  { dmp1 := k.d % r1
    dmq1 := k.d % r2
    iqmp := (BN_mod_inverse k.q k.p).getD 0 }

def crtPower (k : Key) (params : CrtParams) (c : ℕ) : ℕ :=
  let m1 := c ^ params.dmp1 % k.p
  let m2 := c ^ params.dmq1 % k.q
  m2 + k.q * (((params.iqmp : ℤ) * (m1 - m2)) % k.p).toNat

theorem BN_mod_inverse_spec {a n : ℕ} (h : a.Coprime n) (hn : 0 < n) :
    (BN_mod_inverse a n).getD 0 * a ≡ 1 [MOD n] := by
  have hpos : 0 ≤ a.gcdA n % n := Int.emod_nonneg _ (by omega)
  have hbezout : (1 : ℤ) = a * a.gcdA n + n * a.gcdB n := by
    have hgcd := Nat.gcd_eq_gcd_ab a n
    rwa [h.gcd_eq_one] at hgcd
  rw [BN_mod_inverse, if_pos h, Option.getD_some]
  apply Int.natCast_modEq_iff.mp
  calc ((((a.gcdA n % n).toNat * a : ℕ)) : ℤ)
      = (a.gcdA n % n) * a := by rw [Nat.cast_mul, Int.toNat_of_nonneg hpos]
    _ ≡ a.gcdA n * a [ZMOD n] := (Int.mod_modEq _ _).mul_right _
    _ ≡ a.gcdA n * a + n * a.gcdB n [ZMOD n] := by
        apply Int.modEq_iff_dvd.mpr
        exact ⟨a.gcdB n, by ring⟩
    _ = ((1 : ℕ) : ℤ) := by rw [Nat.cast_one, hbezout]; ring

namespace RSA_check_key

variable {k : Key}

theorem coprime (h : RSA_check_key k) : k.q.Coprime k.p :=
  (Nat.coprime_primes h.q_prime h.p_prime).mpr h.distinct.symm

theorem d_ne_zero (h : RSA_check_key k) : k.d ≠ 0 := by
  intro hd
  have hdvd : Nat.lcm (k.p - 1) (k.q - 1) ∣ 1 := by
    have hmod := h.exponents
    rw [hd, Nat.zero_mul] at hmod
    exact (hmod.dvd_iff dvd_rfl).mp (dvd_zero _)
  have hp := Nat.le_of_dvd Nat.one_pos ((Nat.dvd_lcm_left _ _).trans hdvd)
  have hq := Nat.le_of_dvd Nat.one_pos ((Nat.dvd_lcm_right _ _).trans hdvd)
  have hp2 := h.p_prime.two_le
  have hq2 := h.q_prime.two_le
  exact h.distinct (by omega)

theorem exponents_p (h : RSA_check_key k) : k.d * k.e ≡ 1 [MOD k.p - 1] :=
  h.exponents.of_dvd (Nat.dvd_lcm_left _ _)

theorem exponents_q (h : RSA_check_key k) : k.d * k.e ≡ 1 [MOD k.q - 1] :=
  h.exponents.of_dvd (Nat.dvd_lcm_right _ _)

end RSA_check_key

/-- Each half of the operation is right by itself, or the whole is wrong. -/
theorem crtPower_halves {k : Key} (h : RSA_check_key k) (c : ℕ) :
    crtPower k (crtParams k) c = c ^ k.d % k.n ↔
      c ^ (k.d % (k.p - 1)) % k.p = c ^ k.d % k.p ∧
        c ^ (k.d % (k.q - 1)) % k.q = c ^ k.d % k.q := by
  rw [h.modulus]
  exact recombine_eq_mod_iff h.coprime.symm (BN_mod_inverse_spec h.coprime h.p_prime.pos)
    (Nat.mod_lt _ h.p_prime.pos) (Nat.mod_lt _ h.q_prime.pos) (c ^ k.d)

/-- The prime 2 makes its exponent zero, and the zeroth power of an even number is odd. -/
theorem crt_evaluates_power_iff {k : Key} (h : RSA_check_key k) (c : ℕ) :
    crtPower k (crtParams k) c = c ^ k.d % k.n ↔ ¬ (2 ∣ c ∧ (k.p = 2 ∨ k.q = 2)) := by
  rw [crtPower_halves h, pow_mod_pred_iff h.p_prime h.d_ne_zero h.exponents_p,
    pow_mod_pred_iff h.q_prime h.d_ne_zero h.exponents_q]
  constructor
  · rintro ⟨hp, hq⟩ ⟨hc, h2 | h2⟩
    · exact hp ⟨h2, hc⟩
    · exact hq ⟨h2, hc⟩
  · intro hodd
    constructor
    · rintro ⟨h2, hc⟩
      exact hodd ⟨hc, Or.inl h2⟩
    · rintro ⟨h2, hc⟩
      exact hodd ⟨hc, Or.inr h2⟩

def smallKey : Key := ⟨3, 11, 33, 3, 7⟩

theorem smallKey_evaluates : crtPower smallKey (crtParams smallKey) 9 = 9 ^ 7 % 33 := by
  have hkey : RSA_check_key smallKey :=
    ⟨Nat.prime_three, Nat.prime_eleven, by decide, rfl, by decide⟩
  exact (crt_evaluates_power_iff hkey 9).mpr (by decide)

def evenKey : Key := ⟨2, 5, 10, 3, 3⟩

/-- With the prime 2, every ciphertext is taken for an odd number. -/
theorem even_ciphertext_differs : ¬ ∀ k : Key, RSA_check_key k → ∀ c < k.n,
    crtPower k (crtParams k) c = c ^ k.d % k.n := by
  intro hall
  have hkey : RSA_check_key evenKey :=
    ⟨Nat.prime_two, Nat.prime_five, by decide, rfl, by decide⟩
  have hhalves := (crtPower_halves hkey 2).mp (hall evenKey hkey 2 (by decide))
  exact absurd hhalves.1 (by decide)

/-- `RSA_private_decrypt` without padding, for a modulus of 128 bytes: a block is a number, its
first byte the highest, and a number outside of the modulus is refused. -/
def privateDecrypt (n : ℕ) (power : ℕ → ℕ) : Message.Rsa := fun cipher =>
  let c := ofLe cipher.reverse
  if c < n then some ⟨(leBytes 128 (power c)).reverse.toArray, by simp⟩ else none

/-- A packet is decrypted as by the plain power, whatever its block holds. -/
theorem RSA_decrypt_plain {k : Key} (h : RSA_check_key k) (hp : k.p ≠ 2) (hq : k.q ≠ 2) :
    RSA_decrypt (privateDecrypt k.n (crtPower k (crtParams k))) =
      RSA_decrypt (privateDecrypt k.n fun c => c ^ k.d % k.n) := by
  have hpower : crtPower k (crtParams k) = fun c => c ^ k.d % k.n := by
    funext c
    apply (crtPower_halves h c).mpr
    constructor
    · exact (pow_mod_pred_iff h.p_prime h.d_ne_zero h.exponents_p c).mpr fun h2 => hp h2.1
    · exact (pow_mod_pred_iff h.q_prime h.d_ne_zero h.exponents_q c).mpr fun h2 => hq h2.1
  rw [hpower]

end LoginServer.Rsa
