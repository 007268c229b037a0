import LoginServer.Library.RunningSums
import Mathlib.Data.Int.ModEq
import Mathlib.RingTheory.Int.Basic
import Mathlib.Tactic.NormNum.Prime

/-! # Lists that differ in a few places

How far the two running sums of a list move when some of its numbers change. Modulo a prime that
exceeds the length, a change of one or two numbers never leaves both sums as they were. -/
namespace LoginServer.Distance

open RunningSums

section Differences

variable {α β : Type*} [DecidableEq α] [DecidableEq β]

def differences : List α → List α → ℕ
  | a :: l, b :: k => (if a = b then 0 else 1) + differences l k
  | _, _ => 0

theorem differences_append {l k : List α} (h : l.length = k.length) (l' k' : List α) :
    differences (l ++ l') (k ++ k') = differences l k + differences l' k' := by
  induction l generalizing k with
  | nil =>
    rw [List.length_nil] at h
    rw [List.length_eq_zero_iff.mp h.symm]
    simp [differences]
  | cons a l ih =>
    cases k with
    | nil => cases h
    | cons b k =>
      simp only [List.cons_append, differences, ih (Nat.succ.inj h)]
      omega

theorem differences_eq_zero {l k : List α} (h : l.length = k.length) :
    differences l k = 0 ↔ l = k := by
  induction l generalizing k with
  | nil =>
    rw [List.length_nil] at h
    rw [List.length_eq_zero_iff.mp h.symm]
    simp [differences]
  | cons a l ih =>
    cases k with
    | nil => cases h
    | cons b k =>
      rw [differences, Nat.add_eq_zero_iff, ih (Nat.succ.inj h), List.cons.injEq]
      by_cases hab : a = b <;> simp [hab]

theorem differences_map {f : α → β} (hf : Function.Injective f) (l k : List α) :
    differences (l.map f) (k.map f) = differences l k := by
  induction l generalizing k with
  | nil => simp [differences]
  | cons a l ih =>
    cases k with
    | nil => simp [differences]
    | cons b k => simp [differences, ih, hf.eq_iff]

end Differences

/-- The second sum of a list, from zero: each number counts as often as there are prefixes that
hold it. -/
def ramp : List ℕ → ℕ
  | [] => 0
  | v :: l => (l.length + 1) * v + ramp l

theorem sums_snd_ramp (s : ℕ × ℕ) (l : List ℕ) :
    (sums s l).2 = s.2 + l.length * s.1 + ramp l := by
  induction l generalizing s with
  | nil => simp [ramp]
  | cons v l ih =>
    rw [sums_cons, ih, addStep, ramp, List.length_cons]
    ring

/-- Both sums of `k` exceed those of `l` as if `d` had been added at weight `w`. -/
structure Shift (m : ℕ) (l k : List ℕ) (d : ℤ) (w : ℕ) : Prop where
  nonzero : d ≠ 0
  below : |d| < m
  pos : 0 < w
  le : w ≤ l.length

variable {m : ℕ} {l k : List ℕ}

theorem Shift.cons {d : ℤ} {w : ℕ} (h : Shift m l k d w) (u v : ℕ) :
    Shift m (u :: l) (v :: k) d w :=
  ⟨h.nonzero, h.below, h.pos, Nat.le_succ_of_le h.le⟩

theorem Shift.head (h : l.length = k.length) {u v : ℕ} (hu : u < m) (hv : v < m) (hne : u ≠ v) :
    Shift m (u :: l) (v :: k) ((v : ℤ) - u) (l.length + 1) ∧
      ((v :: k).sum : ℤ) - (u :: l).sum = (v - u) + ((k.sum : ℤ) - l.sum) ∧
      (ramp (v :: k) : ℤ) - ramp (u :: l) =
        (l.length + 1 : ℕ) * ((v : ℤ) - u) + ((ramp k : ℤ) - ramp l) := by
  refine ⟨⟨by omega, abs_lt.mpr (by omega), Nat.succ_pos _, le_rfl⟩, ?_, ?_⟩
  · simp only [List.sum_cons, Nat.cast_add]
    ring
  · simp only [ramp, ← h, Nat.cast_add, Nat.cast_mul]
    push_cast
    ring

theorem same_head (h : l.length = k.length) (v : ℕ) :
    ((v :: k).sum : ℤ) - (v :: l).sum = (k.sum : ℤ) - l.sum ∧
      (ramp (v :: k) : ℤ) - ramp (v :: l) = (ramp k : ℤ) - ramp l := by
  constructor
  · simp only [List.sum_cons, Nat.cast_add]
    ring
  · simp only [ramp, h, Nat.cast_add]
    ring

theorem one_difference (h : l.length = k.length) (hl : ∀ v ∈ l, v < m) (hk : ∀ v ∈ k, v < m)
    (hd : differences l k = 1) :
    ∃ d w, Shift m l k d w ∧ (k.sum : ℤ) - l.sum = d ∧ (ramp k : ℤ) - ramp l = w * d := by
  induction l generalizing k with
  | nil => simp [differences] at hd
  | cons u l ih =>
    cases k with
    | nil => cases h
    | cons v k =>
      have hlen := Nat.succ.inj h
      obtain ⟨hu, hl⟩ := List.forall_mem_cons.mp hl
      obtain ⟨hv, hk⟩ := List.forall_mem_cons.mp hk
      rw [differences] at hd
      by_cases huv : u = v
      · rw [if_pos huv, Nat.zero_add] at hd
        obtain ⟨d, w, hs, hsum, hramp⟩ := ih hlen hl hk hd
        obtain ⟨hsum', hramp'⟩ := same_head hlen v
        rw [huv]
        exact ⟨d, w, hs.cons v v, hsum'.trans hsum, hramp'.trans hramp⟩
      · rw [if_neg huv, Nat.add_eq_left] at hd
        obtain rfl := (differences_eq_zero hlen).mp hd
        obtain ⟨hs, hsum, hramp⟩ := Shift.head hlen hu hv huv
        exact ⟨_, _, hs, by rw [hsum]; ring, by rw [hramp]; ring⟩

theorem two_differences (h : l.length = k.length) (hl : ∀ v ∈ l, v < m) (hk : ∀ v ∈ k, v < m)
    (hd : differences l k = 2) :
    ∃ d e w x, Shift m l k d w ∧ Shift m l k e x ∧ x < w ∧
      (k.sum : ℤ) - l.sum = d + e ∧ (ramp k : ℤ) - ramp l = w * d + x * e := by
  induction l generalizing k with
  | nil => simp [differences] at hd
  | cons u l ih =>
    cases k with
    | nil => cases h
    | cons v k =>
      have hlen := Nat.succ.inj h
      obtain ⟨hu, hl⟩ := List.forall_mem_cons.mp hl
      obtain ⟨hv, hk⟩ := List.forall_mem_cons.mp hk
      rw [differences] at hd
      by_cases huv : u = v
      · rw [if_pos huv, Nat.zero_add] at hd
        obtain ⟨d, e, w, x, hs, ht, hlt, hsum, hramp⟩ := ih hlen hl hk hd
        obtain ⟨hsum', hramp'⟩ := same_head hlen v
        rw [huv]
        exact ⟨d, e, w, x, hs.cons v v, ht.cons v v, hlt, hsum'.trans hsum, hramp'.trans hramp⟩
      · rw [if_neg huv] at hd
        obtain ⟨e, x, ht, hsum', hramp'⟩ := one_difference hlen hl hk (by omega)
        obtain ⟨hs, hsum, hramp⟩ := Shift.head hlen hu hv huv
        refine ⟨_, e, _, x, hs, ht.cons u v, Nat.lt_succ_of_le ht.le, ?_, ?_⟩
        · rw [hsum, hsum']
        · rw [hramp, hramp']

section Prime

variable {p : ℕ}

theorem Shift.not_dvd {d : ℤ} {w : ℕ} (hs : Shift m l k d w) (hm : m ≤ p) : ¬ (p : ℤ) ∣ d := by
  intro hdvd
  have hlt : |d| < p := hs.below.trans_le (by exact_mod_cast hm)
  exact hs.nonzero (Int.eq_zero_of_abs_lt_dvd hdvd hlt)

variable (hp : p.Prime)

include hp

/-- One changed number moves both sums. -/
theorem one_moves_both (h : l.length = k.length) (hl : ∀ v ∈ l, v < m) (hk : ∀ v ∈ k, v < m)
    (hm : m ≤ p) (hlen : l.length < p) (hd : differences l k = 1) :
    ¬ l.sum ≡ k.sum [MOD p] ∧ ¬ ramp l ≡ ramp k [MOD p] := by
  obtain ⟨d, w, hs, hsum, hramp⟩ := one_difference h hl hk hd
  have hprime := Nat.prime_iff_prime_int.mp hp
  constructor
  · intro hmod
    exact hs.not_dvd hm (hsum ▸ (Nat.modEq_iff_dvd.mp hmod))
  · intro hmod
    rcases hprime.dvd_or_dvd (hramp ▸ Nat.modEq_iff_dvd.mp hmod) with hw | hd
    · have hle := Nat.le_of_dvd hs.pos (Int.natCast_dvd_natCast.mp hw)
      have hwl := hs.le
      omega
    · exact hs.not_dvd hm hd

/-- Two changed numbers may leave the first sum, and then they move the second. -/
theorem two_move_one (h : l.length = k.length) (hl : ∀ v ∈ l, v < m) (hk : ∀ v ∈ k, v < m)
    (hm : m ≤ p) (hlen : l.length < p) (hd : differences l k = 2) (hsum : l.sum ≡ k.sum [MOD p]) :
    ¬ ramp l ≡ ramp k [MOD p] := by
  obtain ⟨d, e, w, x, hs, ht, hlt, hsum', hramp⟩ := two_differences h hl hk hd
  intro hmod
  have hfirst : (p : ℤ) ∣ d + e := hsum' ▸ Nat.modEq_iff_dvd.mp hsum
  have hsecond : (p : ℤ) ∣ w * d + x * e := hramp ▸ Nat.modEq_iff_dvd.mp hmod
  have hboth : (p : ℤ) ∣ ((w : ℤ) - x) * d := by
    have hsub := dvd_sub hsecond (hfirst.mul_left (x : ℤ))
    rwa [show (w : ℤ) * d + x * e - x * (d + e) = (w - x) * d by ring] at hsub
  rcases (Nat.prime_iff_prime_int.mp hp).dvd_or_dvd hboth with hw | hd
  · rw [← Nat.cast_sub hlt.le] at hw
    have hle := Nat.le_of_dvd (Nat.sub_pos_of_lt hlt) (Int.natCast_dvd_natCast.mp hw)
    have hwl := hs.le
    omega
  · exact hs.not_dvd hm hd

end Prime

end LoginServer.Distance
