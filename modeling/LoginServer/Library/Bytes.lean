import Mathlib.Algebra.Group.Nat.Defs
import Mathlib.Data.List.GetD
import Mathlib.Data.List.Range
import Mathlib.Data.List.TakeWhile
import Mathlib.Order.Nat

/-! # Byte memories and little-endian words

A memory answers every address; which addresses an object owns is for its user to say. A range
is read as a list and written from one, so that a fact about two ranges is one about lists. -/
namespace LoginServer.Bytes

abbrev Memory := ℕ → UInt8

namespace Memory

def read (m : Memory) (p n : ℕ) : List UInt8 := (List.range n).map fun i => m (p + i)

def write (m : Memory) (p : ℕ) (l : List UInt8) : Memory :=
  fun i => if p ≤ i ∧ i < p + l.length then l.getD (i - p) 0 else m i

@[simp] theorem length_read (m : Memory) (p n : ℕ) : (m.read p n).length = n := by
  simp [read]

@[simp] theorem read_zero (m : Memory) (p : ℕ) : m.read p 0 = [] := rfl

theorem getElem_read (m : Memory) (p n i : ℕ) (h : i < (m.read p n).length) :
    (m.read p n)[i] = m (p + i) := by
  simp [read]

theorem read_congr {m u : Memory} {p q n : ℕ} (h : ∀ i < n, m (p + i) = u (q + i)) :
    m.read p n = u.read q n :=
  List.map_congr_left fun i hi => h i (List.mem_range.mp hi)

theorem eq_of_read_eq {m u : Memory} {p q n : ℕ} (h : m.read p n = u.read q n) {i : ℕ}
    (hi : i < n) : m (p + i) = u (q + i) := by
  have he := congrArg (·[i]?) h
  simpa [read, hi] using he

theorem read_add (m : Memory) (p a b : ℕ) : m.read p (a + b) = m.read p a ++ m.read (p + a) b := by
  simp [read, List.range_add, Nat.add_assoc]

theorem read_succ (m : Memory) (p n : ℕ) : m.read p (n + 1) = m p :: m.read (p + 1) n := by
  rw [Nat.add_comm, read_add]
  rfl

theorem take_read (m : Memory) (p : ℕ) {a n : ℕ} (h : a ≤ n) :
    (m.read p n).take a = m.read p a := by
  obtain ⟨b, rfl⟩ := Nat.exists_eq_add_of_le h
  rw [read_add, List.take_left' (length_read m p a)]

theorem drop_read (m : Memory) (p : ℕ) {a n : ℕ} (h : a ≤ n) :
    (m.read p n).drop a = m.read (p + a) (n - a) := by
  obtain ⟨b, rfl⟩ := Nat.exists_eq_add_of_le h
  rw [read_add, List.drop_left' (length_read m p a), Nat.add_sub_cancel_left]

theorem read_of_read_zero {m : Memory} {l : List UInt8} (hl : m.read 0 l.length = l) {p n : ℕ}
    (h : p + n ≤ l.length) : m.read p n = (l.drop p).take n := by
  conv_rhs => rw [← hl]
  rw [drop_read _ _ (by omega), take_read _ _ (by omega), Nat.zero_add]

theorem read_ne_of_apply_ne {m u : Memory} {p n i : ℕ} (hp : p ≤ i) (hn : i < p + n)
    (h : m i ≠ u i) : m.read p n ≠ u.read p n := by
  intro he
  obtain ⟨k, rfl⟩ := Nat.exists_eq_add_of_le hp
  exact h (eq_of_read_eq he (by omega))

theorem write_apply_of_mem {m : Memory} {p : ℕ} {l : List UInt8} {i : ℕ} (h : i < l.length) :
    m.write p l (p + i) = l[i] := by
  simp [write, h]

theorem write_apply_of_not_mem {m : Memory} {p : ℕ} {l : List UInt8} {i : ℕ}
    (h : i < p ∨ p + l.length ≤ i) : m.write p l i = m i := by
  rw [write]
  rw [if_neg (by omega)]

@[simp] theorem write_nil (m : Memory) (p : ℕ) : m.write p [] = m := by
  funext i
  exact write_apply_of_not_mem (by simp only [List.length_nil]; omega)

@[simp] theorem read_write (m : Memory) (p : ℕ) (l : List UInt8) :
    (m.write p l).read p l.length = l := by
  apply List.ext_getElem (length_read _ _ _)
  intro i _ h
  rw [getElem_read, write_apply_of_mem h]

theorem read_write_of_disjoint {m : Memory} {p q n : ℕ} {l : List UInt8}
    (h : q + n ≤ p ∨ p + l.length ≤ q) : (m.write p l).read q n = m.read q n :=
  read_congr fun _ _ => write_apply_of_not_mem (by omega)

theorem write_read (m : Memory) (p n : ℕ) : m.write p (m.read p n) = m := by
  funext i
  by_cases h : p ≤ i ∧ i < p + n
  · obtain ⟨k, rfl⟩ := Nat.exists_eq_add_of_le h.1
    rw [write_apply_of_mem (by simp; omega), getElem_read]
  · exact write_apply_of_not_mem (by rw [length_read]; omega)

theorem write_append (m : Memory) (p : ℕ) (a b : List UInt8) :
    (m.write p a).write (p + a.length) b = m.write p (a ++ b) := by
  funext i
  simp only [write, List.length_append]
  by_cases hb : p + a.length ≤ i ∧ i < p + a.length + b.length
  · rw [if_pos hb, if_pos (by omega), List.getD_append_right _ _ _ _ (by omega), Nat.sub_sub]
  · rw [if_neg hb]
    by_cases ha : p ≤ i ∧ i < p + a.length
    · rw [if_pos ha, if_pos (by omega), List.getD_append _ _ _ _ (by omega)]
    · rw [if_neg ha, if_neg (by omega)]

end Memory

/-- The `w` low bytes of a number, least significant first. -/
def leBytes : ℕ → ℕ → List UInt8
  | 0, _ => []
  | w + 1, v => UInt8.ofNat v :: leBytes w (v / 256)

def ofLe : List UInt8 → ℕ
  | [] => 0
  | b :: l => b.toNat + 256 * ofLe l

@[simp] theorem length_leBytes (w v : ℕ) : (leBytes w v).length = w := by
  induction w generalizing v with
  | zero => rfl
  | succ w ih => simp [leBytes, ih]

theorem ofLe_lt (l : List UInt8) : ofLe l < 256 ^ l.length := by
  induction l with
  | nil => simp [ofLe]
  | cons b l ih =>
    have hb := b.toNat_lt
    simp only [ofLe, List.length_cons, Nat.pow_succ]
    omega

theorem ofLe_append (l k : List UInt8) : ofLe (l ++ k) = ofLe l + 256 ^ l.length * ofLe k := by
  induction l with
  | nil => simp [ofLe]
  | cons b l ih =>
    rw [List.cons_append, ofLe, ofLe, ih, List.length_cons, Nat.pow_succ', Nat.mul_add,
      Nat.mul_assoc, Nat.add_assoc]

theorem ofLe_leBytes (w v : ℕ) : ofLe (leBytes w v) = v % 256 ^ w := by
  induction w generalizing v with
  | zero => simp [leBytes, ofLe, Nat.mod_one]
  | succ w ih =>
    have hb : (UInt8.ofNat v).toNat = v % 256 := UInt8.toNat_ofNat'
    rw [leBytes, ofLe, ih, hb, Nat.pow_succ', Nat.mod_mul]

theorem leBytes_ofLe (l : List UInt8) : leBytes l.length (ofLe l) = l := by
  induction l with
  | nil => rfl
  | cons b l ih =>
    have hb := b.toNat_lt
    have hdiv : (b.toNat + 256 * ofLe l) / 256 = ofLe l := by omega
    have hmod : UInt8.ofNat (b.toNat + 256 * ofLe l) = b := by
      apply UInt8.toNat_inj.mp
      rw [UInt8.toNat_ofNat']
      omega
    rw [List.length_cons, ofLe, leBytes, hdiv, ih, hmod]

theorem ofLe_inj {l k : List UInt8} (h : l.length = k.length) (he : ofLe l = ofLe k) : l = k := by
  rw [← leBytes_ofLe l, h, he, leBytes_ofLe]

theorem leBytes_mod (w v : ℕ) : leBytes w (v % 256 ^ w) = leBytes w v := by
  have h := leBytes_ofLe (leBytes w v)
  rwa [length_leBytes, ofLe_leBytes] at h

theorem ofLe_read_one (m : Memory) (p : ℕ) : ofLe (m.read p 1) = (m p).toNat := by
  simp [Memory.read_succ, ofLe]

theorem ofLe_read_two (m : Memory) (p : ℕ) :
    ofLe (m.read p 2) = (m p).toNat + 256 * (m (p + 1)).toNat := by
  simp [Memory.read_succ, ofLe]

theorem ofLe_eq_zero {l : List UInt8} : ofLe l = 0 ↔ ∀ b ∈ l, b = 0 := by
  induction l with
  | nil => simp [ofLe]
  | cons b l ih =>
    have hb : b.toNat = 0 ↔ b = 0 := UInt8.toNat_inj (b := 0)
    simp only [ofLe, Nat.add_eq_zero_iff, Nat.mul_eq_zero, List.forall_mem_cons, hb, ih]
    simp

/-- The bytes of a text of ASCII characters. -/
def ascii (s : String) : List UInt8 := s.toList.map fun c => UInt8.ofNat c.toNat

/-- A text as C reads it: up to the first NUL. -/
def cString (l : List UInt8) : List UInt8 := l.takeWhile (· ≠ 0)

theorem cString_eq_self_iff (l : List UInt8) : cString l = l ↔ 0 ∉ l := by
  rw [cString, List.takeWhile_eq_self_iff]
  constructor
  · intro hall hzero
    exact absurd (hall 0 hzero) (by decide)
  · intro hzero b hb
    rw [decide_eq_true_eq]
    rintro rfl
    exact hzero hb

theorem length_cString_le (l : List UInt8) : (cString l).length ≤ l.length :=
  (List.takeWhile_sublist _).length_le

end LoginServer.Bytes
