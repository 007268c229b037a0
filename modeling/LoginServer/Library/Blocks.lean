import Mathlib.Data.Nat.Notation
import Mathlib.Logic.Basic

/-! # A function applied block by block

The list is cut into `n` blocks of `k` entries. A function that keeps the length of a block keeps
the cuts, so an inverse on blocks is an inverse on lists. -/
namespace LoginServer.Blocks

variable {α : Type*} {k : ℕ} {f g : List α → List α}

def mapBlocks (k : ℕ) (f : List α → List α) : ℕ → List α → List α
  | 0, _ => []
  | n + 1, l => f (l.take k) ++ mapBlocks k f n (l.drop k)

/-- The function answers a block for a block. -/
def KeepsBlocks (k : ℕ) (f : List α → List α) : Prop := ∀ b, b.length = k → (f b).length = k

theorem length_mapBlocks (hf : KeepsBlocks k f) {n : ℕ} {l : List α} (h : l.length = k * n) :
    (mapBlocks k f n l).length = k * n := by
  induction n generalizing l with
  | zero => rfl
  | succ n ih =>
    rw [Nat.mul_succ] at h ⊢
    have hb : (f (l.take k)).length = k := hf _ (by rw [List.length_take]; omega)
    have hr : (l.drop k).length = k * n := by rw [List.length_drop]; omega
    rw [mapBlocks, List.length_append, hb, ih hr, Nat.add_comm]

theorem mapBlocks_cons {n : ℕ} {b l : List α} (hb : b.length = k) :
    mapBlocks k f (n + 1) (b ++ l) = f b ++ mapBlocks k f n l := by
  rw [mapBlocks, List.take_left' hb, List.drop_left' hb]

theorem mapBlocks_inverse (hf : KeepsBlocks k f) (h : ∀ b, b.length = k → g (f b) = b)
    {n : ℕ} {l : List α} (hl : l.length = k * n) :
    mapBlocks k g n (mapBlocks k f n l) = l := by
  induction n generalizing l with
  | zero =>
    rw [mapBlocks]
    exact (List.length_eq_zero_iff.mp (by simpa using hl)).symm
  | succ n ih =>
    rw [Nat.mul_succ] at hl
    have hb : (l.take k).length = k := by rw [List.length_take]; omega
    have hr : (l.drop k).length = k * n := by rw [List.length_drop]; omega
    rw [mapBlocks.eq_2 k f, mapBlocks_cons (hf _ hb), h _ hb, ih hr, List.take_append_drop]

end LoginServer.Blocks
