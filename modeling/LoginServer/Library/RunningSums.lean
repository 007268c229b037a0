import Mathlib.Data.List.Induction
import Mathlib.Data.Nat.ModEq
import Mathlib.Tactic.Ring
import Mathlib.Tactic.Linarith

/-! # Running sums

A pair of sums over a list of numbers: the first adds up the numbers, the second adds up the
values that the first goes through. Both can be reduced modulo a number at any point. -/
namespace LoginServer.RunningSums

def addStep (s : ℕ × ℕ) (v : ℕ) : ℕ × ℕ := (s.1 + v, s.2 + (s.1 + v))

def sums (s : ℕ × ℕ) (l : List ℕ) : ℕ × ℕ := l.foldl addStep s

def reduce (m : ℕ) (s : ℕ × ℕ) : ℕ × ℕ := (s.1 % m, s.2 % m)

@[simp] theorem sums_nil (s : ℕ × ℕ) : sums s [] = s := rfl

@[simp] theorem sums_cons (s : ℕ × ℕ) (v : ℕ) (l : List ℕ) :
    sums s (v :: l) = sums (addStep s v) l := rfl

theorem sums_append (s : ℕ × ℕ) (l r : List ℕ) : sums s (l ++ r) = sums (sums s l) r :=
  List.foldl_append

theorem sums_fst (s : ℕ × ℕ) (l : List ℕ) : (sums s l).1 = s.1 + l.sum := by
  induction l generalizing s with
  | nil => simp
  | cons v l ih =>
    rw [sums_cons, ih, List.sum_cons, addStep]
    omega

theorem sums_snd (s : ℕ × ℕ) (l : List ℕ) :
    (sums s l).2 = s.2 + ((List.range l.length).map fun i => s.1 + (l.take (i + 1)).sum).sum := by
  induction l using List.reverseRecOn with
  | nil => simp
  | append_singleton l v ih =>
    have hstep : (sums s (l ++ [v])).2 = (sums s l).2 + (s.1 + (l ++ [v]).sum) := by
      rw [sums_append, sums_cons, sums_nil, addStep, sums_fst, List.sum_append,
        List.sum_singleton]
      simp only
      omega
    have hprefix : (List.range l.length).map (fun i => s.1 + ((l ++ [v]).take (i + 1)).sum) =
        (List.range l.length).map fun i => s.1 + (l.take (i + 1)).sum := by
      apply List.map_congr_left
      intro i hi
      have hlt := List.mem_range.mp hi
      rw [List.take_append_of_le_length (by omega)]
    have hlast : (l ++ [v]).take (l.length + 1) = l ++ [v] := List.take_of_length_le (by simp)
    rw [hstep, ih, List.length_append, List.length_singleton, List.range_succ, List.map_append,
      hprefix, List.map_singleton, hlast,
      @List.sum_append ℕ _ _ _ _ (List.map _ (List.range l.length)), List.sum_singleton]
    omega

theorem addStep_reduce (m : ℕ) (s : ℕ × ℕ) (v : ℕ) :
    reduce m (addStep (reduce m s) v) = reduce m (addStep s v) := by
  have hfst : s.1 % m + v ≡ s.1 + v [MOD m] := (Nat.mod_modEq _ _).add_right v
  exact Prod.ext hfst ((Nat.mod_modEq s.2 m).add hfst)

theorem sums_reduce (m : ℕ) (s : ℕ × ℕ) (l : List ℕ) :
    reduce m (sums (reduce m s) l) = reduce m (sums s l) := by
  induction l using List.reverseRecOn with
  | nil => simp [reduce]
  | append_singleton l v ih =>
    rw [sums_append, sums_append, sums_cons, sums_cons, sums_nil, sums_nil,
      ← addStep_reduce, ih, addStep_reduce]

/-- How far the second sum can get with `n` numbers of at most `d`, doubled. -/
def limit (d n : ℕ) (s : ℕ × ℕ) : ℕ := 2 * (s.2 + n * s.1) + d * (n * (n + 1))

theorem limit_addStep {d n v : ℕ} (hv : v ≤ d) (s : ℕ × ℕ) :
    limit d n (addStep s v) ≤ limit d (n + 1) s := by
  have hn : n * v ≤ n * d := Nat.mul_le_mul_left n hv
  simp only [limit, addStep]
  nlinarith

theorem limit_mono {d n k : ℕ} (h : n ≤ k) (s : ℕ × ℕ) : limit d n s ≤ limit d k s := by
  unfold limit
  gcongr

theorem snd_le_limit (d n : ℕ) (s : ℕ × ℕ) : 2 * s.2 ≤ limit d n s := by
  unfold limit
  omega

end LoginServer.RunningSums
