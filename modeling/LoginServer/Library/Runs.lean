import Mathlib.Data.Nat.Notation
import Mathlib.Logic.Basic
import Mathlib.Logic.Relation
import Mathlib.Tactic.TypeStar

/-! # Labelled runs of a guarded transition system

A machine answers an event with the next state, or with nothing when the event is not enabled,
so a run is determined by its events. Safety is proved once by an invariant rule, over all runs
or over the runs whose every step also meets a side condition read before the step. -/
namespace LoginServer.Runs

structure Machine (σ ε : Type*) where
  start : σ → Prop
  step : σ → ε → Option σ

namespace Machine

variable {σ ε : Type*} (M : Machine σ ε)

/-- The states reached by runs whose every step meets `ok` in the state before it. -/
inductive ReachableBy (ok : σ → ε → Prop) : σ → Prop where
  | start {s} : M.start s → ReachableBy ok s
  | tail {s e u} : ReachableBy ok s → ok s e → M.step s e = some u → ReachableBy ok u

def Reachable : σ → Prop := M.ReachableBy fun _ _ => True

theorem invariant_by {M : Machine σ ε} {ok : σ → ε → Prop} {I : σ → Prop}
    (hs : ∀ s, M.start s → I s)
    (hn : ∀ s e u, I s → ok s e → M.step s e = some u → I u)
    {s : σ} (h : M.ReachableBy ok s) : I s := by
  induction h with
  | start h => exact hs _ h
  | tail _ ho h ih => exact hn _ _ _ ih ho h

theorem invariant {M : Machine σ ε} {I : σ → Prop} (hs : ∀ s, M.start s → I s)
    (hn : ∀ s e u, I s → M.step s e = some u → I u) {s : σ} (h : M.Reachable s) : I s :=
  invariant_by hs (fun s e u hi _ he => hn s e u hi he) h

theorem ReachableBy.reachable {M : Machine σ ε} {ok : σ → ε → Prop} {s : σ}
    (h : M.ReachableBy ok s) : M.Reachable s := by
  induction h with
  | start h => exact .start h
  | tail _ _ h ih => exact .tail ih trivial h

theorem ReachableBy.mono {M : Machine σ ε} {ok ok' : σ → ε → Prop} (hok : ∀ s e, ok s e → ok' s e)
    {s : σ} (h : M.ReachableBy ok s) : M.ReachableBy ok' s := by
  induction h with
  | start h => exact .start h
  | tail _ ho h ih => exact .tail ih (hok _ _ ho) h

def run (s : σ) : List ε → Option σ
  | [] => some s
  | e :: es => (M.step s e).bind fun u => run u es

/-- Every event of the list that is taken from `s` meets `ok` where it is taken. -/
def AllSteps (ok : σ → ε → Prop) (s : σ) : List ε → Prop
  | [] => True
  | e :: es => ok s e ∧ ∀ u ∈ M.step s e, AllSteps ok u es

instance decidableAllSteps (ok : σ → ε → Prop) [∀ s e, Decidable (ok s e)] :
    ∀ (s : σ) (es : List ε), Decidable (M.AllSteps ok s es)
  | _, [] => isTrue trivial
  | s, e :: es =>
    have : ∀ u, Decidable (M.AllSteps ok u es) := fun u => decidableAllSteps ok u es
    inferInstanceAs (Decidable (ok s e ∧ ∀ u ∈ M.step s e, M.AllSteps ok u es))

def Along (P : σ → Prop) (s : σ) : List ε → Prop
  | [] => P s
  | e :: es => P s ∧ ∀ u ∈ M.step s e, Along P u es

def total (w : σ → ε → σ → ℕ) (s : σ) : List ε → ℕ
  | [] => 0
  | e :: es =>
    match M.step s e with
    | none => 0
    | some u => w s e u + total w u es

variable {M}

theorem run_cons {s u : σ} {e : ε} {es : List ε} (h : M.run s (e :: es) = some u) :
    ∃ v, M.step s e = some v ∧ M.run v es = some u :=
  Option.bind_eq_some_iff.mp h

theorem run_reachable_by {ok : σ → ε → Prop} {s u : σ} {es : List ε}
    (hs : M.ReachableBy ok s) (ho : M.AllSteps ok s es) (h : M.run s es = some u) :
    M.ReachableBy ok u := by
  induction es generalizing s with
  | nil => cases h; exact hs
  | cons e es ih =>
    obtain ⟨v, hv, h⟩ := run_cons h
    exact ih (.tail hs ho.1 hv) (ho.2 v hv) h

theorem run_reachable {s u : σ} {es : List ε} (hs : M.Reachable s)
    (h : M.run s es = some u) : M.Reachable u := by
  induction es generalizing s with
  | nil => cases h; exact hs
  | cons e es ih =>
    obtain ⟨v, hv, h⟩ := run_cons h
    exact ih (.tail hs trivial hv) h

theorem exists_run {P : σ → Prop} [DecidablePred P] {s : σ} {es : List ε}
    (h : (M.run s es).any (fun u => decide (P u)) = true) : ∃ u, M.run s es = some u ∧ P u := by
  obtain ⟨u, hu, hp⟩ := (Option.any_eq_true _ _).mp h
  exact ⟨u, hu, of_decide_eq_true hp⟩

theorem run_stable {P : σ → Prop} (hn : ∀ s e u, P s → M.step s e = some u → P u)
    {s u : σ} {es : List ε} (h : M.run s es = some u) (hp : P s) : P u := by
  induction es generalizing s with
  | nil => cases h; exact hp
  | cons e es ih =>
    obtain ⟨v, hv, h⟩ := run_cons h
    exact ih h (hn s e v hp hv)

/-- A part of the state that only some events act on, and each through that part alone, is at
the end of a run what these events in their order make of it. -/
theorem run_view {τ : Type*} {view : σ → τ} {own : ε → Bool} {act : τ → ε → τ}
    (hown : ∀ s e u, M.step s e = some u → own e = true → view u = act (view s) e)
    (hother : ∀ s e u, M.step s e = some u → own e = false → view u = view s)
    {s u : σ} {es : List ε} (h : M.run s es = some u) :
    view u = (es.filter own).foldl act (view s) := by
  induction es generalizing s with
  | nil => cases h; rfl
  | cons e es ih =>
    obtain ⟨v, hv, h⟩ := run_cons h
    rw [ih h]
    cases he : own e with
    | true => rw [List.filter_cons_of_pos he, List.foldl_cons, hown s e v hv he]
    | false => rw [List.filter_cons_of_neg (by simp [he]), hother s e v hv he]

theorem allSteps_cons {ok : σ → ε → Prop} {s u : σ} {e : ε} {es : List ε}
    (h : M.step s e = some u) : M.AllSteps ok s (e :: es) ↔ ok s e ∧ M.AllSteps ok u es := by
  simp [AllSteps, h]

/-- What exactly the steps that miss the condition establish, and none destroys, holds at the
end of just the runs that have such a step. -/
theorem run_iff_not_allSteps {ok : σ → ε → Prop} {I P : σ → Prop}
    (hn : ∀ s e u, I s → M.step s e = some u → I u)
    (hstep : ∀ s e u, I s → M.step s e = some u → (P u ↔ P s ∨ ¬ ok s e))
    {s u : σ} {es : List ε} (hs : I s) (h : M.run s es = some u) :
    P u ↔ P s ∨ ¬ M.AllSteps ok s es := by
  induction es generalizing s with
  | nil =>
    cases h
    simp [AllSteps]
  | cons e es ih =>
    obtain ⟨v, hv, h⟩ := run_cons h
    rw [ih (hn s e v hs hv) h, hstep s e v hs hv, allSteps_cons hv, not_and_or, or_assoc]

theorem allSteps_congr {ok ok' : σ → ε → Prop} {I : σ → Prop}
    (hn : ∀ s e u, I s → M.step s e = some u → I u)
    (hok : ∀ s e u, I s → M.step s e = some u → (ok s e ↔ ok' s e))
    {s u : σ} {es : List ε} (hs : I s) (h : M.run s es = some u) :
    M.AllSteps ok s es ↔ M.AllSteps ok' s es := by
  induction es generalizing s with
  | nil => exact Iff.rfl
  | cons e es ih =>
    obtain ⟨v, hv, h⟩ := run_cons h
    rw [allSteps_cons hv, allSteps_cons hv, hok s e v hs hv, ih (hn s e v hs hv) h]

/-- A property that a step from a state with it keeps exactly under a condition holds along just
the runs whose every step meets the condition. -/
theorem along_iff_allSteps {ok : σ → ε → Prop} {I P : σ → Prop}
    (hn : ∀ s e u, I s → M.step s e = some u → I u)
    (hstep : ∀ s e u, I s → P s → M.step s e = some u → (P u ↔ ok s e))
    {s u : σ} {es : List ε} (hs : I s) (hp : P s) (h : M.run s es = some u) :
    M.Along P s es ↔ M.AllSteps ok s es := by
  induction es generalizing s with
  | nil => exact iff_of_true hp trivial
  | cons e es ih =>
    obtain ⟨v, hv, h⟩ := run_cons h
    rw [allSteps_cons hv, ← hstep s e v hs hp hv]
    have hrest := ih (hn s e v hs hv)
    have hfirst : M.Along P v es → P v := by
      cases es with
      | nil => exact id
      | cons => exact And.left
    simp only [Along, hp, hv, Option.mem_some_iff, forall_eq', true_and]
    constructor
    · intro halong
      exact ⟨hfirst halong, (hrest (hfirst halong) h).mp halong⟩
    · rintro ⟨hpv, hall⟩
      exact (hrest hpv h).mpr hall

theorem exists_run_of_total (ht : ∀ s e, ∃ u, M.step s e = some u) (s : σ) (es : List ε) :
    ∃ u, M.run s es = some u := by
  induction es generalizing s with
  | nil => exact ⟨s, rfl⟩
  | cons e es ih =>
    obtain ⟨v, hv⟩ := ht s e
    obtain ⟨u, hu⟩ := ih v
    exact ⟨u, Option.bind_eq_some_iff.mpr ⟨v, hv, hu⟩⟩

/-- A potential that pays for the weight of every step bounds the weight of a run. -/
theorem total_le {I : σ → Prop} {w : σ → ε → σ → ℕ} {potential : σ → ℕ}
    (hn : ∀ s e u, I s → M.step s e = some u → I u)
    (hw : ∀ s e u, I s → M.step s e = some u → w s e u + potential u ≤ potential s)
    {s u : σ} {es : List ε} (hs : I s) (h : M.run s es = some u) :
    M.total w s es + potential u ≤ potential s := by
  induction es generalizing s with
  | nil =>
    cases h
    simp [total]
  | cons e es ih =>
    obtain ⟨v, hv, h⟩ := run_cons h
    have hrest := ih (hn s e v hs hv) h
    have hstep := hw s e v hs hv
    simp only [total, hv]
    omega

theorem allSteps_of_invariant {I : σ → Prop} {ok : σ → ε → Prop}
    (hn : ∀ s e u, I s → M.step s e = some u → I u) (hok : ∀ s e, I s → ok s e)
    {s : σ} (es : List ε) (hs : I s) : M.AllSteps ok s es := by
  induction es generalizing s with
  | nil => trivial
  | cons e es ih => exact ⟨hok s e hs, fun u hu => ih (hn s e u hs hu)⟩

end Machine

end LoginServer.Runs
