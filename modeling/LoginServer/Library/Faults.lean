import Mathlib.Data.Nat.Notation
import Mathlib.Logic.Basic
import Mathlib.Tactic.TypeStar

/-! # Stateful code that may fault

A computation answers a value and the next state, or faults. `Total P f Q` says that from every
state meeting `P` the computation does not fault and ends meeting `Q`. -/
namespace LoginServer.Faults

abbrev Access (σ α : Type) := StateT σ Option α

variable {σ τ α β : Type}

theorem bind_run (f : Access σ α) (g : α → Access σ β) (s : σ) :
    (f >>= g) s = (f s).bind fun p => g p.1 p.2 := rfl

theorem pure_run (a : α) (s : σ) : (pure a : Access σ α) s = some (a, s) := rfl

theorem modify_run (f : σ → σ) (s : σ) : (modify f : Access σ PUnit) s = some (⟨⟩, f s) := rfl

theorem bind_get_run (g : σ → Access σ β) (s : σ) : (get >>= g) s = g s s := rfl

theorem bind_of_run {f : Access σ α} {g : α → Access σ β} {s u : σ} {a : α}
    (h : f s = some (a, u)) : (f >>= g) s = g a u := by
  rw [bind_run, h]
  rfl

def ifTrue (c : Bool) (f : Access σ Unit) : Access σ Unit := if c then f else pure ()

@[simp] theorem ifTrue_true (f : Access σ Unit) : ifTrue true f = f := rfl

@[simp] theorem ifTrue_false (f : Access σ Unit) : ifTrue false f = pure () := rfl

def zoom (get : σ → τ) (set : σ → τ → σ) (f : Access τ α) : Access σ α :=
  fun s => (f (get s)).map fun p => (p.1, set s p.2)

theorem zoom_of_run {get : σ → τ} {set : σ → τ → σ} {f : Access τ α} {s : σ} {u : τ} {a : α}
    (h : f (get s) = some (a, u)) : zoom get set f s = some (a, set s u) := by
  simp [zoom, h]

def Total (P : σ → Prop) (f : Access σ α) (Q : α → σ → Prop) : Prop :=
  ∀ s, P s → ∃ a u, f s = some (a, u) ∧ Q a u

namespace Total

variable {P P' : σ → Prop} {f : Access σ α} {g : α → Access σ β} {Q Q' : α → σ → Prop}
  {R : β → σ → Prop}

theorem pure {a : α} (h : ∀ s, P s → Q a s) : Total P (pure a) Q :=
  fun s hs => ⟨a, s, rfl, h s hs⟩

theorem bind (hf : Total P f Q) (hg : ∀ a, Total (Q a) (g a) R) : Total P (f >>= g) R := by
  intro s hs
  obtain ⟨a, u, hu, hq⟩ := hf s hs
  obtain ⟨b, v, hv, hr⟩ := hg a u hq
  exact ⟨b, v, by rw [bind_of_run hu, hv], hr⟩

theorem get {g : σ → Access σ β} (hg : ∀ s, P s → Total (· = s) (g s) R) :
    Total P (get >>= g) R := by
  intro s hs
  obtain ⟨b, v, hv, hr⟩ := hg s hs s rfl
  exact ⟨b, v, by rw [bind_get_run, hv], hr⟩

theorem modify {f : σ → σ} {Q : PUnit → σ → Prop} (h : ∀ s, P s → Q ⟨⟩ (f s)) :
    Total P (modify f) Q :=
  fun s hs => ⟨⟨⟩, f s, rfl, h s hs⟩

theorem ite {c : Prop} [Decidable c] {f g : Access σ α} (hf : c → Total P f Q)
    (hg : ¬ c → Total P g Q) : Total P (if c then f else g) Q := by
  split
  · exact hf ‹_›
  · exact hg ‹_›

theorem weaken (hf : Total P f Q) (hp : ∀ s, P' s → P s) (hq : ∀ a s, Q a s → Q' a s) :
    Total P' f Q' := by
  intro s hs
  obtain ⟨a, u, hu, h⟩ := hf s (hp s hs)
  exact ⟨a, u, hu, hq a u h⟩

theorem not_fault (hf : Total P f Q) {s : σ} (hs : P s) : f s ≠ none := by
  obtain ⟨a, u, hu, _⟩ := hf s hs
  simp [hu]

end Total

end LoginServer.Faults
