import Mathlib.Logic.Basic
import Mathlib.Tactic.TypeStar

/-! # Invariants of stateful code

`Keeps I f` says that the computation leaves `I` as it found it; a computation keeps what all its
parts keep. `Answers P f` says that its result has `P`, in whatever state it starts, and
`Gives I P f` that it keeps `I` and, started with `I`, has a result with `P`. `Alike R f` says that
related states are related afterwards, and that the results are the same. -/
namespace LoginServer.States

variable {σ α β : Type} {I : σ → Prop}

def Keeps (I : σ → Prop) (f : StateM σ α) : Prop := ∀ s, I s → I (f s).2

namespace Keeps

theorem pure (a : α) : Keeps I (pure a : StateM σ α) := fun _ h => h

theorem bind {f : StateM σ α} {g : α → StateM σ β} (hf : Keeps I f) (hg : ∀ a, Keeps I (g a)) :
    Keeps I (f >>= g) :=
  fun s h => hg _ _ (hf s h)

theorem get : Keeps I (get : StateM σ σ) := fun _ h => h

theorem modify {f : σ → σ} (h : ∀ s, I s → I (f s)) : Keeps I (modify f : StateM σ PUnit) := h

theorem ite {c : Prop} [Decidable c] {f g : StateM σ α} (hf : Keeps I f) (hg : Keeps I g) :
    Keeps I (if c then f else g) := by
  split
  · exact hf
  · exact hg

theorem mapM {f : α → StateM σ β} {l : List α} (hf : ∀ a ∈ l, Keeps I (f a)) :
    Keeps I (l.mapM f) := by
  induction l with
  | nil => exact Keeps.pure _
  | cons a l ih =>
    obtain ⟨ha, hl⟩ := List.forall_mem_cons.mp hf
    rw [List.mapM_cons]
    exact ha.bind fun b => (ih hl).bind fun bs => Keeps.pure _

end Keeps

def Answers (P : α → Prop) (f : StateM σ α) : Prop := ∀ s, P (f s).1

namespace Answers

variable {P : α → Prop} {Q : β → Prop}

theorem pure {a : α} (h : P a) : Answers P (pure a : StateM σ α) := fun _ => h

theorem any (f : StateM σ α) : Answers (fun _ => True) f := fun _ => trivial

theorem bind {f : StateM σ α} {g : α → StateM σ β} (hf : Answers P f)
    (hg : ∀ a, P a → Answers Q (g a)) : Answers Q (f >>= g) :=
  fun s => hg _ (hf s) _

theorem ite {c : Prop} [Decidable c] {f g : StateM σ α} (hf : Answers P f) (hg : Answers P g) :
    Answers P (if c then f else g) := by
  split
  · exact hf
  · exact hg

end Answers

def Gives (I : σ → Prop) (P : α → Prop) (f : StateM σ α) : Prop := ∀ s, I s → P (f s).1 ∧ I (f s).2

namespace Gives

variable {P : α → Prop} {Q : β → Prop}

theorem pure {a : α} (h : P a) : Gives I P (pure a : StateM σ α) := fun _ hs => ⟨h, hs⟩

theorem keeps {f : StateM σ α} (h : Gives I P f) : Keeps I f := fun s hs => (h s hs).2

theorem of_keeps {f : StateM σ α} (h : Keeps I f) : Gives I (fun _ => True) f :=
  fun s hs => ⟨trivial, h s hs⟩

theorem imp {P' : α → Prop} {f : StateM σ α} (h : Gives I P f) (hP : ∀ a, P a → P' a) :
    Gives I P' f :=
  fun s hs => ⟨hP _ (h s hs).1, (h s hs).2⟩

theorem bind {f : StateM σ α} {g : α → StateM σ β} (hf : Gives I P f)
    (hg : ∀ a, P a → Gives I Q (g a)) : Gives I Q (f >>= g) :=
  fun s hs => hg _ (hf s hs).1 _ (hf s hs).2

theorem ite {c : Prop} [Decidable c] {f g : StateM σ α} (hf : c → Gives I P f)
    (hg : ¬ c → Gives I P g) : Gives I P (if c then f else g) := by
  split
  · rename_i h
    exact hf h
  · rename_i h
    exact hg h

theorem mapM {f : α → StateM σ β} {l : List α} (hf : ∀ a ∈ l, Gives I Q (f a)) :
    Gives I (fun bs => ∀ b ∈ bs, Q b) (l.mapM f) := by
  induction l with
  | nil => exact Gives.pure fun _ hb => absurd hb List.not_mem_nil
  | cons a l ih =>
    obtain ⟨ha, hl⟩ := List.forall_mem_cons.mp hf
    rw [List.mapM_cons]
    refine ha.bind fun b hb => (ih hl).bind fun bs hbs => Gives.pure ?_
    exact List.forall_mem_cons.mpr ⟨hb, hbs⟩

end Gives

def Alike (R : σ → σ → Prop) (f : StateM σ α) : Prop :=
  ∀ s u, R s u → (f s).1 = (f u).1 ∧ R (f s).2 (f u).2

namespace Alike

variable {R : σ → σ → Prop}

theorem pure (a : α) : Alike R (pure a : StateM σ α) := fun _ _ h => ⟨rfl, h⟩

theorem bind {f : StateM σ α} {g : α → StateM σ β} (hf : Alike R f) (hg : ∀ a, Alike R (g a)) :
    Alike R (f >>= g) := by
  intro s u h
  obtain ⟨hresult, hstate⟩ := hf s u h
  change (g (f s).1 (f s).2).1 = (g (f u).1 (f u).2).1 ∧ R (g (f s).1 (f s).2).2 (g (f u).1 (f u).2).2
  rw [← hresult]
  exact hg _ _ _ hstate

theorem modify {f : σ → σ} (h : ∀ s u, R s u → R (f s) (f u)) :
    Alike R (modify f : StateM σ PUnit) :=
  fun s u hs => ⟨rfl, h s u hs⟩

theorem ite {c : Prop} [Decidable c] {f g : StateM σ α} (hf : Alike R f) (hg : Alike R g) :
    Alike R (if c then f else g) := by
  split
  · exact hf
  · exact hg

theorem mapM {f : α → StateM σ β} {l : List α} (hf : ∀ a ∈ l, Alike R (f a)) :
    Alike R (l.mapM f) := by
  induction l with
  | nil => exact Alike.pure _
  | cons a l ih =>
    obtain ⟨ha, hl⟩ := List.forall_mem_cons.mp hf
    rw [List.mapM_cons]
    exact ha.bind fun b => (ih hl).bind fun bs => Alike.pure _

end Alike

end LoginServer.States
