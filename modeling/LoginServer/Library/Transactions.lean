import Mathlib.Tactic.TypeStar

/-! # A store and the transaction open on it

One session over a store: without a transaction every write is committed at once, within one
the writes go to a working copy until `commit` or `rollback`. -/
namespace LoginServer.Transactions

structure Store (C : Type*) where
  committed : C
  transaction : Option C

namespace Store

variable {C : Type*}

def view (s : Store C) : C := s.transaction.getD s.committed

def write (f : C → C) (s : Store C) : Store C :=
  match s.transaction with
  | none => { s with committed := f s.committed }
  | some c => { s with transaction := some (f c) }

def commit (s : Store C) : Store C := ⟨s.view, none⟩

def rollback (s : Store C) : Store C := ⟨s.committed, none⟩

/-- An open transaction is committed first. -/
def start (s : Store C) : Store C := ⟨s.view, some s.view⟩

@[simp] theorem write_closed (f : C → C) (c : C) :
    (⟨c, none⟩ : Store C).write f = ⟨f c, none⟩ := rfl

@[simp] theorem rollback_mk (c : C) (w : Option C) : (⟨c, w⟩ : Store C).rollback = ⟨c, none⟩ := rfl

@[simp] theorem commit_closed (c : C) : (⟨c, none⟩ : Store C).commit = ⟨c, none⟩ := rfl

@[simp] theorem start_closed (c : C) : (⟨c, none⟩ : Store C).start = ⟨c, some c⟩ := rfl

end Store

end LoginServer.Transactions
