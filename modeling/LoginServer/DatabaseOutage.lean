import LoginServer.Database
import LoginServer.Library.Runs

/-! # What the connection of a thread survives

A history of one thread is a run over its `t_holder`. The flag `m_connected` is set by `connect`
alone, which a statement reaches only while the flag is set, so a connection that was lost once
is lost for good, however long the server has been back. -/
namespace LoginServer.Sql

open Runs

variable {α : Type}

inductive Call (α : Type) where
  | localDatabase (t : Moment)
  | query (a : Attempt)
  | storeQuery (a : Attempt) (rows : List α)

/-- Statements need the object that `local()` answers. -/
def thread (α : Type) : Machine (Option Database) (Call α) where
  start := (· = none)
  step
    | t_holder, .localDatabase t => some (some (localDatabase t_holder t))
    | t_holder, .query a => t_holder.map fun db => some (query db a).2
    | t_holder, .storeQuery a rows => t_holder.map fun db => some (storeQuery db a rows).2

/-- The call leaves the thread a connection: the server is reachable when the object is made, and
no statement fails together with its retry. -/
def Kept : Option Database → Call α → Prop
  | t_holder, .localDatabase t => t_holder = none → t.reachable = true
  | _, .query a => a.succeeds = true
  | _, .storeQuery a _ => a.succeeds = true

def Lost (t_holder : Option Database) : Prop := t_holder = some ⟨false⟩

theorem lost_local (t_holder : Option Database) (t : Moment) :
    Lost (some (localDatabase t_holder t)) ↔
      Lost t_holder ∨ ¬ Kept t_holder (.localDatabase t : Call α) := by
  cases t_holder with
  | none => cases h : t.reachable <;> simp [Lost, localDatabase, connect, Kept, h]
  | some db => simp [Lost, localDatabase, Kept]

theorem lost_statement (db : Database) (a : Attempt) :
    Lost (some ⟨db.m_connected && a.succeeds⟩) ↔ Lost (some db) ∨ ¬ a.succeeds = true := by
  obtain ⟨m_connected⟩ := db
  cases m_connected <;> simp [Lost]

/-- The connection is lost by the first call that does not keep it, and never found again. -/
theorem lost_step {s u : Option Database} {c : Call α} (h : (thread α).step s c = some u) :
    Lost u ↔ Lost s ∨ ¬ Kept s c := by
  cases c with
  | localDatabase t =>
    cases h
    exact lost_local s t
  | query a =>
    obtain ⟨db, rfl, rfl⟩ := Option.map_eq_some_iff.mp h
    rw [query_eq]
    exact lost_statement db a
  | storeQuery a rows =>
    obtain ⟨db, rfl, rfl⟩ := Option.map_eq_some_iff.mp h
    rw [storeQuery_eq]
    exact lost_statement db a

theorem lost_iff {calls : List (Call α)} {t_holder : Option Database}
    (h : (thread α).run none calls = some t_holder) :
    Lost t_holder ↔ ¬ (thread α).AllSteps Kept none calls := by
  rw [Machine.run_iff_not_allSteps (I := fun _ => True) (fun _ _ _ _ _ => trivial)
    (fun _ _ _ _ => lost_step) trivial h]
  simp [Lost]

/-- The server is reachable from now on and accepts the statement; the session that the thread
had may be gone all the same. -/
structure Recovered (t : Moment) (a : Attempt) : Prop where
  connection : t.reachable = true
  reconnection : a.reconnection.reachable = true
  statement : a.statement.reachable = true ∧ a.statement.accepts = true
  retry : a.retry.execute = true

theorem Recovered.succeeds {t : Moment} {a : Attempt} (h : Recovered t a) : a.succeeds = true := by
  simp [Attempt.succeeds, h.reconnection, h.retry]

theorem query_recovered_iff {t : Moment} {a : Attempt} (h : Recovered t a)
    (t_holder : Option Database) :
    (query (localDatabase t_holder t) a).1 = true ↔ ¬ Lost t_holder := by
  rw [query_eq, h.succeeds, Bool.and_true]
  cases t_holder with
  | none => simp [localDatabase, connect, h.connection, Lost]
  | some db =>
    obtain ⟨m_connected⟩ := db
    cases m_connected <;> simp [localDatabase, Lost]

/-- After any history, a statement that the server takes again is executed just when no call of
the history lost the connection. -/
theorem outage_recovered_iff {calls : List (Call α)} {t_holder : Option Database}
    (hrun : (thread α).run none calls = some t_holder) {t : Moment} {a : Attempt}
    (h : Recovered t a) :
    (query (localDatabase t_holder t) a).1 = true ↔ (thread α).AllSteps Kept none calls := by
  rw [query_recovered_iff h, lost_iff hrun, not_not]

def up : Moment := ⟨true, true, false, false⟩
def down : Moment := ⟨false, false, true, false⟩
def lostSession : Moment := ⟨true, true, true, false⟩

/-- A session dropped between two statements is replaced, and the third statement is executed. -/
theorem dropped_session_recovered :
    (query (localDatabase (some ⟨true⟩) up) ⟨lostSession, up, up⟩).1 = true ↔
      (thread Unit).AllSteps Kept none
        [.localDatabase up, .query ⟨up, up, up⟩, .query ⟨lostSession, up, up⟩] :=
  outage_recovered_iff rfl ⟨rfl, rfl, ⟨rfl, rfl⟩, rfl⟩

theorem first_connect_failed_for_good :
    ¬ ∀ (calls : List (Call Unit)) (t_holder : Option Database) (t : Moment) (a : Attempt),
      (thread Unit).run none calls = some t_holder → Recovered t a →
      (query (localDatabase t_holder t) a).1 = true := by
  intro hall
  have h := hall [.localDatabase down] (some ⟨false⟩) up ⟨up, up, up⟩ rfl
    ⟨rfl, rfl, ⟨rfl, rfl⟩, rfl⟩
  exact absurd h (by decide)

end LoginServer.Sql
