import Mathlib.Data.Nat.Notation
import Mathlib.Logic.Basic

/-! # The database connection of a thread

`database.cpp`. A thread's `Database` is made and connected by the first `local()`; from then on
every statement reads `m_connected` before anything else, and only `connect` sets it. A statement
that fails is followed by one reconnection and, after that, the statement once more. -/
namespace LoginServer.Sql

/-- The server while one thing is asked of it. A session may be lost with the answer on its way,
so a statement may have taken effect although it failed. -/
structure Moment where
  reachable : Bool
  accepts : Bool
  dropped : Bool
  applied : Bool

/-- `execute` on a connection that was established before. -/
def Moment.execute (t : Moment) : Bool := t.reachable && t.accepts && !t.dropped

/-- The moments of a statement: its execution, the reconnection, and its execution after that. -/
structure Attempt where
  statement : Moment
  reconnection : Moment
  retry : Moment

structure Database where
  m_connected : Bool

def connect (_ : Database) (t : Moment) : Bool × Database := (t.reachable, ⟨t.reachable⟩)

/-- `Database::local`: the object in `t_holder`, made now if there is none. -/
def localDatabase (t_holder : Option Database) (t : Moment) : Database :=
  match t_holder with
  | none => (connect ⟨false⟩ t).2
  | some db => db

/-- The retry answers whether the statement was executed after all. -/
def reconnectAndRetry (db : Database) (a : Attempt) : Bool × Database :=
  match connect db a.reconnection with
  | (false, db) => (false, db)
  | (true, db) => if a.retry.execute then (true, db) else (false, { db with m_connected := false })

def query (db : Database) (a : Attempt) : Bool × Database :=
  if !db.m_connected then (false, db)
  else if a.statement.execute then (true, db)
  else reconnectAndRetry db a

/-- A result stands on its first row. -/
structure DBResult (α : Type) where
  row : α
  rows : List α

def DBResult.toList {α : Type} (r : DBResult α) : List α := r.row :: r.rows

/-- `verifyResult`: a result without rows is freed, and the answer is `NULL`. -/
def verifyResult {α : Type} : List α → Option (DBResult α)
  | [] => none
  | row :: rows => some ⟨row, rows⟩

/-- `rows` is what the statement selects; `none` is `NULL`. -/
def storeQuery {α : Type} (db : Database) (a : Attempt) (rows : List α) :
    Option (DBResult α) × Database :=
  if !db.m_connected then (none, db)
  else if a.statement.execute then (verifyResult rows, db)
  else match reconnectAndRetry db a with
    | (true, db) => (verifyResult rows, db)
    | (false, db) => (none, db)

/-- The statement is executed at once, or after a reconnection. -/
def Attempt.succeeds (a : Attempt) : Bool :=
  a.statement.execute || a.reconnection.reachable && a.retry.execute

theorem reconnectAndRetry_eq (db : Database) (a : Attempt) :
    reconnectAndRetry db a = (a.reconnection.reachable && a.retry.execute,
      ⟨a.reconnection.reachable && a.retry.execute⟩) := by
  unfold reconnectAndRetry connect
  cases a.reconnection.reachable <;> cases a.retry.execute <;> rfl

theorem query_eq (db : Database) (a : Attempt) :
    query db a = (db.m_connected && a.succeeds, ⟨db.m_connected && a.succeeds⟩) := by
  obtain ⟨m_connected⟩ := db
  rw [query]
  rw [reconnectAndRetry_eq]
  cases m_connected with
  | false => rfl
  | true =>
    simp only [Attempt.succeeds, Bool.not_true, Bool.true_and]
    cases a.statement.execute <;> rfl

/-- `NULL` says that nothing was selected or that the statement failed, which only the flag
tells apart. -/
theorem storeQuery_eq {α : Type} (db : Database) (a : Attempt) (rows : List α) :
    storeQuery db a rows = (if db.m_connected && a.succeeds then verifyResult rows else none,
      ⟨db.m_connected && a.succeeds⟩) := by
  obtain ⟨m_connected⟩ := db
  rw [storeQuery]
  rw [reconnectAndRetry_eq]
  cases m_connected with
  | false => rfl
  | true =>
    simp only [Attempt.succeeds, Bool.not_true, Bool.true_and]
    cases a.statement.execute with
    | true => rfl
    | false =>
      simp only [Bool.false_or]
      cases a.reconnection.reachable && a.retry.execute <;> rfl

/-- A thread in the middle of its work: its object, the moment in which `local()` would make one,
what will come of its next statements, and the tables. -/
structure Session (C : Type) where
  t_holder : Option Database
  connection : Moment
  schedule : ℕ → Attempt
  tables : C

variable {C α : Type}

def Session.db (s : Session C) : Database := localDatabase s.t_holder s.connection

def Session.serves (s : Session C) : Bool := s.db.m_connected && (s.schedule 0).succeeds

def Session.after (s : Session C) (db : Database) : Session C :=
  { s with t_holder := some db, schedule := fun i => s.schedule (i + 1) }

/-- What a statement that changes the tables leaves: a failed one may have taken effect. -/
def Attempt.effect (a : Attempt) (update : C → C) (tables : C) : C :=
  if a.statement.execute then update tables
  else
    let first := if a.statement.applied then update tables else tables
    if a.reconnection.reachable && (a.retry.execute || a.retry.applied) then update first
    else first

/-- `Database::local()->query`. -/
def Session.query (update : C → C) (s : Session C) : Bool × Session C :=
  let (ret, db) := Sql.query s.db (s.schedule 0)
  (ret, { s.after db with
    tables := if s.db.m_connected then (s.schedule 0).effect update s.tables else s.tables })

/-- `Database::local()->storeQuery`. -/
def Session.storeQuery (select : C → List α) (s : Session C) : Option (DBResult α) × Session C :=
  let (result, db) := Sql.storeQuery s.db (s.schedule 0) (select s.tables)
  (result, s.after db)

def Session.next (s : Session C) : Session C := s.after ⟨s.serves⟩

theorem Session.storeQuery_eq (select : C → List α) (s : Session C) :
    s.storeQuery select =
      (if s.serves then verifyResult (select s.tables) else none, s.next) := by
  rw [Session.storeQuery, Sql.storeQuery_eq]
  rfl

theorem Session.query_eq (update : C → C) (s : Session C) :
    s.query update = (s.serves, { s.next with
      tables := if s.db.m_connected then (s.schedule 0).effect update s.tables
        else s.tables }) := by
  rw [Session.query, Sql.query_eq]
  rfl

theorem Attempt.effect_induct {P : C → Prop} {update : C → C} (hu : ∀ c, P c → P (update c))
    (a : Attempt) {tables : C} (h : P tables) : P (a.effect update tables) := by
  have hfirst : P (if a.statement.applied then update tables else tables) := by
    split
    · exact hu _ h
    · exact h
  rw [effect]
  split
  · exact hu _ h
  · dsimp only
    split
    · exact hu _ hfirst
    · exact hfirst

end LoginServer.Sql
