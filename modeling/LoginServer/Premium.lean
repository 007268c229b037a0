import LoginServer.Io
import LoginServer.Library.Transactions

/-! # `IO::updatePremium()`

The premium update of all accounts at startup, in a `DBTransaction`. The database holds a
transaction as long as the session that opened it: a lost connection rolls it back, and so does
`connect`, which closes the old session. A statement that the server rejects has no effect and
leaves the session as it was. -/
namespace LoginServer.Premium

open Sql Accounts Io Transactions

variable {C α : Type}

/-- The session is gone when the statement has failed. -/
def Moment.lost (t : Moment) : Bool := !t.reachable || t.dropped

/-- What a statement that failed leaves: it may have taken effect before the session was lost. -/
def Moment.fail (t : Moment) (effect : Store C → Store C) (store : Store C) : Store C :=
  if Moment.lost t then (if t.applied then effect store else store).rollback else store

/-- What a statement leaves that is tried again on a new connection when it has failed. -/
def Attempt.settle (a : Attempt) (effect : Store C → Store C) (store : Store C) : Store C :=
  if a.statement.execute then effect store
  else
    let store := (Moment.fail a.statement effect store).rollback
    if !a.reconnection.reachable then store
    else if a.retry.execute then effect store
    else Moment.fail a.retry effect store

/-- The thread's `Database`, what the server holds, and what will come of the next statements. -/
structure Connection (C : Type) where
  m_connected : Bool
  store : Store C
  schedule : ℕ → Attempt

def Connection.after (s : Connection C) (db : Database) (store : Store C) : Connection C where
  m_connected := db.m_connected
  store := store
  schedule i := s.schedule (i + 1)

def Connection.settled (s : Connection C) (effect : Store C → Store C) : Store C :=
  if s.m_connected then Attempt.settle (s.schedule 0) effect s.store else s.store

def query (effect : Store C → Store C) (s : Connection C) : Bool × Connection C :=
  let (ret, db) := Sql.query ⟨s.m_connected⟩ (s.schedule 0)
  (ret, s.after db (s.settled effect))

/-- The rows are those that the session reads when the statement is executed. -/
def storeQuery (select : C → List α) (s : Connection C) : Option (DBResult α) × Connection C :=
  let store := s.settled id
  let (result, db) := Sql.storeQuery ⟨s.m_connected⟩ (s.schedule 0) (select store.view)
  (result, s.after db store)

def beginTransaction (s : Connection C) : Bool × Connection C := query Store.start s

/-- `COMMIT` and `ROLLBACK` are not tried again, and leave `m_connected` as it is. -/
def finish (effect : Store C → Store C) (s : Connection C) : Bool × Connection C :=
  if !s.m_connected then (false, s)
  else
    let t := (s.schedule 0).statement
    (t.execute, s.after ⟨true⟩ (if t.execute then effect s.store else Moment.fail t effect s.store))

def rollback (s : Connection C) : Bool × Connection C := finish Store.rollback s

def commit (s : Connection C) : Bool × Connection C := finish Store.commit s

inductive TransactionState where
  | STATE_FRESH | STATE_READY | STATE_DONE
  deriving DecidableEq, Repr

structure DBTransaction (C : Type) where
  m_db : Connection C
  m_state : TransactionState

namespace DBTransaction

def begin (trans : DBTransaction C) : Bool × DBTransaction C :=
  let (ret, m_db) := beginTransaction trans.m_db
  (ret, ⟨m_db, .STATE_READY⟩)

def commit (trans : DBTransaction C) : Bool × DBTransaction C :=
  if trans.m_state ≠ .STATE_READY then (false, trans)
  else
    let (ret, m_db) := Premium.commit trans.m_db
    (ret, ⟨m_db, .STATE_DONE⟩)

/-- The destructor. -/
def destroy (trans : DBTransaction C) : Connection C :=
  if trans.m_state ≠ .STATE_READY then trans.m_db else (rollback trans.m_db).2

end DBTransaction

/-- The clock: when the accounts are selected, and when the account with a number is looked at. -/
structure Clock where
  now : ℕ
  time : UInt32 → ℕ

/-- `lastday <= now - 86400`; the column is of integer type. -/
def isDue (now : ℕ) (row : AccountRow) : Bool :=
  match row.lastday with
  | .int64 value => value.toInt ≤ now - 86400
  | .uint64 value => (value.toNat : ℤ) ≤ now - 86400
  | _ => false

def selectDue (now : ℕ) (rows : List AccountRow) : List AccountRow := rows.filter (isDue now)

def selectAccount (accountId : UInt32) (rows : List AccountRow) : List AccountRow :=
  (rows.filter fun row => row.id = accountId).take 1

def loadAccount (accountId : UInt32) (s : Connection (List AccountRow)) :
    Account × Connection (List AccountRow) :=
  match storeQuery (selectAccount accountId) s with
  | (none, s) => (Account.empty, s)
  | (some result, s) =>
    ({ AccountRow.load result.row result.row.name with number := accountId }, s)

def saveAccount (account : Account) (s : Connection (List AccountRow)) :
    Bool × Connection (List AccountRow) :=
  query (Store.write (saveAccountRow account)) s

/-- `updatePremium(Account&)`: a failed save is only logged. -/
def updatePremiumOf (clock : Clock) (account : Account) (s : Connection (List AccountRow)) :
    Connection (List AccountRow) :=
  let (account, save) := premiumUpdate (clock.time account.number) account
  if save then (saveAccount account s).2 else s

/-- The loop over the result of the `SELECT`. -/
def updateAll (clock : Clock) :
    List AccountRow → Connection (List AccountRow) → Connection (List AccountRow)
  | [], s => s
  | row :: rows, s =>
    let (account, s) := loadAccount row.id s
    updateAll clock rows (updatePremiumOf clock account s)

def updatePremium (clock : Clock) (s : Connection (List AccountRow)) :
    Bool × Connection (List AccountRow) :=
  let (began, tx) := DBTransaction.begin ⟨s, .STATE_FRESH⟩
  if !began then (false, tx.destroy)
  else match storeQuery (selectDue clock.now) tx.m_db with
    | (none, m_db) => (false, { tx with m_db := m_db }.destroy)
    | (some result, m_db) =>
      let (ret, tx) := { tx with m_db := updateAll clock result.toList m_db }.commit
      (ret, tx.destroy)

end LoginServer.Premium
