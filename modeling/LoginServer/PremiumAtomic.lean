import LoginServer.Premium
import LoginServer.DatabaseOutage
import Mathlib.Data.List.Nodup

/-! # When the premium update is all or nothing

A statement that is tried again has lost the transaction that it belonged to, and goes on alone.
What the update has reached is therefore one of three phases of the connection, which the
failures alone decide; the tables follow the phase. -/
namespace LoginServer.Premium

open Sql Accounts Io Transactions

deriving instance DecidableEq for Sql.Field
deriving instance DecidableEq for Sql.AccountRow

/-- The accounts, with their primary key. -/
structure AccountTable where
  rows : List AccountRow
  key : (rows.map AccountRow.id).Nodup

def savedRow (account : Account) (row : AccountRow) : AccountRow :=
  { row with
    premium_days := .int64 (Int64.ofNat account.premiumDays.toNat)
    warnings := .int64 (Int64.ofNat account.warnings.toNat)
    lastday := .int64 (Int64.ofNat account.lastDay.toNat) }

theorem map_eq_self_iff {f : AccountRow → AccountRow} {rows : List AccountRow} :
    rows.map f = rows ↔ ∀ row ∈ rows, f row = row := by
  simpa using List.map_inj_left (f := f) (g := id) (l := rows)

theorem saveAccountRow_eq_map (account : Account) {rows : List AccountRow}
    (hkey : (rows.map AccountRow.id).Nodup) :
    saveAccountRow account rows =
      rows.map fun row => if row.id = account.number then savedRow account row else row := by
  induction rows with
  | nil => rfl
  | cons row rows ih =>
    obtain ⟨hnew, hkey⟩ := List.nodup_cons.mp hkey
    rw [saveAccountRow, List.map_cons]
    by_cases hid : row.id = account.number
    · have hrest : rows.map (fun row =>
          if row.id = account.number then savedRow account row else row) = rows := by
        rw [map_eq_self_iff]
        intro other hother
        refine if_neg fun heq => hnew ?_
        rw [hid, ← heq]
        exact List.mem_map_of_mem hother
      rw [if_pos hid, if_pos hid, hrest]
      rfl
    · rw [if_neg hid, if_neg hid, ih hkey]

theorem premiumUpdate_number (now : ℕ) (account : Account) :
    (premiumUpdate now account).1.number = account.number := by
  rw [premiumUpdate]
  grind

variable (clock : Clock)

/-- What `updatePremium` makes of the account of a row, and whether it saves it. -/
def updated (row : AccountRow) : Account × Bool :=
  premiumUpdate (clock.time row.id) (AccountRow.load row row.name)

def newRow (row : AccountRow) : AccountRow :=
  if (updated clock row).2 then savedRow (updated clock row).1 row else row

theorem newRow_id (row : AccountRow) : (newRow clock row).id = row.id := by
  rw [newRow]
  split <;> rfl

def put (ids : List UInt32) (rows : List AccountRow) : List AccountRow :=
  rows.map fun row => if row.id ∈ ids then newRow clock row else row

theorem put_nil (rows : List AccountRow) : put clock [] rows = rows := by
  simp [put]

theorem put_ids (ids : List UInt32) (rows : List AccountRow) :
    (put clock ids rows).map AccountRow.id = rows.map AccountRow.id := by
  rw [put, List.map_map]
  apply List.map_congr_left
  intro row _
  rw [Function.comp_apply]
  split
  · exact newRow_id clock row
  · rfl

theorem put_congr {ids others : List UInt32} (h : ∀ id, id ∈ ids ↔ id ∈ others)
    (rows : List AccountRow) : put clock ids rows = put clock others rows := by
  simp only [put, h]

theorem put_eq_iff (ids : List UInt32) (rows : List AccountRow) :
    put clock ids rows = rows ↔ ∀ row ∈ rows, row.id ∈ ids → newRow clock row = row := by
  rw [put, map_eq_self_iff]
  refine forall_congr' fun row => forall_congr' fun _ => ?_
  split
  · simp [*]
  · simp [*]

theorem row_unique {table : AccountTable} {row other : AccountRow} (hrow : row ∈ table.rows)
    (hother : other ∈ table.rows) (hid : row.id = other.id) : row = other :=
  List.inj_on_of_nodup_map table.key hrow hother hid

theorem savedRow_savedRow (account : Account) (row : AccountRow) :
    savedRow account (savedRow account row) = savedRow account row := rfl

theorem saveAccountRow_put {table : AccountTable} {row : AccountRow} (hrow : row ∈ table.rows)
    (hsave : (updated clock row).2 = true) (ids : List UInt32) :
    saveAccountRow (updated clock row).1 (put clock ids table.rows) =
      put clock (row.id :: ids) table.rows := by
  have hnumber : (updated clock row).1.number = row.id := premiumUpdate_number ..
  have hnew : newRow clock row = savedRow (updated clock row).1 row := by rw [newRow, if_pos hsave]
  rw [saveAccountRow_eq_map _ (by rw [put_ids]; exact table.key), put, put, List.map_map, hnumber]
  apply List.map_congr_left
  intro other hother
  rw [Function.comp_apply]
  by_cases hid : other.id = row.id
  · obtain rfl := row_unique hother hrow hid
    by_cases hmem : other.id ∈ ids
    · simp [hmem, hnew, savedRow_savedRow]
    · simp [hmem, hnew]
  · by_cases hmem : other.id ∈ ids <;> simp [hmem, hid, newRow_id]

theorem selectAccount_of_mem {rows : List AccountRow} (hkey : (rows.map AccountRow.id).Nodup)
    {row : AccountRow} (hrow : row ∈ rows) : selectAccount row.id rows = [row] := by
  obtain ⟨pre, post, rfl⟩ := List.append_of_mem hrow
  rw [List.map_append, List.map_cons, List.nodup_middle] at hkey
  have hnot := (List.nodup_cons.mp hkey).1
  rw [← List.map_append] at hnot
  have hnone : ∀ rest ⊆ pre ++ post, rest.filter (fun other => other.id = row.id) = [] := by
    intro rest hsub
    rw [List.filter_eq_nil_iff]
    intro other hother heq
    apply hnot
    rw [← of_decide_eq_true heq]
    exact List.mem_map_of_mem (hsub hother)
  rw [selectAccount, List.filter_append, hnone pre (List.subset_append_left ..),
    List.filter_cons_of_pos (by simp), hnone post (List.subset_append_right ..)]
  rfl

theorem selectAccount_put {table : AccountTable} {row : AccountRow} (hrow : row ∈ table.rows)
    {ids : List UInt32} (hnot : row.id ∉ ids) :
    selectAccount row.id (put clock ids table.rows) = [row] := by
  apply selectAccount_of_mem
  · rw [put_ids]
    exact table.key
  · rw [put, List.mem_map]
    exact ⟨row, hrow, if_neg hnot⟩

/-- Whether a statement that failed with its session had taken effect. -/
def Moment.landed (t : Moment) : Bool := Moment.lost t && t.applied

/-- How far the update has come. `pending`: a changed account waits in the transaction; `forgotten`:
one was rolled back with it; `stored`: one is stored outside of it. -/
inductive Phase where
  | transaction (pending : Bool)
  | autocommit (forgotten stored : Bool)
  | disconnected (stored : Bool)

/-- A statement of the update, which may change an account. -/
def Phase.statement (a : Attempt) (changes : Bool) : Phase → Phase
  | transaction pending =>
    if a.statement.execute then transaction (pending || changes)
    else if a.reconnection.reachable && a.retry.execute then autocommit pending changes
    else disconnected (changes && a.reconnection.reachable && Moment.landed a.retry)
  | autocommit forgotten stored =>
    if a.succeeds then autocommit forgotten (stored || changes)
    else disconnected (stored || changes && (Moment.landed a.statement ||
      a.reconnection.reachable && Moment.landed a.retry))
  | disconnected stored => disconnected stored

def Phase.connected : Phase → Bool
  | transaction _ | autocommit .. => true
  | disconnected _ => false

/-- The update may end here with a `COMMIT` that this comes of. -/
def Phase.MayCommit (t : Moment) : Phase → Prop
  | transaction pending =>
    t.execute = true ∨ Moment.lost t = true ∧ (t.applied = true → pending = false)
  | autocommit forgotten stored => if t.execute then forgotten = false else stored = false
  | disconnected stored => stored = false

/-- The update may end here with a `ROLLBACK` that this comes of. -/
def Phase.MayRollBack (t : Moment) : Phase → Prop
  | transaction _ => t.execute = true ∨ Moment.lost t = true
  | autocommit _ stored | disconnected stored => stored = false

/-- The table and the connection are where the phase says, with the accounts of `done` looked at. -/
inductive Follows (table : AccountTable) (done : List UInt32) :
    Phase → Bool → Store (List AccountRow) → Prop where
  | transaction {pending} : (pending = true ↔ put clock done table.rows ≠ table.rows) →
      Follows table done (.transaction pending) true
        ⟨table.rows, some (put clock done table.rows)⟩
  | autocommit {forgotten stored} (ids) : ids ⊆ done →
      (stored = true ↔ put clock ids table.rows ≠ table.rows) →
      (forgotten = true ↔ ∃ row ∈ table.rows, row.id ∈ done ∧ row.id ∉ ids ∧ newRow clock row ≠ row) →
      Follows table done (.autocommit forgotten stored) true ⟨put clock ids table.rows, none⟩
  | disconnected {stored} (ids) : (stored = true ↔ put clock ids table.rows ≠ table.rows) →
      Follows table done (.disconnected stored) false ⟨put clock ids table.rows, none⟩

theorem fail_open {C : Type} (t : Moment) (f : C → C) (c w : C) :
    (Moment.fail t (Store.write f) ⟨c, some w⟩).rollback = ⟨c, none⟩ := by
  rw [Moment.fail]
  split
  · split <;> rfl
  · rfl

theorem fail_closed {C : Type} (t : Moment) (f : C → C) (c : C) :
    Moment.fail t (Store.write f) ⟨c, none⟩ = ⟨if Moment.landed t then f c else c, none⟩ := by
  rw [Moment.fail, Moment.landed]
  cases Moment.lost t <;> cases t.applied <;> rfl

theorem settle_open {C : Type} (a : Attempt) (f : C → C) (c w : C) :
    Attempt.settle a (Store.write f) ⟨c, some w⟩ =
      if a.statement.execute then ⟨c, some (f w)⟩
      else if a.reconnection.reachable && a.retry.execute then ⟨f c, none⟩
      else ⟨if a.reconnection.reachable && Moment.landed a.retry then f c else c, none⟩ := by
  simp only [Attempt.settle, fail_open, fail_closed]
  cases a.reconnection.reachable <;> rfl

theorem settle_closed {C : Type} (a : Attempt) {f : C → C} {c : C} (hf : f (f c) = f c) :
    Attempt.settle a (Store.write f) ⟨c, none⟩ =
      if a.succeeds then ⟨f c, none⟩
      else ⟨if Moment.landed a.statement || a.reconnection.reachable && Moment.landed a.retry then f c
        else c, none⟩ := by
  rw [Attempt.succeeds, Attempt.settle, fail_closed, Store.rollback_mk]
  cases a.statement.execute with
  | true => rfl
  | false =>
    cases a.reconnection.reachable with
    | false => simp
    | true =>
      simp only [fail_closed, Store.write_closed]
      cases a.retry.execute <;> cases Moment.landed a.statement <;> cases Moment.landed a.retry <;>
        simp [hf]

theorem put_append_ne_iff (ids others : List UInt32) (rows : List AccountRow) :
    put clock (ids ++ others) rows ≠ rows ↔
      put clock ids rows ≠ rows ∨ put clock others rows ≠ rows := by
  simp only [ne_eq, put_eq_iff, List.mem_append, ← not_and_or, not_iff_not]
  constructor
  · intro h
    exact ⟨fun row hrow hid => h row hrow (.inl hid), fun row hrow hid => h row hrow (.inr hid)⟩
  · rintro ⟨hids, hothers⟩ row hrow (hid | hid)
    · exact hids row hrow hid
    · exact hothers row hrow hid

/-- A statement that writes the new rows of `ids`, none of which was looked at before. -/
structure Puts (table : AccountTable) (done ids : List UInt32)
    (f : List AccountRow → List AccountRow) (changes : Bool) : Prop where
  writes : ∀ others, f (put clock others table.rows) = put clock (ids ++ others) table.rows
  anew : ∀ id ∈ ids, id ∉ done
  changed : changes = true ↔ put clock ids table.rows ≠ table.rows

variable {clock}

namespace Puts

variable {table : AccountTable} {done ids : List UInt32} {f : List AccountRow → List AccountRow}
  {changes : Bool} (h : Puts clock table done ids f changes)
include h

theorem mem_before (row : AccountRow) : row.id ∈ ids ++ done ∧ row.id ∉ ids ↔ row.id ∈ done := by
  have := h.anew row.id
  rw [List.mem_append]
  constructor
  · rintro ⟨hmem | hmem, hnot⟩
    · exact absurd hmem hnot
    · exact hmem
  · exact fun hdone => ⟨.inr hdone, fun hmem => this hmem hdone⟩

theorem first : f table.rows = put clock ids table.rows := by
  have hrows := h.writes []
  rwa [put_nil, List.append_nil] at hrows

theorem stored {others : List UInt32} {stored : Bool}
    (hstored : stored = true ↔ put clock others table.rows ≠ table.rows) :
    (stored || changes) = true ↔ put clock (ids ++ others) table.rows ≠ table.rows := by
  rw [put_append_ne_iff, Bool.or_eq_true, hstored, h.changed, or_comm]

theorem landed (landed : Bool) : (changes && landed) = true ↔
    put clock (if landed then ids else []) table.rows ≠ table.rows := by
  cases landed <;> simp [put_nil, h.changed]

/-- A statement in the transaction: with its session the transaction is lost too. -/
theorem follows_open {pending : Bool}
    (hpending : pending = true ↔ put clock done table.rows ≠ table.rows) (a : Attempt) :
    Follows clock table (ids ++ done) ((Phase.transaction pending).statement a changes) a.succeeds
      (Attempt.settle a (Store.write f)
        ⟨table.rows, some (put clock done table.rows)⟩) := by
  have hforgotten : pending = true ↔
      ∃ row ∈ table.rows, row.id ∈ ids ++ done ∧ row.id ∉ ids ∧ newRow clock row ≠ row := by
    rw [hpending, ne_eq, put_eq_iff]
    simp only [← and_assoc, h.mem_before]
    grind
  rw [settle_open, h.writes, h.first, Phase.statement, Attempt.succeeds]
  cases a.statement.execute with
  | true => exact .transaction (h.stored hpending)
  | false =>
    cases a.reconnection.reachable && a.retry.execute with
    | true => exact .autocommit ids (List.subset_append_left ..) h.changed hforgotten
    | false =>
      have hput : ∀ landed : Bool, (if landed then put clock ids table.rows else table.rows) =
          put clock (if landed then ids else []) table.rows := by
        intro landed
        cases landed with
        | true => rfl
        | false => exact (put_nil clock _).symm
      simp only [Bool.false_eq_true, if_false, hput, Bool.or_self, Bool.and_assoc]
      exact .disconnected _ (h.landed _)

theorem follows_closed {forgotten stored : Bool} {others : List UInt32} (hsub : others ⊆ done)
    (hstored : stored = true ↔ put clock others table.rows ≠ table.rows)
    (hforgotten : forgotten = true ↔
      ∃ row ∈ table.rows, row.id ∈ done ∧ row.id ∉ others ∧ newRow clock row ≠ row) (a : Attempt) :
    Follows clock table (ids ++ done) ((Phase.autocommit forgotten stored).statement a changes)
      a.succeeds (Attempt.settle a (Store.write f)
        ⟨put clock others table.rows, none⟩) := by
  have hagain : f (f (put clock others table.rows)) =
      f (put clock others table.rows) := by
    rw [h.writes, h.writes]
    exact put_congr clock (by simp) _
  rw [settle_closed _ hagain, h.writes, Phase.statement]
  cases a.succeeds with
  | true =>
    have hsame : ∀ row : AccountRow, row.id ∈ ids ++ done ∧ row.id ∉ ids ++ others ↔
        row.id ∈ done ∧ row.id ∉ others := by
      intro row
      rw [← h.mem_before row, List.mem_append (s := ids) (t := others), not_or, and_assoc]
    have hsubset : ids ++ others ⊆ ids ++ done := List.append_subset.mpr
      ⟨List.subset_append_left .., List.Subset.trans hsub (List.subset_append_right ..)⟩
    refine .autocommit (ids ++ others) hsubset (h.stored hstored) ?_
    simp only [hforgotten, ← and_assoc, hsame]
  | false =>
    cases Moment.landed a.statement || a.reconnection.reachable && Moment.landed a.retry with
    | true =>
      rw [Bool.and_true]
      exact .disconnected (ids ++ others) (h.stored hstored)
    | false =>
      rw [Bool.and_false, Bool.or_false]
      exact .disconnected others hstored

/-- A statement carries the table on as its phase says. -/
theorem follows {p : Phase} {connected : Bool} {store : Store (List AccountRow)}
    (hp : Follows clock table done p connected store) (a : Attempt) :
    Follows clock table (ids ++ done) (p.statement a changes) (connected && a.succeeds)
      (if connected then Attempt.settle a (Store.write f) store else store) := by
  cases hp with
  | transaction hpending =>
    rw [if_pos rfl, Bool.true_and]
    exact h.follows_open hpending a
  | autocommit others hsub hstored hforgotten =>
    rw [if_pos rfl, Bool.true_and]
    exact h.follows_closed hsub hstored hforgotten a
  | disconnected others hstored => exact .disconnected others hstored

end Puts

theorem Follows.connected {table : AccountTable} {done : List UInt32} {p : Phase} {connected : Bool}
    {store : Store (List AccountRow)} (h : Follows clock table done p connected store) :
    connected = p.connected := by
  cases h <;> rfl

theorem Follows.lost {table : AccountTable} {done : List UInt32} {p : Phase}
    {store : Store (List AccountRow)} (h : Follows clock table done p false store)
    (others : List UInt32) : Follows clock table others p false store := by
  cases h with
  | disconnected ids hstored => exact .disconnected ids hstored

theorem Follows.unchanged {table : AccountTable} {done : List UInt32} {p : Phase} {connected : Bool}
    {store : Store (List AccountRow)} (h : Follows clock table done p connected store)
    {row : AccountRow} (hrow : row ∈ table.rows) (hsame : newRow clock row = row) :
    Follows clock table (row.id :: done) p connected store := by
  have honly : ∀ other ∈ table.rows, other.id = row.id → newRow clock other = other := by
    intro other hother hid
    rwa [row_unique hother hrow hid]
  have hput : put clock (row.id :: done) table.rows = put clock done table.rows := by
    rw [put, put, List.map_inj_left]
    intro other hother
    have := honly other hother
    simp only [List.mem_cons]
    grind
  cases h with
  | transaction hpending =>
    rw [← hput]
    exact .transaction (by rwa [hput])
  | autocommit ids hsub hstored hforgotten =>
    refine .autocommit ids (List.subset_cons_of_subset _ hsub) hstored ?_
    rw [hforgotten]
    simp only [List.mem_cons]
    grind
  | disconnected ids hstored => exact .disconnected ids hstored

theorem write_id {C : Type} : Store.write (id : C → C) = id := by
  funext store
  obtain ⟨committed, transaction⟩ := store
  cases transaction <;> rfl

theorem Follows.read {table : AccountTable} {done : List UInt32} {p : Phase}
    {s : Connection (List AccountRow)} (h : Follows clock table done p s.m_connected s.store) :
    Follows clock table done (p.statement (s.schedule 0) false)
      (s.m_connected && (s.schedule 0).succeeds) (s.settled id) := by
  have hputs : Puts clock table done [] id false := ⟨fun _ => rfl, by simp, by simp [put_nil]⟩
  have hread := hputs.follows h (s.schedule 0)
  rwa [write_id] at hread

theorem Follows.select {table : AccountTable} {done : List UInt32} {p : Phase}
    {store : Store (List AccountRow)} (h : Follows clock table done p true store)
    {row : AccountRow} (hrow : row ∈ table.rows) (hnot : row.id ∉ done) :
    selectAccount row.id store.view = [row] := by
  cases h with
  | transaction => exact selectAccount_put clock hrow hnot
  | autocommit ids hsub => exact selectAccount_put clock hrow fun hid => hnot (hsub hid)

theorem loadAccount_eq (accountId : UInt32) (s : Connection (List AccountRow)) :
    (loadAccount accountId s).2 =
      s.after ⟨s.m_connected && (s.schedule 0).succeeds⟩ (s.settled id) := by
  rw [loadAccount, storeQuery, storeQuery_eq]
  split
  · rename_i heq
    exact (Prod.mk.inj heq).2.symm
  · rename_i heq
    exact (Prod.mk.inj heq).2.symm

theorem loadAccount_account {table : AccountTable} {done : List UInt32} {p : Phase}
    {s : Connection (List AccountRow)} (h : Follows clock table done p s.m_connected s.store)
    {row : AccountRow} (hrow : row ∈ table.rows) (hnot : row.id ∉ done) :
    (loadAccount row.id s).1 = if s.m_connected && (s.schedule 0).succeeds then
      AccountRow.load row row.name else Account.empty := by
  have hread := h.read
  rw [loadAccount, storeQuery, storeQuery_eq]
  cases hok : s.m_connected && (s.schedule 0).succeeds with
  | true =>
    rw [hok] at hread
    simp only [hread.select hrow hnot]
    rfl
  | false => rfl

theorem premiumUpdate_empty (now : ℕ) : (premiumUpdate now Account.empty).2 = false := by
  rw [premiumUpdate, Account.empty]
  split <;> rfl

theorem updatePremiumOf_eq (account : Account) (s : Connection (List AccountRow)) :
    updatePremiumOf clock account s =
      if (premiumUpdate (clock.time account.number) account).2 then
        (saveAccount (premiumUpdate (clock.time account.number) account).1 s).2
      else s := rfl

theorem updatePremiumOf_empty (s : Connection (List AccountRow)) :
    updatePremiumOf clock Account.empty s = s := by
  rw [updatePremiumOf_eq, premiumUpdate_empty]
  rfl

theorem updatePremiumOf_load (row : AccountRow) (s : Connection (List AccountRow)) :
    updatePremiumOf clock (AccountRow.load row row.name) s =
      if (updated clock row).2 then (saveAccount (updated clock row).1 s).2 else s := rfl

theorem saveAccount_eq (account : Account) (s : Connection (List AccountRow)) :
    (saveAccount account s).2 = s.after ⟨s.m_connected && (s.schedule 0).succeeds⟩
      (s.settled (Store.write (saveAccountRow account))) := by
  rw [saveAccount, query, query_eq]

def changes (clock : Clock) (row : AccountRow) : Bool := decide (newRow clock row ≠ row)

def accountPhase (clock : Clock) (p : Phase × (ℕ → Attempt)) (row : AccountRow) :
    Phase × (ℕ → Attempt) :=
  let loaded := p.1.statement (p.2 0) false
  if loaded.connected && (updated clock row).2 then
    (loaded.statement (p.2 1) (changes clock row), fun i => p.2 (i + 2))
  else (loaded, fun i => p.2 (i + 1))

theorem changes_put {table : AccountTable} {row : AccountRow} (hrow : row ∈ table.rows) :
    changes clock row = true ↔ put clock [row.id] table.rows ≠ table.rows := by
  rw [changes, decide_eq_true_eq, ne_eq, ne_eq, put_eq_iff, not_iff_not]
  constructor
  · intro hsame other hother hid
    rwa [row_unique hother hrow (List.mem_singleton.mp hid)]
  · exact fun h => h row hrow (List.mem_singleton.mpr rfl)

theorem account_follows {table : AccountTable} {done : List UInt32} {p : Phase}
    {s : Connection (List AccountRow)} (h : Follows clock table done p s.m_connected s.store)
    {row : AccountRow} (hrow : row ∈ table.rows) (hnot : row.id ∉ done) :
    let u := updatePremiumOf clock (loadAccount row.id s).1 (loadAccount row.id s).2
    let q := accountPhase clock (p, s.schedule) row
    Follows clock table (row.id :: done) q.1 u.m_connected u.store ∧ u.schedule = q.2 := by
  have hread := h.read
  have hconnected := hread.connected
  simp only [loadAccount_account h hrow hnot, loadAccount_eq, accountPhase, ← hconnected]
  cases hok : s.m_connected && (s.schedule 0).succeeds with
  | false =>
    rw [hok] at hread
    rw [if_neg Bool.false_ne_true, updatePremiumOf_empty, Bool.false_and]
    exact ⟨hread.lost _, rfl⟩
  | true =>
    rw [hok] at hread
    rw [if_pos rfl, updatePremiumOf_load, Bool.true_and]
    cases hsave : (updated clock row).2 with
    | false =>
      have hsame : newRow clock row = row := by rw [newRow, hsave]; rfl
      exact ⟨hread.unchanged hrow hsame, rfl⟩
    | true =>
      rw [if_pos rfl, saveAccount_eq]
      have hputs : Puts clock table done [row.id]
          (saveAccountRow (updated clock row).1) (changes clock row) :=
        ⟨saveAccountRow_put clock hrow hsave, by simpa using hnot, changes_put hrow⟩
      exact ⟨hputs.follows hread (s.schedule 1), rfl⟩

def updatePhase (clock : Clock) (rows : List AccountRow) (p : Phase × (ℕ → Attempt)) :
    Phase × (ℕ → Attempt) :=
  rows.foldl (accountPhase clock) p

theorem updateAll_follows {table : AccountTable} {rows : List AccountRow} {done : List UInt32}
    {p : Phase} {s : Connection (List AccountRow)}
    (h : Follows clock table done p s.m_connected s.store) (hrows : ∀ row ∈ rows, row ∈ table.rows)
    (hkey : (rows.map AccountRow.id).Nodup) (hnot : ∀ row ∈ rows, row.id ∉ done) :
    let u := updateAll clock rows s
    let q := updatePhase clock rows (p, s.schedule)
    Follows clock table ((rows.map AccountRow.id).reverse ++ done) q.1 u.m_connected u.store ∧
      u.schedule = q.2 := by
  induction rows generalizing done p s with
  | nil => exact ⟨h, rfl⟩
  | cons row rows ih =>
    obtain ⟨hrow, hrows⟩ := List.forall_mem_cons.mp hrows
    obtain ⟨hrownot, hnot⟩ := List.forall_mem_cons.mp hnot
    obtain ⟨hfirst, hkey⟩ := List.nodup_cons.mp hkey
    obtain ⟨hfollows, hschedule⟩ := account_follows h hrow hrownot
    have hrest := ih hfollows hrows hkey (by
      intro other hother hmem
      rcases List.mem_cons.mp hmem with heq | hmem
      · exact hfirst (heq ▸ List.mem_map_of_mem hother)
      · exact hnot other hother hmem)
    rw [hschedule] at hrest
    rw [List.map_cons, List.reverse_cons, List.append_assoc, List.singleton_append]
    exact hrest

/-- What the update should leave, whatever fails. -/
structure AllOrNothing (clock : Clock) (table : AccountTable)
    (r : Bool × Connection (List AccountRow)) : Prop where
  stored : r.1 = true → ∀ row ∈ table.rows, isDue clock.now row = true →
    newRow clock row ≠ row → newRow clock row ∈ r.2.store.committed
  unchanged : r.1 = false → r.2.store.committed = table.rows
  closed : r.2.store.transaction = none

theorem newRow_mem_put {table : AccountTable} {row : AccountRow} (hrow : row ∈ table.rows)
    (hchanges : newRow clock row ≠ row) {ids : List UInt32} :
    newRow clock row ∈ put clock ids table.rows ↔ row.id ∈ ids := by
  rw [put, List.mem_map]
  constructor
  · rintro ⟨other, hother, heq⟩
    have hid : other.id = row.id := by
      rw [← newRow_id clock row, ← heq]
      split
      · exact (newRow_id clock other).symm
      · rfl
    obtain rfl := row_unique hother hrow hid
    by_contra hnot
    rw [if_neg hnot] at heq
    exact hchanges heq.symm
  · intro hid
    exact ⟨row, hrow, if_pos hid⟩

theorem finish_eq (effect : Store (List AccountRow) → Store (List AccountRow))
    (s : Connection (List AccountRow)) :
    finish effect s = if s.m_connected then
        ((s.schedule 0).statement.execute, s.after ⟨true⟩ (if (s.schedule 0).statement.execute then
          effect s.store else Moment.fail (s.schedule 0).statement effect s.store))
      else (false, s) := by
  rw [finish]
  cases s.m_connected <;> rfl

theorem allOrNothing_false {table : AccountTable} {s : Connection (List AccountRow)} :
    AllOrNothing clock table (false, s) ↔ s.store = ⟨table.rows, none⟩ := by
  constructor
  · rintro ⟨-, hunchanged, hclosed⟩
    have hcommitted := hunchanged rfl
    obtain ⟨_, ⟨committed, transaction⟩, _⟩ := s
    simp_all
  · intro h
    exact ⟨by simp, fun _ => by rw [h], by rw [h]⟩

theorem allOrNothing_true {table : AccountTable} {done : List UInt32}
    (hdone : ∀ row ∈ table.rows, row.id ∈ done ↔ isDue clock.now row = true)
    {s : Connection (List AccountRow)} {ids : List UInt32}
    (hstore : s.store = ⟨put clock ids table.rows, none⟩) :
    AllOrNothing clock table (true, s) ↔
      ¬ ∃ row ∈ table.rows, row.id ∈ done ∧ row.id ∉ ids ∧ newRow clock row ≠ row := by
  constructor
  · rintro ⟨hstored, -, -⟩ ⟨row, hrow, hmem, hnot, hchanges⟩
    have hnew := hstored rfl row hrow ((hdone row hrow).mp hmem) hchanges
    rw [hstore] at hnew
    exact hnot ((newRow_mem_put hrow hchanges).mp hnew)
  · intro hnone
    refine ⟨fun _ row hrow hdue hchanges => ?_, by simp, by rw [hstore]⟩
    rw [hstore, newRow_mem_put hrow hchanges]
    by_contra hnot
    exact hnone ⟨row, hrow, (hdone row hrow).mpr hdue, hnot, hchanges⟩

/-- A `COMMIT` that failed leaves the transaction open, or has ended it one way or the other. -/
theorem fail_commit_open {C : Type} (t : Moment) (c w : C) :
    Moment.fail t Store.commit ⟨c, some w⟩ =
      if Moment.lost t then ⟨if t.applied then w else c, none⟩ else ⟨c, some w⟩ := by
  rw [Moment.fail]
  cases t.applied <;> rfl

theorem fail_closed_of {C : Type} {t : Moment} {effect : Store C → Store C} {c : C}
    (heffect : effect ⟨c, none⟩ = ⟨c, none⟩) : Moment.fail t effect ⟨c, none⟩ = ⟨c, none⟩ := by
  rw [Moment.fail, heffect]
  cases Moment.lost t <;> cases t.applied <;> rfl

theorem store_eq_iff {stored : Bool} {ids : List UInt32} {rows : List AccountRow}
    (hstored : stored = true ↔ put clock ids rows ≠ rows) :
    (⟨put clock ids rows, none⟩ : Store (List AccountRow)) = ⟨rows, none⟩ ↔ stored = false := by
  rw [← Bool.not_eq_true, hstored]
  simp

theorem commit_allOrNothing {table : AccountTable} {done : List UInt32} {p : Phase}
    {s : Connection (List AccountRow)} (h : Follows clock table done p s.m_connected s.store)
    (hdone : ∀ row ∈ table.rows, row.id ∈ done ↔ isDue clock.now row = true) :
    AllOrNothing clock table (commit s) ↔ p.MayCommit (s.schedule 0).statement := by
  obtain ⟨connected, store, schedule⟩ := s
  simp only at h ⊢
  rw [commit, finish_eq]
  simp only
  cases h with
  | @transaction pending hpending =>
    rw [if_pos rfl, Phase.MayCommit]
    cases (schedule 0).statement.execute with
    | true =>
      rw [allOrNothing_true hdone rfl]
      simp +contextual
    | false =>
      rw [allOrNothing_false]
      simp only [Connection.after, fail_commit_open, Bool.false_eq_true, if_false, false_or]
      cases Moment.lost (schedule 0).statement with
      | false => simp
      | true =>
        cases (schedule 0).statement.applied with
        | false => simp
        | true => simpa using store_eq_iff hpending
  | @autocommit forgotten stored ids hsub hstored hforgotten =>
    rw [if_pos rfl, Phase.MayCommit]
    cases (schedule 0).statement.execute with
    | true =>
      rw [allOrNothing_true hdone rfl, ← hforgotten]
      simp
    | false =>
      rw [allOrNothing_false]
      simp only [Connection.after, fail_closed_of (Store.commit_closed _), Bool.false_eq_true,
        if_false, store_eq_iff hstored]
  | @disconnected stored ids hstored =>
    rw [if_neg Bool.false_ne_true, allOrNothing_false, Phase.MayCommit]
    exact store_eq_iff hstored

theorem rollback_allOrNothing {table : AccountTable} {p : Phase}
    {s : Connection (List AccountRow)} (h : Follows clock table [] p s.m_connected s.store) :
    AllOrNothing clock table (false, (rollback s).2) ↔ p.MayRollBack (s.schedule 0).statement := by
  obtain ⟨connected, store, schedule⟩ := s
  simp only at h ⊢
  rw [rollback, finish_eq, allOrNothing_false]
  simp only
  cases h with
  | transaction hpending =>
    rw [if_pos rfl, Phase.MayRollBack, put_nil]
    cases (schedule 0).statement.execute with
    | true => simp [Connection.after]
    | false =>
      simp only [Connection.after, Moment.fail]
      cases Moment.lost (schedule 0).statement <;> cases (schedule 0).statement.applied <;> simp
  | autocommit ids hsub hstored =>
    rw [if_pos rfl, Phase.MayRollBack, ← store_eq_iff hstored]
    simp only [Connection.after, fail_closed_of (Store.rollback_mk _ _), Store.rollback_mk, ite_self]
  | disconnected ids hstored =>
    rw [if_neg Bool.false_ne_true, Phase.MayRollBack]
    exact store_eq_iff hstored

def idle (table : AccountTable) (connected : Bool) (schedule : ℕ → Attempt) :
    Connection (List AccountRow) :=
  ⟨connected, ⟨table.rows, none⟩, schedule⟩

def beginPhase (connected : Bool) (a : Attempt) : Phase :=
  if connected && a.succeeds then .transaction false else .disconnected false

theorem settle_start {C : Type} (a : Attempt) (c : C) :
    Attempt.settle a Store.start ⟨c, none⟩ = if a.succeeds then ⟨c, some c⟩ else ⟨c, none⟩ := by
  have hfail : ∀ t, Moment.fail t Store.start ⟨c, none⟩ = ⟨c, none⟩ := by
    intro t
    rw [Moment.fail]
    cases Moment.lost t <;> cases t.applied <;> rfl
  rw [Attempt.succeeds, Attempt.settle, hfail, Store.rollback_mk]
  cases a.statement.execute with
  | true => rfl
  | false => cases a.reconnection.reachable <;> cases a.retry.execute <;> simp [hfail]

theorem begin_follows (clock : Clock) (table : AccountTable) (connected : Bool)
    (schedule : ℕ → Attempt) :
    let r := beginTransaction (idle table connected schedule)
    r.1 = (connected && (schedule 0).succeeds) ∧ r.2.schedule = (fun i => schedule (i + 1)) ∧
      Follows clock table [] (beginPhase connected (schedule 0)) r.2.m_connected r.2.store := by
  have hdisconnected : Follows clock table [] (.disconnected false) false ⟨table.rows, none⟩ := by
    have h : Follows clock table [] (.disconnected false) false ⟨put clock [] table.rows, none⟩ :=
      .disconnected [] (by simp [put_nil])
    rwa [put_nil] at h
  have htransaction :
      Follows clock table [] (.transaction false) true ⟨table.rows, some table.rows⟩ := by
    have h : Follows clock table [] (.transaction false) true
        ⟨table.rows, some (put clock [] table.rows)⟩ := .transaction (by simp [put_nil])
    rwa [put_nil] at h
  refine ⟨by rw [beginTransaction, query, query_eq]; rfl, rfl, ?_⟩
  rw [beginTransaction, query, query_eq]
  simp only [idle, Connection.after, Connection.settled, settle_start, beginPhase]
  cases connected with
  | false => exact hdisconnected
  | true =>
    cases (schedule 0).succeeds with
    | false => exact hdisconnected
    | true => exact htransaction

theorem selectDue_view {table : AccountTable} {p : Phase} {store : Store (List AccountRow)}
    (h : Follows clock table [] p true store) : store.view = table.rows := by
  cases h with
  | transaction => exact put_nil clock _
  | autocommit ids hsub =>
    obtain rfl := List.subset_nil.mp hsub
    exact put_nil clock _

theorem due_ids {table : AccountTable} {row : AccountRow} (hrow : row ∈ table.rows) (now : ℕ) :
    row.id ∈ ((selectDue now table.rows).map AccountRow.id).reverse ++ [] ↔ isDue now row = true := by
  rw [List.append_nil, List.mem_reverse, List.mem_map]
  constructor
  · rintro ⟨other, hother, hid⟩
    obtain ⟨hother, hdue⟩ := List.mem_filter.mp hother
    rwa [← row_unique hother hrow hid]
  · exact fun hdue => ⟨row, List.mem_filter.mpr ⟨hrow, hdue⟩, rfl⟩

theorem updatePremium_eq (clock : Clock) (s : Connection (List AccountRow)) :
    updatePremium clock s =
      if !(beginTransaction s).1 then (false, (rollback (beginTransaction s).2).2)
      else match storeQuery (selectDue clock.now) (beginTransaction s).2 with
        | (none, m_db) => (false, (rollback m_db).2)
        | (some result, m_db) => commit (updateAll clock result.toList m_db) := by
  rw [updatePremium]
  simp only [DBTransaction.begin]
  refine ite_congr rfl (fun _ => rfl) fun _ => ?_
  rcases storeQuery (selectDue clock.now) (beginTransaction s).2 with ⟨result, m_db⟩
  cases result <;> rfl

def updateDue (clock : Clock) (s : Connection (List AccountRow)) :
    Bool × Connection (List AccountRow) :=
  match storeQuery (selectDue clock.now) s with
  | (none, m_db) => (false, (rollback m_db).2)
  | (some result, m_db) => commit (updateAll clock result.toList m_db)

theorem updateDue_eq (clock : Clock) (s : Connection (List AccountRow)) :
    updateDue clock s =
      if (s.m_connected && (s.schedule 0).succeeds) &&
          !(selectDue clock.now (s.settled id).view).isEmpty then
        commit (updateAll clock (selectDue clock.now (s.settled id).view)
          (s.after ⟨true⟩ (s.settled id)))
      else
        (false,
          (rollback (s.after ⟨s.m_connected && (s.schedule 0).succeeds⟩ (s.settled id))).2) := by
  rw [updateDue, storeQuery, storeQuery_eq]
  simp only
  generalize selectDue clock.now (s.settled id).view = due
  cases s.m_connected && (s.schedule 0).succeeds with
  | false => rfl
  | true => cases due <;> rfl

def MayEndDue (clock : Clock) (table : AccountTable) (p : Phase) (schedule : ℕ → Attempt) : Prop :=
  let q := p.statement (schedule 0) false
  let due := selectDue clock.now table.rows
  if q.connected && !due.isEmpty then
    let u := updatePhase clock due (q, fun i => schedule (i + 1))
    u.1.MayCommit (u.2 0).statement
  else q.MayRollBack (schedule 1).statement

theorem updateDue_allOrNothing {table : AccountTable} {p : Phase}
    {s : Connection (List AccountRow)} (h : Follows clock table [] p s.m_connected s.store) :
    AllOrNothing clock table (updateDue clock s) ↔ MayEndDue clock table p s.schedule := by
  have hread := h.read
  have hconnected := hread.connected
  rw [updateDue_eq, MayEndDue]
  simp only [← hconnected]
  cases hok : s.m_connected && (s.schedule 0).succeeds with
  | false =>
    rw [hok] at hread
    exact rollback_allOrNothing (s := s.after ⟨false⟩ (s.settled id)) hread
  | true =>
    rw [hok] at hread
    rw [selectDue_view hread]
    have hempty := rollback_allOrNothing (s := s.after ⟨true⟩ (s.settled id)) hread
    have hrows : ∀ row ∈ selectDue clock.now table.rows, row ∈ table.rows :=
      fun row hrow => List.mem_of_mem_filter hrow
    have hkey : ((selectDue clock.now table.rows).map AccountRow.id).Nodup :=
      table.key.sublist ((List.filter_sublist (l := table.rows)).map AccountRow.id)
    obtain ⟨hfollows, hschedule⟩ := updateAll_follows (s := s.after ⟨true⟩ (s.settled id)) hread hrows
      hkey (fun row _ => List.not_mem_nil)
    have hcommit := commit_allOrNothing hfollows fun row hrow => due_ids hrow clock.now
    rw [hschedule] at hcommit
    cases hdue : (selectDue clock.now table.rows).isEmpty with
    | true => exact hempty
    | false => exact hcommit

/-- The condition on the failures: where the statements up to the last one leave the update, and
what comes of the `COMMIT`, or of the `ROLLBACK` when there is nothing to do. -/
def MayEnd (clock : Clock) (table : AccountTable) (connected : Bool) (schedule : ℕ → Attempt) : Prop :=
  MayEndDue clock table (beginPhase connected (schedule 0)) fun i => schedule (i + 1)

/-- For every set of accounts and every failure schedule, the update is all or nothing just when
the statements leave it where it may end. -/
theorem premium_update_atomic_iff (clock : Clock) (table : AccountTable) (connected : Bool)
    (schedule : ℕ → Attempt) :
    AllOrNothing clock table (updatePremium clock (idle table connected schedule)) ↔
      MayEnd clock table connected schedule := by
  obtain ⟨hbegan, hschedule, hbegin⟩ := begin_follows clock table connected schedule
  rw [updatePremium_eq, hbegan]
  cases hok : connected && (schedule 0).succeeds with
  | false =>
    have hp : beginPhase connected (schedule 0) = .disconnected false := by rw [beginPhase, hok]; rfl
    rw [hp] at hbegin
    rw [MayEnd, hp]
    exact rollback_allOrNothing hbegin
  | true =>
    have hdue := updateDue_allOrNothing hbegin
    rw [hschedule] at hdue
    exact hdue

def tenDays (id : UInt32) : AccountRow where
  id := id
  name := []
  password := .null
  salt := .null
  premium_days := .int64 10
  lastday := .int64 0
  key := .null
  warnings := .int64 0

def twoAccounts : AccountTable := ⟨[tenDays 1, tenDays 2], by decide⟩

/-- The session is lost under the second `UPDATE`, and the server is there again at once. -/
def lostAtSecondSave (n : ℕ) : Attempt :=
  if n = 5 then ⟨lostSession, up, up⟩ else ⟨up, up, up⟩

theorem first_save_forgotten : ¬ ∀ (clock : Clock) (table : AccountTable) (connected : Bool)
    (schedule : ℕ → Attempt),
    AllOrNothing clock table (updatePremium clock (idle table connected schedule)) := by
  intro hall
  have h := (hall ⟨100000, fun _ => 100000⟩ twoAccounts true lostAtSecondSave).stored
    (by decide +kernel) (tenDays 1) (by decide +kernel) (by decide +kernel) (by decide +kernel)
  exact absurd h (by decide +kernel)

end LoginServer.Premium
