import LoginServer.LoginEffects

/-! # Reconnections are invisible

A statement that fails is tried once more on a new connection, and may then be executed twice. The
updates of a login do no more the second time, so as long as each statement is executed in the end,
logins answer and store what they would without any failure. -/
namespace LoginServer.Io

open Bytes Accounts Sql Attempts States Encryption CharacterList

/-- An update that is done once more changes nothing. -/
def Idempotent (update : Tables → Tables) : Prop := ∀ t, update (update t) = update t

theorem effect_of_succeeds {update : Tables → Tables} (hu : Idempotent update) {a : Attempt}
    (ha : a.succeeds = true) (t : Tables) : a.effect update t = update t := by
  rw [Attempt.effect]
  split
  · rfl
  · rename_i hstatement
    have hretry : (a.reconnection.reachable && a.retry.execute) = true := by
      simpa [Attempt.succeeds, hstatement] using ha
    obtain ⟨hreachable, hexecute⟩ := Bool.and_eq_true_iff.mp hretry
    rw [hreachable, hexecute, Bool.true_or, Bool.and_self, if_pos rfl]
    split
    · exact hu t
    · rfl

/-- Every statement is executed, at once or after a reconnection. -/
structure Served (s : Session Tables) : Prop where
  connected : s.db.m_connected = true
  succeeds : ∀ i, (s.schedule i).succeeds = true

theorem Served.serves {s : Session Tables} (h : Served s) : s.serves = true := by
  rw [Session.serves, h.connected, h.succeeds 0]
  rfl

theorem Served.next {s u : Session Tables} (h : Served s) (hdb : u.t_holder = some ⟨s.serves⟩)
    (hschedule : ∀ i, u.schedule i = s.schedule (i + 1)) : Served u where
  connected := by
    rw [Session.db, hdb]
    exact h.serves
  succeeds := fun i => (hschedule i) ▸ h.succeeds (i + 1)

/-- Two servers that store the same and whose statements are all executed in the end. -/
structure Twins (s u : Server) : Prop where
  served : Served s.toSession ∧ Served u.toSession
  tables : s.tables = u.tables
  nameCacheMap : s.nameCacheMap = u.nameCacheMap
  ipLoginMap : s.ipLoginMap = u.ipLoginMap

theorem storeQuery_alike {α : Type} (select : Tables → List α) :
    Alike Twins (storeQuery select) := by
  intro s u h
  rw [storeQuery_run, storeQuery_run, h.served.1.serves, h.served.2.serves, h.tables]
  refine ⟨rfl, ?_, h.tables, h.nameCacheMap, h.ipLoginMap⟩
  exact ⟨h.served.1.next rfl fun _ => rfl, h.served.2.next rfl fun _ => rfl⟩

theorem query_alike {update : Tables → Tables} (hu : Idempotent update) :
    Alike Twins (query update) := by
  have hafter : ∀ {s : Server}, Served s.toSession →
      (query update s).1 = true ∧ (query update s).2.tables = update s.tables := by
    intro s hs
    rw [query, Session.query_eq]
    refine ⟨hs.serves, ?_⟩
    change (if s.db.m_connected then (s.schedule 0).effect update s.tables else s.tables) = _
    rw [if_pos hs.connected, effect_of_succeeds hu (hs.succeeds 0)]
  have hserved : ∀ {s : Server}, Served s.toSession →
      Served (query update s).2.toSession := by
    intro s hs
    rw [query, Session.query_eq]
    exact hs.next rfl fun _ => rfl
  intro s u h
  obtain ⟨hs, hst⟩ := hafter h.served.1
  obtain ⟨hu, hut⟩ := hafter h.served.2
  refine ⟨hs.trans hu.symm, ⟨hserved h.served.1, hserved h.served.2⟩, ?_, h.nameCacheMap,
    h.ipLoginMap⟩
  rw [hst, hut, h.tables]

theorem lift_lift (now : ℤ) (b : BanRow) : (b.lift now).lift now = b.lift now := by
  cases he : b.expires_at with
  | none => simp [BanRow.lift, he]
  | some e =>
    by_cases h : b.active = 1 ∧ e ≤ now
    · simp [BanRow.lift, he, h]
    · simp [BanRow.lift, he, h]

theorem lift_idempotent (now : ℤ) :
    Idempotent fun t => { t with bans := t.bans.map (BanRow.lift now) } := by
  intro t
  simp only [List.map_map]
  congr 2
  funext b
  exact lift_lift now b

theorem saveAccountRow_again (account : Account) (rows : List AccountRow) :
    saveAccountRow account (saveAccountRow account rows) = saveAccountRow account rows := by
  induction rows with
  | nil => rfl
  | cons row rows ih =>
    rw [saveAccountRow]
    split
    · rename_i hid
      rw [saveAccountRow, if_pos hid]
    · rename_i hid
      rw [saveAccountRow, if_neg hid, ih]

theorem save_idempotent (account : Account) :
    Idempotent fun t => { t with accounts := saveAccountRow account t.accounts } := by
  intro t
  simp only [saveAccountRow_again]

/-! ## The functions of a login -/

theorem isIpBanished_alike (env : Env) (ip : UInt32) : Alike Twins (isIpBanished env ip) := by
  refine Alike.ite (Alike.pure _) (Alike.bind (storeQuery_alike _) fun result => ?_)
  cases result <;> exact Alike.pure _

theorem loadAccount_alike (env : Env) (name : List UInt8) : Alike Twins (loadAccount env name) := by
  apply Alike.bind (storeQuery_alike _)
  intro result
  cases result with
  | none => exact Alike.pure _
  | some result =>
    apply Alike.bind (storeQuery_alike _)
    intro players
    cases players <;> exact Alike.pure _

theorem findCasters_alike (env : Env) (account : Account) :
    Alike Twins (findCasters env account) := by
  refine Alike.ite (Alike.bind (storeQuery_alike _) fun result => ?_) (Alike.pure _)
  cases result <;> exact Alike.pure _

theorem getNameByGuid_alike (guid : UInt32) : Alike Twins (getNameByGuid guid) := by
  intro s u h
  have hget : ∀ s, (get : ServerM Server) s = (s, s) := fun s => rfl
  rw [getNameByGuid, bind_run, bind_run, hget, hget]
  dsimp only
  rw [h.nameCacheMap]
  cases u.nameCacheMap[guid]? with
  | some name => exact ⟨rfl, h⟩
  | none =>
    refine Alike.bind (storeQuery_alike _) (fun result => ?_) s u h
    cases result with
    | none => exact Alike.pure _
    | some result =>
      refine Alike.bind (Alike.modify fun s u h => ?_) fun _ => Alike.pure _
      refine ⟨h.served, h.tables, ?_, h.ipLoginMap⟩
      dsimp only
      rw [h.nameCacheMap]

theorem bannedByName_alike (ban : Ban) : Alike Twins (bannedByName ban) := by
  refine Alike.ite (Alike.pure _) (Alike.bind (getNameByGuid_alike _) fun name => ?_)
  cases name <;> exact Alike.pure _

theorem getBanishment_alike (env : Env) (type : BanType) (target : List UInt8) :
    Alike Twins (getBanishment env type target) := by
  apply Alike.bind (storeQuery_alike _)
  intro result
  cases result <;> exact Alike.pure _

theorem recordAttempt_alike (env : Env) (clientIp : UInt32) (success : Bool) :
    Alike Twins (recordAttempt env clientIp success) := by
  refine Alike.modify fun s u h => ⟨h.served, h.tables, h.nameCacheMap, ?_⟩
  dsimp only
  rw [h.ipLoginMap]

theorem updatePremium_alike (env : Env) (account : Account) :
    Alike Twins (updatePremium env account) := by
  rw [updatePremium]
  obtain ⟨updated, save⟩ := premiumUpdate env.time account
  exact Alike.ite (Alike.bind (query_alike (save_idempotent updated)) fun _ => Alike.pure _)
    (Alike.pure _)

theorem listCharacters_alike (env : Env) (clientIp : UInt32) (account : Account) :
    Alike Twins (listCharacters env clientIp account) := by
  apply Alike.bind (updatePremium_alike env account)
  intro account
  refine Alike.ite (Alike.pure _) (Alike.bind (recordAttempt_alike _ _ _) fun _ => ?_)
  exact Alike.bind (findCasters_alike env account) fun _ => Alike.pure _

theorem delegate_alike (env : Env) (name password : List UInt8) (clientIp : UInt32) :
    Alike Twins (delegate env name password clientIp) := by
  have hcheck : ∀ account, Alike Twins (checkAccount env clientIp account) := by
    intro account
    apply Alike.bind (getBanishment_alike env _ _)
    intro ban
    cases ban with
    | none => exact listCharacters_alike env clientIp account
    | some ban => exact Alike.bind (bannedByName_alike ban) fun _ => Alike.pure _
  apply Alike.bind (query_alike (lift_idempotent env.now))
  intro _
  apply Alike.bind (isIpBanished_alike env clientIp)
  intro banned
  refine Alike.ite (Alike.pure _) (Alike.bind (loadAccount_alike env name) fun loaded => ?_)
  exact Alike.ite (Alike.bind (recordAttempt_alike _ _ _) fun _ => Alike.pure _) (hcheck _)

/-- Of two servers that store the same, and on which no statement fails for good, the one may lose
its connection as often as it will: the answers of all logins and what they store are the same. -/
theorem reconnections_invisible (arrivals : List Arrival) {s u : Server} (hs : Served s.toSession)
    (hu : Served u.toSession) (htables : s.tables = u.tables) (hnames : s.nameCacheMap = u.nameCacheMap)
    (hattempts : s.ipLoginMap = u.ipLoginMap) :
    (delegateAll arrivals s).1 = (delegateAll arrivals u).1 ∧
      (delegateAll arrivals s).2.tables = (delegateAll arrivals u).2.tables ∧
      (delegateAll arrivals s).2.nameCacheMap = (delegateAll arrivals u).2.nameCacheMap ∧
      (delegateAll arrivals s).2.ipLoginMap = (delegateAll arrivals u).2.ipLoginMap := by
  have halike : Alike Twins (delegateAll arrivals) :=
    Alike.mapM fun a _ => delegate_alike a.env a.name a.password a.clientIp
  obtain ⟨hverdicts, htwins⟩ := halike s u ⟨⟨hs, hu⟩, htables, hnames, hattempts⟩
  exact ⟨hverdicts, htwins.tables, htwins.nameCacheMap, htwins.ipLoginMap⟩

def steadyServer : Server := { bannedServer with schedule := fun _ => ⟨up, up, up⟩ }

/-- Every statement is executed, and then the session is lost before its answer is there. -/
def flakyServer : Server :=
  { bannedServer with schedule := fun _ => ⟨{ lostSession with applied := true }, up, up⟩ }

theorem flaky_logins_same :
    (delegateAll [nameLogin "secret", nameLogin "guess"] flakyServer).1 =
        (delegateAll [nameLogin "secret", nameLogin "guess"] steadyServer).1 ∧
      (delegateAll [nameLogin "secret", nameLogin "guess"] flakyServer).2.tables =
        (delegateAll [nameLogin "secret", nameLogin "guess"] steadyServer).2.tables := by
  have hflaky : Served flakyServer.toSession := ⟨rfl, fun _ => rfl⟩
  have hsteady : Served steadyServer.toSession := ⟨rfl, fun _ => rfl⟩
  obtain ⟨hverdicts, htables, _⟩ := reconnections_invisible
    [nameLogin "secret", nameLogin "guess"] hflaky hsteady rfl rfl rfl
  exact ⟨hverdicts, htables⟩

end LoginServer.Io
