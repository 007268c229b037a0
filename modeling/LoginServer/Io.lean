import LoginServer.Encryption
import LoginServer.LoginBlock
import LoginServer.Tables

/-! # The statements of a login

The functions of `io.cpp` that `ProtocolLogin::delegate` calls, over the tables and a schedule of
what comes of each statement. A `WHERE` clause is a filter and `LIMIT 1` takes the first row. -/
namespace LoginServer.Io

open Bytes Accounts Sql Attempts

/-- What a login runs in: the settings, the worlds, the clocks of the database and of the server,
and whether the pool still hands out messages. -/
structure Env where
  g_config : Config
  worlds : Std.TreeMap UInt32 World
  digests : Encryption.Digests
  collation : Collation
  now : ℤ
  time : ℕ
  outputMessage : Bool
  rand24b : ℕ → ℕ

/-- The state that logins share. -/
structure Server extends Session Tables where
  nameCacheMap : Std.TreeMap UInt32 (List UInt8)
  ipLoginMap : IpLoginMap

abbrev ServerM := StateM Server

variable {α β : Type}

theorem bind_run (f : ServerM α) (g : α → ServerM β) (s : Server) :
    (f >>= g) s = g (f s).1 (f s).2 := rfl

theorem pure_run (a : α) (s : Server) : (pure a : ServerM α) s = (a, s) := rfl

def Server.next (s : Server) : Server := { s with toSession := s.toSession.next }

def query (update : Tables → Tables) : ServerM Bool := fun s =>
  let (ret, session) := s.toSession.query update
  (ret, { s with toSession := session })

def storeQuery (select : Tables → List α) : ServerM (Option (DBResult α)) := fun s =>
  let (result, session) := s.toSession.storeQuery select
  (result, { s with toSession := session })

theorem storeQuery_run (select : Tables → List α) (s : Server) :
    storeQuery select s =
      (if s.serves then verifyResult (select s.tables) else none, s.next) := by
  rw [storeQuery, Session.storeQuery_eq]
  rfl

def checkBanishments (env : Env) : ServerM Bool :=
  query fun tables => { tables with bans := tables.bans.map (BanRow.lift env.now) }

def convertIPAddress (ip : UInt32) : List UInt8 :=
  ascii (toString (ip &&& 0xFF).toNat) ++ ascii "." ++
    ascii (toString (ip >>> 8 &&& 0xFF).toNat) ++ ascii "." ++
    ascii (toString (ip >>> 16 &&& 0xFF).toNat) ++ ascii "." ++
    ascii (toString (ip >>> 24).toNat)

def ipBans (env : Env) (tables : Tables) : List BanRow :=
  tables.bans.filter fun b => b.ban_type = .ip && b.inForce env.now

def isIpBanished (env : Env) (ip : UInt32) : ServerM Bool :=
  if ip = 0 then pure false
  else do
    match ← storeQuery (ipBans env) with
    | none => pure false
    | some result => pure (result.toList.any fun b => b.target = convertIPAddress ip)

def accountRows (env : Env) (name : List UInt8) (tables : Tables) : List AccountRow :=
  (tables.accounts.filter fun row => env.collation.equal row.name name).take 1

def playerRows (number : UInt32) (tables : Tables) : List PlayerRow :=
  tables.players.filter fun row => row.account_id = number && row.deleted = 0

/-- `charList[name] = Character(...)`: one entry in each world for a game master, and one in the
first world for any other player. -/
def addCharacter (env : Env) (charList : Characters) (row : PlayerRow) : Characters :=
  let name := row.name.getDataString
  if row.group_id.getDataInt.toInt ≥ env.g_config.GAMEMASTER_GROUP then
    env.worlds.toList.zipIdx.foldl (fun charList p =>
      charList.insert (name ++ ascii (toString (p.2 % 65536))) ⟨name, p.1.2, -1⟩) charList
  else match env.worlds.toList with
    | [] => charList
    | (_, defaultWorld) :: _ =>
      charList.insert name ⟨name, defaultWorld, row.online.getDataInt.toInt8.toInt⟩

def characters (env : Env) (rows : List PlayerRow) : Characters :=
  rows.foldl (addCharacter env) ∅

def Account.empty : Account := ⟨0, 0, 0, 0, [], [], [], [], ∅⟩

/-- `std::max(0, std::min(GRATIS_PREMIUM, days))`. -/
def clampPremium (days : Int32) : UInt16 :=
  UInt16.ofNat (if days.toInt > GRATIS_PREMIUM then GRATIS_PREMIUM else days.toInt.toNat)

/-- The account without its characters. The number comes through `getDataInt`, which keeps an
unsigned 32-bit column as it is. -/
def AccountRow.load (row : AccountRow) (name : List UInt8) : Account where
  premiumDays := clampPremium row.premium_days.getDataInt
  warnings := row.warnings.getDataInt.toUInt32.toUInt16
  number := row.id
  lastDay := row.lastday.getDataInt.toUInt32
  name := name
  password := row.password.getDataString
  recoveryKey := row.key.getDataString
  salt := row.salt.getDataString
  charList := ∅

/-- Without an answer about the players the account is loaded without characters. -/
def loadAccount (env : Env) (name : List UInt8) : ServerM (Bool × Account) := do
  match ← storeQuery (accountRows env name) with
  | none => pure (false, Account.empty)
  | some result =>
    let account := AccountRow.load result.row name
    match ← storeQuery (playerRows account.number) with
    | none => pure (true, account)
    | some result => pure (true, { account with charList := characters env result.toList })

/-- The `UPDATE` of `saveAccount`. -/
def saveAccountRow (account : Account) : List AccountRow → List AccountRow
  | [] => []
  | row :: rows =>
    if row.id = account.number then
      { row with
        premium_days := .int64 (Int64.ofNat account.premiumDays.toNat)
        warnings := .int64 (Int64.ofNat account.warnings.toNat)
        lastday := .int64 (Int64.ofNat account.lastDay.toNat) } :: rows
    else row :: saveAccountRow account rows

def saveAccount (account : Account) : ServerM Bool :=
  query fun tables => { tables with accounts := saveAccountRow account tables.accounts }

/-- What `updatePremium` makes of an account, and whether it is to be saved. -/
def premiumUpdate (now : ℕ) (account : Account) : Account × Bool :=
  let lastDay := account.lastDay.toNat
  if lastDay > now ∨ now - lastDay < 86400 then (account, false)
  else if account.premiumDays.toNat > 0 ∧ account.premiumDays.toNat < GRATIS_PREMIUM then
    if lastDay = 0 then ({ account with lastDay := UInt32.ofNat now }, true)
    else
      let days := UInt32.ofNat ((now - lastDay) / 86400)
      if days > 0 then
        if account.premiumDays.toUInt32 ≥ days then
          ({ account with
              premiumDays := account.premiumDays - days.toUInt16
              lastDay := UInt32.ofNat (now - (now - lastDay) % 86400) }, true)
        else ({ account with premiumDays := 0, lastDay := 0 }, true)
      else (account, false)
  else if lastDay ≠ 0 then ({ account with lastDay := 0 }, true)
  else (account, false)

def updatePremium (env : Env) (account : Account) : ServerM Account := do
  let (account, save) := premiumUpdate env.time account
  if save then
    let _ ← saveAccount account
    pure account
  else pure account

structure Ban where
  id : UInt32
  bannedBy : UInt32
  target : List UInt8
  reason : List UInt8
  banType : List UInt8
  createdAt : List UInt8
  expiresAt : List UInt8
  active : Bool

def BanRow.load (row : BanRow) : Ban where
  id := row.id.getDataInt.toUInt32
  bannedBy := row.banned_by.getDataInt.toUInt32
  target := row.target
  reason := row.reason.getDataString
  banType := row.ban_type.text
  createdAt := row.created_at.getDataString
  expiresAt := row.expiresField.getDataString
  active := row.active.toInt32 ≠ 0

def banRows (env : Env) (type : BanType) (target : List UInt8) (tables : Tables) : List BanRow :=
  (tables.bans.filter fun b =>
    (env.collation.equal b.target target && b.ban_type = type) && b.inForce env.now).take 1

/-- `getBanishment` for a type other than `BAN_NONE`. -/
def getBanishment (env : Env) (type : BanType) (target : List UInt8) : ServerM (Option Ban) := do
  match ← storeQuery (banRows env type target) with
  | none => pure none
  | some result => pure (some (BanRow.load result.row))

def nameRows (guid : UInt32) (tables : Tables) : List PlayerRow :=
  (tables.players.filter fun row => row.id = guid && row.deleted = 0).take 1

def getNameByGuid (guid : UInt32) : ServerM (Option (List UInt8)) := do
  match (← get).nameCacheMap[guid]? with
  | some name => pure (some name)
  | none =>
    match ← storeQuery (nameRows guid) with
    | none => pure none
    | some result =>
      let name := result.row.name.getDataString
      modify fun s => { s with nameCacheMap := s.nameCacheMap.insert guid name }
      pure (some name)

end LoginServer.Io
