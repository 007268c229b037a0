import LoginServer.CharacterList
import LoginServer.Io

/-! # `ProtocolLogin::delegate`

The login on the dispatcher thread. The verdict names the return that is taken; the packet follows
from it, and is sent where the pool hands out a message. -/
namespace LoginServer.Io

open Bytes Accounts Sql Attempts Encryption CharacterList Message

inductive Verdict where
  | ipBanished
  | invalid
  | banished (message : List UInt8)
  | noCharacters
  | characterList (account : Account) (casters : Option Casters)

/-- `ConnectionManager::addAttempt` with the protocol's id and the time of the call. -/
def recordAttempt (env : Env) (clientIp : UInt32) (success : Bool) : ServerM Unit :=
  modify fun s => { s with
    ipLoginMap := addAttempt env.g_config s.ipLoginMap env.time clientIp protocolId success }

def banishedMessage (ban : Ban) (name_ : List UInt8) : List UInt8 :=
  let deletion := ban.expiresAt.isEmpty
  ascii "Your account has been " ++ ascii (if deletion then "deleted" else "banished") ++
    ascii " at:\n" ++ ban.createdAt ++ ascii " by: " ++ name_ ++
    ascii ".\nThe comment given was:\n" ++ ban.reason ++ ascii ".\nYour " ++
    ascii (if deletion then "account won't be undeleted" else "banishment will be lifted at:\n") ++
    (if deletion then [] else ban.expiresAt) ++ ascii "."

/-- Who set the ban: a name that is not found leaves `Automatic `. -/
def bannedByName (ban : Ban) : ServerM (List UInt8) :=
  if ban.bannedBy = 0 then
    pure (ascii (if ban.expiresAt.isEmpty then "Automatic deletion" else "Automatic banishment"))
  else do
    match ← getNameByGuid ban.bannedBy with
    | some name_ => pure name_
    | none => pure (ascii "Automatic ")

def casterRows (tables : Tables) : List PlayerRow :=
  tables.players.filter fun row => row.broadcasting > 0

def addCaster (env : Env) (tmp : Casters) (row : PlayerRow) : Casters :=
  let t := row.broadcasting.toInt32.toUInt32.toUInt8
  match env.worlds.toList with
  | [] => tmp
  | (_, defaultWorld) :: _ =>
    if t &&& 1 = 1 then
      tmp.insert row.name.getDataString ⟨t &&& 2 = 2, defaultWorld, row.level.getDataInt.toInt⟩
    else tmp

/-- The casters are looked up while the message for account 10 is written. -/
def findCasters (env : Env) (account : Account) : ServerM (Option Casters) :=
  if env.outputMessage ∧ account.number = 10 then do
    match ← storeQuery casterRows with
    | none => pure none
    | some result => pure (some (result.toList.foldl (addCaster env) ∅))
  else pure none

/-- What follows once no ban was found. -/
def listCharacters (env : Env) (clientIp : UInt32) (account : Account) : ServerM Verdict := do
  let account ← updatePremium env account
  if account.number ≠ 10 ∧ account.charList.size = 0 then pure .noCharacters
  else
    recordAttempt env clientIp true
    let casters ← findCasters env account
    pure (.characterList account casters)

/-- What follows the password test. -/
def checkAccount (env : Env) (clientIp : UInt32) (account : Account) : ServerM Verdict := do
  match ← getBanishment env .account (ascii (toString account.number.toNat)) with
  | some ban =>
    let name_ ← bannedByName ban
    pure (.banished (banishedMessage ban name_))
  | none => listCharacters env clientIp account

/-- The test that is logged, which leaves the stored hash in upper case. -/
def loggedTest (env : Env) (password : List UInt8) (loaded : Bool) (account : Account) : Account :=
  if loaded ∧ account.number ≠ 10 then
    { account with password :=
        (encryptTest env.digests env.g_config (account.salt ++ password) account.password).2 }
  else account

/-- What follows once the address was not found banned. -/
def authenticate (env : Env) (name password : List UInt8) (clientIp : UInt32) :
    ServerM Verdict := do
  let (loaded, account) ← loadAccount env name
  let account := loggedTest env password loaded account
  let (match_, hash) :=
    encryptTest env.digests env.g_config (account.salt ++ password) account.password
  if !loaded ∨ account.number ≠ 10 ∧ !match_ then
    recordAttempt env clientIp false
    pure .invalid
  else
    checkAccount env clientIp
      (if account.number ≠ 10 then { account with password := hash } else account)

def delegate (env : Env) (name password : List UInt8) (clientIp : UInt32) : ServerM Verdict := do
  let _ ← checkBanishments env
  if ← isIpBanished env clientIp then pure .ipBanished
  else authenticate env name password clientIp

/-- `disconnectClient` writes one error and one C string. -/
def disconnectClient (error : ℕ) (message : List UInt8) : List Call :=
  [.put 1 error, .putString (cString message) true]

def noCharactersMessage (g_config : Config) : List UInt8 :=
  ascii "This account does not contain any character for this client yet.\nCreate a new character on the " ++
    g_config.SERVER_NAME ++ ascii " website at " ++ g_config.URL ++ ascii "."

def packet (env : Env) : Verdict → List Call
  | .ipBanished => disconnectClient 0x0A (ascii "Your IP is banished!")
  | .invalid => disconnectClient 0x0A (ascii "Invalid account name or password.")
  | .banished message => disconnectClient 0x0A message
  | .noCharacters => disconnectClient 0x0A (noCharactersMessage env.g_config)
  | .characterList account casters => responseCalls env.g_config account casters env.rand24b

def sent (env : Env) (verdict : Verdict) : Option (List Call) :=
  if env.outputMessage then some (packet env verdict) else none

end LoginServer.Io
