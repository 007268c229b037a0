import LoginServer.Encryption
import LoginServer.Worlds

/-! # `ConfigManager`

The settings, `load` and `reloadMotd`. The parser belongs to a library, so a document is the value
that it answers; what comes of the request to Discord is given by the outside. -/
namespace LoginServer.Configuration

open Bytes Accounts Worlds

inductive StringConfig where
  | DUMMY_STR
  | CONFIG_DIR
  | DATABASE_DSN
  | SERVER_NAME
  | OWNER_NAME
  | OWNER_EMAIL
  | URL
  | LOCATION
  | MOTD_TEXT
  | MOTD_FILE_UNUSED
  | DISCORD_BOT_TOKEN
  | DISCORD_MOTD_CHANNEL
  | ENCRYPTION_TYPE
  | RSA_PRIME1
  | RSA_PRIME2
  | RSA_PUBLIC
  | RSA_MODULUS
  | RSA_PRIVATE
  | LISTEN_ADDR
  | RUNFILE
  | OUTPUT_LOG
deriving DecidableEq

inductive NumberConfig where
  | LOGIN_TRIES
  | RETRY_TIMEOUT
  | LOGIN_TIMEOUT
  | MAX_PLAYERS
  | ENCRYPTION
  | NICE_LEVEL
  | MOTD_ID
  | SERVICE_THREADS
  | GAMEMASTER_GROUP
  | MAX_PACKETS_PER_SECOND
deriving DecidableEq

inductive BoolConfig where
  | ON_OR_OFF_CHARLIST
  | FREE_PREMIUM
  | INIT_PREMIUM_UPDATE
  | DAEMONIZE
  | TRUNCATE_LOG
  | FORCE_CLOSE_SLOW_CONNECTION
deriving DecidableEq

structure ConfigManager where
  m_loaded : Bool
  m_confString : StringConfig → List UInt8
  m_confBool : BoolConfig → Bool
  m_confNumber : NumberConfig → ℤ
  m_coresUsed : List Int32

/-- What the constructor leaves; the numbers and flags that it does not set are anything. -/
structure Constructed (c : ConfigManager) : Prop where
  loaded : c.m_loaded = false
  strings : ∀ what, c.m_confString what = if what = .CONFIG_DIR then ascii "." else []
  encryption : c.m_confNumber .ENCRYPTION = Encryption.ENCRYPTION_SHA1
  daemonize : c.m_confBool .DAEMONIZE = false

namespace ConfigManager

def getString (c : ConfigManager) (what : StringConfig) : List UInt8 :=
  if c.m_loaded ∨ what = .DUMMY_STR ∨ what = .CONFIG_DIR then c.m_confString what
  else c.m_confString .DUMMY_STR

def getBool (c : ConfigManager) (what : BoolConfig) : Bool := c.m_loaded && c.m_confBool what

def getNumber (c : ConfigManager) (what : NumberConfig) : ℤ :=
  if c.m_loaded then c.m_confNumber what else 0

def setString (c : ConfigManager) (what : StringConfig) (value : List UInt8) : ConfigManager :=
  { c with m_confString := fun k => if k = what then value else c.m_confString k }

def setNumber (c : ConfigManager) (what : NumberConfig) (value : ℤ) : ConfigManager :=
  { c with m_confNumber := fun k => if k = what then value else c.m_confNumber k }

def setBool (c : ConfigManager) (what : BoolConfig) (value : Bool) : ConfigManager :=
  { c with m_confBool := fun k => if k = what then value else c.m_confBool k }

end ConfigManager

def section_ (root : Members) (key : String) : Option Members :=
  match root.lookup (ascii key) with
  | some (.object members) => some members
  | _ => none

def getStr (leg : Members) (key : String) (def_ : List UInt8) : List UInt8 :=
  match leg.lookup (ascii key) with
  | some (.string s) => s
  | _ => def_

def getNum (leg : Members) (key : String) (def_ : ℤ) : ℤ :=
  match leg.lookup (ascii key) with
  | some (.int64 n) => n.toInt
  | _ => def_

def getBool_ (leg : Members) (key : String) (def_ : Bool) : Bool :=
  match leg.lookup (ascii key) with
  | some (.bool b) => b
  | _ => def_

def rsaPrime1 : List UInt8 :=
  ascii "142996239624163995200701773828988955507954033454661532174705160829347375827760388829" ++
    ascii "67213386204600674145392845853859217990626450972452084065728686565928113"

def rsaPrime2 : List UInt8 :=
  ascii "763097919597040472189120184779200212553540129277912393720744757459669278851364717923" ++
    ascii "5335529307251350570728407373705564708871762033017096809910315212884101"

def rsaModulus : List UInt8 :=
  ascii "109120132967399429278860960508995541528237502902798129123468757937266291492576446330" ++
    ascii "739696001110603907230888610072655818825358503429057592827629436413108566029093628212" ++
    ascii "635953836686562675849720620786279431090218017681061521755056710823876476444260558147" ++
    ascii "179707119674283982419152118103759076030616683978566631413"

def rsaPrivate : List UInt8 :=
  ascii "467303302235841186221601800150368321487329868085193446752105552629402587398057668602" ++
    ascii "246106469196058602063280243267033616301098884178392419595075722472848070352355696191" ++
    ascii "737922927869078457919049551036016528225191219083671878855092700253886417008217353452" ++
    ascii "22087940578381210879116823013776808975766851829020659073"

def rsaPublic : List UInt8 := ascii "65537"

def defaultDsn : List UInt8 := ascii "mysql://root:@localhost:3306/theforgottenserver"

/-- A member of the section, or the default where either is missing. -/
def sectionStr (root : Members) (name key : String) (def_ : List UInt8) : List UInt8 :=
  match section_ root name with
  | some members => getStr members key def_
  | none => def_

/-- The directory and the sections `database`, `auth` and `discord`. -/
def loadSections (configDir : List UInt8) (root : Members) (c : ConfigManager) : ConfigManager :=
  { c with
    m_confString := fun
      | .CONFIG_DIR => configDir
      | .DATABASE_DSN => sectionStr root "database" "dsn" defaultDsn
      | .ENCRYPTION_TYPE => sectionStr root "auth" "encryptionType" (ascii "sha1")
      | .DISCORD_BOT_TOKEN =>
        sectionStr root "discord" "botToken" (c.m_confString .DISCORD_BOT_TOKEN)
      | .DISCORD_MOTD_CHANNEL =>
        sectionStr root "discord" "motdChannel" (c.m_confString .DISCORD_MOTD_CHANNEL)
      | what => c.m_confString what }

/-- `coresUsed`, an array of which the integers count; without any of them, all cores. -/
def coresOf (leg : Members) : List Int32 :=
  let cores := match leg.lookup (ascii "coresUsed") with
    | some (.array l) => l.filterMap fun elem => match elem with
      | .int64 n => some n.toInt32
      | _ => none
    | _ => []
  if cores = [] then [-1] else cores

/-- The branch of an object-valued member `legacy`. -/
def loadLegacy (leg : Members) (c : ConfigManager) : ConfigManager :=
  { c with
    m_confNumber := fun
      | .LOGIN_TRIES => getNum leg "loginTries" 3
      | .RETRY_TIMEOUT => getNum leg "retryTimeout" 30000
      | .LOGIN_TIMEOUT => getNum leg "loginTimeout" 5000
      | .MAX_PLAYERS => getNum leg "maxPlayers" 1000
      | .NICE_LEVEL => getNum leg "niceLevel" 5
      | .MOTD_ID => 1
      | .SERVICE_THREADS => getNum leg "serviceThreads" 1
      | .GAMEMASTER_GROUP => getNum leg "gamemasterGroup" 4
      | .MAX_PACKETS_PER_SECOND => getNum leg "maxPacketsPerSecond" 25
      | .ENCRYPTION => c.m_confNumber .ENCRYPTION
    m_confString := fun
      | .SERVER_NAME => getStr leg "serverName" (ascii "Forgotten")
      | .OWNER_NAME => getStr leg "ownerName" []
      | .OWNER_EMAIL => getStr leg "ownerEmail" (ascii "@otland.net")
      | .URL => getStr leg "url" (ascii "http://otland.net/")
      | .LOCATION => getStr leg "location" (ascii "Europe")
      | .MOTD_TEXT => []
      | .LISTEN_ADDR => getStr leg "listenAddr" (ascii "0.0.0.0:7171")
      | .RUNFILE =>
        if c.m_confString .RUNFILE = [] then getStr leg "runFile" (ascii "tfls.pid")
        else c.m_confString .RUNFILE
      | .OUTPUT_LOG =>
        if c.m_confString .OUTPUT_LOG = [] then getStr leg "outputLog" []
        else c.m_confString .OUTPUT_LOG
      | .RSA_PRIME1 => sectionStr leg "rsa" "prime1" rsaPrime1
      | .RSA_PRIME2 => sectionStr leg "rsa" "prime2" rsaPrime2
      | .RSA_PUBLIC => sectionStr leg "rsa" "public" rsaPublic
      | .RSA_MODULUS => sectionStr leg "rsa" "modulus" rsaModulus
      | .RSA_PRIVATE => sectionStr leg "rsa" "private" rsaPrivate
      | what => c.m_confString what
    m_confBool := fun
      | .FREE_PREMIUM => getBool_ leg "freePremium" false
      | .INIT_PREMIUM_UPDATE => getBool_ leg "updatePremiumStateAtStartup" true
      | .ON_OR_OFF_CHARLIST => getBool_ leg "displayOnOrOffAtCharlist" true
      | .DAEMONIZE => getBool_ leg "daemonize" false
      | .TRUNCATE_LOG => getBool_ leg "truncateLogsOnStartup" true
      | .FORCE_CLOSE_SLOW_CONNECTION => getBool_ leg "forceCloseSlowConnection" false
    m_coresUsed := coresOf leg }

def loadDefaults (c : ConfigManager) : ConfigManager :=
  { c with
    m_confNumber := fun
      | .LOGIN_TRIES => 3
      | .RETRY_TIMEOUT => 30000
      | .LOGIN_TIMEOUT => 5000
      | .MAX_PLAYERS => 1000
      | .NICE_LEVEL => 5
      | .MOTD_ID => 1
      | .SERVICE_THREADS => 1
      | .GAMEMASTER_GROUP => 4
      | .MAX_PACKETS_PER_SECOND => 25
      | .ENCRYPTION => c.m_confNumber .ENCRYPTION
    m_confString := fun
      | .SERVER_NAME => ascii "Forgotten"
      | .MOTD_TEXT => []
      | what => c.m_confString what
    m_confBool := fun
      | .ON_OR_OFF_CHARLIST => true
      | .TRUNCATE_LOG => true
      | what => c.m_confBool what
    m_coresUsed := [-1] }

/-- The settings before `reloadMotd` is called. -/
def loadSettings (configDir : List UInt8) (root : Members) (c : ConfigManager) : ConfigManager :=
  let c := loadSections configDir root c
  let c := match section_ root "legacy" with
    | some leg => loadLegacy leg c
    | none => loadDefaults c
  { c with m_loaded := true }

/-- What comes of the request: an exception on the way, or a response, whose body may fail to
parse. -/
inductive Answer where
  | exception
  | response (result : ℕ) (body : Option Json)

def defaultMotd : List UInt8 := ascii "Welcome to Wypas!"

/-- Every way out without a message: an empty text gives way to the default. -/
def keepMotd (c : ConfigManager) : ConfigManager :=
  if c.m_confString .MOTD_TEXT = [] then c.setString .MOTD_TEXT defaultMotd else c

/-- `msg["content"]` of an object, where the accessors do not throw. -/
def contentOf : Json → Option (List UInt8)
  | .object msg =>
    match msg.lookup (ascii "content") with
    | some (.string content) => some content
    | _ => none
  | _ => none

def installMotd (c : ConfigManager) (content : List UInt8) : ConfigManager :=
  if content ≠ [] then
    (c.setString .MOTD_TEXT content).setNumber .MOTD_ID (c.m_confNumber .MOTD_ID + 1)
  else c

def reloadMotd (c : ConfigManager) (answer : Answer) : ConfigManager :=
  if c.m_confString .DISCORD_BOT_TOKEN = [] ∨ c.m_confString .DISCORD_MOTD_CHANNEL = [] then
    keepMotd c
  else match answer with
  | .exception => keepMotd c
  | .response result body =>
    if result ≠ 200 then keepMotd c
    else match body with
    | none => keepMotd c
    | some (.array (msg :: _)) =>
      match contentOf msg with
      | some content => installMotd c content
      | none => keepMotd c
    | some _ => keepMotd c

/-- No document stands for a file that cannot be opened or parsed. -/
def load (c : ConfigManager) (configDir : List UInt8) (document : Option Json) (answer : Answer) :
    Bool × ConfigManager :=
  match document with
  | some (.object root) => (true, reloadMotd (loadSettings configDir root c) answer)
  | _ => (false, c)

/-- The settings that a login reads; the number of the message goes through an `int32_t`. -/
def ConfigManager.config (c : ConfigManager) : Config where
  MOTD_ID := (Int32.ofInt (c.getNumber .MOTD_ID)).toInt
  MOTD_TEXT := c.getString .MOTD_TEXT
  ON_OR_OFF_CHARLIST := c.getBool .ON_OR_OFF_CHARLIST
  FREE_PREMIUM := c.getBool .FREE_PREMIUM
  LOGIN_TRIES := c.getNumber .LOGIN_TRIES
  RETRY_TIMEOUT := c.getNumber .RETRY_TIMEOUT
  LOGIN_TIMEOUT := c.getNumber .LOGIN_TIMEOUT
  ENCRYPTION := c.getNumber .ENCRYPTION
  GAMEMASTER_GROUP := c.getNumber .GAMEMASTER_GROUP
  SERVER_NAME := c.getString .SERVER_NAME
  URL := c.getString .URL

def firstContent : Option Json → Option (List UInt8)
  | some (.array (msg :: _)) => contentOf msg
  | _ => none

def obtained (c : ConfigManager) (answer : Answer) : Option (List UInt8) :=
  if c.m_confString .DISCORD_BOT_TOKEN = [] ∨ c.m_confString .DISCORD_MOTD_CHANNEL = [] then none
  else match answer with
  | .exception => none
  | .response result body => if result ≠ 200 then none else firstContent body

variable {c : ConfigManager}

/-- The six ways out are two: a message is installed, or what is there is kept. -/
theorem reloadMotd_eq (c : ConfigManager) (answer : Answer) :
    reloadMotd c answer = match obtained c answer with
      | some content => installMotd c content
      | none => keepMotd c := by
  unfold reloadMotd obtained
  split
  · rfl
  · cases answer with
    | exception => rfl
    | response result body =>
      dsimp only
      by_cases hresult : result ≠ 200
      · rw [if_pos hresult, if_pos hresult]
      · rw [if_neg hresult, if_neg hresult]
        cases body with
        | none => rfl
        | some body =>
          cases body with
          | array l =>
            cases l with
            | nil => rfl
            | cons msg l =>
              dsimp only [firstContent]
          | _ => rfl

theorem reloadMotd_of_none {answer : Answer} (h : obtained c answer = none) :
    reloadMotd c answer = keepMotd c := by
  rw [reloadMotd_eq, h]

theorem reloadMotd_of_some {answer : Answer} {content : List UInt8}
    (h : obtained c answer = some content) : reloadMotd c answer = installMotd c content := by
  rw [reloadMotd_eq, h]

theorem keepMotd_text (c : ConfigManager) : (keepMotd c).m_confString .MOTD_TEXT =
    if c.m_confString .MOTD_TEXT = [] then defaultMotd else c.m_confString .MOTD_TEXT := by
  rw [keepMotd]
  split
  · rfl
  · rfl

theorem installMotd_nil (c : ConfigManager) : installMotd c [] = c := rfl

theorem installMotd_of_ne {content : List UInt8} (h : content ≠ []) :
    (installMotd c content).m_confString .MOTD_TEXT = content ∧
      (installMotd c content).m_confNumber .MOTD_ID = c.m_confNumber .MOTD_ID + 1 := by
  rw [installMotd, if_pos h]
  exact ⟨rfl, rfl⟩

/-- Settings that agree in all but the message of the day and its number. -/
structure SameSettings (c d : ConfigManager) : Prop where
  loaded : d.m_loaded = c.m_loaded
  string : ∀ what, what ≠ .MOTD_TEXT → d.m_confString what = c.m_confString what
  number : ∀ what, what ≠ .MOTD_ID → d.m_confNumber what = c.m_confNumber what
  bool : d.m_confBool = c.m_confBool
  cores : d.m_coresUsed = c.m_coresUsed

theorem SameSettings.refl (c : ConfigManager) : SameSettings c c :=
  ⟨rfl, fun _ _ => rfl, fun _ _ => rfl, rfl, rfl⟩

theorem keepMotd_same (c : ConfigManager) : SameSettings c (keepMotd c) := by
  rw [keepMotd]
  split
  · exact ⟨rfl, fun _ h => if_neg h, fun _ _ => rfl, rfl, rfl⟩
  · exact SameSettings.refl c

theorem installMotd_same (c : ConfigManager) (content : List UInt8) :
    SameSettings c (installMotd c content) := by
  rw [installMotd]
  split
  · exact ⟨rfl, fun _ h => if_neg h, fun _ h => if_neg h, rfl, rfl⟩
  · exact SameSettings.refl c

theorem reloadMotd_same (c : ConfigManager) (answer : Answer) :
    SameSettings c (reloadMotd c answer) := by
  rw [reloadMotd_eq]
  cases obtained c answer with
  | none => exact keepMotd_same c
  | some content => exact installMotd_same c content

theorem loadSettings_motd (configDir : List UInt8) (root : Members) (c : ConfigManager) :
    (loadSettings configDir root c).m_confString .MOTD_TEXT = [] ∧
      (loadSettings configDir root c).m_confNumber .MOTD_ID = 1 := by
  rw [loadSettings]
  cases section_ root "legacy" with
  | none => exact ⟨rfl, rfl⟩
  | some leg => exact ⟨rfl, rfl⟩

end LoginServer.Configuration
