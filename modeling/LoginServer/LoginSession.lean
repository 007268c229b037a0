import LoginServer.LoginReply
import LoginServer.LoginRequest
import LoginServer.WorldsWire

/-! # A login from the request to the reply

The packet of a client, the judgement of it, what `delegate` decides on the dispatcher thread
whenever it comes to run, and the bytes of the answer, encrypted with the key that came in the
request. -/
namespace LoginServer.LoginSession

open Bytes Message Attempts CharacterList Io LoginRequest LoginReply

def CLIENT_VERSION_STRING : List UInt8 :=
  ascii ("WypasOTS has been updated, please restart the game using launcher!\n" ++
    "Alternatively, you can download portable version from http://wots.pl")

def tooManyAttempts : List UInt8 :=
  ascii "Too many connections attempts from your IP address, please try again later."

def keyOf (l : Message.Login) : Key := fun i => UInt32.ofNat (l.key.getD i 0)

/-- The writes of the answer and the login whose key encrypts them; `u` is the server when the
dispatcher comes to the task. -/
def answerWrites (env : Env) (clientIp : UInt32) (u : Server) :
    Message.Answer → Option (Message.Login × List Call)
  | .rsaFailed _ => none
  | .oldVersion l =>
    if env.outputMessage then some (l, disconnectClient 0x0A CLIENT_VERSION_STRING) else none
  | .disabled l =>
    if env.outputMessage then some (l, disconnectClient 0x0A tooManyAttempts) else none
  | .delegated l =>
    (sent env (delegate env l.name l.password clientIp u).1).map fun calls => (l, calls)

/-- A first packet and the bytes that are sent for it. `s` is the server when the packet comes,
`stale` and `staleOut` what the two messages held before. -/
def exchange (k : ServerKey) (env : Env) (clientIp : UInt32) (s u : Server)
    (stale staleOut : Memory) (f : Frame) : Option (List UInt8) := do
  let disabled := isDisabled env.g_config s.ipLoginMap env.time clientIp protocolId
  let answer ← (judged f k.rsa disabled stale).join
  let (l, calls) ← answerWrites env clientIp u answer
  let (_, m) ← sendCalls (keyOf l) calls (configured staleOut)
  pure (m.m_buffer.read m.m_outputBufferStart m.m_size)

def expected (env : Env) (clientIp : UInt32) (s u : Server) (r : Request) : Reply :=
  if r.version.toNat < CLIENT_VERSION_MIN ∨ r.version.toNat > CLIENT_VERSION_MAX then
    .inl CLIENT_VERSION_STRING
  else if isDisabled env.g_config s.ipLoginMap env.time clientIp protocolId then
    .inl tooManyAttempts
  else replyOf env (delegate env r.login.name r.login.password clientIp u).1

theorem keyOf_login (r : Request) : keyOf r.login = r.key := by
  funext i
  have hwords : ∀ v : UInt32, UInt32.ofNat v.toNat = v := fun v => UInt32.ofNat_toNat
  fin_cases i <;> exact hwords _

theorem answerLogin_cases (isDisabled : Bool) (d s p : ℕ) (l : Message.Login) :
    answerLogin isDisabled d s p l =
      if l.version < CLIENT_VERSION_MIN ∨ l.version > CLIENT_VERSION_MAX then .oldVersion l
      else if isDisabled then .disabled l
      else .delegated l := by
  have hcustom : (l.version < CLIENT_VERSION_MIN ∨ l.version > CLIENT_VERSION_MAX) →
      l.version ≠ CLIENT_VERSION_CUSTOM := by
    simp only [CLIENT_VERSION_MIN, CLIENT_VERSION_MAX, CLIENT_VERSION_CUSTOM]
    omega
  simp only [answerLogin, CLIENT_VERSION_SPR, CLIENT_VERSION_DAT, CLIENT_VERSION_PIC,
    Nat.not_lt_zero, if_false, and_iff_left_of_imp hcustom]

theorem cString_version : cString CLIENT_VERSION_STRING = CLIENT_VERSION_STRING := by
  decide +kernel

theorem cString_attempts : cString tooManyAttempts = tooManyAttempts := by
  decide +kernel

theorem answerWrites_request {env : Env} (hout : env.outputMessage = true) (clientIp : UInt32)
    (s u : Server) (r : Request) :
    answerWrites env clientIp u (answerLogin
        (isDisabled env.g_config s.ipLoginMap env.time clientIp protocolId)
        r.datSignature.toNat r.sprSignature.toNat r.picSignature.toNat r.login) =
      some (r.login, writes (expected env clientIp s u r)) := by
  rw [answerLogin_cases, expected]
  have hversion : r.login.version = r.version.toNat := rfl
  rw [hversion]
  split
  · rw [answerWrites, if_pos hout, disconnectClient, cString_version]
    rfl
  · split
    · rw [answerWrites, if_pos hout, disconnectClient, cString_attempts]
      rfl
    · rw [answerWrites, sent, if_pos hout, packet_writes]
      rfl

theorem expected_proper {env : Env} (hmotd : (motd env.g_config).length < 1300)
    (clientIp : UInt32) (s u : Server) (r : Request) : Proper (expected env clientIp s u r) := by
  rw [expected]
  split
  · trivial
  · split
    · trivial
    · exact replyOf_proper hmotd _

/-- While the pool gives out messages, every login of every client is answered, whatever the
database does, and the client reads from the bytes exactly what was decided about its name and
password just when all of that fits. -/
theorem login_session (k : ServerKey) {env : Env} (hmotd : (motd env.g_config).length < 1300)
    (hout : env.outputMessage = true) (clientIp : UInt32) (s u : Server)
    (stale staleOut : Memory) (r : Request) :
    ∃ wire, exchange k env clientIp s u stale staleOut (r.frame k) = some wire ∧
      (ClientReads r.key (expected env clientIp s u r) wire ↔
        Sendable (expected env clientIp s u r)) := by
  obtain ⟨m, _, hm, _⟩ := sendCalls_run r.key staleOut (writes (expected env clientIp s u r))
  have hreaches := reaches_writes_iff r.key staleOut (expected_proper hmotd clientIp s u r)
  refine ⟨m.m_buffer.read m.m_outputBufferStart m.m_size, ?_, ?_⟩
  · rw [exchange, judged_eq, r.judgement]
    simp only [Option.join_some, Option.bind_eq_bind, Option.bind_some,
      answerWrites_request hout, keyOf_login, hm]
    rfl
  · rw [← hreaches]
    constructor
    · exact fun hreads => ⟨m, hm, hreads⟩
    · rintro ⟨v, hv, hreads⟩
      cases hm.symm.trans hv
      exact hreads

def askName : Request where
  platform := 2
  version := 963
  datSignature := 0
  sprSignature := 0
  picSignature := 0
  key := fun i => UInt32.ofNat (i.val + 1)
  name := ascii "name"
  password := ascii "secret"
  fill := List.replicate 97 0x33
  whole := by decide +kernel

theorem name_session : ∃ wire,
    exchange default plainEnv 0x0100007F bannedServer bannedServer (fun _ => 0) (fun _ => 0)
      (askName.frame default) = some wire ∧
    (ClientReads askName.key (expected plainEnv 0x0100007F bannedServer bannedServer askName) wire ↔
      Sendable (expected plainEnv 0x0100007F bannedServer bannedServer askName)) :=
  login_session default (by decide +kernel) rfl _ _ _ _ _ _

end LoginServer.LoginSession
