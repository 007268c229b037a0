import LoginServer.Protocol

/-! # The receive path

What `Connection` does to its message from the header on, up to the protocol's handler. asio
fills the buffer between the steps; the bytes it brings are arguments. -/
namespace LoginServer.Message

open Faults Bytes

/-- The part of `parseHeader` about the message: whether the size is accepted. -/
def parseHeader : Access NetworkMessage Bool := do
  let size ← decodeHeader
  if size ≤ 0 ∨ size ≥ NETWORK_MAX_SIZE - 16 then pure false
  else do
    setSize (size + NETWORK_HEADER_SIZE)
    writeBuffer
    pure true

/-- The length that `parsePacket` takes for the checksum: it wraps for a packet of less than
four bytes. -/
def checksumLength (m : NetworkMessage) : ℕ := uint32 ((m.m_size : ℤ) - m.m_position - 4)

def computeChecksum (data length : ℕ) : Access NetworkMessage UInt32 :=
  if length > 0 then adlerChecksum data length else pure 0

/-- The checksum test of `parsePacket`; it answers `checksumEnabled`. -/
def checkChecksum : Access NetworkMessage Bool := do
  let m ← MonadState.get
  let checksumReceived ← get 4 true
  let checksum ← computeChecksum (m.m_position + 4) (checksumLength m)
  if checksumReceived = checksum.toNat then do
    skip 4
    pure true
  else pure false

structure Service where
  protocolId : ℕ
  hasChecksum : Bool
  deriving DecidableEq

def ProtocolLogin : Service := ⟨0x01, true⟩

def makeProtocol (m_services : List Service) (checksum : Bool) :
    Access NetworkMessage (Option Service) := do
  let protocolId ← get 1 false
  pure (m_services.find? fun it =>
    it.protocolId = protocolId ∧ ((checksum = true ∧ it.hasChecksum = true) ∨
      it.hasChecksum = false))

def CLIENT_VERSION_MIN : ℕ := 963
def CLIENT_VERSION_MAX : ℕ := 9632
def CLIENT_VERSION_CUSTOM : ℕ := 964
def CLIENT_VERSION_DAT : ℕ := 0
def CLIENT_VERSION_SPR : ℕ := 0
def CLIENT_VERSION_PIC : ℕ := 0

structure Login where
  version : ℕ
  key : List ℕ
  name : List UInt8
  password : List UInt8
  deriving DecidableEq

/-- How `onRecvFirstMessage` ends: the connection is closed, the client is told to update or to
wait, or `delegate` is queued. -/
inductive Answer where
  | rsaFailed (version : ℕ)
  | oldVersion (l : Login)
  | disabled (l : Login)
  | delegated (l : Login)
  deriving DecidableEq

/-- The tests behind the decryption; `isDisabled` says what the manager answers for the IP. -/
def answerLogin (isDisabled : Bool) (datSignature sprSignature picSignature : ℕ) (l : Login) :
    Answer :=
  if (l.version < CLIENT_VERSION_MIN ∨ l.version > CLIENT_VERSION_MAX) ∧
      l.version ≠ CLIENT_VERSION_CUSTOM then .oldVersion l
  else if sprSignature < CLIENT_VERSION_SPR then .oldVersion l
  else if datSignature < CLIENT_VERSION_DAT then .oldVersion l
  else if picSignature < CLIENT_VERSION_PIC then .oldVersion l
  else if isDisabled then .disabled l
  else .delegated l

/-- The key words and the two strings; an empty name stands for account 10. -/
def readLogin (version : ℕ) : Access NetworkMessage Login := do
  let k0 ← get 4 false
  let k1 ← get 4 false
  let k2 ← get 4 false
  let k3 ← get 4 false
  let name ← getString false 0
  let password ← getString false 0
  pure ⟨version, [k0, k1, k2, k3], if name = [] then [0x31, 0x30] else name, password⟩

def onRecvFirstMessage (rsa : Rsa) (isDisabled : Bool) : Access NetworkMessage Answer := do
  skip 2
  let version ← get 2 false
  let datSignature ← get 4 false
  let sprSignature ← get 4 false
  let picSignature ← get 4 false
  let decrypted ← RSA_decrypt rsa
  if decrypted then do
    let l ← readLogin version
    pure (answerLogin isDisabled datSignature sprSignature picSignature l)
  else pure (.rsaFailed version)

/-- A first packet, from the checksum test on; no answer means that no protocol was made.
`attached` is a protocol that the connection was given when it was accepted. -/
def firstMessage (m_services : List Service) (attached : Bool) (rsa : Rsa) (isDisabled : Bool) :
    Access NetworkMessage (Option Answer) := do
  let checksumEnabled ← checkChecksum
  if attached then do
    skip 1
    let answer ← onRecvFirstMessage rsa isDisabled
    pure (some answer)
  else do
    let protocol ← makeProtocol m_services checksumEnabled
    if protocol.isSome then do
      let answer ← onRecvFirstMessage rsa isDisabled
      pure (some answer)
    else pure none

/-- A later packet, from the checksum test on: whether the checksum matched, and whether the
message reaches the protocol's `parsePacket`. -/
def laterMessage (p : Protocol) : Access NetworkMessage (Bool × Bool) := do
  let checksumEnabled ← checkChecksum
  let handled ← onRecvMessage p
  pure (checksumEnabled, handled)

def readContent (arrived : Memory) : Access NetworkMessage Unit := do
  let m ← MonadState.get
  store m.m_position (arrived.read 0 (m.m_size - NETWORK_HEADER_SIZE))

/-- From the header to the end of the handler; no answer means that the header was refused. -/
def receive {α : Type} (arrived : Memory) (handler : Access NetworkMessage α) :
    Access NetworkMessage (Option α) := do
  let accepted ← parseHeader
  if accepted then do
    readContent arrived
    let a ← handler
    pure (some a)
  else pure none

end LoginServer.Message
