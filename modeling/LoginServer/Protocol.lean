import LoginServer.Tools
import LoginServer.Xtea

/-! # Encryption and framing of a protocol's messages

`OutputMessage`, whose headers grow backwards from the body, and the `Protocol` functions that
turn a message into a frame and a frame back into a message. The RSA private operation belongs
to a library: it is a function of the ciphertext that answers a plaintext or leaves the buffer
as it is. -/
namespace LoginServer.Message

open Faults Bytes

structure OutputMessage extends NetworkMessage where
  m_outputBufferStart : ℕ

def base {α : Type} (f : Access NetworkMessage α) : Access OutputMessage α :=
  zoom (·.toNetworkMessage) (fun s m => { s with toNetworkMessage := m }) f

/-- `header<T>` for a `T` of `w` bytes. -/
def header (w value : ℕ) : Access OutputMessage Unit := do
  let m ← MonadState.get
  if (m.m_outputBufferStart : ℤ) - w < 0 then pure ()
  else do
    base (store (m.m_outputBufferStart - w) (leBytes w value))
    modify fun u => { u with
      m_outputBufferStart := m.m_outputBufferStart - w
      m_size := uint16 (u.m_size + w) }

def addHeader : Access OutputMessage Unit := do
  let m ← MonadState.get
  header 2 m.m_size

def addChecksumHeader : Access OutputMessage Unit := do
  let m ← MonadState.get
  let checksum ← base (adlerChecksum m.m_outputBufferStart m.m_size)
  header 4 checksum.toNat

def addCryptoHeader (addChecksum : Bool) : Access OutputMessage Unit := do
  ifTrue addChecksum addChecksumHeader
  addHeader

/-- A message that `configureOutputMessage` has just handed out: what an earlier use wrote is
still in the buffer. -/
def configured (stale : Memory) : OutputMessage :=
  ⟨⟨0, NETWORK_CRYPTOHEADER_SIZE, stale⟩, NETWORK_CRYPTOHEADER_SIZE⟩

structure Protocol where
  m_rawMessages : Bool
  m_encryptionEnabled : Bool
  m_checksumEnabled : Bool
  m_key : Key

/-- The encrypted length is the padded one, whether or not the padding found space. -/
def XTEA_encrypt (m_key : Key) : Access OutputMessage Unit := do
  let m ← MonadState.get
  if m.m_size % 8 ≠ 0 then do
    base (putPadding (8 - m.m_size % 8))
    base (cryptWords (encryptWords m_key) m.m_outputBufferStart
      (uint16 (m.m_size + (8 - m.m_size % 8)) / 8))
  else base (cryptWords (encryptWords m_key) m.m_outputBufferStart (m.m_size / 8))

def XTEA_decrypt (m_key : Key) : Access NetworkMessage Bool := do
  let m ← MonadState.get
  if ((m.m_size : ℤ) - 6).tmod 8 ≠ 0 then pure false
  else do
    cryptWords (decryptWords m_key) m.m_position (((m.m_size : ℤ) - 6) / 8).toNat
    let tmp ← get 2 false
    let m ← MonadState.get
    if (tmp : ℤ) > m.m_size - 8 then pure false
    else do
      setSize tmp
      pure true

abbrev Rsa := List UInt8 → Option (Vector UInt8 128)

/-- The library call: the plaintext goes to the start of the buffer, unless the call fails. -/
def RSA_private_decrypt (rsa : Rsa) (position : ℕ) : Access NetworkMessage Unit := do
  let cipher ← load position 128
  match rsa cipher with
  | some plain => store 0 plain.toList
  | none => pure ()

def RSA_decrypt (rsa : Rsa) : Access NetworkMessage Bool := do
  let m ← MonadState.get
  if (m.m_size : ℤ) - m.m_position ≠ 128 then pure false
  else do
    RSA_private_decrypt rsa m.m_position
    setSize m.m_size
    setPosition 0
    let first ← get 1 false
    pure (first = 0)

def onSendMessage (p : Protocol) : Access OutputMessage Unit :=
  if p.m_rawMessages then pure ()
  else do
    addHeader
    ifTrue p.m_encryptionEnabled (XTEA_encrypt p.m_key)
    ifTrue p.m_checksumEnabled (addCryptoHeader true)

/-- Whether the message reaches `parsePacket`, which does nothing with it here. -/
def onRecvMessage (p : Protocol) : Access NetworkMessage Bool :=
  if p.m_encryptionEnabled then XTEA_decrypt p.m_key else pure true

def rsaBuffer (rsa : Rsa) (m : NetworkMessage) : Memory :=
  match rsa (m.m_buffer.read m.m_position 128) with
  | some plain => m.m_buffer.write 0 plain.toList
  | none => m.m_buffer

theorem RSA_private_decrypt_run {rsa : Rsa} {m : NetworkMessage}
    (h : m.m_position + 128 ≤ NETWORK_MAX_SIZE) :
    RSA_private_decrypt rsa m.m_position m = some ((), { m with m_buffer := rsaBuffer rsa m }) := by
  rw [RSA_private_decrypt, bind_of_run (load_run h), rsaBuffer]
  cases rsa (m.m_buffer.read m.m_position 128) with
  | none => rfl
  | some plain => exact store_run (by simp [NETWORK_MAX_SIZE])

theorem RSA_decrypt_refused {rsa : Rsa} {m : NetworkMessage}
    (h : (m.m_size : ℤ) - m.m_position ≠ 128) : RSA_decrypt rsa m = some (false, m) := by
  rw [RSA_decrypt, bind_get_run, if_pos h, pure_run]

theorem RSA_decrypt_run {rsa : Rsa} {m : NetworkMessage}
    (h : (m.m_size : ℤ) - m.m_position = 128) (hp : m.m_position + 128 ≤ NETWORK_MAX_SIZE) :
    RSA_decrypt rsa m = some (decide (ofLe ((rsaBuffer rsa m).read 0 1) = 0),
      ⟨m.m_size, 1, rsaBuffer rsa m⟩) := by
  have hsize : uint16 m.m_size = m.m_size := by
    simp only [uint16, NETWORK_MAX_SIZE] at hp ⊢
    omega
  have hget : ∀ b : Memory, get 1 false ⟨m.m_size, 0, b⟩ =
      some (ofLe (b.read 0 1), ⟨m.m_size, 1, b⟩) := fun b =>
    get_run (m := ⟨m.m_size, 0, b⟩) (by simp [NETWORK_MAX_SIZE])
  rw [RSA_decrypt, bind_get_run, if_neg (not_not_intro h),
    bind_of_run (RSA_private_decrypt_run hp), setSize, bind_of_run (modify_run _ _), setPosition,
    bind_of_run (modify_run _ _)]
  simp only [hsize]
  rw [show uint16 0 = 0 from rfl, bind_of_run (hget _), pure_run]

end LoginServer.Message
