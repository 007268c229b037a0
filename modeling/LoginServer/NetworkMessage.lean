import LoginServer.Library.Faults
import LoginServer.Library.Bytes
import Mathlib.Data.Int.Notation

/-! # The message buffer

The accessors of `NetworkMessage` over a byte memory of which the object owns the first
`NETWORK_MAX_SIZE` cells: any other access is a fault. The 16-bit fields wrap where the source
assigns them; bounds are tested in the source's signed or unsigned arithmetic. -/
namespace LoginServer.Message

open Faults Bytes

def NETWORK_HEADER_SIZE : ℕ := 2
def NETWORK_CRYPTOHEADER_SIZE : ℕ := NETWORK_HEADER_SIZE + 6
def NETWORK_MAX_SIZE : ℕ := 16384
def NETWORK_BODY_SIZE : ℕ := NETWORK_MAX_SIZE - NETWORK_CRYPTOHEADER_SIZE - 6

/-- `m_buffer` from `NETWORK_MAX_SIZE` on belongs to somebody else. -/
structure NetworkMessage where
  m_size : ℕ
  m_position : ℕ
  m_buffer : Memory

def uint16 (n : ℕ) : ℕ := n % 65536
def uint32 (n : ℤ) : ℕ := (n % 4294967296).toNat
def int32 (n : ℕ) : ℤ :=
  if n % 4294967296 < 2147483648 then (n % 4294967296 : ℕ) else (n % 4294967296 : ℕ) - 4294967296

def load (p n : ℕ) : Access NetworkMessage (List UInt8) := fun m =>
  if p + n ≤ NETWORK_MAX_SIZE then some (m.m_buffer.read p n, m) else none

def store (p : ℕ) (l : List UInt8) : Access NetworkMessage Unit := fun m =>
  if p + l.length ≤ NETWORK_MAX_SIZE then
    some ((), { m with m_buffer := m.m_buffer.write p l }) else none

def reset : Access NetworkMessage Unit :=
  modify fun m => { m with m_size := 0, m_position := NETWORK_CRYPTOHEADER_SIZE }

def setSize (size : ℕ) : Access NetworkMessage Unit :=
  modify fun m => { m with m_size := uint16 size }

def setPosition (position : ℕ) : Access NetworkMessage Unit :=
  modify fun m => { m with m_position := uint16 position }

def skip (count : ℕ) : Access NetworkMessage Unit :=
  modify fun m => { m with m_position := uint16 (m.m_position + count) }

/-- `get<T>` for a `T` of `w` bytes. -/
def get (w : ℕ) (peek : Bool) : Access NetworkMessage ℕ := do
  let m ← MonadState.get
  if w ≥ uint32 (NETWORK_MAX_SIZE - m.m_position) then pure 0
  else do
    let value ← load m.m_position w
    if peek then pure (ofLe value)
    else do
      skip w
      pure (ofLe value)

/-- The characters of `getString`, once their number is known. -/
def getCharacters (peek : Bool) (size : ℕ) : Access NetworkMessage (List UInt8) := do
  let m ← MonadState.get
  if (size : ℤ) ≥ NETWORK_MAX_SIZE - (if peek then uint16 (m.m_position + 2) else m.m_position)
  then pure []
  else do
    let v ← load (if peek then uint16 (m.m_position + 2) else m.m_position) size
    if peek then pure v
    else do
      skip size
      pure v

/-- `getString`; a size argument of 0 means that the message says how many. -/
def getString (peek : Bool) (size : ℕ) : Access NetworkMessage (List UInt8) :=
  (if size = 0 then get 2 peek else pure size) >>= getCharacters peek

/-- `getRaw`: the size argument is the 16 bits of the difference. -/
def getRaw (peek : Bool) : Access NetworkMessage (List UInt8) := do
  let m ← MonadState.get
  getString peek (((m.m_size : ℤ) - m.m_position) % 65536).toNat

def hasSpace (m : NetworkMessage) (size : ℤ) : Prop := size + m.m_position < NETWORK_BODY_SIZE

instance (m : NetworkMessage) (size : ℤ) : Decidable (hasSpace m size) :=
  inferInstanceAs (Decidable (_ < _))

/-- The bytes go in at the position, which moves with the size. -/
def append (l : List UInt8) : Access NetworkMessage Unit := do
  let m ← MonadState.get
  store m.m_position l
  modify fun m => { m with
    m_position := uint16 (m.m_position + l.length), m_size := uint16 (m.m_size + l.length) }

/-- `put<T>` for a `T` of `w` bytes. -/
def put (w value : ℕ) : Access NetworkMessage Unit := do
  let m ← MonadState.get
  if hasSpace m w then append (leBytes w value) else pure ()

/-- `putString`; the length of a longer string is cut to 32 bits. -/
def putString (value : List UInt8) (addSize : Bool) : Access NetworkMessage Unit := do
  let size := value.length % 4294967296
  let m ← MonadState.get
  if ¬ hasSpace m (int32 (size + if addSize then 2 else 0)) ∨
      size > (if addSize then 8192 else NETWORK_BODY_SIZE) then pure ()
  else do
    ifTrue addSize (put 2 size)
    append (value.take size)

/-- The padding is set behind the position, which stays where it is. -/
def putPadding (amount : ℕ) : Access NetworkMessage Unit := do
  let m ← MonadState.get
  if hasSpace m (int32 amount) then do
    store m.m_position (List.replicate amount 0x33)
    modify fun m => { m with m_size := uint16 (m.m_size + amount) }
  else pure ()

def decodeHeader : Access NetworkMessage ℕ := do
  let size ← load 0 2
  setSize (ofLe size)
  pure (ofLe size)

def writeBuffer : Access NetworkMessage Unit :=
  modify fun m => { m with m_position := NETWORK_HEADER_SIZE }

theorem load_run {p n : ℕ} {m : NetworkMessage} (h : p + n ≤ NETWORK_MAX_SIZE) :
    load p n m = some (m.m_buffer.read p n, m) := if_pos h

theorem store_run {p : ℕ} {l : List UInt8} {m : NetworkMessage}
    (h : p + l.length ≤ NETWORK_MAX_SIZE) :
    store p l m = some ((), { m with m_buffer := m.m_buffer.write p l }) := if_pos h

theorem uint16_of_lt {n : ℕ} (h : n < 65536) : uint16 n = n := Nat.mod_eq_of_lt h

theorem uint32_remaining {p : ℕ} (h : p ≤ NETWORK_MAX_SIZE) :
    uint32 (NETWORK_MAX_SIZE - p) = NETWORK_MAX_SIZE - p := by
  simp only [uint32, NETWORK_MAX_SIZE] at h ⊢
  omega

theorem skip_run {count : ℕ} {m : NetworkMessage} (h : m.m_position + count < 65536) :
    skip count m = some (⟨⟩, { m with m_position := m.m_position + count }) := by
  simp [skip, modify_run, uint16_of_lt h]

theorem get_run {w : ℕ} {m : NetworkMessage} (h : m.m_position + w < NETWORK_MAX_SIZE) :
    get w false m = some (ofLe (m.m_buffer.read m.m_position w),
      { m with m_position := m.m_position + w }) := by
  have hw : ¬ w ≥ uint32 (NETWORK_MAX_SIZE - m.m_position) := by
    rw [uint32_remaining (by omega)]
    omega
  have hs : m.m_position + w < 65536 := by
    simp only [NETWORK_MAX_SIZE] at h
    omega
  rw [get, bind_get_run, if_neg hw, bind_of_run (load_run (by omega))]
  simp only [Bool.false_eq_true, if_false]
  rw [bind_of_run (skip_run hs), pure_run]

theorem get_past_end {w : ℕ} {peek : Bool} {m : NetworkMessage}
    (hp : m.m_position ≤ NETWORK_MAX_SIZE) (h : NETWORK_MAX_SIZE ≤ m.m_position + w) :
    get w peek m = some (0, m) := by
  have hw : w ≥ uint32 (NETWORK_MAX_SIZE - m.m_position) := by
    rw [uint32_remaining hp]
    omega
  rw [get, bind_get_run, if_pos hw, pure_run]

theorem get_peek_run {w : ℕ} {m : NetworkMessage} (h : m.m_position + w < NETWORK_MAX_SIZE) :
    get w true m = some (ofLe (m.m_buffer.read m.m_position w), m) := by
  have hw : ¬ w ≥ uint32 (NETWORK_MAX_SIZE - m.m_position) := by
    rw [uint32_remaining (by omega)]
    omega
  rw [get, bind_get_run, if_neg hw, bind_of_run (load_run (by omega)), if_pos rfl, pure_run]

theorem getCharacters_run {m : NetworkMessage} {n : ℕ}
    (h : m.m_position + n < NETWORK_MAX_SIZE) :
    getCharacters false n m = some (m.m_buffer.read m.m_position n,
      { m with m_position := m.m_position + n }) := by
  have hfits : ¬ (n : ℤ) ≥ NETWORK_MAX_SIZE - m.m_position := by omega
  have hs : m.m_position + n < 65536 := by
    simp only [NETWORK_MAX_SIZE] at h
    omega
  rw [getCharacters, bind_get_run]
  simp only [Bool.false_eq_true, if_false]
  rw [if_neg hfits, bind_of_run (load_run (by omega)), bind_of_run (skip_run hs), pure_run]

/-- A number of characters that does not fit in the buffer leaves the empty string. -/
theorem getCharacters_overlong {m : NetworkMessage} {n : ℕ}
    (h : NETWORK_MAX_SIZE ≤ m.m_position + n) : getCharacters false n m = some ([], m) := by
  have hlong : (n : ℤ) ≥ NETWORK_MAX_SIZE - m.m_position := by omega
  rw [getCharacters, bind_get_run]
  simp only [Bool.false_eq_true, if_false]
  rw [if_pos hlong, pure_run]

theorem getString_eq {m : NetworkMessage} (h : m.m_position + 2 < NETWORK_MAX_SIZE) :
    getString false 0 m = getCharacters false (ofLe (m.m_buffer.read m.m_position 2))
      { m with m_position := m.m_position + 2 } := by
  rw [getString, if_pos rfl, bind_of_run (get_run h)]

/-- The position is in the buffer or just behind it. -/
def InBuffer (m : NetworkMessage) : Prop := m.m_position ≤ NETWORK_MAX_SIZE

theorem get_total (w : ℕ) (peek : Bool) :
    Total InBuffer (get w peek) (fun _ => InBuffer) := by
  intro m hm
  by_cases h : m.m_position + w < NETWORK_MAX_SIZE
  · cases peek with
    | false => exact ⟨_, _, get_run h, Nat.le_of_lt h⟩
    | true => exact ⟨_, _, get_peek_run h, hm⟩
  · exact ⟨_, _, get_past_end hm (by omega), hm⟩

theorem getCharacters_total (peek : Bool) (n : ℕ) :
    Total InBuffer (getCharacters peek n) (fun _ => InBuffer) := by
  apply Total.get
  intro m hm
  apply Total.ite (fun _ => Total.pure fun u hu => hu ▸ hm)
  intro hn
  have hfits : (if peek then uint16 (m.m_position + 2) else m.m_position) + n <
      NETWORK_MAX_SIZE := by omega
  rintro u rfl
  rw [bind_of_run (load_run (Nat.le_of_lt hfits))]
  cases peek with
  | true => exact ⟨_, _, rfl, hm⟩
  | false =>
    simp only [Bool.false_eq_true, if_false] at hfits ⊢
    have hs : u.m_position + n < 65536 := by
      simp only [NETWORK_MAX_SIZE] at hfits
      omega
    exact ⟨_, _, by rw [bind_of_run (skip_run hs), pure_run], Nat.le_of_lt hfits⟩

theorem getString_total (peek : Bool) (size : ℕ) :
    Total InBuffer (getString peek size) (fun _ => InBuffer) := by
  have hsize : Total InBuffer (if size = 0 then get 2 peek else pure size)
      (fun _ => InBuffer) :=
    Total.ite (fun _ => get_total 2 peek) fun _ => Total.pure fun _ hm => hm
  exact Total.bind hsize fun n => getCharacters_total peek n

theorem append_run {l : List UInt8} {m : NetworkMessage}
    (h : m.m_position + l.length ≤ NETWORK_MAX_SIZE) :
    append l m = some (⟨⟩, { m with
      m_buffer := m.m_buffer.write m.m_position l
      m_position := m.m_position + l.length
      m_size := uint16 (m.m_size + l.length) }) := by
  have hs : m.m_position + l.length < 65536 := by
    simp only [NETWORK_MAX_SIZE] at h
    omega
  rw [append, bind_get_run, bind_of_run (store_run h), modify_run]
  simp only [uint16_of_lt hs]

theorem decodeHeader_run (m : NetworkMessage) :
    decodeHeader m = some (ofLe (m.m_buffer.read 0 2),
      { m with m_size := ofLe (m.m_buffer.read 0 2) }) := by
  have hlt : ofLe (m.m_buffer.read 0 2) < 65536 := by
    have h := ofLe_lt (m.m_buffer.read 0 2)
    rwa [Memory.length_read] at h
  rw [decodeHeader, bind_of_run (load_run (by decide)), setSize, bind_of_run (modify_run _ _),
    pure_run]
  simp only [uint16_of_lt hlt]

end LoginServer.Message
