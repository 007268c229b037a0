import LoginServer.Written

/-! # Reading back what was written

Numbers of one, two and four bytes and strings with their length. The reader tests its accesses
against the end of the buffer, which lies behind what the writer lets in, so it finds every
accepted value and stops where the writer did. -/
namespace LoginServer.Message

open Faults Bytes

inductive Item where
  | byte (value : UInt8)
  | word (value : UInt16)
  | quad (value : UInt32)
  | text (value : { s : List UInt8 // s.length ≤ 8192 })

inductive Kind where
  | byte
  | word
  | quad
  | text

inductive Value where
  | number (n : ℕ)
  | characters (s : List UInt8)

namespace Item

def kind : Item → Kind
  | byte _ => .byte
  | word _ => .word
  | quad _ => .quad
  | text _ => .text

def value : Item → Value
  | byte v => .number v.toNat
  | word v => .number v.toNat
  | quad v => .number v.toNat
  | text s => .characters s.val

def call : Item → Call
  | byte v => .put 1 v.toNat
  | word v => .put 2 v.toNat
  | quad v => .put 4 v.toNat
  | text s => .putString s.val true

def encode : Item → List UInt8
  | byte v => leBytes 1 v.toNat
  | word v => leBytes 2 v.toNat
  | quad v => leBytes 4 v.toNat
  | text s => leBytes 2 s.val.length ++ s.val

/-- There is room for the encoding behind so many bytes of body. -/
def Fits (written : ℕ) (i : Item) : Prop :=
  NETWORK_CRYPTOHEADER_SIZE + written + i.encode.length < NETWORK_BODY_SIZE

instance (written : ℕ) (i : Item) : Decidable (i.Fits written) :=
  inferInstanceAs (Decidable (_ < _))

end Item

def accepted : ℕ → List Item → List Item
  | _, [] => []
  | written, i :: items =>
    if i.Fits written then i :: accepted (written + i.encode.length) items
    else accepted written items

def getNumber (w : ℕ) : Access NetworkMessage Value := do
  let n ← get w false
  pure (.number n)

def Kind.read : Kind → Access NetworkMessage Value
  | byte => getNumber 1
  | word => getNumber 2
  | quad => getNumber 4
  | text => do
    let s ← getString false 0
    pure (.characters s)

def readAll : List Kind → Access NetworkMessage (List Value)
  | [] => pure []
  | k :: kinds => do
    let v ← k.read
    let values ← readAll kinds
    pure (v :: values)

theorem Item.call_short (i : Item) : i.call.Short := by
  cases i with
  | text s => exact ⟨s.property, rfl⟩
  | _ => trivial

theorem Item.call_encode (i : Item) : i.call.encode = i.encode := by
  cases i with
  | text s => exact Call.encode_short s.property
  | _ => rfl

theorem Item.call_fits (i : Item) (n : ℕ) : i.call.Fits n ↔ i.Fits n := by
  have hlimit : bodyLimit = NETWORK_BODY_SIZE - NETWORK_CRYPTOHEADER_SIZE - 1 := rfl
  have hroom : NETWORK_CRYPTOHEADER_SIZE < NETWORK_BODY_SIZE := by decide
  rw [Call.fits_iff i.call_short, i.call_encode, Item.Fits]
  omega

theorem writeCall_item (body : List UInt8) (i : Item) :
    writeCall body i.call = if i.Fits body.length then body ++ i.encode else body := by
  rw [writeCall, i.call_encode]
  exact if_congr (i.call_fits _) rfl rfl

theorem foldl_writeCall_items (body : List UInt8) (items : List Item) :
    (items.map Item.call).foldl writeCall body =
      body ++ (accepted body.length items).flatMap Item.encode := by
  induction items generalizing body with
  | nil => simp [accepted]
  | cons i items ih =>
    rw [List.map_cons, List.foldl_cons, writeCall_item, accepted]
    by_cases h : i.Fits body.length
    · rw [if_pos h, if_pos h, ih, List.length_append, List.flatMap_cons, List.append_assoc]
    · rw [if_neg h, if_neg h, ih]

theorem runAll_items (stale : Memory) (items : List Item) :
    ∃ u, runAll (items.map Item.call) ⟨0, NETWORK_CRYPTOHEADER_SIZE, stale⟩ = some (⟨⟩, u) ∧
      Holds u ((accepted 0 items).flatMap Item.encode) := by
  obtain ⟨u, hu, hb⟩ := runAll_holds (holds_empty stale) (items.map Item.call)
  rw [foldl_writeCall_items] at hb
  exact ⟨u, hu, hb⟩

theorem put_refused {w value : ℕ} {m : NetworkMessage} (h : ¬ hasSpace m w) :
    put w value m = some (⟨⟩, m) := by
  rw [put, bind_get_run, if_neg h, pure_run]

theorem putString_refused {value : List UInt8} {m : NetworkMessage} {body : List UInt8}
    (h : Holds m body) (hf : ¬ Call.Fits body.length (.putString value true)) :
    putString value true m = some (⟨⟩, m) := by
  rw [putString, bind_get_run, if_pos ((putString_fits h value true).mpr hf), pure_run]

theorem Item.refused {i : Item} {m : NetworkMessage} {body : List UInt8} (h : Holds m body)
    (hf : ¬ i.Fits body.length) : i.call.run m = some (⟨⟩, m) := by
  rw [← i.call_fits] at hf
  cases i with
  | text s => exact putString_refused h hf
  | byte v => exact put_refused fun hs => hf ((hasSpace_iff h 1).mp hs)
  | word v => exact put_refused fun hs => hf ((hasSpace_iff h 2).mp hs)
  | quad v => exact put_refused fun hs => hf ((hasSpace_iff h 4).mp hs)

theorem getNumber_run {w v : ℕ} {m : NetworkMessage} (hv : v < 256 ^ w)
    (hroom : m.m_position + w < NETWORK_MAX_SIZE)
    (h : m.m_buffer.read m.m_position w = leBytes w v) :
    getNumber w m = some (.number v, { m with m_position := m.m_position + w }) := by
  rw [getNumber, bind_of_run (get_run hroom), pure_run, h, ofLe_leBytes, Nat.mod_eq_of_lt hv]

theorem getText_run {s : List UInt8} {m : NetworkMessage} (hs : s.length ≤ 8192)
    (hroom : m.m_position + (2 + s.length) < NETWORK_MAX_SIZE)
    (h : m.m_buffer.read m.m_position (2 + s.length) = leBytes 2 s.length ++ s) :
    getString false 0 m = some (s, { m with m_position := m.m_position + (2 + s.length) }) := by
  rw [Memory.read_add] at h
  obtain ⟨hlen, hchars⟩ := List.append_inj h (by simp)
  have hsize : ofLe (m.m_buffer.read m.m_position 2) = s.length := by
    rw [hlen, ofLe_leBytes, Nat.mod_eq_of_lt (by omega)]
  rw [getString_eq (by omega), hsize, getCharacters_run (by simp only; omega)]
  simp only [hchars, Nat.add_assoc]

theorem Item.read_run {i : Item} {m : NetworkMessage}
    (hroom : m.m_position + i.encode.length < NETWORK_MAX_SIZE)
    (h : m.m_buffer.read m.m_position i.encode.length = i.encode) :
    i.kind.read m = some (i.value, { m with m_position := m.m_position + i.encode.length }) := by
  cases i with
  | byte v =>
    simp only [encode, length_leBytes] at h hroom
    exact getNumber_run v.toNat_lt hroom h
  | word v =>
    simp only [encode, length_leBytes] at h hroom
    exact getNumber_run v.toNat_lt hroom h
  | quad v =>
    simp only [encode, length_leBytes] at h hroom
    exact getNumber_run v.toNat_lt hroom h
  | text s =>
    simp only [encode, List.length_append, length_leBytes] at h hroom
    simp only [kind, Kind.read, encode, List.length_append, length_leBytes]
    rw [bind_of_run (getText_run s.property hroom h), pure_run]
    rfl

/-- The reads that match a sequence of encodings give back its values and pass just over it. -/
theorem readAll_run {items : List Item} {m : NetworkMessage}
    (hroom : m.m_position + (items.flatMap Item.encode).length < NETWORK_MAX_SIZE)
    (h : m.m_buffer.read m.m_position (items.flatMap Item.encode).length =
      items.flatMap Item.encode) :
    readAll (items.map Item.kind) m = some (items.map Item.value,
      { m with m_position := m.m_position + (items.flatMap Item.encode).length }) := by
  induction items generalizing m with
  | nil => rfl
  | cons i items ih =>
    rw [List.flatMap_cons, List.length_append, Memory.read_add] at h
    rw [List.flatMap_cons, List.length_append] at hroom
    obtain ⟨hi, hrest⟩ := List.append_inj h (by simp)
    have htail := @ih { m with m_position := m.m_position + i.encode.length }
      (by simp only; omega) hrest
    rw [List.map_cons, readAll, bind_of_run (i.read_run (by omega) hi), bind_of_run htail,
      pure_run]
    simp only [List.map_cons, List.flatMap_cons, List.length_append, Nat.add_assoc]

/-- Whatever was written on a fresh message, what fitted lies at the start of its body, a write
that does not fit leaves the message as it is, and reading gives the accepted values back. -/
theorem written_read_back (stale : Memory) (items : List Item) :
    ∃ u, runAll (items.map Item.call) ⟨0, NETWORK_CRYPTOHEADER_SIZE, stale⟩ = some (⟨⟩, u) ∧
      u.m_buffer.read NETWORK_CRYPTOHEADER_SIZE u.m_size =
        (accepted 0 items).flatMap Item.encode ∧
      u.m_position = NETWORK_CRYPTOHEADER_SIZE + u.m_size ∧
      (∀ i : Item, ¬ i.Fits u.m_size → i.call.run u = some (⟨⟩, u)) ∧
      readAll ((accepted 0 items).map Item.kind)
        { u with m_position := NETWORK_CRYPTOHEADER_SIZE } =
          some ((accepted 0 items).map Item.value, u) := by
  obtain ⟨u, hu, h⟩ := runAll_items stale items
  have hmax : NETWORK_BODY_SIZE < NETWORK_MAX_SIZE := by decide
  have hroom := h.room
  refine ⟨u, hu, ?_, ?_, ?_, ?_⟩
  · rw [h.size, h.bytes]
  · rw [h.position, h.size]
  · intro i hf
    rw [h.size] at hf
    exact Item.refused h hf
  · rw [readAll_run (by simp only; omega) h.bytes, ← h.position]

end LoginServer.Message
