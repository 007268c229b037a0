import LoginServer.NetworkMessage

/-! # What a sequence of writes leaves in a message

Each write either appends its whole encoding or, when it does not fit, nothing. The list of
written bytes says so without a buffer, and a message refines it: the list lies at the start of
the body, and size and position follow its length. -/
namespace LoginServer.Message

open Faults Bytes

inductive Call where
  | put (w value : ℕ)
  | putString (value : List UInt8) (addSize : Bool)

namespace Call

def run : Call → Access NetworkMessage Unit
  | put w value => Message.put w value
  | putString value addSize => Message.putString value addSize

/-- The bytes of a write that fits; a string of 2^32 bytes or more is cut before it is tested. -/
def encode : Call → List UInt8
  | put w value => leBytes w value
  | putString value true =>
    leBytes 2 (value.length % 4294967296) ++ value.take (value.length % 4294967296)
  | putString value false => value.take (value.length % 4294967296)

def Fits (written : ℕ) : Call → Prop
  | put w _ => NETWORK_CRYPTOHEADER_SIZE + written + w < NETWORK_BODY_SIZE
  | putString value addSize =>
    value.length % 4294967296 ≤ (if addSize then 8192 else NETWORK_BODY_SIZE) ∧
      NETWORK_CRYPTOHEADER_SIZE + written +
        (value.length % 4294967296 + if addSize then 2 else 0) < NETWORK_BODY_SIZE

instance (written : ℕ) (c : Call) : Decidable (c.Fits written) := by
  cases c <;> unfold Fits <;> infer_instance

end Call

def writeCall (body : List UInt8) (c : Call) : List UInt8 :=
  if c.Fits body.length then body ++ c.encode else body

/-- The body after a sequence of writes on an empty message. -/
def written (calls : List Call) : List UInt8 := calls.foldl writeCall []

def runAll : List Call → Access NetworkMessage Unit
  | [] => pure ()
  | c :: calls => do
    c.run
    runAll calls

structure Holds (m : NetworkMessage) (body : List UInt8) : Prop where
  size : m.m_size = body.length
  position : m.m_position = NETWORK_CRYPTOHEADER_SIZE + body.length
  bytes : m.m_buffer.read NETWORK_CRYPTOHEADER_SIZE body.length = body
  room : NETWORK_CRYPTOHEADER_SIZE + body.length < NETWORK_BODY_SIZE

theorem int32_of_lt {n : ℕ} (h : n < 2147483648) : int32 n = n := by
  have hmod : n % 4294967296 = n := Nat.mod_eq_of_lt (by omega)
  rw [int32, hmod, if_pos h]

theorem hasSpace_iff {m : NetworkMessage} {body : List UInt8} (h : Holds m body) (n : ℕ) :
    hasSpace m n ↔ NETWORK_CRYPTOHEADER_SIZE + body.length + n < NETWORK_BODY_SIZE := by
  rw [hasSpace, h.position]
  omega

theorem Holds.append {m : NetworkMessage} {body : List UInt8} (h : Holds m body) {l : List UInt8}
    (hl : NETWORK_CRYPTOHEADER_SIZE + body.length + l.length < NETWORK_BODY_SIZE) :
    ∃ u, Message.append l m = some (⟨⟩, u) ∧ Holds u (body ++ l) := by
  have hroom : m.m_position + l.length ≤ NETWORK_MAX_SIZE := by
    rw [h.position]
    simp only [NETWORK_BODY_SIZE] at hl
    omega
  have hsize : uint16 (m.m_size + l.length) = (body ++ l).length := by
    rw [h.size, List.length_append]
    simp only [NETWORK_BODY_SIZE, NETWORK_MAX_SIZE] at hl
    exact uint16_of_lt (by omega)
  refine ⟨_, append_run hroom, hsize, ?_, ?_, ?_⟩
  · rw [List.length_append, ← Nat.add_assoc, ← h.position]
  · simp only [List.length_append]
    rw [Memory.read_add, ← h.position, Memory.read_write,
      Memory.read_write_of_disjoint (Or.inl (by rw [h.position])), h.bytes]
  · rw [List.length_append, ← Nat.add_assoc]
    exact hl

theorem put_run {m : NetworkMessage} {body : List UInt8} (h : Holds m body) (w value : ℕ) :
    ∃ u, put w value m = some (⟨⟩, u) ∧ Holds u (writeCall body (.put w value)) := by
  unfold put writeCall
  rw [bind_get_run]
  by_cases hf : Call.Fits body.length (.put w value)
  · rw [if_pos ((hasSpace_iff h w).mpr hf), if_pos hf]
    exact h.append (by rw [length_leBytes]; exact hf)
  · rw [if_neg fun hs => hf ((hasSpace_iff h w).mp hs), if_neg hf]
    exact ⟨m, rfl, h⟩

/-- The test of `putString`, whose sum may wrap only where the length is refused anyway. -/
theorem putString_fits {m : NetworkMessage} {body : List UInt8} (h : Holds m body)
    (value : List UInt8) (addSize : Bool) :
    (¬ hasSpace m (int32 (value.length % 4294967296 + if addSize then 2 else 0)) ∨
        value.length % 4294967296 > (if addSize then 8192 else NETWORK_BODY_SIZE)) ↔
      ¬ Call.Fits body.length (.putString value addSize) := by
  have hlimit : (if addSize then 8192 else NETWORK_BODY_SIZE) ≤ 16370 := by
    split <;> decide
  simp only [Call.Fits, not_and_or, Nat.not_le]
  by_cases hlong : value.length % 4294967296 > if addSize then 8192 else NETWORK_BODY_SIZE
  · simp [hlong]
  · have hint : int32 (value.length % 4294967296 + if addSize then 2 else 0) =
        ((value.length % 4294967296 + if addSize then 2 else 0 : ℕ) : ℤ) := by
      apply int32_of_lt
      split <;> omega
    rw [hint, hasSpace_iff h]
    simp [hlong]

theorem putString_run {m : NetworkMessage} {body : List UInt8} (h : Holds m body)
    (value : List UInt8) (addSize : Bool) :
    ∃ u, putString value addSize m = some (⟨⟩, u) ∧
      Holds u (writeCall body (.putString value addSize)) := by
  unfold putString writeCall
  rw [bind_get_run]
  by_cases hf : Call.Fits body.length (.putString value addSize)
  · rw [if_neg fun hs => (putString_fits h value addSize).mp hs hf, if_pos hf]
    obtain ⟨hlimit, hroom⟩ := hf
    have hlen : (value.take (value.length % 4294967296)).length = value.length % 4294967296 := by
      rw [List.length_take]
      have := Nat.mod_le value.length 4294967296
      omega
    cases addSize with
    | false =>
      rw [ifTrue_false, bind_of_run (pure_run _ _)]
      exact h.append (by rw [hlen]; simpa using hroom)
    | true =>
      simp only [if_true] at hroom
      have hword : Call.Fits body.length (.put 2 (value.length % 4294967296)) := by
        simp only [Call.Fits]
        omega
      obtain ⟨u, hu, hb⟩ := put_run h 2 (value.length % 4294967296)
      rw [writeCall, if_pos hword] at hb
      obtain ⟨v, hv, hc⟩ := hb.append (l := value.take (value.length % 4294967296)) (by
        simp only [Call.encode, List.length_append, length_leBytes, hlen]
        omega)
      refine ⟨v, ?_, ?_⟩
      · rw [ifTrue_true, bind_of_run hu, hv]
      · simpa [Call.encode, List.append_assoc] using hc
  · rw [if_pos ((putString_fits h value addSize).mpr hf), if_neg hf]
    exact ⟨m, rfl, h⟩

theorem call_run {m : NetworkMessage} {body : List UInt8} (h : Holds m body) (c : Call) :
    ∃ u, c.run m = some (⟨⟩, u) ∧ Holds u (writeCall body c) := by
  cases c with
  | put w value => exact put_run h w value
  | putString value addSize => exact putString_run h value addSize

theorem runAll_holds {m : NetworkMessage} {body : List UInt8} (h : Holds m body)
    (calls : List Call) :
    ∃ u, runAll calls m = some (⟨⟩, u) ∧ Holds u (calls.foldl writeCall body) := by
  induction calls generalizing m body with
  | nil => exact ⟨m, rfl, h⟩
  | cons c calls ih =>
    obtain ⟨u, hu, hb⟩ := call_run h c
    obtain ⟨v, hv, hc⟩ := ih hb
    exact ⟨v, by rw [runAll, bind_of_run hu, hv], hc⟩

theorem holds_empty (stale : Memory) : Holds ⟨0, NETWORK_CRYPTOHEADER_SIZE, stale⟩ [] :=
  ⟨rfl, rfl, rfl, by decide⟩

/-- After any writes on a fresh message, its body is the list of the written bytes. -/
theorem runAll_written (stale : Memory) (calls : List Call) :
    ∃ u, runAll calls ⟨0, NETWORK_CRYPTOHEADER_SIZE, stale⟩ = some (⟨⟩, u) ∧
      Holds u (written calls) :=
  runAll_holds (holds_empty stale) calls

def Call.Short : Call → Prop
  | put _ _ => True
  | putString value addSize => value.length ≤ 8192 ∧ addSize = true

theorem Call.encode_short {value : List UInt8} (h : value.length ≤ 8192) :
    (Call.putString value true).encode = leBytes 2 value.length ++ value := by
  have hmod : value.length % 4294967296 = value.length := Nat.mod_eq_of_lt (by omega)
  rw [encode, hmod, List.take_length]

/-- How many bytes of body a message takes. -/
def bodyLimit : ℕ := NETWORK_BODY_SIZE - NETWORK_CRYPTOHEADER_SIZE - 1

theorem Call.fits_iff {c : Call} (h : c.Short) (n : ℕ) :
    c.Fits n ↔ n + c.encode.length ≤ bodyLimit := by
  have hlimit : bodyLimit = 16361 := rfl
  cases c with
  | put w value =>
    simp only [Fits, encode, length_leBytes, hlimit, NETWORK_BODY_SIZE, NETWORK_MAX_SIZE,
      NETWORK_CRYPTOHEADER_SIZE, NETWORK_HEADER_SIZE]
    omega
  | putString value addSize =>
    obtain ⟨hlen, rfl⟩ := h
    have hmod : value.length % 4294967296 = value.length := Nat.mod_eq_of_lt (by omega)
    rw [Call.encode_short hlen, List.length_append, length_leBytes, hlimit]
    simp only [Fits, hmod, if_true, NETWORK_BODY_SIZE, NETWORK_MAX_SIZE,
      NETWORK_CRYPTOHEADER_SIZE, NETWORK_HEADER_SIZE]
    omega

theorem written_le (stale : Memory) (calls : List Call) : (written calls).length ≤ bodyLimit := by
  obtain ⟨_, _, h⟩ := runAll_written stale calls
  have hroom := h.room
  simp only [bodyLimit]
  omega

theorem foldl_writeCall {calls : List Call} (h : ∀ c ∈ calls, c.Short) {body : List UInt8}
    (hfit : body.length + (calls.flatMap Call.encode).length ≤ bodyLimit) :
    calls.foldl writeCall body = body ++ calls.flatMap Call.encode := by
  induction calls generalizing body with
  | nil => simp
  | cons c calls ih =>
    obtain ⟨hc, hcalls⟩ := List.forall_mem_cons.mp h
    rw [List.flatMap_cons, List.length_append] at hfit
    have hwrite : writeCall body c = body ++ c.encode :=
      if_pos ((Call.fits_iff hc body.length).mpr (by omega))
    rw [List.foldl_cons, hwrite, ih hcalls (by rw [List.length_append]; omega), List.flatMap_cons,
      List.append_assoc]

theorem written_eq_iff {calls : List Call} (h : ∀ c ∈ calls, c.Short) :
    written calls = calls.flatMap Call.encode ↔
      (calls.flatMap Call.encode).length ≤ bodyLimit := by
  constructor
  · intro he
    rw [← he]
    exact written_le (fun _ => 0) calls
  · intro hfit
    exact foldl_writeCall h (by simpa using hfit)

/-- A call that writes something, with a string whose length fits into two bytes. -/
def Call.Regular : Call → Prop
  | put w _ => 0 < w
  | putString value addSize => value.length < 65536 ∧ addSize = true

theorem Call.Regular.encode_pos {c : Call} (h : c.Regular) : 0 < c.encode.length := by
  cases c with
  | put w value =>
    rw [Call.encode, length_leBytes]
    exact h
  | putString value addSize =>
    obtain ⟨_, rfl⟩ := h
    rw [Call.encode, List.length_append, length_leBytes]
    omega

theorem Call.Regular.short {c : Call} (h : c.Regular) {n : ℕ} (hf : c.Fits n) : c.Short := by
  cases c with
  | put w value => trivial
  | putString value addSize =>
    obtain ⟨hlen, rfl⟩ := h
    have hmod : value.length % 4294967296 = value.length := Nat.mod_eq_of_lt (by omega)
    have hle := hf.1
    rw [hmod, if_pos rfl] at hle
    exact ⟨hle, rfl⟩

theorem length_foldl_writeCall (calls : List Call) (body : List UInt8) :
    (calls.foldl writeCall body).length ≤ body.length + (calls.flatMap Call.encode).length := by
  induction calls generalizing body with
  | nil => simp
  | cons c calls ih =>
    have hle := ih (writeCall body c)
    have hwrite : (writeCall body c).length ≤ body.length + c.encode.length := by
      rw [writeCall]
      split <;> simp
    rw [List.foldl_cons, List.flatMap_cons, List.length_append]
    omega

theorem short_of_whole {calls : List Call} (h : ∀ c ∈ calls, c.Regular) (body : List UInt8)
    (hlen : (calls.foldl writeCall body).length =
      body.length + (calls.flatMap Call.encode).length) : ∀ c ∈ calls, c.Short := by
  induction calls generalizing body with
  | nil => exact fun c hc => absurd hc List.not_mem_nil
  | cons c calls ih =>
    obtain ⟨hc, hcalls⟩ := List.forall_mem_cons.mp h
    have hle := length_foldl_writeCall calls (writeCall body c)
    have hpos := hc.encode_pos
    rw [List.foldl_cons, List.flatMap_cons, List.length_append] at hlen
    by_cases hf : c.Fits body.length
    · rw [writeCall, if_pos hf] at hlen hle
      refine List.forall_mem_cons.mpr ⟨hc.short hf, ih hcalls (body ++ c.encode) ?_⟩
      rw [List.length_append]
      omega
    · rw [writeCall, if_neg hf] at hlen hle
      omega

/-- Without a limit on the strings: nothing is dropped just when no string is refused and
everything fits together. -/
theorem written_whole_iff {calls : List Call} (h : ∀ c ∈ calls, c.Regular) :
    written calls = calls.flatMap Call.encode ↔
      (∀ c ∈ calls, c.Short) ∧ (calls.flatMap Call.encode).length ≤ bodyLimit := by
  constructor
  · intro he
    have hshort := short_of_whole h [] (by rw [← written, he]; simp)
    exact ⟨hshort, (written_eq_iff hshort).mp he⟩
  · rintro ⟨hshort, hfit⟩
    exact (written_eq_iff hshort).mpr hfit

end LoginServer.Message
