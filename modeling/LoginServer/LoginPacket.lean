import LoginServer.ReceiveBounds

/-! # Whose bytes judge a login packet

The first packet in closed form, as a function of the whole buffer, and what of it the received
bytes decide. The accessors bound their reads by the buffer and not by the packet, so a packet
that is short in the right places is judged by bytes that an earlier packet left behind. -/
namespace LoginServer.Message

open Faults Bytes

/-- A frame whose header `parseHeader` accepts. -/
structure Frame where
  content : List UInt8
  nonempty : 0 < content.length
  accepted : content.length < NETWORK_MAX_SIZE - 16

namespace Frame

def bytes (f : Frame) : List UInt8 := leBytes 2 f.content.length ++ f.content

def size (f : Frame) : ℕ := f.bytes.length

theorem size_eq (f : Frame) : f.size = f.content.length + 2 := by
  simp [size, bytes, Nat.add_comm]

theorem size_pos (f : Frame) : 2 < f.size := by
  have h := f.nonempty
  have hs := f.size_eq
  omega

theorem size_lt (f : Frame) : f.size < NETWORK_MAX_SIZE - 14 := by
  have h := f.accepted
  have hs := f.size_eq
  simp only [NETWORK_MAX_SIZE] at h ⊢
  omega

/-- The message when the frame has arrived over what the buffer held before. -/
def loaded (f : Frame) (stale : Memory) : NetworkMessage :=
  ⟨f.size, NETWORK_HEADER_SIZE, stale.write 0 f.bytes⟩

theorem receive_loaded {α : Type} (f : Frame) (m : NetworkMessage) (arrived : Memory)
    (handler : Access NetworkMessage α)
    (hheader : m.m_buffer.read 0 2 = leBytes 2 f.content.length)
    (hcontent : arrived.read 0 f.content.length = f.content) :
    receive arrived handler m =
      (handler (f.loaded m.m_buffer)).map fun p => (some p.1, p.2) := by
  have hlen : ofLe (m.m_buffer.read 0 2) = f.content.length := by
    have hlt := f.accepted
    simp only [NETWORK_MAX_SIZE] at hlt
    rw [hheader, ofLe_leBytes]
    exact Nat.mod_eq_of_lt (by omega)
  have hpos := f.nonempty
  have hlt := f.accepted
  have hsize : uint16 (f.content.length + NETWORK_HEADER_SIZE) = f.size := by
    rw [f.size_eq]
    exact uint16_of_lt (by simp only [NETWORK_MAX_SIZE] at hlt; simp [NETWORK_HEADER_SIZE]; omega)
  have hparse : parseHeader m = some (true, ⟨f.size, NETWORK_HEADER_SIZE, m.m_buffer⟩) := by
    rw [parseHeader, bind_of_run (decodeHeader_run m), hlen, if_neg (by omega), setSize,
      bind_of_run (modify_run _ _), writeBuffer, bind_of_run (modify_run _ _), pure_run]
    simp only [hsize]
  have hsub : f.size - 2 = f.content.length := by rw [f.size_eq, Nat.add_sub_cancel]
  have hwrite : m.m_buffer.write 2 f.content = m.m_buffer.write 0 f.bytes := by
    rw [bytes, ← Memory.write_append, ← hheader, Memory.write_read, Memory.length_read]
  have hend : 2 + (arrived.read 0 f.content.length).length ≤ NETWORK_MAX_SIZE := by
    rw [Memory.length_read]
    simp only [NETWORK_MAX_SIZE] at hlt ⊢
    omega
  have hread : readContent arrived ⟨f.size, NETWORK_HEADER_SIZE, m.m_buffer⟩ =
      some ((), f.loaded m.m_buffer) := by
    rw [readContent, bind_get_run]
    simp only [NETWORK_HEADER_SIZE, hsub]
    rw [store_run hend, hcontent]
    simp only [loaded, NETWORK_HEADER_SIZE, hwrite]
  rw [receive, bind_of_run hparse, if_pos rfl, bind_of_run hread, bind_run]
  cases handler (f.loaded m.m_buffer) <;> rfl

theorem loaded_read (f : Frame) (stale : Memory) {p n : ℕ} (h : p + n ≤ f.size) :
    (f.loaded stale).m_buffer.read p n = (f.bytes.drop p).take n :=
  Memory.read_of_read_zero (Memory.read_write _ _ _) h

theorem loaded_apply (f : Frame) (stale : Memory) {i : ℕ} (h : i < f.size) :
    (f.loaded stale).m_buffer i = f.bytes.get ⟨i, h⟩ := by
  have hw := Memory.write_apply_of_mem (m := stale) (p := 0) (l := f.bytes) h
  rwa [Nat.zero_add] at hw

theorem loaded_apply_stale (f : Frame) (stale : Memory) {i : ℕ} (h : f.size ≤ i) :
    (f.loaded stale).m_buffer i = stale i :=
  Memory.write_apply_of_not_mem (Or.inr (by rw [Nat.zero_add]; exact h))

end Frame

def expectedChecksum (n : ℕ) (b : Memory) : ℕ :=
  if n ≤ 6 then 0 else (adler (b.read 6 (n - 6))).toNat

theorem checkChecksum_run {n : ℕ} {b : Memory} (hn : 2 < n) (hlt : n < NETWORK_MAX_SIZE - 14) :
    checkChecksum ⟨n, 2, b⟩ =
      if ofLe (b.read 2 4) = expectedChecksum n b then some (true, ⟨n, 6, b⟩)
      else some (false, ⟨n, 2, b⟩) := by
  have hsum : ∃ checksum, computeChecksum 6 (checksumLength ⟨n, 2, b⟩) ⟨n, 2, b⟩ =
      some (checksum, ⟨n, 2, b⟩) ∧ checksum.toNat = expectedChecksum n b := by
    unfold computeChecksum expectedChecksum
    by_cases h : n ≤ 6
    · have hlength : checksumLength ⟨n, 2, b⟩ = 0 ∨ checksumLength ⟨n, 2, b⟩ > NETWORK_MAX_SIZE := by
        simp only [checksumLength, uint32, NETWORK_MAX_SIZE]
        omega
      rw [if_pos h]
      split
      · exact ⟨0, adlerChecksum_none hlength.symm, rfl⟩
      · exact ⟨0, rfl, rfl⟩
    · have hlength : checksumLength ⟨n, 2, b⟩ = n - 6 := by
        simp only [checksumLength, uint32, NETWORK_MAX_SIZE] at hlt ⊢
        omega
      rw [if_neg h, hlength, if_pos (by omega)]
      refine ⟨_, adlerChecksum_run (by omega) ?_, rfl⟩
      simp only [NETWORK_MAX_SIZE] at hlt ⊢
      omega
  obtain ⟨checksum, hrun, heq⟩ := hsum
  have hpeek : get 4 true ⟨n, 2, b⟩ = some (ofLe (b.read 2 4), ⟨n, 2, b⟩) :=
    get_peek_run (m := ⟨n, 2, b⟩) (by simp [NETWORK_MAX_SIZE])
  have hskip : skip 4 ⟨n, 2, b⟩ = some (⟨⟩, ⟨n, 6, b⟩) := skip_run (m := ⟨n, 2, b⟩) (by simp)
  rw [checkChecksum, bind_get_run, bind_of_run hpeek, bind_of_run hrun, heq]
  split
  · rw [bind_of_run hskip, pure_run]
  · rw [pure_run]

def stringAt (b : Memory) (p : ℕ) : List UInt8 × ℕ :=
  if NETWORK_MAX_SIZE ≤ p + 2 then ([], p)
  else if NETWORK_MAX_SIZE ≤ p + 2 + ofLe (b.read p 2) then ([], p + 2)
  else (b.read (p + 2) (ofLe (b.read p 2)), p + 2 + ofLe (b.read p 2))

theorem stringAt_lt {b : Memory} {p : ℕ} (hp : p < NETWORK_MAX_SIZE) :
    (stringAt b p).2 < NETWORK_MAX_SIZE := by
  rw [stringAt]
  split
  · exact hp
  · split
    · rename_i h _
      exact Nat.lt_of_not_le h
    · rename_i h
      exact Nat.lt_of_not_le h

theorem getString_stringAt {n p : ℕ} {b : Memory} (hp : p < NETWORK_MAX_SIZE) :
    getString false 0 ⟨n, p, b⟩ = some ((stringAt b p).1, ⟨n, (stringAt b p).2, b⟩) := by
  rw [stringAt]
  split
  · rename_i h
    have hget : get 2 false ⟨n, p, b⟩ = some (0, ⟨n, p, b⟩) :=
      get_past_end (m := ⟨n, p, b⟩) (Nat.le_of_lt hp) h
    rw [getString, if_pos rfl, bind_of_run hget]
    exact getCharacters_run (m := ⟨n, p, b⟩) hp
  · rename_i h
    rw [getString_eq (m := ⟨n, p, b⟩) (Nat.lt_of_not_le h)]
    split
    · rename_i hlong
      exact getCharacters_overlong (m := ⟨n, p + 2, b⟩) hlong
    · rename_i hfits
      exact getCharacters_run (m := ⟨n, p + 2, b⟩) (Nat.lt_of_not_le hfits)

def loginAt (version : ℕ) (b : Memory) : Login :=
  let name := stringAt b 17
  ⟨version, [ofLe (b.read 1 4), ofLe (b.read 5 4), ofLe (b.read 9 4), ofLe (b.read 13 4)],
    if name.1 = [] then [0x31, 0x30] else name.1, (stringAt b name.2).1⟩

theorem get_at_run (n p w : ℕ) (b : Memory) (h : p + w < NETWORK_MAX_SIZE) :
    get w false ⟨n, p, b⟩ = some (ofLe (b.read p w), ⟨n, p + w, b⟩) :=
  get_run (m := ⟨n, p, b⟩) h

theorem readLogin_run (version n : ℕ) (b : Memory) :
    ∃ m, readLogin version ⟨n, 1, b⟩ = some (loginAt version b, m) := by
  have hname := getString_stringAt (n := n) (p := 17) (b := b) (by decide)
  have hpass := getString_stringAt (n := n) (p := (stringAt b 17).2) (b := b)
    (stringAt_lt (by decide))
  refine ⟨⟨n, (stringAt b (stringAt b 17).2).2, b⟩, ?_⟩
  rw [readLogin, bind_of_run (get_at_run n 1 4 b (by decide)),
    bind_of_run (get_at_run n 5 4 b (by decide)), bind_of_run (get_at_run n 9 4 b (by decide)),
    bind_of_run (get_at_run n 13 4 b (by decide)), bind_of_run hname, bind_of_run hpass, pure_run]
  rfl

def decrypted (rsa : Rsa) (b : Memory) : Memory :=
  match rsa (b.read 23 128) with
  | some plain => b.write 0 plain.toList
  | none => b

/-- `onRecvFirstMessage` behind the checksum and the protocol byte. -/
def answerAt (rsa : Rsa) (isDisabled : Bool) (n : ℕ) (b : Memory) : Answer :=
  let version := ofLe (b.read 9 2)
  if n = 151 ∧ ofLe ((decrypted rsa b).read 0 1) = 0 then
    answerLogin isDisabled (ofLe (b.read 11 4)) (ofLe (b.read 15 4)) (ofLe (b.read 19 4))
      (loginAt version (decrypted rsa b))
  else .rsaFailed version

theorem onRecvFirstMessage_run (rsa : Rsa) (isDisabled : Bool) {n : ℕ} (b : Memory) :
    ∃ m, onRecvFirstMessage rsa isDisabled ⟨n, 7, b⟩ =
      some (answerAt rsa isDisabled n b, m) := by
  have hskip : skip 2 ⟨n, 7, b⟩ = some (⟨⟩, ⟨n, 9, b⟩) := skip_run (m := ⟨n, 7, b⟩) (by simp)
  rw [onRecvFirstMessage, bind_of_run hskip, bind_of_run (get_at_run n 9 2 b (by decide)),
    bind_of_run (get_at_run n 11 4 b (by decide)), bind_of_run (get_at_run n 15 4 b (by decide)),
    bind_of_run (get_at_run n 19 4 b (by decide))]
  rw [answerAt]
  by_cases hn : n = 151
  · have hrsa : RSA_decrypt rsa ⟨n, 23, b⟩ =
        some (decide (ofLe ((decrypted rsa b).read 0 1) = 0), ⟨n, 1, decrypted rsa b⟩) :=
      RSA_decrypt_run (m := ⟨n, 23, b⟩) (by simp [hn]) (by simp [NETWORK_MAX_SIZE])
    rw [bind_of_run hrsa]
    by_cases hfirst : ofLe ((decrypted rsa b).read 0 1) = 0
    · obtain ⟨m, hm⟩ := readLogin_run (ofLe (b.read 9 2)) n (decrypted rsa b)
      simp only [hfirst, hn, decide_true, and_self, if_true] at hm ⊢
      exact ⟨m, by rw [bind_of_run hm, pure_run]⟩
    · simp only [hfirst, decide_false, and_false, if_false]
      exact ⟨_, rfl⟩
  · have hrsa : RSA_decrypt rsa ⟨n, 23, b⟩ = some (false, ⟨n, 23, b⟩) :=
      RSA_decrypt_refused (m := ⟨n, 23, b⟩) (by simp only [ne_eq]; omega)
    rw [bind_of_run hrsa]
    simp only [hn, false_and, if_false]
    exact ⟨_, rfl⟩

def judgementAt (rsa : Rsa) (isDisabled : Bool) (n : ℕ) (b : Memory) : Option Answer :=
  if ofLe (b.read 2 4) = expectedChecksum n b ∧ b 6 = 1 then some (answerAt rsa isDisabled n b)
  else none

theorem makeProtocol_checked (n : ℕ) (b : Memory) :
    makeProtocol [ProtocolLogin] true ⟨n, 6, b⟩ =
      some (if b 6 = 1 then some ProtocolLogin else none, ⟨n, 7, b⟩) := by
  have hone : ofLe (b.read 6 1) = 1 ↔ b 6 = 1 := by
    rw [ofLe_read_one]
    exact UInt8.toNat_inj (b := 1)
  rw [makeProtocol, bind_of_run (get_at_run n 6 1 b (by decide)), pure_run]
  by_cases h : b 6 = 1
  · simp [ProtocolLogin, hone.mpr h, h]
  · have hne : ¬ 1 = ofLe (b.read 6 1) := fun he => h (hone.mp he.symm)
    simp [ProtocolLogin, hne, h]

theorem makeProtocol_unchecked (n : ℕ) (b : Memory) :
    makeProtocol [ProtocolLogin] false ⟨n, 2, b⟩ = some (none, ⟨n, 3, b⟩) := by
  rw [makeProtocol, bind_of_run (get_at_run n 2 1 b (by decide)), pure_run]
  simp [ProtocolLogin]

theorem firstMessage_run (rsa : Rsa) (isDisabled : Bool) {n : ℕ} (hn : 2 < n)
    (hlt : n < NETWORK_MAX_SIZE - 14) (b : Memory) :
    ∃ m, firstMessage [ProtocolLogin] false rsa isDisabled ⟨n, 2, b⟩ =
      some (judgementAt rsa isDisabled n b, m) := by
  have hcheck := checkChecksum_run (b := b) hn hlt
  unfold firstMessage judgementAt
  by_cases hsum : ofLe (b.read 2 4) = expectedChecksum n b
  · rw [if_pos hsum] at hcheck
    rw [bind_of_run hcheck]
    simp only [Bool.false_eq_true, if_false]
    rw [bind_of_run (makeProtocol_checked n b)]
    by_cases hid : b 6 = 1
    · obtain ⟨m, hm⟩ := onRecvFirstMessage_run rsa isDisabled (n := n) b
      simp only [hid, hsum, and_self, if_true, Option.isSome_some]
      exact ⟨m, by rw [bind_of_run hm, pure_run]⟩
    · simp only [hid, and_false, if_false, Option.isSome_none, Bool.false_eq_true]
      exact ⟨_, rfl⟩
  · rw [if_neg hsum] at hcheck
    rw [bind_of_run hcheck]
    simp only [Bool.false_eq_true, if_false]
    rw [bind_of_run (makeProtocol_unchecked n b)]
    simp only [hsum, false_and, if_false, Option.isSome_none, Bool.false_eq_true]
    exact ⟨_, rfl⟩

/-- The answer that a frame gets in a buffer with these contents beyond it. -/
def judged (f : Frame) (rsa : Rsa) (isDisabled : Bool) (stale : Memory) : Option (Option Answer) :=
  (firstMessage [ProtocolLogin] false rsa isDisabled (f.loaded stale)).map (·.1)

theorem judged_eq (f : Frame) (rsa : Rsa) (isDisabled : Bool) (stale : Memory) :
    judged f rsa isDisabled stale =
      some (judgementAt rsa isDisabled f.size (f.loaded stale).m_buffer) := by
  obtain ⟨m, hm⟩ := firstMessage_run rsa isDisabled f.size_pos f.size_lt (f.loaded stale).m_buffer
  exact congrArg (Option.map (·.1)) hm

end LoginServer.Message
