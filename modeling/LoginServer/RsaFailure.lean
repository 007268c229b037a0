import LoginServer.ChecksumTest

/-! # A failed RSA operation

`RSA_decrypt` does not look at the result of the library call. A call that fails leaves the
header at the start of the buffer, and the first byte, which is then taken for the first byte of
the plaintext, is the low byte of the length of a frame that has 128 bytes at the right place. -/
namespace LoginServer.Message

open Faults Bytes

structure Preface where
  version : ℕ
  datSignature : ℕ
  sprSignature : ℕ
  picSignature : ℕ

def readPreface : Access NetworkMessage Preface := do
  skip 2
  let version ← get 2 false
  let datSignature ← get 4 false
  let sprSignature ← get 4 false
  let picSignature ← get 4 false
  pure ⟨version, datSignature, sprSignature, picSignature⟩

/-- `onRecvFirstMessage` from the call of `RSA_decrypt` on. -/
def decryptLogin (rsa : Rsa) (isDisabled : Bool) (p : Preface) : Access NetworkMessage Answer := do
  let decrypted ← RSA_decrypt rsa
  if decrypted then do
    let l ← readLogin p.version
    pure (answerLogin isDisabled p.datSignature p.sprSignature p.picSignature l)
  else pure (.rsaFailed p.version)

/-- `firstMessage` up to the call of `RSA_decrypt`, if it comes to that. -/
def untilDecrypt (m_services : List Service) (attached : Bool) :
    Access NetworkMessage (Option Preface) := do
  let checksumEnabled ← checkChecksum
  if attached then do
    skip 1
    let p ← readPreface
    pure (some p)
  else do
    let protocol ← makeProtocol m_services checksumEnabled
    if protocol.isSome then do
      let p ← readPreface
      pure (some p)
    else pure none

theorem onRecvFirstMessage_eq (rsa : Rsa) (isDisabled : Bool) :
    onRecvFirstMessage rsa isDisabled = readPreface >>= decryptLogin rsa isDisabled := by
  simp only [onRecvFirstMessage, readPreface, decryptLogin, bind_assoc, pure_bind]

theorem firstMessage_eq (m_services : List Service) (attached : Bool) (rsa : Rsa)
    (isDisabled : Bool) :
    firstMessage m_services attached rsa isDisabled =
      untilDecrypt m_services attached >>= fun p => match p with
        | some p => some <$> decryptLogin rsa isDisabled p
        | none => pure none := by
  cases attached with
  | true =>
    simp only [firstMessage, untilDecrypt, onRecvFirstMessage_eq, if_true, bind_assoc, pure_bind,
      map_eq_pure_bind]
  | false =>
    simp only [firstMessage, untilDecrypt, onRecvFirstMessage_eq, Bool.false_eq_true, if_false,
      bind_assoc, map_eq_pure_bind]
    refine congrArg _ (funext fun checksumEnabled => congrArg _ (funext fun protocol => ?_))
    cases protocol with
    | none => rfl
    | some s => simp only [Option.isSome_some, if_true, bind_assoc, pure_bind]

theorem readPreface_run {n p : ℕ} {b : Memory} (hp : p ≤ 7) :
    ∃ preface, readPreface ⟨n, p, b⟩ = some (preface, ⟨n, p + 16, b⟩) := by
  have hmax : ∀ k, k ≤ 16 → p + k < NETWORK_MAX_SIZE := fun k hk => by
    simp only [NETWORK_MAX_SIZE]
    omega
  have hskip : skip 2 ⟨n, p, b⟩ = some (⟨⟩, ⟨n, p + 2, b⟩) :=
    skip_run (m := ⟨n, p, b⟩) (by simp only; omega)
  refine ⟨⟨ofLe (b.read (p + 2) 2), ofLe (b.read (p + 4) 4), ofLe (b.read (p + 8) 4),
    ofLe (b.read (p + 12) 4)⟩, ?_⟩
  rw [readPreface, bind_of_run hskip, bind_of_run (get_at_run n (p + 2) 2 b (hmax 4 (by decide))),
    bind_of_run (get_at_run n (p + 4) 4 b (hmax 8 (by decide))),
    bind_of_run (get_at_run n (p + 8) 4 b (hmax 12 (by decide))),
    bind_of_run (get_at_run n (p + 12) 4 b (hmax 16 (by decide))), pure_run]

/-- Before the decryption the buffer and the size stay as they arrived, and the position moves
over the same fields in every case, behind a checksum or without one. -/
theorem untilDecrypt_run (m_services : List Service) (attached : Bool) {n : ℕ} (hn : 2 < n)
    (hlt : n < NETWORK_MAX_SIZE - 14) (b : Memory) :
    ∃ reached p, untilDecrypt m_services attached ⟨n, 2, b⟩ = some (reached, ⟨n, p, b⟩) ∧
      (reached.isSome = true → p = 19 ∨ p = 23) := by
  have hcheck : ∃ enabled p, checkChecksum ⟨n, 2, b⟩ = some (enabled, ⟨n, p, b⟩) ∧
      (p = 2 ∨ p = 6) := by
    rw [checkChecksum_run hn hlt]
    split
    · exact ⟨true, 6, rfl, Or.inr rfl⟩
    · exact ⟨false, 2, rfl, Or.inl rfl⟩
  obtain ⟨enabled, p, hcheck, hp⟩ := hcheck
  obtain ⟨preface, hpreface⟩ := readPreface_run (n := n) (p := p + 1) (b := b) (by omega)
  rw [untilDecrypt, bind_of_run hcheck]
  cases attached with
  | true =>
    have hskip : skip 1 ⟨n, p, b⟩ = some (⟨⟩, ⟨n, p + 1, b⟩) :=
      skip_run (m := ⟨n, p, b⟩) (by simp only; omega)
    refine ⟨some preface, p + 17, ?_, fun _ => by omega⟩
    rw [if_pos rfl, bind_of_run hskip, bind_of_run hpreface, pure_run]
  | false =>
    have hid : p + 1 < NETWORK_MAX_SIZE := by
      simp only [NETWORK_MAX_SIZE]
      omega
    rw [if_neg Bool.false_ne_true, makeProtocol, bind_assoc,
      bind_of_run (get_at_run n p 1 b hid), pure_bind]
    split
    · refine ⟨some preface, p + 17, ?_, fun _ => by omega⟩
      rw [bind_of_run hpreface, pure_run]
    · exact ⟨none, p + 1, rfl, fun h => by cases h⟩

theorem Frame.length_byte (f : Frame) (stale : Memory) (h : f.size = 147 ∨ f.size = 151) :
    ofLe ((f.loaded stale).m_buffer.read 0 1) ≠ 0 := by
  have hsize := f.size_eq
  rw [f.loaded_read stale (by omega), bytes]
  rcases h with h | h
  · have hlen : f.content.length = 145 := by omega
    simp [hlen, leBytes, ofLe]
  · have hlen : f.content.length = 149 := by omega
    simp [hlen, leBytes, ofLe]

/-- Where the library call fails on the loaded frame, the first byte is that of the header. -/
theorem RSA_decrypt_failed {rsa : Rsa} {f : Frame} {stale : Memory} {p : ℕ}
    (hp : p = 19 ∨ p = 23) (hfail : rsa ((f.loaded stale).m_buffer.read p 128) = none) :
    ∃ v, RSA_decrypt rsa ⟨f.size, p, (f.loaded stale).m_buffer⟩ = some (false, v) := by
  by_cases h : (f.size : ℤ) - p = 128
  · have hbuffer : rsaBuffer rsa ⟨f.size, p, (f.loaded stale).m_buffer⟩ =
        (f.loaded stale).m_buffer := by
      simp only [rsaBuffer, hfail]
    have hload : p + 128 ≤ NETWORK_MAX_SIZE := by
      simp only [NETWORK_MAX_SIZE]
      omega
    have hfirst := f.length_byte stale (by omega)
    refine ⟨⟨f.size, 1, (f.loaded stale).m_buffer⟩, (RSA_decrypt_run h hload).trans ?_⟩
    simp only [hbuffer, decide_eq_false hfirst]
  · exact ⟨_, RSA_decrypt_refused h⟩

/-- A frame whose RSA operation fails is answered by closing the connection, whatever services
the port has: no key, name or password is read. -/
theorem failed_rsa_refused {f : Frame} {stale : Memory} {m_services : List Service}
    {attached : Bool} {rsa : Rsa} {isDisabled : Bool} {p : Preface} {u : NetworkMessage}
    (hreach : receive f.arrived (untilDecrypt m_services attached) (f.arriving stale) =
      some (some (some p), u))
    (hfail : rsa (u.m_buffer.read u.m_position 128) = none) :
    ∃ v, RSA_decrypt rsa u = some (false, v) ∧
      receive f.arrived (firstMessage m_services attached rsa isDisabled) (f.arriving stale) =
        some (some (some (.rsaFailed p.version)), v) := by
  obtain ⟨reached, q, hrun, hq⟩ := untilDecrypt_run m_services attached f.size_pos f.size_lt
    (f.loaded stale).m_buffer
  have hloaded : f.loaded stale = ⟨f.size, 2, (f.loaded stale).m_buffer⟩ := rfl
  rw [f.receive_frame, hloaded, hrun] at hreach
  cases hreach
  obtain ⟨v, hv⟩ := RSA_decrypt_failed (hq rfl) hfail
  refine ⟨v, hv, ?_⟩
  have hanswer : firstMessage m_services attached rsa isDisabled (f.loaded stale) =
      some (some (.rsaFailed p.version), v) := by
    rw [firstMessage_eq, hloaded, bind_of_run hrun]
    simp only [decryptLogin, map_bind, bind_of_run hv, Bool.false_eq_true, if_false, map_pure,
      pure_run]
  rw [f.receive_frame, hanswer]
  rfl

/-- The frame reaches the decryption, and the library refuses everything. -/
theorem overrun_rsa_refused : ∃ p u v,
    receive overrun.arrived (untilDecrypt [ProtocolLogin] false) (overrun.arriving Frame.zeros) =
      some (some (some p), u) ∧
    RSA_decrypt (fun _ => none) u = some (false, v) := by
  have hreach : ((receive overrun.arrived (untilDecrypt [ProtocolLogin] false)
      (overrun.arriving Frame.zeros)).bind fun r => r.1.bind id).isSome = true := by
    decide +kernel
  obtain ⟨p, hp⟩ := Option.isSome_iff_exists.mp hreach
  obtain ⟨⟨r, u⟩, hr, hp⟩ := Option.bind_eq_some_iff.mp hp
  obtain ⟨_, rfl, hp⟩ := Option.bind_eq_some_iff.mp hp
  cases hp
  obtain ⟨v, hv, _⟩ := @failed_rsa_refused overrun Frame.zeros [ProtocolLogin] false
    (fun _ => none) false p u hr rfl
  exact ⟨p, u, v, hr, hv⟩

end LoginServer.Message
