import LoginServer.OwnBytes

/-! # What `checksumEnabled` says about a frame

The test compares four bytes of the buffer with the checksum of the bytes behind them up to the
end of the frame. For a frame without a payload there is nothing to add up: the expected value
is 0, and zeros in the buffer pass for a checksum. -/
namespace LoginServer.Message

open Faults Bytes

namespace Frame

variable (f : Frame)

def arriving (stale : Memory) : NetworkMessage :=
  ⟨0, 0, stale.write 0 (leBytes 2 f.content.length)⟩

def arrived : Memory := fun i => f.content.getD i 0

theorem arrived_read : f.arrived.read 0 f.content.length = f.content := by
  apply List.ext_getElem (by simp)
  intro i hi h
  rw [Memory.getElem_read, arrived, Nat.zero_add, List.getD_eq_getElem _ _ h]

theorem loaded_arriving (stale : Memory) : f.loaded (f.arriving stale).m_buffer = f.loaded stale := by
  have hw : ∀ b : Memory, b.write 0 f.bytes =
      (b.write 0 (leBytes 2 f.content.length)).write 2 f.content := by
    intro b
    have h := Memory.write_append b 0 (leBytes 2 f.content.length) f.content
    rw [length_leBytes] at h
    exact h.symm
  have htwice : (stale.write 0 (leBytes 2 f.content.length)).write 0 (leBytes 2 f.content.length) =
      stale.write 0 (leBytes 2 f.content.length) := by
    have hread := Memory.read_write stale 0 (leBytes 2 f.content.length)
    rw [length_leBytes] at hread
    have h := Memory.write_read (stale.write 0 (leBytes 2 f.content.length)) 0 2
    rwa [hread] at h
  simp only [loaded, arriving]
  rw [hw, hw, htwice]

theorem receive_frame {α : Type} (stale : Memory) (handler : Access NetworkMessage α) :
    receive f.arrived handler (f.arriving stale) =
      (handler (f.loaded stale)).map fun p => (some p.1, p.2) := by
  have hheader : (f.arriving stale).m_buffer.read 0 2 = leBytes 2 f.content.length := by
    have hread := Memory.read_write stale 0 (leBytes 2 f.content.length)
    rwa [length_leBytes] at hread
  rw [f.receive_loaded _ _ handler hheader f.arrived_read, f.loaded_arriving]

/-- The frame holds a checksum and a payload, and one is that of the other. -/
def Checksummed : Prop :=
  5 ≤ f.content.length ∧ ofLe (f.content.take 4) = (adler (f.content.drop 4)).toNat

/-- The frame ends with or within the checksum, and the buffer has zeros in its place. -/
def ZeroChecksum (stale : Memory) : Prop :=
  f.content.length ≤ 4 ∧ ∀ b ∈ (f.loaded stale).m_buffer.read 2 4, b = 0

theorem checksum_read (stale : Memory) (h : 5 ≤ f.content.length) :
    ofLe ((f.loaded stale).m_buffer.read 2 4) = ofLe (f.content.take 4) := by
  have hsize := f.size_eq
  have hcontent : f.bytes.drop 2 = f.content := List.drop_left' (length_leBytes 2 _)
  rw [f.loaded_read stale (by omega), hcontent]

theorem expectedChecksum_payload (stale : Memory) (h : 5 ≤ f.content.length) :
    expectedChecksum f.size (f.loaded stale).m_buffer = (adler (f.content.drop 4)).toNat := by
  have hsize := f.size_eq
  have hcontent : f.bytes.drop 6 = f.content.drop 4 := by
    rw [bytes, List.drop_append, List.drop_eq_nil_of_le (by simp), length_leBytes]
    rfl
  rw [f.expectedChecksum_loaded stale (by omega), hcontent]

theorem checkChecksum_frame (stale : Memory) :
    ∃ enabled, receive f.arrived checkChecksum (f.arriving stale) =
        some (some enabled, ⟨f.size, if enabled then 6 else 2, (f.loaded stale).m_buffer⟩) ∧
      (enabled = true ↔ f.Checksummed ∨ f.ZeroChecksum stale) := by
  have hrun := checkChecksum_run (b := (f.loaded stale).m_buffer) f.size_pos f.size_lt
  have hsize := f.size_eq
  have hiff : ofLe ((f.loaded stale).m_buffer.read 2 4) =
      expectedChecksum f.size (f.loaded stale).m_buffer ↔
        f.Checksummed ∨ f.ZeroChecksum stale := by
    rw [Checksummed, ZeroChecksum]
    by_cases h : 5 ≤ f.content.length
    · have hlong : ¬ f.content.length ≤ 4 := by omega
      simp only [f.checksum_read stale h, f.expectedChecksum_payload stale h, h, hlong, true_and,
        false_and, or_false]
    · have hshort : f.content.length ≤ 4 := by omega
      have hzero : expectedChecksum f.size (f.loaded stale).m_buffer = 0 := if_pos (by omega)
      simp only [hzero, ofLe_eq_zero, h, hshort, true_and, false_and, false_or]
  rw [f.receive_frame]
  by_cases h : ofLe ((f.loaded stale).m_buffer.read 2 4) =
      expectedChecksum f.size (f.loaded stale).m_buffer
  · refine ⟨true, ?_, by simpa using hiff.mp h⟩
    rw [if_pos h] at hrun
    rw [loaded] at hrun ⊢
    exact congrArg (Option.map _) hrun
  · refine ⟨false, ?_, by simpa using fun hc => h (hiff.mpr hc)⟩
    rw [if_neg h] at hrun
    rw [loaded] at hrun ⊢
    exact congrArg (Option.map _) hrun

/-- `checksumEnabled` is set, and the four bytes are skipped, just for a frame whose checksum is
that of its payload. -/
def EnabledAsChecked (stale : Memory) : Prop :=
  ∃ enabled u, receive f.arrived checkChecksum (f.arriving stale) = some (some enabled, u) ∧
    u.m_position = (if enabled then 6 else 2) ∧ (enabled = true ↔ f.Checksummed)

theorem not_checksummed_of_zero {f : Frame} {stale : Memory} (h : f.ZeroChecksum stale) :
    ¬ f.Checksummed := by
  rintro ⟨hlong, _⟩
  have hshort := h.1
  omega

theorem not_enabledAsChecked {f : Frame} {stale : Memory} (h : f.ZeroChecksum stale) :
    ¬ f.EnabledAsChecked stale := by
  obtain ⟨enabled, hrun, henabled⟩ := f.checkChecksum_frame stale
  rintro ⟨enabled', u, hrun', _, hiff⟩
  rw [hrun] at hrun'
  cases hrun'
  exact not_checksummed_of_zero h (hiff.mp (henabled.mpr (Or.inr h)))

end Frame

/-- Exactly when the test says what it should: not for zeros in place of the checksum of a frame
without a payload. -/
theorem checksum_enabled_iff (f : Frame) (stale : Memory) :
    f.EnabledAsChecked stale ↔ ¬ f.ZeroChecksum stale := by
  obtain ⟨enabled, hrun, henabled⟩ := f.checkChecksum_frame stale
  constructor
  · exact fun h hzero => Frame.not_enabledAsChecked hzero h
  · intro hzero
    refine ⟨enabled, _, hrun, rfl, henabled.trans ?_⟩
    simp only [hzero, or_false]

def fourZeros : Frame := ⟨[0, 0, 0, 0], by decide, by decide⟩

theorem zeros_pass_for_checksum : ¬ ∀ (f : Frame) (stale : Memory), f.EnabledAsChecked stale := by
  intro hall
  have hread : (fourZeros.loaded fun _ => 0).m_buffer.read 2 4 = List.replicate 4 0 := by decide
  refine Frame.not_enabledAsChecked (f := fourZeros) ⟨?_, ?_⟩ (hall fourZeros fun _ => 0)
  · decide
  · intro b hb
    rw [hread] at hb
    exact List.eq_of_mem_replicate hb

/-- A service with a checksum is made only where the test has set `checksumEnabled`. -/
theorem makeProtocol_hasChecksum {m_services : List Service} {checksum : Bool} {s : Service}
    {m u : NetworkMessage} (h : makeProtocol m_services checksum m = some (some s, u))
    (hs : s.hasChecksum = true) : checksum = true := by
  rw [makeProtocol, bind_run] at h
  obtain ⟨⟨protocolId, v⟩, _, hfound⟩ := Option.bind_eq_some_iff.mp h
  rw [pure_run] at hfound
  have hfind := (Prod.mk.inj (Option.some.inj hfound)).1
  have hmatch := List.find?_some hfind
  simpa [hs] using (of_decide_eq_true hmatch).2

end LoginServer.Message
