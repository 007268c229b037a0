import LoginServer.Receive

/-! # The receive path stays in the buffer

After the header's test the size is small enough for every unchecked step that follows: the
position never gets past the buffer, and the one length that can wrap is caught by the length
test of `adlerChecksum`. -/
namespace LoginServer.Message

open Faults Bytes

def At (p : ℕ) (m : NetworkMessage) : Prop := m.m_position = p

theorem get_at {p w : ℕ} (h : p + w < NETWORK_MAX_SIZE) :
    Total (At p) (get w false) (fun _ => At (p + w)) := by
  rintro m rfl
  exact ⟨_, _, get_run h, rfl⟩

theorem skip_at {p n : ℕ} (h : p + n < 65536) : Total (At p) (skip n) (fun _ => At (p + n)) := by
  rintro m rfl
  exact ⟨_, _, skip_run h, rfl⟩

/-- The header that `parseHeader` lets through, and where it leaves the position. -/
def Accepted (m : NetworkMessage) : Prop :=
  m.m_size < NETWORK_MAX_SIZE - 14 ∧ m.m_position = NETWORK_HEADER_SIZE

theorem parseHeader_total :
    Total (fun _ => True) parseHeader (fun ok m => ok = true → Accepted m) := by
  intro m _
  rw [parseHeader, bind_of_run (decodeHeader_run m)]
  by_cases h : ofLe (m.m_buffer.read 0 2) ≤ 0 ∨ ofLe (m.m_buffer.read 0 2) ≥ NETWORK_MAX_SIZE - 16
  · exact ⟨_, _, by rw [if_pos h, pure_run], fun hok => by cases hok⟩
  · refine ⟨_, _, by rw [if_neg h]; rfl, fun _ => ⟨?_, rfl⟩⟩
    simp only [uint16, NETWORK_MAX_SIZE, NETWORK_HEADER_SIZE] at h ⊢
    omega

theorem readContent_total (arrived : Memory) :
    Total Accepted (readContent arrived) (fun _ => Accepted) := by
  rintro m ⟨hs, hp⟩
  have hend : m.m_position + (arrived.read 0 (m.m_size - NETWORK_HEADER_SIZE)).length ≤
      NETWORK_MAX_SIZE := by
    rw [Memory.length_read, hp]
    simp only [NETWORK_MAX_SIZE, NETWORK_HEADER_SIZE] at hs ⊢
    omega
  exact ⟨_, _, (bind_get_run _ m).trans (store_run hend), hs, hp⟩

/-- Behind the checksum test, which may have skipped the four bytes. -/
def Checked (m : NetworkMessage) : Prop :=
  m.m_size < NETWORK_MAX_SIZE - 14 ∧ (m.m_position = 2 ∨ m.m_position = 6)

/-- The wrapped length of a short packet is longer than any buffer. -/
theorem computeChecksum_total {m : NetworkMessage} (h : Accepted m) :
    ∃ checksum, computeChecksum (m.m_position + 4) (checksumLength m) m = some (checksum, m) := by
  obtain ⟨hs, hp⟩ := h
  have hlength : checksumLength m + 6 ≤ NETWORK_MAX_SIZE ∨
      checksumLength m > NETWORK_MAX_SIZE := by
    simp only [checksumLength, uint32, hp, NETWORK_MAX_SIZE, NETWORK_HEADER_SIZE] at hs ⊢
    omega
  have hp : m.m_position = 2 := hp
  rw [computeChecksum]
  split
  · rcases hlength with hl | hl
    · exact ⟨_, adlerChecksum_run (by omega) (by omega)⟩
    · exact ⟨_, adlerChecksum_none (Or.inl hl)⟩
  · exact ⟨_, pure_run _ _⟩

theorem checkChecksum_total : Total Accepted checkChecksum (fun _ => Checked) := by
  intro m hm
  obtain ⟨checksum, hsum⟩ := computeChecksum_total hm
  obtain ⟨hs, hp⟩ := hm
  have hp : m.m_position = 2 := hp
  have hpeek : m.m_position + 4 < NETWORK_MAX_SIZE := by rw [hp]; decide
  rw [checkChecksum, bind_get_run, bind_of_run (get_peek_run hpeek), bind_of_run hsum]
  split
  · have hskip : m.m_position + 4 < 65536 := by omega
    exact ⟨_, _, (bind_of_run (skip_run hskip)).trans (pure_run _ _), hs,
      Or.inr (congrArg (· + 4) hp)⟩
  · exact ⟨_, _, pure_run _ _, hs, Or.inl hp⟩

theorem makeProtocol_total (m_services : List Service) (checksum : Bool) :
    Total Checked (makeProtocol m_services checksum)
      (fun _ m => m.m_position = 3 ∨ m.m_position = 7) := by
  rintro m ⟨_, hp⟩
  have hget : m.m_position + 1 < NETWORK_MAX_SIZE := by
    simp only [NETWORK_MAX_SIZE]
    omega
  exact ⟨_, _, (bind_of_run (get_run hget)).trans (pure_run _ _), by
    show m.m_position + 1 = 3 ∨ m.m_position + 1 = 7
    omega⟩

/-- The decryption is tried only where 128 bytes are left, and then stays in the buffer. -/
theorem RSA_decrypt_total (rsa : Rsa) :
    Total (fun m => m.m_position ≤ 23) (RSA_decrypt rsa)
      (fun ok m => ok = true → At 1 m) := by
  intro m hp
  have hload : m.m_position + 128 ≤ NETWORK_MAX_SIZE := by
    simp only [NETWORK_MAX_SIZE]
    omega
  by_cases h : (m.m_size : ℤ) - m.m_position = 128
  · exact ⟨_, _, RSA_decrypt_run h hload, fun _ => rfl⟩
  · refine ⟨_, _, RSA_decrypt_refused h, fun hok => ?_⟩
    cases hok

theorem readLogin_total (version : ℕ) :
    Total (At 1) (readLogin version) (fun _ _ => True) := by
  refine Total.bind (get_at (by decide)) fun _ => Total.bind (get_at (by decide)) fun _ =>
    Total.bind (get_at (by decide)) fun _ => Total.bind (get_at (by decide)) fun _ => ?_
  have hin : ∀ m, At 17 m → InBuffer m := by
    rintro m h
    simp [InBuffer, NETWORK_MAX_SIZE, show m.m_position = 17 from h]
  apply Total.bind ((getString_total false 0).weaken hin fun _ _ h => h)
  intro _
  exact Total.bind (getString_total false 0) fun _ => Total.pure fun _ _ => trivial

theorem onRecvFirstMessage_total (rsa : Rsa) (isDisabled : Bool) {p : ℕ} (hp : p ≤ 7) :
    Total (At p) (onRecvFirstMessage rsa isDisabled) (fun _ _ => True) := by
  have hn : ∀ k, k ≤ 16 → p + k < NETWORK_MAX_SIZE := fun k hk => by
    simp only [NETWORK_MAX_SIZE]
    omega
  refine Total.bind (skip_at (by omega)) fun _ => Total.bind (get_at (hn 4 (by decide))) fun _ =>
    Total.bind (get_at (hn 8 (by decide))) fun _ => Total.bind (get_at (hn 12 (by decide)))
    fun _ => Total.bind (get_at (hn 16 (by decide))) fun _ => ?_
  refine Total.bind ((RSA_decrypt_total rsa).weaken (fun m h => ?_) fun _ _ h => h) fun ok => ?_
  · rw [show m.m_position = p + 2 + 2 + 4 + 4 + 4 from h]
    omega
  · refine Total.ite (fun hok => ?_) fun _ => Total.pure fun _ _ => trivial
    apply Total.bind ((readLogin_total _).weaken (fun _ h => h hok) fun _ _ h => h)
    intro _
    exact Total.pure fun _ _ => trivial

theorem firstMessage_total (m_services : List Service) (attached : Bool) (rsa : Rsa)
    (isDisabled : Bool) :
    Total Accepted (firstMessage m_services attached rsa isDisabled) (fun _ _ => True) := by
  have hlogin : Total (fun m => m.m_position = 3 ∨ m.m_position = 7)
      (onRecvFirstMessage rsa isDisabled) (fun _ _ => True) := by
    rintro m (hp | hp)
    · exact onRecvFirstMessage_total rsa isDisabled (by decide : 3 ≤ 7) m hp
    · exact onRecvFirstMessage_total rsa isDisabled (by decide : 7 ≤ 7) m hp
  have hanswer : Total (fun m => m.m_position = 3 ∨ m.m_position = 7)
      (onRecvFirstMessage rsa isDisabled >>= fun answer => pure (some answer))
      (fun _ _ => True) := Total.bind hlogin fun _ => Total.pure fun _ _ => trivial
  apply Total.bind checkChecksum_total
  intro checksumEnabled
  refine Total.ite (fun _ => ?_) fun _ => ?_
  · refine Total.bind (Q := fun _ m => m.m_position = 3 ∨ m.m_position = 7) ?_ fun _ => hanswer
    rintro m ⟨_, hp⟩
    refine ⟨_, _, skip_run (by omega), ?_⟩
    show m.m_position + 1 = 3 ∨ m.m_position + 1 = 7
    omega
  · apply Total.bind (makeProtocol_total m_services checksumEnabled)
    intro protocol
    exact Total.ite (fun _ => hanswer) fun _ => Total.pure fun _ _ => trivial

theorem XTEA_decrypt_total (m_key : Key) :
    Total Checked (XTEA_decrypt m_key) (fun _ _ => True) := by
  refine Total.get fun m hm => Total.ite (fun _ => Total.pure fun _ _ => trivial) fun hmod => ?_
  obtain ⟨hs, hp⟩ := hm
  have hlong : 6 ≤ m.m_size := by
    have hshort : ∀ k < 6, ((k : ℕ) - 6 : ℤ).tmod 8 ≠ 0 := by decide
    by_contra hlt
    exact hmod (hshort m.m_size (by omega))
  have hrange : m.m_position + 8 * (((m.m_size : ℤ) - 6) / 8).toNat ≤ NETWORK_MAX_SIZE := by
    simp only [NETWORK_MAX_SIZE] at hs ⊢
    omega
  have hin : InBuffer m := by
    simp only [InBuffer, NETWORK_MAX_SIZE]
    omega
  refine Total.bind (Q := fun _ => InBuffer) ?_ fun _ => ?_
  · rintro _ rfl
    exact ⟨_, _, cryptWords_run _ hrange, hin⟩
  · refine Total.bind (get_total 2 false) fun tmp => Total.get fun u _ => ?_
    apply Total.ite (fun _ => Total.pure fun _ _ => trivial)
    intro _
    exact Total.bind (Q := fun _ _ => True) (Total.modify fun _ _ => trivial) fun _ =>
      Total.pure fun _ _ => trivial

theorem laterMessage_total (p : Protocol) :
    Total Accepted (laterMessage p) (fun _ _ => True) := by
  have hrecv : Total Checked (onRecvMessage p) (fun _ _ => True) :=
    Total.ite (fun _ => XTEA_decrypt_total p.m_key) fun _ => Total.pure fun _ _ => trivial
  exact Total.bind checkChecksum_total fun _ => Total.bind hrecv fun _ =>
    Total.pure fun _ _ => trivial

theorem receive_total {α : Type} (arrived : Memory) {handler : Access NetworkMessage α}
    (h : Total Accepted handler (fun _ _ => True)) :
    Total (fun _ => True) (receive arrived handler) (fun _ _ => True) := by
  apply Total.bind parseHeader_total
  intro accepted
  refine Total.ite (fun hok => ?_) fun _ => Total.pure fun _ _ => trivial
  refine Total.bind ((readContent_total arrived).weaken (fun _ hm => hm hok) fun _ _ hm => hm)
    fun _ => ?_
  exact Total.bind h fun _ => Total.pure fun _ _ => trivial

/-- Whatever the header, the content of the buffer and the RSA result, no access of the receive
path leaves the `NETWORK_MAX_SIZE` bytes of the buffer, for a first packet and a later one. -/
theorem receive_stays_in_buffer (m : NetworkMessage) (arrived : Memory)
    (m_services : List Service) (attached : Bool) (rsa : Rsa) (isDisabled : Bool) (p : Protocol) :
    receive arrived (firstMessage m_services attached rsa isDisabled) m ≠ none ∧
      receive arrived (laterMessage p) m ≠ none :=
  ⟨(receive_total arrived (firstMessage_total m_services attached rsa isDisabled)).not_fault trivial,
    (receive_total arrived (laterMessage_total p)).not_fault trivial⟩

end LoginServer.Message
