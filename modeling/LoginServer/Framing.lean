import LoginServer.LoginPacket
import LoginServer.Written

/-! # From a body to its frame and back

`onSendMessage` puts a header before the body, pads and encrypts, and puts a checksum and a
second header before that; the receive path undoes it. The padding is tested against a smaller
space than the encryption uses, so the last three body lengths lose it. -/
namespace LoginServer.Message

open Faults Bytes Blocks

/-- The bytes at `getOutputBuffer()`. -/
structure Output (m : OutputMessage) (start : ℕ) (l : List UInt8) : Prop where
  begins : m.m_outputBufferStart = start
  size : m.m_size = l.length
  bytes : m.m_buffer.read start l.length = l
  room : start + l.length ≤ NETWORK_MAX_SIZE

theorem base_run {α : Type} {f : Access NetworkMessage α} {m : OutputMessage} {a : α}
    {u : NetworkMessage} (h : f m.toNetworkMessage = some (a, u)) :
    base f m = some (a, { m with toNetworkMessage := u }) :=
  zoom_of_run h

theorem header_run {m : OutputMessage} {start w : ℕ} {l : List UInt8} (h : Output m (start + w) l)
    (v : ℕ) : ∃ u, header w v m = some (⟨⟩, u) ∧ Output u start (leBytes w v ++ l) ∧
      u.m_position = m.m_position := by
  have hroom := h.room
  have hfits : ¬ (m.m_outputBufferStart : ℤ) - w < 0 := by
    rw [h.begins]
    omega
  have hstart : m.m_outputBufferStart - w = start := by
    rw [h.begins]
    omega
  have hstore : base (store start (leBytes w v)) m = some ((), { m with
      m_buffer := m.m_buffer.write start (leBytes w v) }) :=
    base_run (store_run (by rw [length_leBytes]; omega))
  have hsize : uint16 (m.m_size + w) = (leBytes w v ++ l).length := by
    rw [h.size, List.length_append, length_leBytes, Nat.add_comm w]
    apply uint16_of_lt
    simp only [NETWORK_MAX_SIZE] at hroom
    omega
  have hnext := Memory.read_write_of_disjoint (m := m.m_buffer) (p := start) (q := start + w)
    (n := l.length) (l := leBytes w v) (Or.inr (by rw [length_leBytes]))
  have hhead := Memory.read_write m.m_buffer start (leBytes w v)
  rw [length_leBytes] at hhead
  refine ⟨{ m with
    m_buffer := m.m_buffer.write start (leBytes w v)
    m_outputBufferStart := start
    m_size := uint16 (m.m_size + w) }, ?_, ⟨rfl, hsize, ?_, ?_⟩, rfl⟩
  · rw [header, bind_get_run, if_neg hfits, hstart, bind_of_run hstore, modify_run]
  · rw [List.length_append, length_leBytes, Memory.read_add, hhead, hnext, h.bytes]
  · rw [List.length_append, length_leBytes]
    omega

theorem addHeader_run {m : OutputMessage} {start : ℕ} {l : List UInt8}
    (h : Output m (start + 2) l) :
    ∃ u, addHeader m = some (⟨⟩, u) ∧ Output u start (leBytes 2 l.length ++ l) ∧
      u.m_position = m.m_position := by
  obtain ⟨u, hu, ho, hp⟩ := header_run h m.m_size
  exact ⟨u, by rw [addHeader, bind_get_run, hu], h.size ▸ ho, hp⟩

def frameOf (c : List UInt8) : List UInt8 :=
  leBytes 2 (c.length + 4) ++ (leBytes 4 (adler c).toNat ++ c)

theorem addCryptoHeader_run {m : OutputMessage} {c : List UInt8} (h : Output m 6 c)
    (hc : c ≠ []) :
    ∃ u, addCryptoHeader true m = some (⟨⟩, u) ∧ Output u 0 (frameOf c) := by
  have hne : m.m_size ≠ 0 := by
    rw [h.size]
    exact fun hz => hc (List.length_eq_zero_iff.mp hz)
  have hsum : base (adlerChecksum m.m_outputBufferStart m.m_size) m = some (adler c, m) := by
    have hrun := adlerChecksum_run (m := m.toNetworkMessage) hne
      (p := m.m_outputBufferStart) (by rw [h.begins, h.size]; exact h.room)
    rw [h.begins, h.size, h.bytes] at hrun
    rw [h.begins, h.size]
    exact base_run hrun
  have h4 : Output m (2 + 4) c := h
  obtain ⟨u, hu, ho, _⟩ := header_run h4 (adler c).toNat
  have h2 : Output u (0 + 2) (leBytes 4 (adler c).toNat ++ c) := ho
  obtain ⟨v, hv, hf, _⟩ := addHeader_run h2
  have hchecksum : addChecksumHeader m = some (⟨⟩, u) := by
    rw [addChecksumHeader, bind_get_run, bind_of_run hsum, hu]
  refine ⟨v, by rw [addCryptoHeader, ifTrue_true, bind_of_run hchecksum, hv], ?_⟩
  have hlen : (leBytes 4 (adler c).toNat ++ c).length = c.length + 4 := by
    rw [List.length_append, length_leBytes, Nat.add_comm]
  rw [hlen] at hf
  exact hf

def padding (n : ℕ) : ℕ := if n % 8 ≠ 0 then 8 - n % 8 else 0

theorem padding_dvd (n : ℕ) : (n + padding n) % 8 = 0 ∧ padding n < 8 := by
  rw [padding]
  split <;> omega

def encryptBytes (key : Key) (l : List UInt8) : List UInt8 :=
  mapBlocks 8 (cryptBlock (encryptWords key)) (l.length / 8) l

theorem length_encryptBytes (key : Key) {l : List UInt8} (h : l.length % 8 = 0) :
    (encryptBytes key l).length = l.length := by
  have hn : l.length = 8 * (l.length / 8) := by omega
  rw [encryptBytes, length_mapBlocks (cryptBlock_keeps _) hn, ← hn]

theorem cryptWords_output {m : OutputMessage} {start : ℕ} {l : List UInt8} (key : Key)
    (h : Output m start l) (h8 : l.length % 8 = 0) :
    ∃ u, base (cryptWords (encryptWords key) start (l.length / 8)) m = some (⟨⟩, u) ∧
      Output u start (encryptBytes key l) := by
  have hn : 8 * (l.length / 8) = l.length := by omega
  have hlen := length_encryptBytes key h8
  have hroom := h.room
  refine ⟨_, base_run (cryptWords_run _ (by rw [hn]; exact hroom)), h.begins, ?_, ?_, ?_⟩
  · rw [hlen]
    exact h.size
  · have hw := Memory.read_write m.m_buffer start (encryptBytes key l)
    simp only [hn, h.bytes]
    exact hw
  · rw [hlen]
    exact hroom

theorem putPadding_run {m : NetworkMessage} {n : ℕ} (hn : n < 8)
    (hfit : m.m_position + n < NETWORK_BODY_SIZE) :
    putPadding n m = some (⟨⟩, { m with
      m_buffer := m.m_buffer.write m.m_position (List.replicate n 0x33)
      m_size := uint16 (m.m_size + n) }) := by
  have hspace : hasSpace m (int32 n) := by
    rw [hasSpace, int32_of_lt (by omega)]
    omega
  have hroom : m.m_position + (List.replicate n (0x33 : UInt8)).length ≤ NETWORK_MAX_SIZE := by
    rw [List.length_replicate]
    simp only [NETWORK_BODY_SIZE] at hfit
    omega
  rw [putPadding, bind_get_run, if_pos hspace, bind_of_run (store_run hroom), modify_run]

theorem putPadding_dropped {m : NetworkMessage} {n : ℕ} (hn : n < 8)
    (hfit : NETWORK_BODY_SIZE ≤ m.m_position + n) : putPadding n m = some (⟨⟩, m) := by
  have hspace : ¬ hasSpace m (int32 n) := by
    rw [hasSpace, int32_of_lt (by omega)]
    omega
  rw [putPadding, bind_get_run, if_neg hspace, pure_run]

theorem XTEA_encrypt_padded {m : OutputMessage} {start : ℕ} {l : List UInt8} (key : Key)
    (h : Output m start l) (hp : m.m_position = start + l.length)
    (hfit : m.m_position + padding l.length < NETWORK_BODY_SIZE) :
    ∃ u, XTEA_encrypt key m = some (⟨⟩, u) ∧
      Output u start (encryptBytes key (l ++ List.replicate (padding l.length) 0x33)) := by
  rw [XTEA_encrypt]
  rw [bind_get_run, h.size, h.begins]
  by_cases h8 : l.length % 8 ≠ 0
  · have hn : 8 - l.length % 8 = padding l.length := (if_pos h8).symm
    obtain ⟨hdvd, hlt⟩ := padding_dvd l.length
    have hroom : start + (l.length + padding l.length) ≤ NETWORK_MAX_SIZE := by
      rw [hp] at hfit
      simp only [NETWORK_BODY_SIZE] at hfit
      omega
    have hsize : uint16 (l.length + padding l.length) = l.length + padding l.length := by
      simp only [NETWORK_MAX_SIZE] at hroom
      exact uint16_of_lt (by omega)
    have hlen : (l ++ List.replicate (padding l.length) 0x33).length =
        l.length + padding l.length := by simp
    have hpadded : Output { m with
        m_buffer := m.m_buffer.write m.m_position (List.replicate (padding l.length) 0x33)
        m_size := uint16 (m.m_size + padding l.length) } start
        (l ++ List.replicate (padding l.length) 0x33) := by
      refine ⟨h.begins, ?_, ?_, ?_⟩
      · rw [h.size, hsize, hlen]
      · have hpad := Memory.read_write m.m_buffer m.m_position
          (List.replicate (padding l.length) 0x33)
        rw [List.length_replicate] at hpad
        rw [hlen, Memory.read_add, Memory.read_write_of_disjoint (Or.inl (by rw [hp])), h.bytes,
          ← hp, hpad]
      · rw [hlen]
        exact hroom
    rw [if_pos h8, hn, bind_of_run (base_run (putPadding_run hlt hfit)), hsize, ← hlen]
    exact cryptWords_output key hpadded (by rw [hlen]; exact hdvd)
  · have hz : padding l.length = 0 := if_neg h8
    rw [if_neg h8, hz, List.replicate_zero, List.append_nil]
    exact cryptWords_output key h (by omega)

/-- Where it does not fit, the size stays what it was, and so no multiple of 8. -/
theorem XTEA_encrypt_unpadded {m : OutputMessage} {start : ℕ} {l : List UInt8} (key : Key)
    (h : Output m start l) (hfit : NETWORK_BODY_SIZE ≤ m.m_position + padding l.length)
    (h8 : l.length % 8 ≠ 0) (hroom : start + (l.length + padding l.length) ≤ NETWORK_MAX_SIZE) :
    ∃ u c, XTEA_encrypt key m = some (⟨⟩, u) ∧ Output u start c ∧ c.length = l.length := by
  have hn : 8 - l.length % 8 = padding l.length := (if_pos h8).symm
  obtain ⟨hdvd, hlt⟩ := padding_dvd l.length
  have hsize : uint16 (l.length + padding l.length) = l.length + padding l.length := by
    simp only [NETWORK_MAX_SIZE] at hroom
    exact uint16_of_lt (by omega)
  have hwords : start + 8 * ((l.length + padding l.length) / 8) ≤ NETWORK_MAX_SIZE := by omega
  obtain ⟨b, hcrypt⟩ : ∃ b, base (cryptWords (encryptWords key) start
      ((l.length + padding l.length) / 8)) m = some ((), { m with m_buffer := b }) :=
    ⟨_, base_run (cryptWords_run _ hwords)⟩
  have hlen := Memory.length_read b start l.length
  have hrun : XTEA_encrypt key m =
      base (cryptWords (encryptWords key) start ((l.length + padding l.length) / 8)) m := by
    rw [XTEA_encrypt, bind_get_run, h.size, h.begins, if_pos h8, hn,
      bind_of_run (base_run (putPadding_dropped hlt hfit)), hsize]
  refine ⟨{ m with m_buffer := b }, b.read start l.length, hrun.trans hcrypt,
    ⟨h.begins, ?_, ?_, ?_⟩, hlen⟩
  · rw [hlen]
    exact h.size
  · rw [hlen]
  · rw [hlen]
    exact h.room

def plainOf (body : List UInt8) : List UInt8 :=
  let l := leBytes 2 body.length ++ body
  l ++ List.replicate (padding l.length) 0x33

theorem plainOf_length (body : List UInt8) : (plainOf body).length % 8 = 0 := by
  have h := (padding_dvd (leBytes 2 body.length ++ body).length).1
  simpa [plainOf, Nat.add_assoc] using h

def encrypting (key : Key) : Protocol := ⟨false, true, true, key⟩

theorem encryptBytes_ne_nil (key : Key) (body : List UInt8) :
    encryptBytes key (plainOf body) ≠ [] := by
  intro h
  have hlen := length_encryptBytes key (plainOf_length body)
  rw [h] at hlen
  simp only [plainOf, List.length_nil, List.length_append, length_leBytes] at hlen
  omega

theorem holds_output {m : OutputMessage} {body : List UInt8} (h : Holds m.toNetworkMessage body)
    (hstart : m.m_outputBufferStart = NETWORK_CRYPTOHEADER_SIZE) : Output m (6 + 2) body := by
  have hroom := h.room
  exact ⟨hstart, h.size, h.bytes, by
    simp only [NETWORK_BODY_SIZE] at hroom
    simp only [NETWORK_CRYPTOHEADER_SIZE, NETWORK_HEADER_SIZE, NETWORK_MAX_SIZE] at hroom ⊢
    omega⟩

/-- The largest body whose padding is never dropped. -/
theorem padding_fits {n : ℕ} (h : n ≤ 16358) : 8 + n + padding (2 + n) < NETWORK_BODY_SIZE := by
  rw [padding]
  simp only [NETWORK_BODY_SIZE, NETWORK_MAX_SIZE, NETWORK_CRYPTOHEADER_SIZE, NETWORK_HEADER_SIZE]
  split <;> omega

theorem onSendMessage_run {m : OutputMessage} {body : List UInt8} (key : Key)
    (h : Holds m.toNetworkMessage body)
    (hstart : m.m_outputBufferStart = NETWORK_CRYPTOHEADER_SIZE) :
    ∃ u c, onSendMessage (encrypting key) m = some (⟨⟩, u) ∧ Output u 0 (frameOf c) ∧
      (body.length ≤ 16358 → c = encryptBytes key (plainOf body)) ∧
      (16358 < body.length → c.length = body.length + 2) := by
  obtain ⟨u, hu, ho, hpos⟩ := addHeader_run (holds_output h hstart)
  have hlen : (leBytes 2 body.length ++ body).length = 2 + body.length := by simp
  have hup : u.m_position = 8 + body.length := by
    rw [hpos, h.position]
    rfl
  have hupos : u.m_position = 6 + (leBytes 2 body.length ++ body).length := by
    rw [hup, hlen]
    omega
  have hsend : ∀ v w, XTEA_encrypt key u = some (⟨⟩, v) →
      addCryptoHeader true v = some (⟨⟩, w) → onSendMessage (encrypting key) m = some (⟨⟩, w) := by
    intro v w hv hw
    have hsteps : onSendMessage (encrypting key) = (do
        addHeader
        XTEA_encrypt key
        addCryptoHeader true) := rfl
    rw [hsteps, bind_of_run hu, bind_of_run hv, hw]
  by_cases hlong : body.length ≤ 16358
  · have hfit := padding_fits hlong
    obtain ⟨v, hv, hc⟩ := XTEA_encrypt_padded key ho hupos (by rw [hup, hlen]; exact hfit)
    obtain ⟨w, hw, hf⟩ := addCryptoHeader_run hc (encryptBytes_ne_nil key body)
    exact ⟨w, _, hsend v w hv hw, hf, fun _ => rfl, fun hlt => by omega⟩
  · have hroom := h.room
    simp only [NETWORK_BODY_SIZE, NETWORK_MAX_SIZE, NETWORK_CRYPTOHEADER_SIZE,
      NETWORK_HEADER_SIZE] at hroom
    have hmod : (leBytes 2 body.length ++ body).length % 8 ≠ 0 := by
      rw [hlen]
      omega
    have hpad : padding (leBytes 2 body.length ++ body).length = 8 - (2 + body.length) % 8 := by
      rw [padding, if_pos hmod, hlen]
    obtain ⟨v, c, hv, hc, hcl⟩ := XTEA_encrypt_unpadded key ho
      (by rw [hup, hpad]
          simp only [NETWORK_BODY_SIZE, NETWORK_MAX_SIZE, NETWORK_CRYPTOHEADER_SIZE,
            NETWORK_HEADER_SIZE]
          omega) hmod
      (by rw [hpad, hlen]; simp only [NETWORK_MAX_SIZE]; omega)
    have hne : c ≠ [] := by
      rintro rfl
      rw [hlen, List.length_nil] at hcl
      omega
    obtain ⟨w, hw, hf⟩ := addCryptoHeader_run hc hne
    exact ⟨w, c, hsend v w hv hw, hf, fun hle => absurd hle hlong,
      fun _ => by rw [hcl, hlen]; omega⟩

theorem content_nonempty (c : List UInt8) : 0 < (leBytes 4 (adler c).toNat ++ c).length := by
  rw [List.length_append, length_leBytes]
  omega

theorem content_accepted {c : List UInt8} (h : c.length ≤ 16360) :
    (leBytes 4 (adler c).toNat ++ c).length < NETWORK_MAX_SIZE - 16 := by
  rw [List.length_append, length_leBytes]
  simp only [NETWORK_MAX_SIZE]
  omega

def frameFor (c : List UInt8) (h : c.length ≤ 16360) : Frame where
  content := leBytes 4 (adler c).toNat ++ c
  nonempty := content_nonempty c
  accepted := content_accepted h

theorem frameFor_bytes (c : List UInt8) (h : c.length ≤ 16360) :
    (frameFor c h).bytes = frameOf c := by
  simp [Frame.bytes, frameFor, frameOf, Nat.add_comm]

theorem frameFor_size (c : List UInt8) (h : c.length ≤ 16360) :
    (frameFor c h).size = c.length + 6 := by
  rw [Frame.size_eq, frameFor, List.length_append, length_leBytes]
  omega

theorem frameFor_checksum (c : List UInt8) (h : c.length ≤ 16360) (stale : Memory) :
    ((frameFor c h).loaded stale).m_buffer.read 2 4 = leBytes 4 (adler c).toNat := by
  rw [Frame.loaded_read _ _ (by rw [frameFor_size]; omega), frameFor_bytes, frameOf,
    List.drop_left' (length_leBytes 2 _), List.take_left' (length_leBytes 4 _)]

theorem frameFor_cipher (c : List UInt8) (h : c.length ≤ 16360) (stale : Memory) :
    ((frameFor c h).loaded stale).m_buffer.read 6 c.length = c := by
  have hdrop : (frameOf c).drop 6 = c := by
    rw [frameOf, ← List.append_assoc]
    exact List.drop_left' (by simp)
  rw [Frame.loaded_read _ _ (by rw [frameFor_size]; omega), frameFor_bytes, hdrop,
    List.take_length]

theorem frameFor_checked (c : List UInt8) (h : c.length ≤ 16360) (hc : c ≠ []) (stale : Memory) :
    checkChecksum ((frameFor c h).loaded stale) =
      some (true, ⟨c.length + 6, 6, ((frameFor c h).loaded stale).m_buffer⟩) := by
  have hpos : 0 < c.length := List.length_pos_of_ne_nil hc
  have hsize := frameFor_size c h
  have hrun := checkChecksum_run (b := ((frameFor c h).loaded stale).m_buffer)
    (frameFor c h).size_pos (frameFor c h).size_lt
  have hlt : (adler c).toNat < 256 ^ 4 := (adler c).toNat_lt
  have hsum : ofLe (((frameFor c h).loaded stale).m_buffer.read 2 4) =
      expectedChecksum (frameFor c h).size ((frameFor c h).loaded stale).m_buffer := by
    rw [frameFor_checksum, ofLe_leBytes, Nat.mod_eq_of_lt hlt, expectedChecksum, hsize,
      if_neg (by omega), Nat.add_sub_cancel, frameFor_cipher]
  rw [if_pos hsum, hsize] at hrun
  rw [Frame.loaded, hsize]
  exact hrun

theorem XTEA_decrypt_run {n : ℕ} {b : Memory} {c body rest : List UInt8} (key : Key)
    (hn : n = c.length + 6) (h8 : c.length % 8 = 0) (hmax : c.length ≤ 16360)
    (hc : b.read 6 c.length = c)
    (hplain : mapBlocks 8 (cryptBlock (decryptWords key)) (c.length / 8) c =
      leBytes 2 body.length ++ body ++ rest) :
    ∃ u, XTEA_decrypt key ⟨n, 6, b⟩ = some (true, u) ∧ u.m_size = body.length ∧
      u.m_position = 8 ∧ u.m_buffer.read 8 body.length = body := by
  have hblocks : 8 * (c.length / 8) = c.length := by omega
  have hplen := length_mapBlocks (cryptBlock_keeps (decryptWords key)) hblocks.symm
  rw [hplain, List.length_append, List.length_append, length_leBytes] at hplen
  have hmod : ¬ ((n : ℤ) - 6).tmod 8 ≠ 0 := by
    rw [hn, show ((c.length + 6 : ℕ) : ℤ) - 6 = (c.length : ℤ) by omega,
      Int.tmod_eq_emod_of_nonneg (by omega)]
    omega
  have hcount : (((n : ℤ) - 6) / 8).toNat = c.length / 8 := by omega
  have hcrypt : cryptWords (decryptWords key) 6 (c.length / 8) ⟨n, 6, b⟩ = some ((),
      ⟨n, 6, b.write 6 (leBytes 2 body.length ++ body ++ rest)⟩) := by
    have hrun := cryptWords_run (decryptWords key) (m := ⟨n, 6, b⟩) (p := 6)
      (n := c.length / 8) (by simp only [NETWORK_MAX_SIZE]; omega)
    rw [hblocks] at hrun
    simp only [hc, hplain] at hrun
    exact hrun
  have hread : ∀ l k, l ++ k = leBytes 2 body.length ++ body ++ rest →
      (b.write 6 (leBytes 2 body.length ++ body ++ rest)).read 6 l.length = l := by
    intro l k hl
    rw [← hl, ← Memory.write_append, Memory.read_write_of_disjoint (Or.inl (by omega)),
      Memory.read_write]
  have hword := hread (leBytes 2 body.length) (body ++ rest) (by rw [List.append_assoc])
  have hboth := hread (leBytes 2 body.length ++ body) rest rfl
  rw [List.length_append, Memory.read_add, hword, List.append_cancel_left_eq,
    length_leBytes] at hboth
  rw [length_leBytes] at hword
  have hlen : ofLe ((b.write 6 (leBytes 2 body.length ++ body ++ rest)).read 6 2) =
      body.length := by
    rw [hword, ofLe_leBytes]
    exact Nat.mod_eq_of_lt (by omega)
  have hget := get_at_run n 6 2 (b.write 6 (leBytes 2 body.length ++ body ++ rest)) (by decide)
  rw [hlen] at hget
  have htmp : ¬ (body.length : ℤ) > (n : ℤ) - 8 := by omega
  refine ⟨⟨body.length, 8, b.write 6 (leBytes 2 body.length ++ body ++ rest)⟩, ?_, rfl, rfl,
    hboth⟩
  rw [XTEA_decrypt, bind_get_run, if_neg hmod, hcount, bind_of_run hcrypt, bind_of_run hget,
    bind_get_run, if_neg htmp, setSize, bind_of_run (modify_run _ _), pure_run]
  simp only [uint16_of_lt (show body.length < 65536 by omega)]

/-- The bytes have the form of a frame of this body. -/
def Framed (key : Key) (body wire : List UInt8) : Prop :=
  ∃ k c, k < 8 ∧ c.length % 8 = 0 ∧
    c = encryptBytes key (leBytes 2 body.length ++ body ++ List.replicate k 0x33) ∧
    wire = leBytes 2 (c.length + 4) ++ (leBytes 4 (adler c).toNat ++ c)

/-- A receiver with the same key, whatever its buffer held before, accepts the bytes at the
header's size test, the checksum test and the decryption, and stands at the body. -/
def Received (key : Key) (body wire : List UInt8) : Prop :=
  ∀ (m : NetworkMessage) (arrived : Memory), m.m_buffer.read 0 2 = wire.take 2 →
    arrived.read 0 (wire.length - 2) = wire.drop 2 →
    ∃ u, receive arrived (laterMessage (encrypting key)) m = some (some (true, true), u) ∧
      u.m_size = body.length ∧ u.m_position = 8 ∧ u.m_buffer.read u.m_position body.length = body

theorem frameOf_framed (key : Key) (body : List UInt8) :
    Framed key body (frameOf (encryptBytes key (plainOf body))) :=
  ⟨_, encryptBytes key (plainOf body), (padding_dvd _).2,
    by rw [length_encryptBytes key (plainOf_length body), plainOf_length], rfl, rfl⟩

theorem plainOf_le {body : List UInt8} (h : body.length ≤ 16358) :
    (plainOf body).length ≤ 16360 := by
  have h8 := plainOf_length body
  have hlen : (plainOf body).length = 2 + body.length + padding (2 + body.length) := by
    simp [plainOf, Nat.add_assoc]
  have hlt := (padding_dvd (2 + body.length)).2
  unfold padding at hlen hlt
  split at hlen <;> omega

theorem frameOf_received (key : Key) {body : List UInt8} (h : body.length ≤ 16358) :
    Received key body (frameOf (encryptBytes key (plainOf body))) := by
  intro m arrived hheader hcontent
  have hlen := length_encryptBytes key (plainOf_length body)
  have hle : (encryptBytes key (plainOf body)).length ≤ 16360 := by
    rw [hlen]
    exact plainOf_le h
  have hdrop : (frameOf (encryptBytes key (plainOf body))).drop 2 =
      (frameFor _ hle).content := List.drop_left' (length_leBytes 2 _)
  have htake : (frameOf (encryptBytes key (plainOf body))).take 2 =
      leBytes 2 (frameFor _ hle).content.length := by
    rw [frameOf, List.take_left' (length_leBytes 2 _), frameFor, List.length_append,
      length_leBytes, Nat.add_comm]
  have hsub : (frameOf (encryptBytes key (plainOf body))).length - 2 =
      (frameFor _ hle).content.length := by
    rw [← hdrop, List.length_drop]
  rw [hsub, hdrop] at hcontent
  rw [htake] at hheader
  have hblocks : (plainOf body).length = 8 * ((plainOf body).length / 8) := by
    have h8 := plainOf_length body
    omega
  have hplain : mapBlocks 8 (cryptBlock (decryptWords key))
      ((encryptBytes key (plainOf body)).length / 8) (encryptBytes key (plainOf body)) =
      leBytes 2 body.length ++ body ++
        List.replicate (padding (leBytes 2 body.length ++ body).length) 0x33 := by
    rw [hlen, encryptBytes, decrypt_encrypt_blocks key hblocks, plainOf]
  obtain ⟨u, hu, hsize, hpos, hbody⟩ := XTEA_decrypt_run (n := _) key rfl
    (by rw [hlen]; exact plainOf_length body) hle
    (frameFor_cipher (encryptBytes key (plainOf body)) hle m.m_buffer) hplain
  have hlater : laterMessage (encrypting key) ((frameFor _ hle).loaded m.m_buffer) =
      some ((true, true), u) := by
    have hrecv : onRecvMessage (encrypting key) = XTEA_decrypt key := rfl
    rw [laterMessage,
      bind_of_run (frameFor_checked _ hle (encryptBytes_ne_nil key body) m.m_buffer), hrecv,
      bind_of_run hu, pure_run]
  refine ⟨u, ?_, hsize, hpos, by rw [hpos]; exact hbody⟩
  rw [Frame.receive_loaded (frameFor _ hle) m arrived _ hheader hcontent, hlater]
  rfl

/-- What `delegate` or any other writer does with a message, up to the bytes asio gets. -/
def sendCalls (key : Key) (calls : List Call) : Access OutputMessage Unit := do
  base (runAll calls)
  onSendMessage (encrypting key)

/-- Sender and receiver agree on the bytes of these calls. -/
def FramingAgrees (key : Key) (stale : Memory) (calls : List Call) : Prop :=
  ∃ u, sendCalls key calls (configured stale) = some ((), u) ∧
    Framed key (written calls) (u.m_buffer.read u.m_outputBufferStart u.m_size) ∧
    Received key (written calls) (u.m_buffer.read u.m_outputBufferStart u.m_size)

theorem sendCalls_run (key : Key) (stale : Memory) (calls : List Call) :
    ∃ u c, sendCalls key calls (configured stale) = some ((), u) ∧
      u.m_buffer.read u.m_outputBufferStart u.m_size = frameOf c ∧
      ((written calls).length ≤ 16358 → c = encryptBytes key (plainOf (written calls))) ∧
      (16358 < (written calls).length → c.length = (written calls).length + 2) := by
  obtain ⟨m, hm, hholds⟩ := runAll_written stale calls
  obtain ⟨u, c, hu, ho, hc⟩ := onSendMessage_run key
    (m := ⟨m, NETWORK_CRYPTOHEADER_SIZE⟩) hholds rfl
  refine ⟨u, c, ?_, by rw [ho.begins, ho.size]; exact ho.bytes, hc⟩
  have hbase : base (runAll calls) (configured stale) =
      some ((), ⟨m, NETWORK_CRYPTOHEADER_SIZE⟩) := base_run hm
  rw [sendCalls, bind_of_run hbase, hu]

/-- No frame of a body holds a number of encrypted bytes that is no multiple of 8. -/
theorem not_framed {key : Key} {body c : List UInt8} (h : c.length % 8 ≠ 0) :
    ¬ Framed key body (frameOf c) := by
  rintro ⟨k, d, _, hd, _, hw⟩
  have hlen := congrArg List.length hw
  simp only [frameOf, List.length_append, length_leBytes] at hlen
  omega

theorem long_body_disagrees (key : Key) (stale : Memory) (calls : List Call)
    (hlt : 16358 < (written calls).length) : ¬ FramingAgrees key stale calls := by
  obtain ⟨u, c, hu, hwire, _, hlong⟩ := sendCalls_run key stale calls
  obtain ⟨m, _, hholds⟩ := runAll_written stale calls
  rintro ⟨v, hv, hframed, _⟩
  cases hu.symm.trans hv
  have hroom := hholds.room
  simp only [NETWORK_BODY_SIZE, NETWORK_MAX_SIZE, NETWORK_CRYPTOHEADER_SIZE,
    NETWORK_HEADER_SIZE] at hroom
  rw [hwire] at hframed
  have hcl := hlong hlt
  exact not_framed (by omega) hframed

/-- Framing and decoding agree for every key and every sequence of writes just when the body
leaves space for the largest padding. -/
theorem framing_agrees_iff (key : Key) (stale : Memory) (calls : List Call) :
    FramingAgrees key stale calls ↔ (written calls).length ≤ 16358 := by
  constructor
  · intro hagrees
    by_contra hlt
    exact long_body_disagrees key stale calls (by omega) hagrees
  · intro hle
    obtain ⟨u, c, hu, hwire, hshort, _⟩ := sendCalls_run key stale calls
    rw [hshort hle] at hwire
    refine ⟨u, hu, ?_, ?_⟩
    · rw [hwire]
      exact frameOf_framed key (written calls)
    · rw [hwire]
      exact frameOf_received key hle

theorem written_two_strings {a b : List UInt8} (ha : a.length ≤ 8192) (hb : b.length ≤ 8192)
    (hab : a.length + b.length ≤ 16357) :
    (written [.putString a true, .putString b true]).length = a.length + b.length + 4 := by
  have hma : a.length % 4294967296 = a.length := Nat.mod_eq_of_lt (by omega)
  have hmb : b.length % 4294967296 = b.length := Nat.mod_eq_of_lt (by omega)
  have hfirst : Call.Fits ([] : List UInt8).length (.putString a true) := by
    simp only [Call.Fits, hma, if_true, List.length_nil, NETWORK_BODY_SIZE, NETWORK_MAX_SIZE,
      NETWORK_CRYPTOHEADER_SIZE, NETWORK_HEADER_SIZE]
    omega
  have hsecond : Call.Fits (a.length + 2) (.putString b true) := by
    simp only [Call.Fits, hmb, if_true, NETWORK_BODY_SIZE, NETWORK_MAX_SIZE,
      NETWORK_CRYPTOHEADER_SIZE, NETWORK_HEADER_SIZE]
    omega
  have hlen : (writeCall [] (.putString a true)).length = a.length + 2 := by
    rw [writeCall, if_pos hfirst]
    simp [Call.encode, hma, Nat.add_comm]
  rw [written, List.foldl_cons, List.foldl_cons, List.foldl_nil, writeCall,
    if_pos (by rw [hlen]; exact hsecond), List.length_append, hlen]
  simp only [Call.encode, hmb, List.length_append, length_leBytes, List.take_length]
  omega

def longBody : List Call :=
  [.putString (List.replicate 8192 0x41) true, .putString (List.replicate 8163 0x41) true]

theorem longBody_length : (written longBody).length = 16359 := by
  have h := written_two_strings (a := List.replicate 8192 0x41) (b := List.replicate 8163 0x41)
  rw [List.length_replicate, List.length_replicate] at h
  exact h (by decide) (by decide) (by decide)

theorem long_body_loses_padding :
    ¬ ∀ (key : Key) (stale : Memory) (calls : List Call), FramingAgrees key stale calls :=
  fun hall => long_body_disagrees (fun _ => 0) (fun _ => 0) longBody
    (by rw [longBody_length]; decide) (hall _ _ _)

end LoginServer.Message
