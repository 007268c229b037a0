import LoginServer.Library.Blocks
import LoginServer.NetworkMessage
import Mathlib.Logic.Function.Iterate

/-! # The block loops of `XTEA_encrypt` and `XTEA_decrypt`

Both run 32 rounds on each pair of 32-bit words of a range of the buffer, in place. A round of
one undoes a round of the other, so the loops are inverse to each other. -/
namespace LoginServer.Message

open Faults Bytes Blocks

abbrev Key := Fin 4 → UInt32

def delta : UInt32 := 0x61C88647

def mix (v : UInt32) : UInt32 := (v <<< 4 ^^^ v >>> 5) + v

def keyWord (key : Key) (sum : UInt32) : UInt32 := key (Fin.ofNat 4 (sum &&& 3).toNat)

/-- The words of a block and the running `sum`. -/
structure Rounds where
  v0 : UInt32
  v1 : UInt32
  sum : UInt32

def encryptRound (key : Key) (r : Rounds) : Rounds :=
  let v0 := r.v0 + (mix r.v1 ^^^ (r.sum + keyWord key r.sum))
  let sum := r.sum - delta
  ⟨v0, r.v1 + (mix v0 ^^^ (sum + keyWord key (sum >>> 11))), sum⟩

def decryptRound (key : Key) (r : Rounds) : Rounds :=
  let v1 := r.v1 - (mix r.v0 ^^^ (r.sum + keyWord key (r.sum >>> 11)))
  let sum := r.sum + delta
  ⟨r.v0 - (mix v1 ^^^ (sum + keyWord key sum)), v1, sum⟩

def encryptWords (key : Key) (v0 v1 : UInt32) : Rounds := (encryptRound key)^[32] ⟨v0, v1, 0⟩

def decryptWords (key : Key) (v0 v1 : UInt32) : Rounds :=
  (decryptRound key)^[32] ⟨v0, v1, 0xC6EF3720⟩

def loadWord (p : ℕ) : Access NetworkMessage UInt32 := do
  let l ← load p 4
  pure (UInt32.ofNat (ofLe l))

def storeWord (p : ℕ) (v : UInt32) : Access NetworkMessage Unit := store p (leBytes 4 v.toNat)

/-- The loop over `n` pairs of words from `p` on. -/
def cryptWords (crypt : UInt32 → UInt32 → Rounds) : ℕ → ℕ → Access NetworkMessage Unit
  | _, 0 => pure ()
  | p, n + 1 => do
    let v0 ← loadWord p
    let v1 ← loadWord (p + 4)
    storeWord p (crypt v0 v1).v0
    storeWord (p + 4) (crypt v0 v1).v1
    cryptWords crypt (p + 8) n

def cryptBlock (crypt : UInt32 → UInt32 → Rounds) (b : List UInt8) : List UInt8 :=
  let r := crypt (UInt32.ofNat (ofLe (b.take 4))) (UInt32.ofNat (ofLe (b.drop 4)))
  leBytes 4 r.v0.toNat ++ leBytes 4 r.v1.toNat

theorem cryptBlock_keeps (crypt : UInt32 → UInt32 → Rounds) :
    KeepsBlocks 8 (cryptBlock crypt) := fun b _ => by simp [cryptBlock]

theorem loadWord_run {p : ℕ} {m : NetworkMessage} (h : p + 4 ≤ NETWORK_MAX_SIZE) :
    loadWord p m = some (UInt32.ofNat (ofLe (m.m_buffer.read p 4)), m) := by
  rw [loadWord, bind_of_run (load_run h), pure_run]

theorem storeWord_run {p : ℕ} {v : UInt32} {m : NetworkMessage} (h : p + 4 ≤ NETWORK_MAX_SIZE) :
    storeWord p v m =
      some ((), { m with m_buffer := m.m_buffer.write p (leBytes 4 v.toNat) }) :=
  store_run (by simpa using h)

theorem cryptWords_run (crypt : UInt32 → UInt32 → Rounds) {p n : ℕ} {m : NetworkMessage}
    (h : p + 8 * n ≤ NETWORK_MAX_SIZE) :
    cryptWords crypt p n m = some ((), { m with
      m_buffer := m.m_buffer.write p
        (mapBlocks 8 (cryptBlock crypt) n (m.m_buffer.read p (8 * n))) }) := by
  induction n generalizing p m with
  | zero => simp [cryptWords, pure_run, mapBlocks]
  | succ n ih =>
    have hb : m.m_buffer.read p 8 = m.m_buffer.read p 4 ++ m.m_buffer.read (p + 4) 4 :=
      Memory.read_add _ _ 4 4
    have hblock : cryptBlock crypt (m.m_buffer.read p 8) =
        leBytes 4 (crypt (UInt32.ofNat (ofLe (m.m_buffer.read p 4)))
          (UInt32.ofNat (ofLe (m.m_buffer.read (p + 4) 4)))).v0.toNat ++
        leBytes 4 (crypt (UInt32.ofNat (ofLe (m.m_buffer.read p 4)))
          (UInt32.ofNat (ofLe (m.m_buffer.read (p + 4) 4)))).v1.toNat := by
      rw [cryptBlock, hb, List.take_left' (by simp), List.drop_left' (by simp)]
    have hlen := cryptBlock_keeps crypt _ (Memory.length_read m.m_buffer p 8)
    have hstored := Memory.write_append m.m_buffer p
      (leBytes 4 (crypt (UInt32.ofNat (ofLe (m.m_buffer.read p 4)))
        (UInt32.ofNat (ofLe (m.m_buffer.read (p + 4) 4)))).v0.toNat)
      (leBytes 4 (crypt (UInt32.ofNat (ofLe (m.m_buffer.read p 4)))
        (UInt32.ofNat (ofLe (m.m_buffer.read (p + 4) 4)))).v1.toNat)
    rw [← hblock, length_leBytes] at hstored
    rw [cryptWords, bind_of_run (loadWord_run (by omega)),
      bind_of_run (loadWord_run (by omega)), bind_of_run (storeWord_run (by omega)),
      bind_of_run (storeWord_run (by omega)), ih (by omega), hstored]
    have hrest : (m.m_buffer.write p (cryptBlock crypt (m.m_buffer.read p 8))).read (p + 8)
        (8 * n) = m.m_buffer.read (p + 8) (8 * n) :=
      Memory.read_write_of_disjoint (by omega)
    have hsplit : m.m_buffer.read p (8 * (n + 1)) =
        m.m_buffer.read p 8 ++ m.m_buffer.read (p + 8) (8 * n) := by
      rw [← Memory.read_add]
      congr 1
      omega
    have happ := Memory.write_append m.m_buffer p (cryptBlock crypt (m.m_buffer.read p 8))
      (mapBlocks 8 (cryptBlock crypt) n (m.m_buffer.read (p + 8) (8 * n)))
    rw [hlen] at happ
    simp only [hrest, hsplit]
    rw [mapBlocks_cons (Memory.length_read _ _ _), happ]

theorem decryptRound_encryptRound (key : Key) (r : Rounds) :
    decryptRound key (encryptRound key r) = r := by
  cases r
  simp only [encryptRound, decryptRound, UInt32.sub_add_cancel, UInt32.add_sub_cancel]

theorem encryptRound_iterate_sum (key : Key) (n : ℕ) (r : Rounds) :
    ((encryptRound key)^[n] r).sum = r.sum - UInt32.ofNat n * delta := by
  induction n generalizing r with
  | zero => simp
  | succ n ih =>
    rw [Function.iterate_succ_apply, ih]
    simp only [encryptRound, UInt32.ofNat_add]
    grind

theorem encryptWords_sum (key : Key) (v0 v1 : UInt32) :
    (encryptWords key v0 v1).sum = 0xC6EF3720 := by
  have hwrap : (0 : UInt32) - UInt32.ofNat 32 * delta = 0xC6EF3720 := by decide
  rw [encryptWords, encryptRound_iterate_sum]
  exact hwrap

theorem decryptWords_encryptWords (key : Key) (v0 v1 : UInt32) :
    decryptWords key (encryptWords key v0 v1).v0 (encryptWords key v0 v1).v1 = ⟨v0, v1, 0⟩ := by
  have hinv : Function.LeftInverse (decryptRound key) (encryptRound key) :=
    decryptRound_encryptRound key
  have hr : (⟨(encryptWords key v0 v1).v0, (encryptWords key v0 v1).v1, 0xC6EF3720⟩ : Rounds) =
      encryptWords key v0 v1 := by
    rw [← encryptWords_sum key v0 v1]
  rw [decryptWords, hr, encryptWords, hinv.iterate 32]

theorem ofNat_ofLe_leBytes (v : UInt32) : UInt32.ofNat (ofLe (leBytes 4 v.toNat)) = v := by
  have hlt : v.toNat < 256 ^ 4 := v.toNat_lt
  rw [ofLe_leBytes, Nat.mod_eq_of_lt hlt, UInt32.ofNat_toNat]

theorem leBytes_ofNat_ofLe {l : List UInt8} (h : l.length = 4) :
    leBytes 4 (UInt32.ofNat (ofLe l)).toNat = l := by
  have hlt := ofLe_lt l
  rw [h] at hlt
  have hw : (UInt32.ofNat (ofLe l)).toNat = ofLe l := UInt32.toNat_ofNat_of_lt' hlt
  rw [hw, ← h, leBytes_ofLe]

theorem cryptBlock_inverse {crypt uncrypt : UInt32 → UInt32 → Rounds}
    (h : ∀ v0 v1, (uncrypt (crypt v0 v1).v0 (crypt v0 v1).v1).v0 = v0 ∧
      (uncrypt (crypt v0 v1).v0 (crypt v0 v1).v1).v1 = v1)
    {b : List UInt8} (hb : b.length = 8) :
    cryptBlock uncrypt (cryptBlock crypt b) = b := by
  have ht : (b.take 4).length = 4 := by simp [hb]
  have hd : (b.drop 4).length = 4 := by simp [hb]
  obtain ⟨h0, h1⟩ := h (UInt32.ofNat (ofLe (b.take 4))) (UInt32.ofNat (ofLe (b.drop 4)))
  rw [cryptBlock.eq_1 uncrypt, cryptBlock, List.take_left' (length_leBytes 4 _),
    List.drop_left' (length_leBytes 4 _), ofNat_ofLe_leBytes, ofNat_ofLe_leBytes, h0, h1,
    leBytes_ofNat_ofLe ht, leBytes_ofNat_ofLe hd, List.take_append_drop]

theorem decrypt_encrypt_block (key : Key) {b : List UInt8} (hb : b.length = 8) :
    cryptBlock (decryptWords key) (cryptBlock (encryptWords key) b) = b :=
  cryptBlock_inverse (fun v0 v1 => by simp [decryptWords_encryptWords]) hb

/-- Decryption undoes encryption on every whole number of blocks. -/
theorem decrypt_encrypt_blocks (key : Key) {n : ℕ} {l : List UInt8} (h : l.length = 8 * n) :
    mapBlocks 8 (cryptBlock (decryptWords key)) n
      (mapBlocks 8 (cryptBlock (encryptWords key)) n l) = l :=
  mapBlocks_inverse (cryptBlock_keeps _) (fun _ hb => decrypt_encrypt_block key hb) h

end LoginServer.Message
