import LoginServer.Xtea
import Mathlib.Logic.Function.Basic

/-! # The `while` loops over the words

`XTEA_encrypt` and `XTEA_decrypt` as they run through the `uint32_t` buffer: `readPos` goes up
once at the head of the loop and once in its body. A step of the loop keeps away from the words
before it, so the loops undo each other because one block does. -/
namespace LoginServer.Message

open Faults Bytes

/-- The loop from a head that has just raised `readPos`; it ends at the number of words. -/
def cryptLoop (crypt : UInt32 → UInt32 → Rounds) (words readPos : ℕ) (buffer : ℕ → UInt32) :
    ℕ → UInt32 :=
  if readPos < words then
    let r := crypt (buffer readPos) (buffer (readPos + 1))
    cryptLoop crypt words (readPos + 2)
      (Function.update (Function.update buffer readPos r.v0) (readPos + 1) r.v1)
  else buffer
termination_by words - readPos

/-- `readPos` is raised from -1, and `messageLength` is in bytes. -/
def encryptLoop (key : Key) (messageLength : ℕ) (buffer : ℕ → UInt32) : ℕ → UInt32 :=
  cryptLoop (encryptWords key) (messageLength >>> 2) 0 buffer

def decryptLoop (key : Key) (messageLength : ℕ) (buffer : ℕ → UInt32) : ℕ → UInt32 :=
  cryptLoop (decryptWords key) (messageLength >>> 2) 0 buffer

def setPair (buffer : ℕ → UInt32) (readPos : ℕ) (r : Rounds) : ℕ → UInt32 :=
  Function.update (Function.update buffer readPos r.v0) (readPos + 1) r.v1

theorem setPair_fst (buffer : ℕ → UInt32) (readPos : ℕ) (r : Rounds) :
    setPair buffer readPos r readPos = r.v0 := by
  simp [setPair]

theorem setPair_snd (buffer : ℕ → UInt32) (readPos : ℕ) (r : Rounds) :
    setPair buffer readPos r (readPos + 1) = r.v1 := by
  simp [setPair]

theorem setPair_setPair (buffer : ℕ → UInt32) (readPos : ℕ) (r q : Rounds) :
    setPair (setPair buffer readPos r) readPos q = setPair buffer readPos q := by
  funext i
  simp only [setPair, Function.update_apply]
  split
  · rfl
  · split <;> rfl

theorem setPair_self {buffer : ℕ → UInt32} {readPos : ℕ} {r : Rounds}
    (h0 : r.v0 = buffer readPos) (h1 : r.v1 = buffer (readPos + 1)) :
    setPair buffer readPos r = buffer := by
  rw [setPair, h0, h1, Function.update_eq_self, Function.update_eq_self]

theorem cryptLoop_step {crypt : UInt32 → UInt32 → Rounds} {words readPos : ℕ}
    (h : readPos < words) (buffer : ℕ → UInt32) :
    cryptLoop crypt words readPos buffer = cryptLoop crypt words (readPos + 2)
      (setPair buffer readPos (crypt (buffer readPos) (buffer (readPos + 1)))) := by
  rw [cryptLoop, if_pos h]
  rfl

theorem cryptLoop_end {crypt : UInt32 → UInt32 → Rounds} {words readPos : ℕ}
    (h : ¬ readPos < words) (buffer : ℕ → UInt32) :
    cryptLoop crypt words readPos buffer = buffer := by
  rw [cryptLoop, if_neg h]

theorem cryptLoop_update (crypt : UInt32 → UInt32 → Rounds) (words readPos : ℕ)
    (buffer : ℕ → UInt32) {i : ℕ} (hi : i < readPos) (v : UInt32) :
    cryptLoop crypt words readPos (Function.update buffer i v) =
      Function.update (cryptLoop crypt words readPos buffer) i v := by
  fun_induction cryptLoop crypt words readPos buffer with
  | case1 readPos buffer h r ih =>
    have h0 : Function.update buffer i v readPos = buffer readPos :=
      Function.update_of_ne (by omega) _ _
    have h1 : Function.update buffer i v (readPos + 1) = buffer (readPos + 1) :=
      Function.update_of_ne (by omega) _ _
    rw [cryptLoop_step h, h0, h1, ← ih (by omega), setPair,
      Function.update_comm (by omega : i ≠ readPos),
      Function.update_comm (by omega : i ≠ readPos + 1)]
  | case2 readPos buffer h => rw [cryptLoop_end h]

theorem cryptLoop_setPair (crypt : UInt32 → UInt32 → Rounds) (words readPos : ℕ)
    (buffer : ℕ → UInt32) (r : Rounds) :
    cryptLoop crypt words (readPos + 2) (setPair buffer readPos r) =
      setPair (cryptLoop crypt words (readPos + 2) buffer) readPos r := by
  rw [setPair, cryptLoop_update _ _ _ _ (by omega), cryptLoop_update _ _ _ _ (by omega), setPair]

theorem cryptLoop_inverse {crypt uncrypt : UInt32 → UInt32 → Rounds}
    (h : ∀ v0 v1, (uncrypt (crypt v0 v1).v0 (crypt v0 v1).v1).v0 = v0 ∧
      (uncrypt (crypt v0 v1).v0 (crypt v0 v1).v1).v1 = v1)
    (words readPos : ℕ) (buffer : ℕ → UInt32) :
    cryptLoop uncrypt words readPos (cryptLoop crypt words readPos buffer) = buffer := by
  by_cases hlt : readPos < words
  · have ih := cryptLoop_inverse h words (readPos + 2) buffer
    obtain ⟨h0, h1⟩ := h (buffer readPos) (buffer (readPos + 1))
    rw [cryptLoop_step hlt buffer, cryptLoop_setPair, cryptLoop_step hlt, setPair_fst, setPair_snd,
      setPair_setPair, cryptLoop_setPair, ih]
    exact setPair_self h0 h1
  · rw [cryptLoop_end hlt, cryptLoop_end hlt]
termination_by words - readPos

theorem encryptRound_decryptRound (key : Key) (r : Rounds) :
    encryptRound key (decryptRound key r) = r := by
  cases r
  simp only [encryptRound, decryptRound, UInt32.sub_add_cancel, UInt32.add_sub_cancel]

theorem decryptRound_iterate_sum (key : Key) (n : ℕ) (r : Rounds) :
    ((decryptRound key)^[n] r).sum = r.sum + UInt32.ofNat n * delta := by
  induction n generalizing r with
  | zero => simp
  | succ n ih =>
    rw [Function.iterate_succ_apply, ih]
    simp only [decryptRound, UInt32.ofNat_add]
    grind

theorem decryptWords_sum (key : Key) (v0 v1 : UInt32) : (decryptWords key v0 v1).sum = 0 := by
  have hwrap : (0xC6EF3720 : UInt32) + UInt32.ofNat 32 * delta = 0 := by decide
  rw [decryptWords, decryptRound_iterate_sum]
  exact hwrap

theorem encryptWords_decryptWords (key : Key) (v0 v1 : UInt32) :
    encryptWords key (decryptWords key v0 v1).v0 (decryptWords key v0 v1).v1 =
      ⟨v0, v1, 0xC6EF3720⟩ := by
  have hinv : Function.LeftInverse (encryptRound key) (decryptRound key) :=
    encryptRound_decryptRound key
  have hr : (⟨(decryptWords key v0 v1).v0, (decryptWords key v0 v1).v1, 0⟩ : Rounds) =
      decryptWords key v0 v1 := by
    rw [← decryptWords_sum key v0 v1]
  rw [encryptWords, hr, decryptWords, hinv.iterate 32]

/-- For every key and every number of blocks each loop undoes the other. -/
theorem xtea_loops_inverse (key : Key) (messageLength : ℕ) (buffer : ℕ → UInt32) :
    decryptLoop key messageLength (encryptLoop key messageLength buffer) = buffer ∧
      encryptLoop key messageLength (decryptLoop key messageLength buffer) = buffer := by
  constructor
  · exact cryptLoop_inverse (fun v0 v1 => by simp [decryptWords_encryptWords]) _ 0 buffer
  · exact cryptLoop_inverse (fun v0 v1 => by simp [encryptWords_decryptWords]) _ 0 buffer

def wordsAt (b : Memory) (p i : ℕ) : UInt32 := UInt32.ofNat (ofLe (b.read (p + 4 * i) 4))

theorem wordsAt_write (b : Memory) (p i : ℕ) (v : UInt32) :
    wordsAt (b.write (p + 4 * i) (leBytes 4 v.toNat)) p =
      Function.update (wordsAt b p) i v := by
  funext j
  by_cases hj : j = i
  · subst hj
    have hread := Memory.read_write b (p + 4 * j) (leBytes 4 v.toNat)
    rw [length_leBytes] at hread
    rw [Function.update_self, wordsAt, hread, ofNat_ofLe_leBytes]
  · rw [Function.update_of_ne hj, wordsAt, wordsAt, Memory.read_write_of_disjoint]
    rw [length_leBytes]
    omega

/-- The loop over the bytes of the buffer is the loop over its words. -/
theorem cryptWords_cryptLoop (crypt : UInt32 → UInt32 → Rounds) {p n readPos : ℕ}
    {m : NetworkMessage} (h : p + 4 * (readPos + 2 * n) ≤ NETWORK_MAX_SIZE) :
    ∃ u, cryptWords crypt (p + 4 * readPos) n m = some ((), u) ∧
      wordsAt u.m_buffer p =
        cryptLoop crypt (readPos + 2 * n) readPos (wordsAt m.m_buffer p) := by
  induction n generalizing readPos m with
  | zero => exact ⟨m, rfl, (cryptLoop_end (by omega) _).symm⟩
  | succ n ih =>
    have hnext : p + 4 * readPos + 4 = p + 4 * (readPos + 1) := by omega
    have hend : readPos + 2 * (n + 1) = readPos + 2 + 2 * n := by omega
    let r := crypt (wordsAt m.m_buffer p readPos) (wordsAt m.m_buffer p (readPos + 1))
    let b := (m.m_buffer.write (p + 4 * readPos) (leBytes 4 r.v0.toNat)).write
      (p + 4 * (readPos + 1)) (leBytes 4 r.v1.toNat)
    have hb : wordsAt b p = setPair (wordsAt m.m_buffer p) readPos r := by
      rw [wordsAt_write, wordsAt_write, setPair]
    obtain ⟨u, hu, hw⟩ := @ih (readPos + 2) { m with m_buffer := b } (by omega)
    have hlt : readPos < readPos + 2 + 2 * n := by omega
    refine ⟨u, ?_, ?_⟩
    · rw [cryptWords, bind_of_run (loadWord_run (by omega)), hnext,
        bind_of_run (loadWord_run (by omega)), bind_of_run (storeWord_run (by omega)),
        bind_of_run (storeWord_run (by omega))]
      exact hu
    · rw [hw, hend, cryptLoop_step hlt, hb]

end LoginServer.Message
