import LoginServer.NetworkMessage

/-! # Peeking and consuming

`getString` moves two bytes on whenever it peeks, which is right only behind a length it has
peeked itself: with a size of its own it returns the bytes two further on. -/
namespace LoginServer.Peek

open Faults Bytes Message

def text (m : NetworkMessage) (p n : ℕ) : List UInt8 :=
  if p + n < NETWORK_MAX_SIZE then m.m_buffer.read p n else []

def prefixLength (m : NetworkMessage) : ℕ :=
  if m.m_position + 2 < NETWORK_MAX_SIZE then ofLe (m.m_buffer.read m.m_position 2) else 0

/-- Both ways of calling it return, with one answer, and peeking leaves the position. -/
def Agrees {α : Type} (f : Bool → Access NetworkMessage α) (m : NetworkMessage) : Prop :=
  ∃ a peeked consumed, f true m = some (a, peeked) ∧ peeked.m_position = m.m_position ∧
    f false m = some (a, consumed)

inductive Read where
  | get (w : ℕ)
  | getString (size : ℕ)
  | getRaw

/-- What is expected of a call; of `getRaw` also that it returns what is left. -/
def Read.PeekAgrees (m : NetworkMessage) : Read → Prop
  | .get w => Agrees (Message.get w) m
  | .getString size => Agrees (fun peek => Message.getString peek size) m
  | .getRaw => Agrees Message.getRaw m ∧ (m.m_position ≤ m.m_size → ∀ peek, ∃ u,
      Message.getRaw peek m =
        some (m.m_buffer.read m.m_position (m.m_size - m.m_position), u))

/-- The `n` bytes at the position and those two further on are the same and inside. -/
def Repeats (m : NetworkMessage) (n : ℕ) : Prop :=
  m.m_position + 2 + n < NETWORK_MAX_SIZE ∧
    m.m_buffer.read m.m_position n = m.m_buffer.read (m.m_position + 2) n

instance (m : NetworkMessage) (n : ℕ) : Decidable (Repeats m n) :=
  inferInstanceAs (Decidable (_ ∧ _))

/-- No bytes are asked for with a size, or too many, or the shift does not show. -/
def Read.Unshifted (m : NetworkMessage) : Read → Prop
  | .get _ => True
  | .getString size =>
      size = 0 ∨ NETWORK_MAX_SIZE ≤ m.m_position + size ∨ Repeats m size
  | .getRaw =>
      m.m_size < m.m_position ∨
      (m.m_size = m.m_position ∧
        (prefixLength m = 0 ∨ NETWORK_MAX_SIZE ≤ m.m_position + 2 + prefixLength m)) ∨
      (m.m_position < m.m_size ∧ Repeats m (m.m_size - m.m_position))

instance (m : NetworkMessage) : (r : Read) → Decidable (r.Unshifted m)
  | .get _ => inferInstanceAs (Decidable True)
  | .getString _ => inferInstanceAs (Decidable (_ ∨ _))
  | .getRaw => inferInstanceAs (Decidable (_ ∨ _))

variable {m : NetworkMessage}

theorem text_eq_nil_iff {p n : ℕ} :
    text m p n = [] ↔ n = 0 ∨ NETWORK_MAX_SIZE ≤ p + n := by
  unfold text
  split
  · rename_i h
    have hle : ¬ NETWORK_MAX_SIZE ≤ p + n := by omega
    rw [← List.length_eq_zero_iff, Memory.length_read]
    simp [hle]
  · rename_i h
    simp [Nat.le_of_not_lt h]

theorem text_eq_read {p n : ℕ} (h : p + n < NETWORK_MAX_SIZE) :
    text m p n = m.m_buffer.read p n := if_pos h

theorem text_shift_iff (n : ℕ) :
    text m m.m_position n = text m (m.m_position + 2) n ↔
      n = 0 ∨ NETWORK_MAX_SIZE ≤ m.m_position + n ∨ Repeats m n := by
  by_cases hfar : m.m_position + 2 + n < NETWORK_MAX_SIZE
  · rw [text_eq_read hfar, text_eq_read (by omega)]
    constructor
    · intro h
      exact Or.inr (Or.inr ⟨hfar, h⟩)
    · rintro (rfl | h | h)
      · simp
      · omega
      · exact h.2
  · have hnil : text m (m.m_position + 2) n = [] := if_neg hfar
    rw [hnil, text_eq_nil_iff]
    constructor
    · rintro (h | h)
      · exact Or.inl h
      · exact Or.inr (Or.inl h)
    · rintro (h | h | h)
      · exact Or.inl h
      · exact Or.inr h
      · exact absurd h.1 hfar

theorem get_agrees (w : ℕ) (hp : m.m_position < NETWORK_MAX_SIZE) :
    Agrees (Message.get w) m := by
  by_cases h : m.m_position + w < NETWORK_MAX_SIZE
  · exact ⟨_, _, _, get_peek_run h, rfl, get_run h⟩
  · have hend : ∀ peek, Message.get w peek m = some (0, m) := fun peek =>
      get_past_end (Nat.le_of_lt hp) (Nat.le_of_not_lt h)
    exact ⟨_, _, _, hend true, rfl, hend false⟩

theorem getCharacters_text (n : ℕ) :
    ∃ u, getCharacters false n m = some (text m m.m_position n, u) := by
  unfold text
  split
  · exact ⟨_, getCharacters_run ‹_›⟩
  · exact ⟨_, getCharacters_overlong (Nat.le_of_not_lt ‹_›)⟩

theorem getCharacters_peek (n : ℕ) (hp : m.m_position < NETWORK_MAX_SIZE) :
    getCharacters true n m = some (text m (m.m_position + 2) n, m) := by
  have hword : uint16 (m.m_position + 2) = m.m_position + 2 := by
    simp only [NETWORK_MAX_SIZE] at hp
    exact uint16_of_lt (by omega)
  rw [getCharacters, bind_get_run]
  simp only [if_true, hword, text]
  by_cases h : m.m_position + 2 + n < NETWORK_MAX_SIZE
  · have hfits : ¬ (n : ℤ) ≥ NETWORK_MAX_SIZE - ((m.m_position + 2 : ℕ) : ℤ) := by omega
    rw [if_neg hfits, if_pos h, bind_of_run (load_run (Nat.le_of_lt h)), pure_run]
  · have hlong : (n : ℤ) ≥ NETWORK_MAX_SIZE - ((m.m_position + 2 : ℕ) : ℤ) := by omega
    rw [if_pos hlong, if_neg h, pure_run]

theorem getString_sized (peek : Bool) {n : ℕ} (hn : n ≠ 0) :
    Message.getString peek n m = getCharacters peek n m := by
  rw [Message.getString, if_neg hn]
  rfl

theorem getString_prefixed (hp : m.m_position < NETWORK_MAX_SIZE) :
    Message.getString true 0 m = some (text m (m.m_position + 2) (prefixLength m), m) ∧
      ∃ u, Message.getString false 0 m =
        some (text m (m.m_position + 2) (prefixLength m), u) := by
  by_cases h : m.m_position + 2 < NETWORK_MAX_SIZE
  · have hlen : prefixLength m = ofLe (m.m_buffer.read m.m_position 2) := if_pos h
    constructor
    · rw [Message.getString, if_pos rfl, bind_of_run (get_peek_run h), hlen]
      exact getCharacters_peek _ hp
    · rw [getString_eq h, hlen]
      exact getCharacters_text _
  · have hend : ∀ peek, Message.get 2 peek m = some (0, m) := fun peek =>
      get_past_end (Nat.le_of_lt hp) (Nat.le_of_not_lt h)
    have hlen : prefixLength m = 0 := if_neg h
    have hnil : text m m.m_position 0 = text m (m.m_position + 2) 0 :=
      (text_shift_iff 0).mpr (Or.inl rfl)
    constructor
    · rw [Message.getString, if_pos rfl, bind_of_run (hend true), hlen]
      exact getCharacters_peek 0 hp
    · rw [Message.getString, if_pos rfl, bind_of_run (hend false), hlen, ← hnil]
      exact getCharacters_text 0

theorem getString_agrees_iff (n : ℕ) (hp : m.m_position < NETWORK_MAX_SIZE) :
    Agrees (fun peek => Message.getString peek n) m ↔
      n = 0 ∨ NETWORK_MAX_SIZE ≤ m.m_position + n ∨ Repeats m n := by
  by_cases hn : n = 0
  · subst hn
    obtain ⟨hpeek, u, hconsume⟩ := getString_prefixed hp
    simp only [true_or, iff_true]
    exact ⟨_, _, _, hpeek, rfl, hconsume⟩
  · obtain ⟨u, hconsume⟩ := getCharacters_text (m := m) n
    rw [← getString_sized false hn] at hconsume
    have hpeek := getCharacters_peek n hp
    rw [← getString_sized true hn] at hpeek
    rw [← text_shift_iff]
    constructor
    · rintro ⟨a, p, c, hp', _, hc'⟩
      simp only [hpeek, hconsume, Option.some.injEq, Prod.mk.injEq] at hp' hc'
      rw [hp'.1, hc'.1]
    · intro heq
      exact ⟨_, _, _, hpeek, rfl, by rw [← heq]; exact hconsume⟩

theorem getRaw_eq (peek : Bool) : Message.getRaw peek m =
    Message.getString peek (((m.m_size : ℤ) - m.m_position) % 65536).toNat m := rfl

theorem getRaw_within (peek : Bool) (hs : m.m_size < 65536) (h : m.m_position ≤ m.m_size) :
    Message.getRaw peek m = Message.getString peek (m.m_size - m.m_position) m := by
  have hsize : (((m.m_size : ℤ) - m.m_position) % 65536).toNat = m.m_size - m.m_position := by
    omega
  rw [getRaw_eq, hsize]

/-- A size below the position wraps to more than the buffer has. -/
theorem getRaw_agrees_of_lt (hp : m.m_position < NETWORK_MAX_SIZE)
    (h : m.m_size < m.m_position) : Agrees Message.getRaw m := by
  have hlong : NETWORK_MAX_SIZE ≤
      m.m_position + (((m.m_size : ℤ) - m.m_position) % 65536).toNat := by
    simp only [NETWORK_MAX_SIZE] at hp ⊢
    omega
  exact (getString_agrees_iff _ hp).mpr (Or.inr (Or.inl hlong))

theorem getRaw_empty (hp : m.m_position < NETWORK_MAX_SIZE) (hs : m.m_size < 65536)
    (h : m.m_size = m.m_position) (peek : Bool) :
    ∃ u, Message.getRaw peek m =
      some (text m (m.m_position + 2) (prefixLength m), u) := by
  have hnone : m.m_size - m.m_position = 0 := by omega
  obtain ⟨hpeek, hconsume⟩ := getString_prefixed hp
  rw [getRaw_within peek hs (by omega), hnone]
  cases peek with
  | false => exact hconsume
  | true => exact ⟨m, hpeek⟩

theorem getRaw_rest (hp : m.m_position < NETWORK_MAX_SIZE) (hs : m.m_size < 65536)
    (h : m.m_position < m.m_size) :
    Message.getRaw true m = some (text m (m.m_position + 2) (m.m_size - m.m_position), m) ∧
      ∃ u, Message.getRaw false m =
        some (text m m.m_position (m.m_size - m.m_position), u) := by
  have hn : m.m_size - m.m_position ≠ 0 := by omega
  constructor
  · rw [getRaw_within true hs (Nat.le_of_lt h), getString_sized true hn]
    exact getCharacters_peek _ hp
  · rw [getRaw_within false hs (Nat.le_of_lt h), getString_sized false hn]
    exact getCharacters_text _

theorem getRaw_empty_iff (hp : m.m_position < NETWORK_MAX_SIZE) (hs : m.m_size < 65536)
    (h : m.m_size = m.m_position) :
    Read.getRaw.PeekAgrees m ↔
      prefixLength m = 0 ∨ NETWORK_MAX_SIZE ≤ m.m_position + 2 + prefixLength m := by
  have hnone : m.m_size - m.m_position = 0 := by omega
  have hraw := getRaw_empty hp hs h
  have hagrees : Agrees Message.getRaw m := by
    have hprefix := (getString_agrees_iff 0 hp).mpr (Or.inl rfl)
    simpa only [Agrees, getRaw_within _ hs (Nat.le_of_eq h.symm), hnone] using hprefix
  simp only [Read.PeekAgrees, hagrees, true_and, Nat.le_of_eq h.symm, forall_const, hnone,
    Memory.read_zero]
  rw [← text_eq_nil_iff]
  constructor
  · intro hall
    obtain ⟨u, hu⟩ := hall false
    obtain ⟨v, hv⟩ := hraw false
    simp only [hu, Option.some.injEq, Prod.mk.injEq] at hv
    exact hv.1.symm
  · intro hnil peek
    obtain ⟨u, hu⟩ := hraw peek
    exact ⟨u, by rw [hu, hnil]⟩

theorem getRaw_rest_iff (hp : m.m_position < NETWORK_MAX_SIZE) (hs : m.m_size < 65536)
    (h : m.m_position < m.m_size) :
    Read.getRaw.PeekAgrees m ↔ Repeats m (m.m_size - m.m_position) := by
  obtain ⟨hpeek, u, hconsume⟩ := getRaw_rest hp hs h
  constructor
  · rintro ⟨-, hall⟩
    obtain ⟨v, hv⟩ := hall (Nat.le_of_lt h) true
    rw [hpeek, Option.some.injEq, Prod.mk.injEq] at hv
    have hlen := congrArg List.length hv.1
    rw [Memory.length_read] at hlen
    have hfits : m.m_position + 2 + (m.m_size - m.m_position) < NETWORK_MAX_SIZE := by
      by_contra hlong
      rw [text, if_neg hlong, List.length_nil] at hlen
      omega
    exact ⟨hfits, by rw [← hv.1, text_eq_read hfits]⟩
  · rintro ⟨hfits, hsame⟩
    rw [text_eq_read hfits, ← hsame] at hpeek
    rw [text_eq_read (by omega)] at hconsume
    refine ⟨⟨_, _, _, hpeek, rfl, hconsume⟩, fun _ peek => ?_⟩
    cases peek with
    | false => exact ⟨u, hconsume⟩
    | true => exact ⟨m, hpeek⟩

/-- Peeking agrees with consuming just when the call's shift does not show. -/
theorem peekAgrees_iff_unshifted (r : Read) (hp : m.m_position < NETWORK_MAX_SIZE)
    (hs : m.m_size < 65536) : r.PeekAgrees m ↔ r.Unshifted m := by
  cases r with
  | get w => simp only [Read.PeekAgrees, Read.Unshifted, get_agrees w hp]
  | getString n => exact getString_agrees_iff n hp
  | getRaw =>
    rcases lt_trichotomy m.m_size m.m_position with h | h | h
    · -- nothing is said about what is left, and no size fits
      have hle : ¬ m.m_position ≤ m.m_size := by omega
      simp [Read.PeekAgrees, Read.Unshifted, h, hle, getRaw_agrees_of_lt hp h]
    · rw [getRaw_empty_iff hp hs h]
      simp [Read.Unshifted, h]
    · rw [getRaw_rest_iff hp hs h]
      have hlt : ¬ m.m_size < m.m_position := by omega
      have hne : m.m_size ≠ m.m_position := by omega
      simp [Read.Unshifted, hlt, hne, h]

def counting : NetworkMessage := ⟨16, 8, fun i => UInt8.ofNat i⟩

theorem counting_peekAgrees :
    Read.PeekAgrees counting (.getString 0) ∧ ¬ Read.PeekAgrees counting .getRaw := by
  constructor
  · exact (peekAgrees_iff_unshifted (.getString 0) (by decide) (by decide)).mpr (Or.inl rfl)
  · rw [peekAgrees_iff_unshifted .getRaw (by decide) (by decide)]
    decide

/-- One byte is peeked at position 10 where it is consumed at position 8. -/
theorem peek_returns_other_byte :
    ¬ ∀ (m : NetworkMessage) (r : Read), m.m_position < NETWORK_MAX_SIZE → m.m_size < 65536 →
      r.PeekAgrees m := by
  intro hall
  have h := hall counting (.getString 1) (by decide) (by decide)
  revert h
  rw [Read.PeekAgrees, getString_agrees_iff 1 (by decide)]
  decide

end LoginServer.Peek
