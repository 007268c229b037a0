import LoginServer.LoginPacket
import Mathlib.Tactic.SplitIfs

/-! # The received bytes and the bytes behind them

A packet is judged by its own bytes just when they decide the checksum test, the protocol byte,
the version and both strings; where they do not, two fillings of the rest tell the difference. -/
namespace LoginServer.Message

open Faults Bytes

def stringEnd (l : List UInt8) (p : ℕ) : Option ℕ :=
  if p + 2 ≤ l.length then
    if NETWORK_MAX_SIZE ≤ p + 2 + ofLe ((l.drop p).take 2) then some (p + 2)
    else if p + 2 + ofLe ((l.drop p).take 2) ≤ l.length then
      some (p + 2 + ofLe ((l.drop p).take 2))
    else none
  else none

def plaintext (plain : Vector UInt8 128) (f : Frame) : List UInt8 :=
  plain.toList ++ f.bytes.drop 128

/-- The decryption fails on the frame, or both strings end inside it. -/
def StringsDecided (rsa : Rsa) (f : Frame) : Prop :=
  match rsa ((f.bytes.drop 23).take 128) with
  | none => True
  | some plain => plain.toList.head? = some 0 →
      ((stringEnd (plaintext plain f) 17).bind (stringEnd (plaintext plain f))).isSome = true

def checksumOf (f : Frame) : ℕ := ofLe ((f.bytes.drop 2).take 4)

/-- The received bytes leave no choice to the bytes behind them. -/
def Decided (rsa : Rsa) (f : Frame) : Prop :=
  if f.size ≤ 6 then ∃ b ∈ f.bytes.drop 2, b ≠ 0
  else checksumOf f ≠ (adler (f.bytes.drop 6)).toNat ∨ f.bytes[6]? ≠ some 1 ∨
    11 ≤ f.size ∧ (f.size = 151 → StringsDecided rsa f)

theorem stringAt_decided {b : Memory} {l : List UInt8} {p q : ℕ}
    (hb : b.read 0 l.length = l) (hl : l.length < NETWORK_MAX_SIZE) (h : stringEnd l p = some q) :
    stringAt b p = ((l.drop (p + 2)).take (q - (p + 2)), q) ∧ q ≤ l.length := by
  rw [stringEnd] at h
  split at h
  · rename_i hp
    have hk : b.read p 2 = (l.drop p).take 2 := Memory.read_of_read_zero hb hp
    rw [stringAt]
    rw [if_neg (by omega), hk]
    split at h
    · rename_i hlong
      cases h
      rw [if_pos hlong, Nat.sub_self]
      exact ⟨rfl, hp⟩
    · rename_i hshort
      split at h
      · rename_i hend
        cases h
        rw [if_neg hshort, Memory.read_of_read_zero hb hend, Nat.add_sub_cancel_left]
        exact ⟨rfl, hend⟩
      · cases h
  · cases h

/-- Two fillings of the rest of the buffer that every undecided string tells apart. -/
structure Fillings (l : List UInt8) (b u : Memory) : Prop where
  left : b.read 0 l.length = l
  right : u.read 0 l.length = l
  zero : b l.length = 0 ∧ b (l.length + 1) = 0
  one : u l.length = 1 ∧ u (l.length + 1) = 0

theorem not_full_of_lt {n : ℕ} (h : n < 1600) : ¬ NETWORK_MAX_SIZE ≤ n := by
  simp only [NETWORK_MAX_SIZE]
  omega

theorem length_stringAt {b : Memory} {p : ℕ} (hp : p ≤ 1000) (hlen : ofLe (b.read p 2) < 512) :
    (stringAt b p).1.length = ofLe (b.read p 2) := by
  have hroom : ¬ NETWORK_MAX_SIZE ≤ p + 2 := not_full_of_lt (by omega)
  have hshort : ¬ NETWORK_MAX_SIZE ≤ p + 2 + ofLe (b.read p 2) := not_full_of_lt (by omega)
  simp only [stringAt, if_neg hroom, if_neg hshort, Memory.length_read]

/-- A length that is read from the rest, all of it or its second byte, is another one in each
filling. -/
theorem Fillings.lengths {l : List UInt8} {b u : Memory} {p : ℕ} (h : Fillings l b u)
    (hp : p ≤ l.length) (hrest : ¬ p + 2 ≤ l.length) :
    ofLe (b.read p 2) ≠ ofLe (u.read p 2) ∧ ofLe (b.read p 2) < 512 ∧
      ofLe (u.read p 2) < 512 := by
  have hb := ofLe_read_two b p
  have hu := ofLe_read_two u p
  have hlt := (b p).toNat_lt
  rcases Nat.lt_or_eq_of_le hp with hlast | heq
  · have hp1 : p + 1 = l.length := by omega
    have hsame : b p = u p := by
      have hz : b.read 0 l.length = u.read 0 l.length := h.left.trans h.right.symm
      have hbyte := Memory.eq_of_read_eq hz hlast
      rwa [Nat.zero_add] at hbyte
    rw [hp1, h.zero.1] at hb
    rw [hp1, h.one.1, ← hsame] at hu
    simp at hb hu
    omega
  · subst heq
    rw [h.zero.1, h.zero.2] at hb
    rw [h.one.1, h.one.2] at hu
    simp at hb hu
    omega

theorem stringAt_undecided {l : List UInt8} {b u : Memory} {p : ℕ} (h : Fillings l b u)
    (hl : l.length < 1000) (hp : p ≤ l.length) (hn : stringEnd l p = none) :
    (stringAt b p).1 ≠ (stringAt u p).1 := by
  rw [stringEnd] at hn
  split at hn
  · rename_i hp2
    split at hn
    · cases hn
    · rename_i hshort
      split at hn
      · cases hn
      · -- The length is received and the characters run into the rest.
        rename_i hend
        have hk : b.read p 2 = (l.drop p).take 2 := Memory.read_of_read_zero h.left hp2
        have hu : u.read p 2 = (l.drop p).take 2 := Memory.read_of_read_zero h.right hp2
        have hroom : ¬ NETWORK_MAX_SIZE ≤ p + 2 := not_full_of_lt (by omega)
        simp only [stringAt, hk, hu, if_neg hroom, if_neg hshort]
        apply Memory.read_ne_of_apply_ne hp2 (by omega)
        rw [h.zero.1, h.one.1]
        decide
  · -- The length itself is read from the rest.
    rename_i hrest
    obtain ⟨hne, hb, hu⟩ := h.lengths hp hrest
    intro he
    have hlen := congrArg List.length he
    rw [length_stringAt (by omega) hb, length_stringAt (by omega) hu] at hlen
    exact hne hlen

theorem loginAt_decided {l : List UInt8} {b u : Memory} (hb : b.read 0 l.length = l)
    (hu : u.read 0 l.length = l) (hlong : 17 ≤ l.length) (hl : l.length < NETWORK_MAX_SIZE)
    (h : ((stringEnd l 17).bind (stringEnd l)).isSome = true) (version : ℕ) :
    loginAt version b = loginAt version u := by
  obtain ⟨e, he⟩ := Option.isSome_iff_exists.mp h
  obtain ⟨q, hq, he⟩ := Option.bind_eq_some_iff.mp he
  have hkey : ∀ p, p + 4 ≤ 17 → b.read p 4 = u.read p 4 := fun p hp => by
    rw [Memory.read_of_read_zero hb (by omega), Memory.read_of_read_zero hu (by omega)]
  simp only [loginAt]
  simp only [(stringAt_decided hb hl hq).1, (stringAt_decided hu hl hq).1,
    (stringAt_decided hb hl he).1, (stringAt_decided hu hl he).1, hkey 1 (by decide),
    hkey 5 (by decide), hkey 9 (by decide), hkey 13 (by decide)]

theorem loginAt_undecided {l : List UInt8} {b u : Memory} (h : Fillings l b u)
    (hlong : 19 ≤ l.length) (hl : l.length < 1000)
    (hn : ((stringEnd l 17).bind (stringEnd l)).isSome = false) (version : ℕ) :
    loginAt version b ≠ loginAt version u := by
  have hmax : l.length < NETWORK_MAX_SIZE := by simp only [NETWORK_MAX_SIZE]; omega
  intro he
  simp only [loginAt] at he
  simp only [Login.mk.injEq] at he
  cases hq : stringEnd l 17 with
  | none =>
    -- The name has at least one character, so it is no stand-in for an empty one.
    have hne := stringAt_undecided h hl (by omega) hq
    have hnonempty : ∀ m : Memory, m.read 0 l.length = l → (stringAt m 17).1 ≠ [] := by
      intro m hm
      rw [stringEnd] at hq
      rw [if_pos (by omega)] at hq
      split at hq
      · cases hq
      · rename_i hshort
        split at hq
        · cases hq
        · rename_i hend
          have hk : m.read 17 2 = (l.drop 17).take 2 := Memory.read_of_read_zero hm (by omega)
          have hroom : ¬ NETWORK_MAX_SIZE ≤ 17 + 2 := by decide
          simp only [stringAt, hk, if_neg hroom, if_neg hshort]
          intro hnil
          have hlen := congrArg List.length hnil
          rw [Memory.length_read, List.length_nil] at hlen
          omega
    rw [if_neg (hnonempty b h.left), if_neg (hnonempty u h.right)] at he
    exact hne he.2.2.1
  | some q =>
    rw [hq, Option.bind_some] at hn
    obtain ⟨hb, hqle⟩ := stringAt_decided h.left hmax hq
    obtain ⟨hu, _⟩ := stringAt_decided h.right hmax hq
    have hnone : stringEnd l q = none :=
      Option.isNone_iff_eq_none.mp (Option.isSome_eq_false_iff.mp hn)
    apply stringAt_undecided h hl hqle hnone
    have hp := he.2.2.2
    rwa [hb, hu] at hp

def Answer.login : Answer → Option Login
  | .rsaFailed _ => none
  | .oldVersion l | .disabled l | .delegated l => some l

theorem answerLogin_login (isDisabled : Bool) (d s p : ℕ) (l : Login) :
    (answerLogin isDisabled d s p l).login = some l := by
  rw [answerLogin]
  split_ifs <;> rfl

theorem answerLogin_injective {isDisabled : Bool} {d s p d' s' p' : ℕ} {l l' : Login}
    (h : answerLogin isDisabled d s p l = answerLogin isDisabled d' s' p' l') : l = l' := by
  have hl := congrArg Answer.login h
  rwa [answerLogin_login, answerLogin_login, Option.some.injEq] at hl

namespace Frame

variable (f : Frame)

theorem loaded_agree (s u : Memory) {p n : ℕ} (h : p + n ≤ f.size) :
    (f.loaded s).m_buffer.read p n = (f.loaded u).m_buffer.read p n := by
  rw [f.loaded_read s h, f.loaded_read u h]

theorem checksumOf_loaded (s : Memory) (h : 6 < f.size) :
    ofLe ((f.loaded s).m_buffer.read 2 4) = checksumOf f := by
  rw [f.loaded_read s (by omega), checksumOf]

theorem expectedChecksum_loaded (s : Memory) (h : 6 < f.size) :
    expectedChecksum f.size (f.loaded s).m_buffer = (adler (f.bytes.drop 6)).toNat := by
  have hall : (f.bytes.drop 6).take (f.size - 6) = f.bytes.drop 6 :=
    List.take_of_length_le (by rw [List.length_drop, size])
  rw [expectedChecksum, if_neg (by omega), f.loaded_read s (by omega), hall]

theorem first_byte (s : Memory) (h : f.size = 151) :
    ofLe ((f.loaded s).m_buffer.read 0 1) ≠ 0 := by
  have hlen : f.content.length = 149 := by
    have hs := f.size_eq
    omega
  rw [f.loaded_read s (by omega), bytes, hlen]
  have hb : ((leBytes 2 149 ++ f.content).drop 0).take 1 = [149] := rfl
  rw [hb]
  decide

theorem decrypted_none (rsa : Rsa) (s : Memory) (h : f.size = 151)
    (hr : rsa ((f.bytes.drop 23).take 128) = none) :
    decrypted rsa (f.loaded s).m_buffer = (f.loaded s).m_buffer := by
  rw [decrypted, f.loaded_read s (by omega), hr]

theorem decrypted_some (rsa : Rsa) (s : Memory) (h : f.size = 151) {plain : Vector UInt8 128}
    (hr : rsa ((f.bytes.drop 23).take 128) = some plain) :
    decrypted rsa (f.loaded s).m_buffer = (f.loaded s).m_buffer.write 0 plain.toList := by
  rw [decrypted, f.loaded_read s (by omega), hr]

theorem plaintext_length (plain : Vector UInt8 128) (h : f.size = 151) :
    (plaintext plain f).length = 151 := by
  have hs : f.bytes.length = 151 := h
  simp [plaintext, hs]

theorem plaintext_read (plain : Vector UInt8 128) (s : Memory) (h : f.size = 151) :
    ((f.loaded s).m_buffer.write 0 plain.toList).read 0 (plaintext plain f).length =
      plaintext plain f := by
  have hl : plain.toList.length = 128 := by simp
  have hfirst := Memory.read_write (f.loaded s).m_buffer 0 plain.toList
  rw [hl] at hfirst
  rw [f.plaintext_length plain h, show 151 = 128 + 23 from rfl, Memory.read_add, hfirst,
    Memory.read_write_of_disjoint (by rw [hl]; omega), f.loaded_read s (by omega), plaintext]
  have hrest : (f.bytes.drop (0 + 128)).take 23 = f.bytes.drop 128 :=
    List.take_of_length_le (by rw [List.length_drop]; have hs : f.bytes.length = 151 := h; omega)
  rw [hrest]

theorem plaintext_first (plain : Vector UInt8 128) (s : Memory) :
    ofLe (((f.loaded s).m_buffer.write 0 plain.toList).read 0 1) = 0 ↔
      plain.toList.head? = some 0 := by
  have hl : 0 < plain.toList.length := by simp
  have hb := Memory.write_apply_of_mem (m := (f.loaded s).m_buffer) (p := 0) hl
  rw [ofLe_read_one, show (0 : ℕ) = 0 + 0 from rfl, hb, List.head?_eq_getElem?,
    List.getElem?_eq_getElem hl, Option.some.injEq]
  exact UInt8.toNat_inj (b := 0)

theorem answerAt_decided (rsa : Rsa) (isDisabled : Bool) (s u : Memory) (hn : 11 ≤ f.size)
    (hd : f.size = 151 → StringsDecided rsa f) :
    answerAt rsa isDisabled f.size (f.loaded s).m_buffer =
      answerAt rsa isDisabled f.size (f.loaded u).m_buffer := by
  have hversion := f.loaded_agree s u (p := 9) (n := 2) (by omega)
  by_cases hsize : f.size = 151
  · have hd := hd hsize
    rw [StringsDecided] at hd
    simp only [answerAt]
    cases hr : rsa ((f.bytes.drop 23).take 128) with
    | none =>
      rw [f.decrypted_none rsa s hsize hr, f.decrypted_none rsa u hsize hr,
        if_neg fun h => f.first_byte s hsize h.2, if_neg fun h => f.first_byte u hsize h.2,
        hversion]
    | some plain =>
      rw [f.decrypted_some rsa s hsize hr, f.decrypted_some rsa u hsize hr]
      rw [hr] at hd
      have hzero := f.plaintext_first plain
      have hl := f.plaintext_length plain hsize
      by_cases hfirst : plain.toList.head? = some 0
      · rw [if_pos ⟨hsize, (hzero s).mpr hfirst⟩, if_pos ⟨hsize, (hzero u).mpr hfirst⟩, hversion,
          f.loaded_agree s u (p := 11) (n := 4) (by omega),
          f.loaded_agree s u (p := 15) (n := 4) (by omega),
          f.loaded_agree s u (p := 19) (n := 4) (by omega),
          loginAt_decided (f.plaintext_read plain s hsize) (f.plaintext_read plain u hsize)
            (by omega) (by rw [hl]; decide) (hd hfirst)]
      · rw [if_neg fun h => hfirst ((hzero s).mp h.2), if_neg fun h => hfirst ((hzero u).mp h.2),
          hversion]
  · simp only [answerAt]
    rw [if_neg fun h => hsize h.1, if_neg fun h => hsize h.1, hversion]

/-- The rest of the buffer as a run of zeros, and with a single 1 in it. -/
def zeros : Memory := fun _ => 0
def oneAt (k : ℕ) : Memory := fun i => if i = k then 1 else 0

theorem plaintext_fillings (plain : Vector UInt8 128) (h : f.size = 151) :
    Fillings (plaintext plain f) ((f.loaded zeros).m_buffer.write 0 plain.toList)
      ((f.loaded (oneAt 151)).m_buffer.write 0 plain.toList) := by
  have hl := f.plaintext_length plain h
  have hbeyond : ∀ (s : Memory) (i : ℕ), 151 ≤ i →
      ((f.loaded s).m_buffer.write 0 plain.toList) i = s i := by
    intro s i hi
    rw [Memory.write_apply_of_not_mem (Or.inr (by simp; omega)), f.loaded_apply_stale s (by omega)]
  refine ⟨f.plaintext_read plain _ h, f.plaintext_read plain _ h, ⟨?_, ?_⟩, ?_, ?_⟩
  · rw [hl, hbeyond _ _ (by omega)]
    rfl
  · rw [hl, hbeyond _ _ (by omega)]
    rfl
  · rw [hl, hbeyond _ _ (by omega)]
    rfl
  · rw [hl, hbeyond _ _ (by omega)]
    rfl

theorem answerAt_undecided (rsa : Rsa) (isDisabled : Bool) (hsize : f.size = 151)
    (hd : ¬ StringsDecided rsa f) :
    answerAt rsa isDisabled f.size (f.loaded zeros).m_buffer ≠
      answerAt rsa isDisabled f.size (f.loaded (oneAt 151)).m_buffer := by
  rw [StringsDecided] at hd
  cases hr : rsa ((f.bytes.drop 23).take 128) with
  | none =>
    rw [hr] at hd
    exact absurd trivial hd
  | some plain =>
    rw [hr] at hd
    simp only [Classical.not_imp, Bool.not_eq_true] at hd
    simp only [answerAt]
    rw [f.decrypted_some rsa _ hsize hr, f.decrypted_some rsa _ hsize hr,
      if_pos ⟨hsize, (f.plaintext_first plain _).mpr hd.1⟩,
      if_pos ⟨hsize, (f.plaintext_first plain _).mpr hd.1⟩]
    intro he
    have hl := f.plaintext_length plain hsize
    have hversion := f.loaded_agree zeros (oneAt 151) (p := 9) (n := 2) (by omega)
    have hlogin := answerLogin_injective he
    rw [hversion] at hlogin
    exact loginAt_undecided (f.plaintext_fillings plain hsize) (by omega) (by omega) hd.2 _ hlogin

theorem answerAt_short (rsa : Rsa) (isDisabled : Bool) (hn : 6 < f.size) (hlt : f.size < 11) :
    answerAt rsa isDisabled f.size (f.loaded zeros).m_buffer ≠
      answerAt rsa isDisabled f.size (f.loaded (oneAt 10)).m_buffer := by
  simp only [answerAt]
  rw [if_neg fun h => by omega, if_neg fun h => by omega]
  intro he
  have hv := Answer.rsaFailed.inj he
  rw [ofLe_read_two, ofLe_read_two, f.loaded_apply_stale zeros (i := 9 + 1) (by omega),
    f.loaded_apply_stale (oneAt 10) (i := 9 + 1) (by omega)] at hv
  have h9 : (f.loaded zeros).m_buffer 9 = (f.loaded (oneAt 10)).m_buffer 9 := by
    by_cases h : 9 < f.size
    · rw [f.loaded_apply _ h, f.loaded_apply _ h]
    · rw [f.loaded_apply_stale _ (by omega), f.loaded_apply_stale _ (by omega)]
      rfl
  rw [h9] at hv
  simp [zeros, oneAt] at hv

end Frame

/-- The judgement of the frame is the same in any two buffers that hold it. -/
def JudgedByOwnBytes (rsa : Rsa) (isDisabled : Bool) (f : Frame) : Prop :=
  ∀ s u : Memory, judged f rsa isDisabled s = judged f rsa isDisabled u

theorem judgedByOwnBytes_iff (rsa : Rsa) (isDisabled : Bool) (f : Frame) :
    JudgedByOwnBytes rsa isDisabled f ↔ ∀ s u : Memory,
      judgementAt rsa isDisabled f.size (f.loaded s).m_buffer =
        judgementAt rsa isDisabled f.size (f.loaded u).m_buffer := by
  simp only [JudgedByOwnBytes, judged_eq, Option.some.injEq]

/-- A packet too short for its checksum passes the test with four zero bytes, of which the
received ones are only a part, and the protocol byte is not received at all. -/
theorem short_packet_iff (rsa : Rsa) (isDisabled : Bool) (f : Frame) (h : f.size ≤ 6) :
    JudgedByOwnBytes rsa isDisabled f ↔ ∃ b ∈ f.bytes.drop 2, b ≠ 0 := by
  have hsum : ∀ b : Memory, expectedChecksum f.size b = 0 := fun b => if_pos h
  have hrec : ∀ s : Memory, (f.loaded s).m_buffer.read 2 4 =
      f.bytes.drop 2 ++ (f.loaded s).m_buffer.read f.size (6 - f.size) := by
    intro s
    have hpos := f.size_pos
    have hall : (f.bytes.drop 2).take (f.size - 2) = f.bytes.drop 2 :=
      List.take_of_length_le (by rw [List.length_drop, Frame.size])
    rw [show 4 = f.size - 2 + (6 - f.size) by omega, Memory.read_add, f.loaded_read s (by omega),
      hall, show 2 + (f.size - 2) = f.size by omega]
  rw [judgedByOwnBytes_iff]
  constructor
  · intro hall
    by_contra hno
    simp only [ne_eq, not_exists, not_and, not_not] at hno
    have hpass : ∀ s : Memory, (∀ i < 6, s i = 0) →
        ofLe ((f.loaded s).m_buffer.read 2 4) = expectedChecksum f.size (f.loaded s).m_buffer := by
      intro s hs
      rw [hsum, hrec, ofLe_eq_zero]
      intro b hb
      rcases List.mem_append.mp hb with hb | hb
      · exact hno b hb
      · obtain ⟨i, hi, rfl⟩ := List.getElem_of_mem hb
        rw [Memory.length_read] at hi
        rw [Memory.getElem_read, f.loaded_apply_stale s (by omega)]
        exact hs _ (by omega)
    have hz := hall Frame.zeros (Frame.oneAt 6)
    have h0 : (f.loaded Frame.zeros).m_buffer 6 = 0 := f.loaded_apply_stale _ h
    have h1 : (f.loaded (Frame.oneAt 6)).m_buffer 6 = 1 := f.loaded_apply_stale _ h
    have hone : ∀ i < 6, Frame.oneAt 6 i = 0 := fun i hi => if_neg (by omega)
    simp only [judgementAt] at hz
    rw [if_neg (fun hc => by rw [h0] at hc; exact absurd hc.2 (by decide)),
      if_pos ⟨hpass _ hone, h1⟩] at hz
    cases hz
  · rintro ⟨b, hb, hne⟩ s u
    have hfail : ∀ s : Memory, ¬ (ofLe ((f.loaded s).m_buffer.read 2 4) =
        expectedChecksum f.size (f.loaded s).m_buffer ∧ (f.loaded s).m_buffer 6 = 1) := by
      rintro s ⟨hc, _⟩
      rw [hsum, hrec, ofLe_eq_zero] at hc
      exact hne (hc b (List.mem_append_left _ hb))
    simp only [judgementAt]
    rw [if_neg (hfail s), if_neg (hfail u)]

theorem long_packet_passes (f : Frame) (s : Memory) (h : 6 < f.size) :
    (ofLe ((f.loaded s).m_buffer.read 2 4) = expectedChecksum f.size (f.loaded s).m_buffer ∧
      (f.loaded s).m_buffer 6 = 1) ↔
    checksumOf f = (adler (f.bytes.drop 6)).toNat ∧ f.bytes[6]? = some 1 := by
  rw [f.checksumOf_loaded s h, f.expectedChecksum_loaded s h, f.loaded_apply s h,
    List.getElem?_eq_getElem h, Option.some.injEq]
  rfl

theorem long_packet_iff (rsa : Rsa) (isDisabled : Bool) (f : Frame) (h : 6 < f.size) :
    JudgedByOwnBytes rsa isDisabled f ↔
      checksumOf f ≠ (adler (f.bytes.drop 6)).toNat ∨ f.bytes[6]? ≠ some 1 ∨
        11 ≤ f.size ∧ (f.size = 151 → StringsDecided rsa f) := by
  rw [judgedByOwnBytes_iff]
  by_cases hpass : checksumOf f = (adler (f.bytes.drop 6)).toNat ∧ f.bytes[6]? = some 1
  · have hjudge : ∀ s : Memory, judgementAt rsa isDisabled f.size (f.loaded s).m_buffer =
        some (answerAt rsa isDisabled f.size (f.loaded s).m_buffer) :=
      fun s => if_pos ((long_packet_passes f s h).mpr hpass)
    simp only [hjudge, Option.some.injEq, hpass.1, hpass.2, ne_eq, not_true_eq_false, false_or]
    constructor
    · intro hall
      constructor
      · by_contra hlt
        exact f.answerAt_short rsa isDisabled h (by omega) (hall _ _)
      · intro hsize
        by_contra hd
        exact f.answerAt_undecided rsa isDisabled hsize hd (hall _ _)
    · rintro ⟨hn, hd⟩ s u
      exact f.answerAt_decided rsa isDisabled s u hn hd
  · have hjudge : ∀ s : Memory, judgementAt rsa isDisabled f.size (f.loaded s).m_buffer = none :=
      fun s => if_neg fun hs => hpass ((long_packet_passes f s h).mp hs)
    simp only [hjudge, implies_true, true_iff]
    rcases not_and_or.mp hpass with hsum | hid
    · exact Or.inl hsum
    · exact Or.inr (Or.inl hid)

/-- Exactly when a first packet is judged by its own bytes only. -/
theorem packet_judged_by_own_bytes_iff (rsa : Rsa) (isDisabled : Bool) (f : Frame) :
    JudgedByOwnBytes rsa isDisabled f ↔ Decided rsa f := by
  rw [Decided]
  split
  · rename_i h
    exact short_packet_iff rsa isDisabled f h
  · rename_i h
    exact long_packet_iff rsa isDisabled f (by omega)

/-- A login of the right length whose password claims 200 characters where the packet holds
128: the other 72 come from the rest of the buffer. -/
def overrun : Frame :=
  let block := 0 :: List.replicate 16 0 ++ [1, 0, 0x41] ++ [200, 0] ++ List.replicate 106 0x42
  let checked := [1, 0, 0, 0xC3, 3] ++ List.replicate 12 0 ++ block
  ⟨leBytes 4 (adler checked).toNat ++ checked, by simp [checked, block],
    by simp [checked, block, NETWORK_MAX_SIZE]⟩

theorem overrun_reads_stale_bytes : ¬ ∀ (rsa : Rsa) (isDisabled : Bool) (f : Frame),
    JudgedByOwnBytes rsa isDisabled f := by
  intro hall
  have hsame := hall (fun cipher => if h : cipher.length = 128 then some ⟨cipher.toArray, h⟩
    else none) false overrun Frame.zeros (Frame.oneAt 200)
  revert hsame
  decide +kernel

end LoginServer.Message
