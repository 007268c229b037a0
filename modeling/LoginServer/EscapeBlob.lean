import LoginServer.Database
import LoginServer.Library.Bytes
import LoginServer.Library.Literals

/-! # Text in statements

`Database::escapeBlob` and what the server's lexer, in its default mode and under a character set
in which no wide character has an ASCII byte, makes of its output. Without a connection the
content is thrown away, and so is the statement it was for. -/
namespace LoginServer.Sql

open Bytes Literals

/-- The letter behind the backslash, for the bytes of the `switch`. -/
def escapeLetter : UInt8 → Option UInt8
  | 0x00 => some 0x30
  | 0x0A => some 0x6E
  | 0x0D => some 0x72
  | 0x5C => some 0x5C
  | 0x27 => some 0x27
  | 0x22 => some 0x22
  | 0x1A => some 0x5A
  | _ => none

def escapeByte (b : UInt8) : List UInt8 :=
  match escapeLetter b with
  | some c => [0x5C, c]
  | none => [b]

/-- `s` may be longer than the `length` bytes that are read. -/
def escapeBlob (db : Database) (s : List UInt8) (length : UInt32) : List UInt8 :=
  if !db.m_connected || length = 0 then [0x27, 0x27]
  else [0x27] ++ (s.take length.toNat).flatMap escapeByte ++ [0x27]

/-- `s.length()` is a `size_t` and the parameter it goes to a `uint32_t`. -/
def escapeString (db : Database) (s : List UInt8) : List UInt8 :=
  escapeBlob db s (UInt32.ofNat s.length)

/-- A character set of the server: the bytes of the wide character at the head, all of them
outside ASCII. -/
structure Charset where
  ismbchar : List UInt8 → ℕ
  transparent : ∀ l, 1 < ismbchar l → ∀ b ∈ l.take (ismbchar l), 0x80 ≤ b

def continuation (b : UInt8) : Bool := 0x80 ≤ b && b ≤ 0xBF

def isTwoBytes : List UInt8 → Bool
  | a :: b :: _ => 0xC2 ≤ a && a < 0xE0 && continuation b
  | _ => false

def isThreeBytes : List UInt8 → Bool
  | a :: b :: c :: _ =>
    0xE0 ≤ a && a < 0xF0 && continuation b && continuation c && (0xE1 ≤ a || 0xA0 ≤ b)
  | _ => false

def isFourBytes : List UInt8 → Bool
  | a :: b :: c :: d :: _ =>
    0xF0 ≤ a && a < 0xF5 && continuation b && continuation c && continuation d &&
      (0xF1 ≤ a || 0x90 ≤ b) && (a ≤ 0xF3 || b ≤ 0x8F)
  | _ => false

def utf8mb4Length (l : List UInt8) : ℕ :=
  if isTwoBytes l then 2 else if isThreeBytes l then 3 else if isFourBytes l then 4 else 0

theorem continuation_ge {b : UInt8} (h : continuation b = true) : 0x80 ≤ b := by
  rw [continuation, Bool.and_eq_true, decide_eq_true_eq] at h
  exact h.1

def utf8mb4 : Charset where
  ismbchar := utf8mb4Length
  transparent l hl := by
    unfold utf8mb4Length at hl ⊢
    split
    · rename_i h2
      unfold isTwoBytes at h2
      split at h2
      · rename_i a b _
        simp only [Bool.and_eq_true, decide_eq_true_eq] at h2
        have ha : 0x80 ≤ a := UInt8.le_trans (by decide) h2.1.1
        simp [ha, continuation_ge h2.2]
      · cases h2
    · split
      · rename_i h3
        unfold isThreeBytes at h3
        split at h3
        · rename_i a b c _ _
          simp only [Bool.and_eq_true, decide_eq_true_eq] at h3
          obtain ⟨⟨⟨⟨ha, _⟩, hb⟩, hc⟩, _⟩ := h3
          have ha : 0x80 ≤ a := UInt8.le_trans (by decide) ha
          simp [ha, continuation_ge hb, continuation_ge hc]
        · cases h3
      · split
        · rename_i h4
          unfold isFourBytes at h4
          split at h4
          · rename_i a b c d _ _ _
            simp only [Bool.and_eq_true, decide_eq_true_eq] at h4
            obtain ⟨⟨⟨⟨⟨⟨ha, _⟩, hb⟩, hc⟩, hd⟩, _⟩, _⟩ := h4
            have ha : 0x80 ≤ a := UInt8.le_trans (by decide) ha
            simp [ha, continuation_ge hb, continuation_ge hc, continuation_ge hd]
          · cases h4
        · simp

/-- What a backslash and the byte after it stand for: `%` and `_` keep the backslash. -/
def unescapeByte : UInt8 → List UInt8
  | 0x30 => [0x00]
  | 0x62 => [0x08]
  | 0x6E => [0x0A]
  | 0x72 => [0x0D]
  | 0x74 => [0x09]
  | 0x5A => [0x1A]
  | 0x25 => [0x5C, 0x25]
  | 0x5F => [0x5C, 0x5F]
  | c => [c]

/-- A string in single quotes as the default mode of the server reads it. -/
def stringQuoting (cs : Charset) (doubled : Bool) : Quoting UInt8 where
  quote := 0x27
  backslash := 0x5C
  decode := unescapeByte
  wide := cs.ismbchar
  doubled := doubled
  quote_ne_backslash := by decide
  wide_plain l hl b hb := by
    have hge := cs.transparent l hl b hb
    constructor <;> rintro rfl <;> exact absurd hge (by decide)

theorem unescapeByte_escapeLetter (b c : UInt8) (h : escapeLetter b = some c) :
    unescapeByte c = [b] := by
  unfold escapeLetter at h
  split at h <;> cases h <;> rfl

def blobEscaping (cs : Charset) (doubled : Bool) : (stringQuoting cs doubled).Escaping where
  letter := escapeLetter
  decode_letter := unescapeByte_escapeLetter
  quote_escaped := nofun
  backslash_escaped := nofun

theorem blobEscaping_escape (cs : Charset) (doubled : Bool) (b : UInt8) :
    (blobEscaping cs doubled).escape b = escapeByte b := by
  have hl : (blobEscaping cs doubled).letter b = escapeLetter b := rfl
  rw [Quoting.Escaping.escape, escapeByte, hl]
  cases escapeLetter b <;> rfl

theorem escapeString_eq {db : Database} (hc : db.m_connected = true) {s : List UInt8}
    (hs : s.length < 2 ^ 32) : escapeString db s = [0x27] ++ s.flatMap escapeByte ++ [0x27] := by
  have hlen : (UInt32.ofNat s.length).toNat = s.length := UInt32.toNat_ofNat_of_lt' hs
  cases s with
  | nil => simp [escapeString, escapeBlob, hc]
  | cons b s =>
    have hne : UInt32.ofNat (b :: s).length ≠ 0 := by
      intro h0
      have h := congrArg UInt32.toNat h0
      rw [hlen] at h
      simp at h
    simp only [escapeString, escapeBlob, hc, hne, hlen, List.take_length]
    rfl

def storeQueryExecutes (db : Database) (a : Attempt) (query : List UInt8) : List (List UInt8) :=
  if !db.m_connected then []
  else if a.statement.execute then [query]
  else match connect db a.reconnection with
    | (false, _) => [query]
    | (true, _) => [query, query]

def loadAccountQuery (db : Database) (name : List UInt8) : List UInt8 :=
  ascii ("SELECT `id`, `password`, `salt`, `premium_days`, `lastday`, `key`, `warnings` FROM " ++
    "`accounts` WHERE `name` = ") ++ escapeString db name ++ ascii " LIMIT 1"

theorem storeQueryExecutes_eq_nil {db : Database} {a : Attempt} {query : List UInt8} :
    storeQueryExecutes db a query = [] ↔ db.m_connected = false := by
  rw [storeQueryExecutes]
  cases db.m_connected with
  | false => simp
  | true =>
    simp only [Bool.not_true, Bool.false_eq_true, if_false, reduceCtorEq, iff_false]
    split
    · exact List.cons_ne_nil _ _
    · split <;> exact List.cons_ne_nil _ _

/-- With `doubled`, two quotes in a row stand for one, as in the server's default mode; without
it, a literal ends at its first unescaped quote. -/
theorem literal_escapeString (cs : Charset) {db : Database} (hc : db.m_connected = true)
    {s rest : List UInt8} (hs : s.length < 2 ^ 32) {doubled : Bool}
    (hr : doubled = true → rest.head? ≠ some 0x27) :
    (stringQuoting cs doubled).literal (escapeString db s ++ rest) = some (s, rest) := by
  rw [escapeString_eq hc hs]
  have h := Quoting.literal_escape (blobEscaping cs doubled) hr s
  rw [funext (blobEscaping_escape cs doubled)] at h
  simp only [List.append_assoc, List.cons_append, List.nil_append]
  exact h

/-- The account's name is the only literal of the statement. -/
theorem loadAccountQuery_reads_name (cs : Charset) {db : Database} (hc : db.m_connected = true)
    {name : List UInt8} (hn : name.length < 2 ^ 32) : ∃ front back : List UInt8,
    0x27 ∉ front ∧ 0x27 ∉ back ∧ loadAccountQuery db name = front ++ (escapeString db name ++ back) ∧
      (stringQuoting cs true).literal (escapeString db name ++ back) = some (name, back) := by
  refine ⟨_, ascii " LIMIT 1", ?_, by decide, List.append_assoc _ _ _,
    literal_escapeString cs hc hn fun _ => by decide⟩
  decide

structure InjectionProof (cs : Charset) (db : Database) : Prop where
  literal : db.m_connected = true → ∀ s : List UInt8, s.length < 2 ^ 32 → ∀ doubled rest,
    (doubled = true → rest.head? ≠ some 0x27) →
      (stringQuoting cs doubled).literal (escapeString db s ++ rest) = some (s, rest)
  injective : db.m_connected = true → ∀ s t : List UInt8, s.length < 2 ^ 32 → t.length < 2 ^ 32 →
    escapeString db s = escapeString db t → s = t
  unconnected : db.m_connected = false → ∀ a query, storeQueryExecutes db a query = [] ∧
    ∀ (α : Type) (rows : List α), storeQuery db a rows = (none, db)

theorem escapeString_injection_proof (cs : Charset) (db : Database) : InjectionProof cs db where
  literal hc s hs doubled rest hr := literal_escapeString cs hc hs hr
  injective hc s t hs ht he := by
    have hread : ∀ x : List UInt8, x.length < 2 ^ 32 →
        (stringQuoting cs true).literal (escapeString db x) = some (x, []) := by
      intro x hx
      have h : (stringQuoting cs true).literal (escapeString db x ++ []) = some (x, []) :=
        literal_escapeString cs hc hx nofun
      rwa [List.append_nil] at h
    have hst := (hread s hs).symm.trans ((congrArg _ he).trans (hread t ht))
    exact (Prod.mk.inj (Option.some.inj hst)).1
  unconnected hc a query := by
    refine ⟨storeQueryExecutes_eq_nil.mpr hc, fun α rows => ?_⟩
    rw [storeQuery, hc]
    rfl

def quotedName : List UInt8 := ascii "a' OR 'b' = 'b\\" ++ [0xC3, 0xA9, 0x27, 0x00]

theorem quoted_name_injection_proof :
    (stringQuoting utf8mb4 true).literal
      (escapeString ⟨true⟩ quotedName ++ ascii " LIMIT 1") = some (quotedName, ascii " LIMIT 1") :=
  (escapeString_injection_proof utf8mb4 ⟨true⟩).literal rfl quotedName (by decide) true _
    fun _ => by decide

end LoginServer.Sql
