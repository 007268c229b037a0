import LoginServer.Library.Bytes
import Mathlib.Algebra.BigOperators.Group.List.Basic
import Mathlib.Algebra.GroupWithZero.Nat
import Mathlib.Data.List.Induction

/-! # `DBInsert`

Rows are gathered into one statement until the buffer is long enough, and what is left is sent by
`execute`. The call that sends the buffer starts a new one with its own row, but leaves the counter
that `execute` set to zero, and `execute` takes a zero for an empty buffer. -/
namespace LoginServer.DbInsert

open Bytes

open scoped List

abbrev Row := List UInt8

structure DBInsert where
  m_multiLine : Bool
  m_rows : UInt32
  m_query : List UInt8
  m_buf : List UInt8
  issued : List (List UInt8)

def isMultiLine : Bool := true

def new : DBInsert := ⟨isMultiLine, 0, [], [], []⟩

/-- What `Database::query` answers to its calls, in their order. -/
abbrev Answers := ℕ → Bool

def query (answers : Answers) (s : DBInsert) (statement : List UInt8) : Bool × DBInsert :=
  (answers s.issued.length, { s with issued := s.issued ++ [statement] })

def setQuery (s : DBInsert) (q : List UInt8) : DBInsert :=
  { s with m_query := q, m_buf := [], m_rows := 0 }

def execute (answers : Answers) (s : DBInsert) : Bool × DBInsert :=
  if s.m_multiLine = false ∨ s.m_buf.length < 1 ∨ s.m_rows = 0 then (true, s)
  else
    let (ret, s) := query answers s (s.m_query ++ s.m_buf)
    (ret, { s with m_rows := 0, m_buf := [] })

def parenthesised (row : Row) : List UInt8 := ascii "(" ++ row ++ ascii ")"

/-- `int32_t size = m_buf.length()`. -/
def size (length : ℕ) : ℤ := (Int32.ofNat length).toInt

def addRow (answers : Answers) (s : DBInsert) (row : Row) : Bool × DBInsert :=
  if s.m_multiLine = false then query answers s (s.m_query ++ parenthesised row)
  else
    let s := { s with m_rows := s.m_rows + 1 }
    if size s.m_buf.length = 0 then (true, { s with m_buf := parenthesised row })
    else if size s.m_buf.length > 8192 then
      match execute answers s with
      | (false, s) => (false, s)
      | (true, s) => (true, { s with m_buf := parenthesised row })
    else (true, { s with m_buf := s.m_buf ++ ascii "," ++ parenthesised row })

def fed (answers : Answers) (q : List UInt8) (rows : List Row) : DBInsert :=
  rows.foldl (fun s row => (addRow answers s row).2) (setQuery new q)

def inserted (answers : Answers) (q : List UInt8) (rows : List Row) : List (List UInt8) :=
  (execute answers (fed answers q rows)).2.issued

def values : List Row → List UInt8
  | [] => []
  | row :: rows => parenthesised row ++ rows.flatMap fun row => ascii "," ++ parenthesised row

def statement (q : List UInt8) (batch : List Row) : List UInt8 := q ++ values batch

/-- The statements contain just these rows, each once and in this order. -/
def Delivered (q : List UInt8) (rows : List Row) (issued : List (List UInt8)) : Prop :=
  ∃ batches : List (List Row), (∀ batch ∈ batches, batch ≠ []) ∧
    issued = batches.map (statement q) ∧ batches.flatten = rows

def weight (rows : List Row) : ℕ := (rows.map fun row => row.length + 3).sum

theorem weight_append (a b : List Row) : weight (a ++ b) = weight a + weight b := by
  simp [weight]

@[simp] theorem weight_singleton (row : Row) : weight [row] = row.length + 3 := by
  simp [weight]

theorem length_le_weight (rows : List Row) : rows.length ≤ weight rows := by
  induction rows with
  | nil => exact Nat.zero_le _
  | cons row rows ih =>
    rw [← List.singleton_append, weight_append, weight_singleton, List.length_append,
      List.length_singleton]
    omega

@[simp] theorem length_parenthesised (row : Row) : (parenthesised row).length = row.length + 2 := by
  have hparentheses : (ascii "(").length = 1 ∧ (ascii ")").length = 1 := ⟨rfl, rfl⟩
  rw [parenthesised, List.length_append, List.length_append]
  omega

theorem values_snoc {batch : List Row} (h : batch ≠ []) (row : Row) :
    values (batch ++ [row]) = values batch ++ ascii "," ++ parenthesised row := by
  cases batch with
  | nil => exact absurd rfl h
  | cons first rest => simp [values]

theorem values_eq_nil {batch : List Row} : values batch = [] ↔ batch = [] := by
  cases batch with
  | nil => simp [values]
  | cons row rows => simp [values, parenthesised, ascii]

theorem length_values {batch : List Row} (h : batch ≠ []) :
    (values batch).length + 1 = weight batch := by
  induction batch using List.reverseRecOn with
  | nil => exact absurd rfl h
  | append_singleton batch row ih =>
    by_cases hb : batch = []
    · subst hb
      simp [values]
    · have hlen := ih hb
      have hcomma : (ascii ",").length = 1 := rfl
      rw [values_snoc hb, weight_append, weight_singleton, List.length_append, List.length_append,
        length_parenthesised]
      omega

theorem length_statements (q : List UInt8) {batches : List (List Row)}
    (h : ∀ batch ∈ batches, batch ≠ []) :
    ((batches.map (statement q)).map fun s => s.length + 1).sum =
      batches.length * q.length + weight batches.flatten := by
  induction batches with
  | nil => simp [weight]
  | cons batch batches ih =>
    have hbatch := length_values (h batch List.mem_cons_self)
    have hrest := ih fun b hb => h b (List.mem_cons_of_mem _ hb)
    simp only [List.map_cons, List.sum_cons, List.flatten_cons, weight_append, statement,
      List.length_append, List.length_cons] at hrest ⊢
    rw [hrest, Nat.succ_mul]
    omega

theorem Delivered.eq_of_sublist {q : List UInt8} {rows kept : List Row}
    {issued : List (List UInt8)} (h : Delivered q rows issued) (hkept : Delivered q kept issued)
    (hsub : kept <+ rows) : kept = rows := by
  obtain ⟨batches, hne, hissued, rfl⟩ := h
  obtain ⟨sent, hsent, hkept, rfl⟩ := hkept
  have hcount : batches.length = sent.length := by
    have hlen := congrArg List.length (hissued.symm.trans hkept)
    simpa using hlen
  have hweight : weight batches.flatten = weight sent.flatten := by
    have hsum := length_statements q hne
    rw [← hissued, hkept, length_statements q hsent, hcount] at hsum
    omega
  obtain ⟨missing, hperm⟩ := hsub.exists_perm_append
  have hmissing : weight batches.flatten = weight sent.flatten + weight missing := by
    rw [← weight_append]
    exact (hperm.map _).sum_eq
  have hnone : missing.length = 0 := by
    have hle := length_le_weight missing
    omega
  apply hsub.eq_of_length
  have hlen := hperm.length_eq
  rw [List.length_append] at hlen
  omega

structure Holds (q : List UInt8) (s : DBInsert) (sent : List (List Row)) (pending : List Row) :
    Prop where
  multiLine : s.m_multiLine = true
  query : s.m_query = q
  issued : s.issued = sent.map (statement q)
  buf : s.m_buf = values pending
  nonempty : ∀ batch ∈ sent, batch ≠ []

/-- What a call goes by: the length of the buffer and the counter. -/
structure Fill where
  length : ℕ
  m_rows : UInt32

def DBInsert.fill (s : DBInsert) : Fill := ⟨s.m_buf.length, s.m_rows⟩

def Fill.next (f : Fill) (row : Row) : Fill :=
  if size f.length = 0 then ⟨row.length + 2, f.m_rows + 1⟩
  else if size f.length > 8192 then ⟨row.length + 2, 0⟩
  else ⟨f.length + row.length + 3, f.m_rows + 1⟩

def fillAfter (rows : List Row) : Fill := rows.foldl Fill.next ⟨0, 0⟩

/-- The call throws away what is in the buffer: its length is taken for zero, or the row is the
first one for a counter that has wrapped around when the buffer is to be sent. -/
def Fill.Loses (f : Fill) : Prop :=
  f.length ≠ 0 ∧ (size f.length = 0 ∨ size f.length > 8192 ∧ f.m_rows + 1 = 0)

instance (f : Fill) : Decidable f.Loses := inferInstanceAs (Decidable (_ ∧ _))

/-- No row comes upon a buffer that the call throws away, and the last one neither upon one that
is sent before it nor upon a counter that wraps around. -/
structure EachKept (rows : List Row) : Prop where
  kept : ∀ i < rows.length, ¬ (fillAfter (rows.take i)).Loses
  last : rows ≠ [] → ¬ size (fillAfter rows.dropLast).length > 8192 ∧
    (fillAfter rows.dropLast).m_rows + 1 ≠ 0

variable {answers : Answers} {q : List UInt8} {s : DBInsert} {sent : List (List Row)}
  {pending : List Row}

theorem execute_true (hans : ∀ i, answers i = true) (s : DBInsert) :
    (execute answers s).1 = true := by
  rw [execute]
  split
  · rfl
  · exact hans _

theorem execute_skips (h : s.m_rows = 0) : (execute answers s).2 = s := by
  rw [execute, if_pos (Or.inr (Or.inr h))]

theorem execute_holds (h : Holds q s sent pending) (hne : pending ≠ []) (hrows : s.m_rows ≠ 0) :
    (execute answers s).2.m_rows = 0 ∧
      Holds q (execute answers s).2 (sent ++ [pending]) [] := by
  have hbuf : s.m_buf ≠ [] := by
    rw [h.buf]
    exact fun hnil => hne (values_eq_nil.mp hnil)
  have hlen : ¬ s.m_buf.length < 1 := by
    have hpos := List.length_pos_iff.mpr hbuf
    omega
  rw [execute, if_neg (by simp [h.multiLine, hlen, hrows])]
  refine ⟨rfl, ⟨h.multiLine, h.query, ?_, rfl, ?_⟩⟩
  · simp [query, h.issued, h.query, h.buf, statement]
  · intro batch hb
    rcases List.mem_append.mp hb with hb | hb
    · exact h.nonempty batch hb
    · rw [List.mem_singleton.mp hb]
      exact hne

def counted (s : DBInsert) : DBInsert := { s with m_rows := s.m_rows + 1 }

theorem addRow_cases (hans : ∀ i, answers i = true) (hmulti : s.m_multiLine = true) (row : Row) :
    (size s.m_buf.length = 0 ∧
        (addRow answers s row).2 = { counted s with m_buf := parenthesised row }) ∨
      (size s.m_buf.length > 8192 ∧ (addRow answers s row).2 =
        { (execute answers (counted s)).2 with m_buf := parenthesised row }) ∨
      (size s.m_buf.length ≠ 0 ∧ ¬ size s.m_buf.length > 8192 ∧ (addRow answers s row).2 =
        { counted s with m_buf := s.m_buf ++ ascii "," ++ parenthesised row }) := by
  rw [addRow, if_neg (by simp [hmulti])]
  by_cases hzero : size s.m_buf.length = 0
  · exact Or.inl ⟨hzero, by simp [hzero, counted]⟩
  · by_cases hlong : size s.m_buf.length > 8192
    · have hret := execute_true hans (counted s)
      rw [counted] at hret
      refine Or.inr (Or.inl ⟨hlong, ?_⟩)
      dsimp only
      rw [if_neg hzero, if_pos hlong, counted]
      split <;> simp_all
    · exact Or.inr (Or.inr ⟨hzero, hlong, by simp [hzero, hlong, counted]⟩)

theorem counted_holds (h : Holds q s sent pending) : Holds q (counted s) sent pending :=
  ⟨h.multiLine, h.query, h.issued, h.buf, h.nonempty⟩

theorem Holds.setBuf (h : Holds q s sent pending) {batch : List Row} :
    Holds q { s with m_buf := values batch } sent batch :=
  ⟨h.multiLine, h.query, h.issued, rfl, h.nonempty⟩

theorem size_values (h : size (values pending).length ≠ 0) : pending ≠ [] := by
  rintro rfl
  exact h rfl

/-- A call that sends the buffer forgets that it has put a row into the new one. -/
theorem addRow_fill (hans : ∀ i, answers i = true) (h : Holds q s sent pending) (row : Row) :
    (addRow answers s row).2.fill = s.fill.next row := by
  have hlength := length_parenthesised row
  rcases addRow_cases hans h.multiLine row with ⟨hzero, he⟩ | ⟨hlong, he⟩ | ⟨hne, hshort, he⟩
  · have hnext : s.fill.next row = ⟨row.length + 2, s.m_rows + 1⟩ := if_pos hzero
    rw [he, hnext, DBInsert.fill, hlength]
    rfl
  · have hne : size s.m_buf.length ≠ 0 := by omega
    have hnext : s.fill.next row = ⟨row.length + 2, 0⟩ := (if_neg hne).trans (if_pos hlong)
    have hrows : (execute answers (counted s)).2.m_rows = 0 := by
      by_cases hzero : (counted s).m_rows = 0
      · rw [execute_skips hzero, hzero]
      · have hpending : pending ≠ [] := size_values (h.buf ▸ hne)
        exact (execute_holds (counted_holds h) hpending hzero).1
    rw [he, hnext, DBInsert.fill, hlength, hrows]
  · have hnext : s.fill.next row = ⟨s.m_buf.length + row.length + 3, s.m_rows + 1⟩ :=
      (if_neg hne).trans (if_neg hshort)
    have hcomma : (ascii ",").length = 1 := rfl
    rw [he, hnext, DBInsert.fill, List.length_append, List.length_append, hlength, hcomma]
    congr 1
    omega

theorem addRow_holds (hans : ∀ i, answers i = true) (h : Holds q s sent pending) (row : Row) :
    ∃ sent' pending', Holds q (addRow answers s row).2 sent' pending' ∧ pending' ≠ [] ∧
      ((¬ s.fill.Loses ∧ sent'.flatten ++ pending' = sent.flatten ++ pending ++ [row]) ∨
        (s.fill.Loses ∧ sent' = sent ∧ pending' = [row] ∧ pending ≠ [])) := by
  have hsingle : parenthesised row = values [row] := by simp [values]
  have hnil : s.fill.length = 0 ↔ pending = [] := by
    rw [DBInsert.fill, List.length_eq_zero_iff, h.buf, values_eq_nil]
  rcases addRow_cases hans h.multiLine row with ⟨hzero, he⟩ | ⟨hlong, he⟩ | ⟨hne, hshort, he⟩
  · refine ⟨sent, [row], ?_, List.cons_ne_nil _ _, ?_⟩
    · rw [he, hsingle]
      exact (counted_holds h).setBuf
    · by_cases hempty : pending = []
      · left
        constructor
        · exact fun hloses => hloses.1 (hnil.mpr hempty)
        · rw [hempty, List.append_nil]
      · right
        exact ⟨⟨fun hb => hempty (hnil.mp hb), Or.inl hzero⟩, rfl, rfl, hempty⟩
  · have hne : size s.m_buf.length ≠ 0 := by omega
    have hpending : pending ≠ [] := size_values (h.buf ▸ hne)
    by_cases hrows : (counted s).m_rows = 0
    · refine ⟨sent, [row], ?_, List.cons_ne_nil _ _, Or.inr ⟨?_, rfl, rfl, hpending⟩⟩
      · rw [he, execute_skips hrows, hsingle]
        exact (counted_holds h).setBuf
      · exact ⟨fun hb => hpending (hnil.mp hb), Or.inr ⟨hlong, hrows⟩⟩
    · refine ⟨sent ++ [pending], [row], ?_, List.cons_ne_nil _ _, Or.inl ⟨?_, ?_⟩⟩
      · rw [he, hsingle]
        exact (execute_holds (counted_holds h) hpending hrows).2.setBuf
      · rintro ⟨_, hzero | ⟨_, hwrap⟩⟩
        · exact hne hzero
        · exact hrows hwrap
      · simp
  · have hpending : pending ≠ [] := size_values (h.buf ▸ hne)
    refine ⟨sent, pending ++ [row], ?_, by simp, Or.inl ⟨?_, by simp⟩⟩
    · rw [he, h.buf, ← values_snoc hpending]
      exact (counted_holds h).setBuf
    · rintro ⟨_, hzero | ⟨hlong, _⟩⟩
      · exact hne hzero
      · exact hshort hlong

theorem fed_snoc (answers : Answers) (q : List UInt8) (rows : List Row) (row : Row) :
    fed answers q (rows ++ [row]) = (addRow answers (fed answers q rows) row).2 := by
  rw [fed, List.foldl_append]
  rfl

theorem fillAfter_snoc (rows : List Row) (row : Row) :
    fillAfter (rows ++ [row]) = (fillAfter rows).next row := by
  rw [fillAfter, List.foldl_append]
  rfl

theorem next_rows (f : Fill) (row : Row) :
    (f.next row).m_rows = if size f.length > 8192 then 0 else f.m_rows + 1 := by
  rw [Fill.next]
  by_cases hzero : size f.length = 0
  · rw [if_pos hzero, if_neg (by omega)]
  · rw [if_neg hzero]
    split
    · rfl
    · rfl

theorem forall_take_snoc {P : List Row → Prop} (rows : List Row) (row : Row) :
    (∀ i < (rows ++ [row]).length, P ((rows ++ [row]).take i)) ↔
      (∀ i < rows.length, P (rows.take i)) ∧ P rows := by
  have htake : ∀ i ≤ rows.length, (rows ++ [row]).take i = rows.take i := fun i hi =>
    List.take_append_of_le_length hi
  rw [List.length_append, List.length_singleton]
  constructor
  · intro hall
    constructor
    · intro i hi
      have hp := hall i (by omega)
      rwa [htake i hi.le] at hp
    · have hp := hall rows.length (by omega)
      rwa [htake _ le_rfl, List.take_length] at hp
  · rintro ⟨hall, hlast⟩ i hi
    rw [htake i (by omega)]
    by_cases hlt : i < rows.length
    · exact hall i hlt
    · rw [show i = rows.length by omega, List.take_length]
      exact hlast

/-- The rows sent and waiting are among those fed, and are all of them as long as no call loses
any. -/
theorem fed_holds (hans : ∀ i, answers i = true) (q : List UInt8) (rows : List Row) :
    ∃ sent pending, Holds q (fed answers q rows) sent pending ∧
      (fed answers q rows).fill = fillAfter rows ∧ (rows ≠ [] → pending ≠ []) ∧
      sent.flatten ++ pending <+ rows ∧
      (sent.flatten ++ pending = rows ↔
        ∀ i < rows.length, ¬ (fillAfter (rows.take i)).Loses) := by
  induction rows using List.reverseRecOn with
  | nil => exact ⟨[], [], ⟨rfl, rfl, rfl, rfl, nofun⟩, rfl, fun h => absurd rfl h, .slnil, by simp⟩
  | append_singleton rows row ih =>
    obtain ⟨sent, pending, hold, hfill, _, hsub, hiff⟩ := ih
    obtain ⟨sent', pending', hold', hne, hstep⟩ := addRow_holds hans hold row
    have hfill' := addRow_fill hans hold row
    rw [← fed_snoc] at hold' hfill'
    rw [hfill] at hstep hfill'
    refine ⟨sent', pending', hold', by rw [hfill', fillAfter_snoc], fun _ => hne, ?_⟩
    rw [forall_take_snoc (P := fun rows => ¬ (fillAfter rows).Loses), ← hiff]
    rcases hstep with ⟨hkeeps, he⟩ | ⟨hloses, rfl, rfl, hpending⟩
    · rw [he]
      constructor
      · exact hsub.append (.refl _)
      · simp only [List.append_left_inj, hkeeps, not_false_eq_true, and_true]
    · have hlen := hsub.length_le
      have hpos := List.length_pos_iff.mpr hpending
      rw [List.length_append] at hlen
      constructor
      · exact ((List.sublist_append_left _ _).trans hsub).append (.refl _)
      · constructor
        · intro he
          have hle := congrArg List.length he
          simp only [List.length_append, List.length_singleton] at hle
          omega
        · rintro ⟨_, hkeeps⟩
          exact absurd hloses hkeeps

theorem eachKept_iff (hans : ∀ i, answers i = true) (q : List UInt8) (rows : List Row) :
    EachKept rows ↔ (∀ i < rows.length, ¬ (fillAfter (rows.take i)).Loses) ∧
      (rows ≠ [] → (fed answers q rows).m_rows ≠ 0) := by
  obtain ⟨_, _, _, hfill, _⟩ := fed_holds hans q rows
  have hrows : (fed answers q rows).m_rows = (fillAfter rows).m_rows := congrArg Fill.m_rows hfill
  have hlast : rows ≠ [] → ((fed answers q rows).m_rows ≠ 0 ↔
      ¬ size (fillAfter rows.dropLast).length > 8192 ∧
        (fillAfter rows.dropLast).m_rows + 1 ≠ 0) := by
    intro hne
    rw [hrows, ← List.dropLast_append_getLast hne, fillAfter_snoc, next_rows,
      List.dropLast_concat]
    by_cases hlong : size (fillAfter rows.dropLast).length > 8192
    · simp [hlong]
    · simp [hlong]
  constructor
  · rintro ⟨hkept, hend⟩
    exact ⟨hkept, fun hne => (hlast hne).mpr (hend hne)⟩
  · rintro ⟨hkept, hend⟩
    exact ⟨hkept, fun hne => (hlast hne).mp (hend hne)⟩

theorem delivered_iff (hans : ∀ i, answers i = true) (q : List UInt8) (rows : List Row) :
    Delivered q rows (inserted answers q rows) ↔
      (∀ i < rows.length, ¬ (fillAfter (rows.take i)).Loses) ∧
        (rows ≠ [] → (fed answers q rows).m_rows ≠ 0) := by
  obtain ⟨sent, pending, hold, _, hwaits, hsub, hiff⟩ := fed_holds hans q rows
  rw [← hiff]
  by_cases hnone : rows = []
  · subst hnone
    have hempty := List.sublist_nil.mp hsub
    exact ⟨fun _ => ⟨hempty, fun h => absurd rfl h⟩, fun _ => ⟨[], nofun, rfl, rfl⟩⟩
  · have hpending := hwaits hnone
    by_cases hrows : (fed answers q rows).m_rows = 0
    · have hissued : Delivered q sent.flatten (inserted answers q rows) :=
        ⟨sent, hold.nonempty, by rw [inserted, execute_skips hrows, hold.issued], rfl⟩
      constructor
      · intro hdelivered
        have hall := hdelivered.eq_of_sublist hissued ((List.sublist_append_left _ _).trans hsub)
        have hlen := hsub.length_le
        have hpos := List.length_pos_iff.mpr hpending
        rw [List.length_append, hall] at hlen
        omega
      · rintro ⟨_, hlast⟩
        exact absurd hrows (hlast hnone)
    · have hafter : Holds q (execute answers (fed answers q rows)).2 (sent ++ [pending]) [] :=
        (execute_holds hold hpending hrows).2
      have hissued : Delivered q (sent.flatten ++ pending) (inserted answers q rows) :=
        ⟨sent ++ [pending], hafter.nonempty, hafter.issued, by simp⟩
      constructor
      · intro hdelivered
        exact ⟨hdelivered.eq_of_sublist hissued hsub, fun _ => hrows⟩
      · rintro ⟨hall, _⟩
        rwa [hall] at hissued

/-- The statements contain the rows, as long as the last row does not come upon a buffer that is
long enough to be sent. -/
theorem rows_delivered_iff (hans : ∀ i, answers i = true) (q : List UInt8) (rows : List Row) :
    Delivered q rows (inserted answers q rows) ↔ EachKept rows := by
  rw [delivered_iff hans, eachKept_iff hans q]

def twoRows : List Row := [ascii "1", ascii "2"]

theorem twoRows_delivered :
    Delivered (ascii "INSERT INTO `t` VALUES ") twoRows
      (inserted (fun _ => true) (ascii "INSERT INTO `t` VALUES ") twoRows) := by
  apply (rows_delivered_iff (fun _ => rfl) _ _).mpr
  constructor
  · decide +kernel
  · intro _
    constructor <;> decide +kernel

def batchLength (rows : List Row) : ℕ :=
  rows.foldl (fun n row => if n = 0 ∨ n > 8192 then row.length + 2 else n + row.length + 3) 0

theorem batchLength_snoc (rows : List Row) (row : Row) : batchLength (rows ++ [row]) =
    if batchLength rows = 0 ∨ batchLength rows > 8192 then row.length + 2
    else batchLength rows + row.length + 3 := by
  rw [batchLength, List.foldl_append]
  rfl

theorem size_of_lt {length : ℕ} (h : length < 2 ^ 31) : size length = length :=
  Int32.toInt_ofNat_of_lt h

theorem fillAfter_short {rows : List Row} (h : weight rows < 2 ^ 31) :
    (fillAfter rows).length = batchLength rows ∧ batchLength rows ≤ weight rows ∧
      (fillAfter rows).m_rows.toNat ≤ rows.length := by
  induction rows using List.reverseRecOn with
  | nil => exact ⟨rfl, Nat.zero_le _, Nat.le_refl _⟩
  | append_singleton rows row ih =>
    rw [weight_append, weight_singleton] at h ⊢
    obtain ⟨hlength, hle, hrows⟩ := ih (by omega)
    have hsize : size (fillAfter rows).length = batchLength rows := by
      rw [hlength]
      exact size_of_lt (by omega)
    have hnext : ((fillAfter rows).m_rows + 1).toNat ≤ rows.length + 1 := by
      rw [UInt32.toNat_add]
      exact (Nat.mod_le _ _).trans (by simpa using hrows)
    rw [fillAfter_snoc, Fill.next, hsize, hlength, batchLength_snoc, List.length_append,
      List.length_singleton]
    by_cases hzero : batchLength rows = 0
    · rw [if_pos (by omega), if_pos (Or.inl hzero)]
      exact ⟨rfl, by omega, hnext⟩
    · by_cases hlong : batchLength rows > 8192
      · rw [if_neg (by omega), if_pos (by omega), if_pos (Or.inr hlong)]
        exact ⟨rfl, by omega, Nat.zero_le _⟩
      · rw [if_neg (by omega), if_neg (by omega), if_neg (by omega)]
        exact ⟨rfl, by omega, hnext⟩

theorem eachKept_iff_of_short {rows : List Row} (h : weight rows < 2 ^ 31) :
    EachKept rows ↔ batchLength rows.dropLast ≤ 8192 := by
  have hbegun : ∀ pre, pre <+: rows → size (fillAfter pre).length = batchLength pre ∧
      (fillAfter pre).length = batchLength pre ∧ (fillAfter pre).m_rows + 1 ≠ 0 := by
    rintro pre ⟨post, rfl⟩
    rw [weight_append] at h
    obtain ⟨hlength, hle, hrows⟩ := fillAfter_short (show weight pre < 2 ^ 31 by omega)
    have hpre := length_le_weight pre
    refine ⟨by rw [hlength, size_of_lt (by omega)], hlength, ?_⟩
    intro hwrap
    have hzero := congrArg UInt32.toNat hwrap
    rw [UInt32.toNat_add] at hzero
    simp at hzero
    omega
  obtain ⟨hsize, _, hwrap⟩ := hbegun rows.dropLast (List.dropLast_prefix _)
  constructor
  · rintro ⟨_, hlast⟩
    by_cases hnone : rows = []
    · subst hnone
      exact Nat.zero_le _
    · have hshort := (hlast hnone).1
      omega
  · intro hle
    constructor
    · rintro i _ ⟨hne, hzero | ⟨_, hwraps⟩⟩
      · obtain ⟨hsize, hlength, _⟩ := hbegun (rows.take i) (List.take_prefix _ _)
        omega
      · exact (hbegun (rows.take i) (List.take_prefix _ _)).2.2 hwraps
    · intro _
      exact ⟨by omega, hwrap⟩

/-- The last row is lost when the rows before it have left a buffer of more than 8192 bytes. -/
theorem delivered_iff_of_short (hans : ∀ i, answers i = true) (q : List UInt8) {rows : List Row}
    (h : weight rows < 2 ^ 31) : Delivered q rows (inserted answers q rows) ↔
      batchLength rows.dropLast ≤ 8192 := by
  rw [delivered_iff hans, ← eachKept_iff hans q, eachKept_iff_of_short h]

def longRows : List Row := [List.replicate 8191 0x61, ascii "b"]

theorem last_row_lost : ¬ ∀ (answers : Answers) (q : List UInt8) (rows : List Row),
    (∀ i, answers i = true) → Delivered q rows (inserted answers q rows) := by
  intro hall
  have hweight : weight longRows < 2 ^ 31 := by
    simp [longRows, weight, ascii, -List.reduceReplicate]
  have hdelivered := hall (fun _ => true) [] longRows fun _ => rfl
  have hle := (delivered_iff_of_short (fun _ => rfl) [] hweight).mp hdelivered
  simp [longRows, batchLength, -List.reduceReplicate] at hle

end LoginServer.DbInsert
