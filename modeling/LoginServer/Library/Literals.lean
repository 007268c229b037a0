import Mathlib.Data.List.Basic

/-! # Quoted literals with escapes

The reader of a quoted literal, as lexers have it: a wide character is taken whole, a backslash
takes the next unit with it, and a quote ends the literal unless quotes are doubled. A text whose
every dangerous unit is escaped is read back as it was, and its literal ends where it was closed. -/
namespace LoginServer.Literals

variable {β : Type*}

structure Quoting (β : Type*) where
  quote : β
  backslash : β
  /-- What a backslash and the unit after it stand for. -/
  decode : β → List β
  /-- The units of the wide character at the head, at most 1 when there is none. -/
  wide : List β → ℕ
  /-- Two quotes in a row stand for one. -/
  doubled : Bool
  quote_ne_backslash : quote ≠ backslash
  wide_plain : ∀ l, 1 < wide l → ∀ b ∈ l.take (wide l), b ≠ quote ∧ b ≠ backslash

namespace Quoting

variable [DecidableEq β] (q : Quoting β)

/-- The content up to the closing quote and what follows it; `k` units of a wide character are
still to be taken as they are. -/
def content : ℕ → List β → Option (List β × List β)
  | _, [] => none
  | k + 1, b :: rest => (content k rest).map fun r => (b :: r.1, r.2)
  | 0, b :: rest =>
    if 1 < q.wide (b :: rest) then
      (content (q.wide (b :: rest) - 1) rest).map fun r => (b :: r.1, r.2)
    else if b = q.backslash then
      match rest with
      | [] => none
      | c :: rest => (content 0 rest).map fun r => (q.decode c ++ r.1, r.2)
    else if b = q.quote then
      match rest with
      | [] => some ([], [])
      | c :: rest' =>
        if q.doubled = true ∧ c = q.quote then
          (content 0 rest').map fun r => (q.quote :: r.1, r.2)
        else some ([], c :: rest')
    else (content 0 rest).map fun r => (b :: r.1, r.2)

def literal : List β → Option (List β × List β)
  | [] => none
  | b :: rest => if b = q.quote then q.content 0 rest else none

/-- The units that are escaped, and the letter that stands behind the backslash. -/
structure Escaping where
  letter : β → Option β
  decode_letter : ∀ b c, letter b = some c → q.decode c = [b]
  quote_escaped : letter q.quote ≠ none
  backslash_escaped : letter q.backslash ≠ none

variable {q}

def Escaping.escape (e : q.Escaping) (b : β) : List β :=
  match e.letter b with
  | some c => [q.backslash, c]
  | none => [b]

omit [DecidableEq β] in
theorem Escaping.plain_of_letter_none {e : q.Escaping} {b : β} (h : e.letter b = none) :
    b ≠ q.quote ∧ b ≠ q.backslash := by
  constructor
  · rintro rfl
    exact e.quote_escaped h
  · rintro rfl
    exact e.backslash_escaped h

theorem content_quote {rest : List β} (hr : q.doubled = true → rest.head? ≠ some q.quote) :
    q.content 0 (q.quote :: rest) = some ([], rest) := by
  have hw : ¬ 1 < q.wide (q.quote :: rest) := by
    intro hw
    have hm : q.quote ∈ (q.quote :: rest).take (q.wide (q.quote :: rest)) := by
      rw [List.take_cons (by omega)]
      exact List.mem_cons_self
    exact (q.wide_plain _ hw _ hm).1 rfl
  cases rest with
  | nil => simp [content, hw, q.quote_ne_backslash]
  | cons c rest =>
    have hc : ¬ (q.doubled = true ∧ c = q.quote) := by
      rintro ⟨hd, rfl⟩
      exact hr hd rfl
    simp [content, hw, q.quote_ne_backslash, hc]

theorem content_backslash {c : β} {rest : List β} :
    q.content 0 (q.backslash :: c :: rest) =
      (q.content 0 rest).map fun r => (q.decode c ++ r.1, r.2) := by
  have hw : ¬ 1 < q.wide (q.backslash :: c :: rest) := by
    intro hw
    have hm : q.backslash ∈ (q.backslash :: c :: rest).take (q.wide (q.backslash :: c :: rest)) := by
      rw [List.take_cons (by omega)]
      exact List.mem_cons_self
    exact (q.wide_plain _ hw _ hm).2 rfl
  rw [content, if_neg hw, if_pos rfl]

/-- A unit that is neither quote nor backslash stands for itself, alone or as the first of a wide
character, whose other units are then neither as well. -/
theorem content_plain {b : β} {rest : List β} (hb : b ≠ q.quote ∧ b ≠ q.backslash) :
    ∃ k, (∀ c ∈ rest.take k, c ≠ q.quote ∧ c ≠ q.backslash) ∧
      q.content 0 (b :: rest) = (q.content k rest).map fun r => (b :: r.1, r.2) := by
  by_cases hw : 1 < q.wide (b :: rest)
  · refine ⟨q.wide (b :: rest) - 1, ?_, by cases rest <;> simp [content, hw]⟩
    intro c hc
    apply q.wide_plain _ hw c
    rw [List.take_cons (by omega)]
    exact List.mem_cons_of_mem b hc
  · exact ⟨0, by simp, by cases rest <;> simp [content, hw, hb.1, hb.2]⟩

theorem content_escape (e : q.Escaping) {rest : List β}
    (hr : q.doubled = true → rest.head? ≠ some q.quote) (s : List β) (k : ℕ)
    (hk : ∀ b ∈ (s.flatMap e.escape ++ q.quote :: rest).take k, b ≠ q.quote ∧ b ≠ q.backslash) :
    q.content k (s.flatMap e.escape ++ q.quote :: rest) = some (s, rest) := by
  induction s generalizing k with
  | nil =>
    cases k with
    | zero => exact content_quote hr
    | succ k => exact absurd rfl (hk q.quote (by simp)).1
  | cons b s ih =>
    cases he : e.letter b with
    | none =>
      have hb := e.plain_of_letter_none he
      have hl : (b :: s).flatMap e.escape ++ q.quote :: rest =
          b :: (s.flatMap e.escape ++ q.quote :: rest) := by
        simp [Escaping.escape, he]
      rw [hl] at hk ⊢
      cases k with
      | zero =>
        obtain ⟨k, hplain, hc⟩ := content_plain hb
        rw [hc, ih k hplain]
        rfl
      | succ k =>
        have hplain := ih k fun c hc => hk c (List.mem_cons_of_mem b hc)
        rw [content, hplain]
        rfl
    | some c =>
      have hl : (b :: s).flatMap e.escape ++ q.quote :: rest =
          q.backslash :: c :: (s.flatMap e.escape ++ q.quote :: rest) := by
        simp [Escaping.escape, he]
      rw [hl] at hk ⊢
      cases k with
      | zero =>
        rw [content_backslash, ih 0 (by simp), e.decode_letter b c he]
        rfl
      | succ k => exact absurd rfl (hk q.backslash (by simp)).2

/-- An escaped text in quotes is one literal that stands for the text. -/
theorem literal_escape (e : q.Escaping) {rest : List β}
    (hr : q.doubled = true → rest.head? ≠ some q.quote) (s : List β) :
    q.literal (q.quote :: (s.flatMap e.escape ++ q.quote :: rest)) = some (s, rest) := by
  rw [literal, if_pos rfl]
  exact content_escape e hr s 0 (by simp)

end Quoting

end LoginServer.Literals
