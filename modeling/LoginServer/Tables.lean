import LoginServer.Database
import LoginServer.Library.Bytes

/-! # Tables and the fields of a result

Columns that a statement compares have a type of their own; the others are whatever field the
driver yields for them. A field that is missing reads as `NULL` does. -/
namespace LoginServer.Sql

open Bytes

/-- The kinds of field that `DBResult` tells apart; a date or a time is none of them. -/
inductive Field where
  | null
  | int64 (value : Int64)
  | uint64 (value : UInt64)
  | string (value : List UInt8)
  | blob (value : List UInt8)
  | other

def isSpace (c : UInt8) : Bool := c = 32 ∨ 9 ≤ c ∧ c ≤ 13

def isDigit (c : UInt8) : Bool := 48 ≤ c ∧ c ≤ 57

def decimal (s : List UInt8) : ℕ :=
  (s.takeWhile isDigit).foldl (fun n c => 10 * n + (c.toNat - 48)) 0

/-- `atoi` is `strtol`, which stops at the bounds of a 64-bit integer, cut to 32 bits. -/
def atoi (s : List UInt8) : Int32 :=
  let value : ℤ := match (cString s).dropWhile isSpace with
    | 0x2D :: s => -decimal s
    | 0x2B :: s => decimal s
    | s => decimal s
  Int32.ofInt (if value > 9223372036854775807 then 9223372036854775807
    else if value < -9223372036854775808 then -9223372036854775808
    else value)

def Field.getDataInt : Field → Int32
  | null => 0
  | int64 value => value.toInt32
  | uint64 value => value.toUInt32.toInt32
  | string value => atoi value
  | blob _ => 0
  | other => 0

def Field.getDataString : Field → List UInt8
  | null => []
  | string value => value
  | int64 value => ascii (toString value.toInt)
  | uint64 value => ascii (toString value.toNat)
  | blob value => value
  | other => []

structure AccountRow where
  id : UInt32
  name : List UInt8
  password : Field
  salt : Field
  premium_days : Field
  lastday : Field
  key : Field
  warnings : Field

structure PlayerRow where
  id : UInt32
  account_id : UInt32
  deleted : Int64
  broadcasting : Int64
  name : Field
  group_id : Field
  online : Field
  level : Field

/-- `ban_type`, an `ENUM` column. -/
inductive BanType where
  | account
  | player
  | ip
deriving DecidableEq

def BanType.text : BanType → List UInt8
  | account => ascii "account"
  | player => ascii "player"
  | ip => ascii "ip"

structure BanRow where
  id : Field
  ban_type : BanType
  target : List UInt8
  active : Int64
  expires_at : Option ℤ
  created_at : Field
  banned_by : Field
  reason : Field

/-- A column of date type is `NULL` or a field of the date kind. -/
def BanRow.expiresField (b : BanRow) : Field :=
  match b.expires_at with
  | none => .null
  | some _ => .other

structure Tables where
  accounts : List AccountRow
  players : List PlayerRow
  bans : List BanRow

/-- How the server compares texts; equal texts are equal for it. -/
structure Collation where
  equal : List UInt8 → List UInt8 → Bool
  refl : ∀ s, equal s s = true

/-- `expires_at IS NULL OR expires_at > NOW()`. -/
def unexpired (now : ℤ) : Option ℤ → Bool
  | none => true
  | some expires_at => expires_at > now

/-- Active, and not expired. -/
def BanRow.inForce (now : ℤ) (b : BanRow) : Bool := b.active = 1 && unexpired now b.expires_at

/-- The `UPDATE` of `checkBanishments`. -/
def BanRow.lift (now : ℤ) (b : BanRow) : BanRow :=
  match b.expires_at with
  | none => b
  | some expires_at => if b.active = 1 ∧ expires_at ≤ now then { b with active := 0 } else b

theorem BanRow.inForce_lift (now : ℤ) (b : BanRow) : (b.lift now).inForce now = b.inForce now := by
  rw [lift]
  split
  · rfl
  · rename_i expires_at he
    split
    · rename_i h
      have hlt : ¬ expires_at > now := by omega
      simp [inForce, unexpired, he, hlt]
    · rfl

theorem BanRow.lift_of_inForce {now : ℤ} {b : BanRow} (h : b.inForce now = true) :
    b.lift now = b := by
  rw [lift]
  split
  · rfl
  · rename_i expires_at he
    simp only [inForce, he, unexpired, Bool.and_eq_true, decide_eq_true_eq] at h
    exact if_neg (by omega)

/-- What is selected among the bans in force is the same after the update. -/
theorem filter_lift (now : ℤ) (p : BanRow → Bool) (bans : List BanRow) :
    (bans.map (BanRow.lift now)).filter (fun b => p b && b.inForce now) =
      bans.filter fun b => p b && b.inForce now := by
  induction bans with
  | nil => rfl
  | cons b bans ih =>
    have hforce := b.inForce_lift now
    cases hb : b.inForce now with
    | true => rw [List.map_cons, BanRow.lift_of_inForce hb, List.filter_cons, List.filter_cons, ih]
    | false =>
      rw [hb] at hforce
      simp only [List.map_cons, List.filter_cons, hforce, hb, Bool.and_false, Bool.false_eq_true,
        if_false, ih]

end LoginServer.Sql
