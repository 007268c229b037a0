import LoginServer.Delegate
import LoginServer.Library.Decimals

/-! # Bans as the driver hands them over

A field of a result is of one of the driver's kinds, and `DBResult::getDataString` reads some of
them. `delegate` takes an empty `expires_at` for `NULL`, and words the refusal by it. -/
namespace LoginServer.Io

open Bytes Accounts Sql

abbrev Text := {text : List UInt8 // text ≠ []}

/-- `boost::mysql::field_view`. A value of the last five kinds is given by its text. -/
inductive FieldView where
  | null
  | int64 (value : Int64)
  | uint64 (value : UInt64)
  | string (value : List UInt8)
  | blob (value : List UInt8)
  | float (value : Text)
  | double (value : Text)
  | date (value : Text)
  | datetime (value : Text)
  | time (value : Text)

/-- The kinds that the accessors of `DBResult` tell apart. -/
def FieldView.field : FieldView → Field
  | null => .null
  | int64 value => .int64 value
  | uint64 value => .uint64 value
  | string value => .string value
  | blob value => .blob value
  | float _ | double _ | date _ | datetime _ | time _ => .other

def FieldView.getDataInt (f : FieldView) : Int32 := f.field.getDataInt

def FieldView.getDataString (f : FieldView) : List UInt8 := f.field.getDataString

/-- The text that the server sends for a value; there is none for `NULL`. -/
def FieldView.text : FieldView → List UInt8
  | null => []
  | int64 value => Decimals.intText value.toInt
  | uint64 value => Decimals.text value.toNat
  | string value | blob value => value
  | float value | double value | date value | datetime value | time value => value.val

def FieldView.isRead : FieldView → Bool
  | null | int64 _ | uint64 _ | string _ | blob _ => true
  | float _ | double _ | date _ | datetime _ | time _ => false

/-- A row of `bans`, with whatever field in each column. -/
structure BanFields where
  id : FieldView
  ban_type : FieldView
  target : FieldView
  active : FieldView
  expires_at : FieldView
  created_at : FieldView
  banned_by : FieldView
  reason : FieldView

def BanFields.load (row : BanFields) : Ban where
  id := row.id.getDataInt.toUInt32
  bannedBy := row.banned_by.getDataInt.toUInt32
  target := row.target.getDataString
  reason := row.reason.getDataString
  banType := row.ban_type.getDataString
  createdAt := row.created_at.getDataString
  expiresAt := row.expires_at.getDataString
  active := row.active.getDataInt ≠ 0

/-- The refusal that `delegate` words for the row. -/
def reportBan (row : BanFields) : ServerM (List UInt8) := do
  let ban := row.load
  let name_ ← bannedByName ban
  pure (banishedMessage ban name_)

def ReportsDeletion (message : List UInt8) : Prop :=
  ascii "Your account has been deleted" <+: message

theorem not_deleted_prefix (rest : List UInt8) :
    ¬ ascii "deleted" <+: ascii "banished" ++ rest := by
  have hdeleted : ascii "deleted" = 0x64 :: ascii "eleted" := by decide
  have hbanished : ascii "banished" = 0x62 :: ascii "anished" := by decide
  rw [hdeleted, hbanished, List.cons_append, List.cons_prefix_cons]
  intro h
  exact absurd h.1 (by decide)

theorem reportsDeletion_iff (ban : Ban) (name_ : List UInt8) :
    ReportsDeletion (banishedMessage ban name_) ↔ ban.expiresAt = [] := by
  have hdeleted : ascii "Your account has been deleted" =
      ascii "Your account has been " ++ ascii "deleted" := by decide +kernel
  rw [ReportsDeletion, hdeleted, banishedMessage]
  simp only [List.append_assoc, List.prefix_append_right_inj]
  cases ban.expiresAt with
  | nil =>
    simp only [List.isEmpty_nil, ↓reduceIte, iff_true]
    exact List.prefix_append _ _
  | cons c text =>
    simp only [List.isEmpty_cons, Bool.false_eq_true, ↓reduceIte, reduceCtorEq, iff_false]
    exact not_deleted_prefix _

/-- Whoever set the ban, the refusal says that the account was deleted exactly when the text of
`expires_at` is empty. -/
theorem reportBan_iff (row : BanFields) (s : Server) :
    ReportsDeletion (reportBan row s).1 ↔ row.expires_at.getDataString = [] := by
  rw [reportBan, bind_run, pure_run, reportsDeletion_iff]
  rfl

theorem getDataString_of_isRead {f : FieldView} (h : f.isRead = true) :
    f.getDataString = f.text := by
  cases f with
  | null | int64 | uint64 | string | blob => rfl
  | float | double | date | datetime | time => exact absurd h Bool.false_ne_true

theorem getDataString_of_not_isRead {f : FieldView} (h : f.isRead = false) :
    f.getDataString = [] ∧ f ≠ .null ∧ f.text ≠ [] := by
  cases f with
  | null | int64 | uint64 | string | blob => exact absurd h.symm Bool.false_ne_true
  | float value | double value | date value | datetime value | time value =>
    exact ⟨rfl, FieldView.noConfusion, value.property⟩

theorem getDataString_eq_nil_iff (f : FieldView) :
    f.getDataString = [] ↔ f.isRead = false ∨ f.text = [] := by
  cases hread : f.isRead with
  | true =>
    rw [getDataString_of_isRead hread]
    simp
  | false => simp [(getDataString_of_not_isRead hread).1]

/-- Emptiness stands for `NULL` where the accessor reads the field and its text is not empty. -/
theorem empty_iff_null_iff (f : FieldView) :
    (f.getDataString = [] ↔ f = .null) ↔ f = .null ∨ f.isRead = true ∧ f.text ≠ [] := by
  by_cases hnull : f = .null
  · subst hnull
    exact iff_of_true (iff_of_true rfl rfl) (Or.inl rfl)
  · simp only [hnull, iff_false, false_or, getDataString_eq_nil_iff, not_or, Bool.not_eq_false]

theorem empty_text_iff (f : FieldView) :
    (f ≠ .null → f.getDataString = [] → f.text = []) ↔ f.isRead = true := by
  constructor
  · intro hall
    by_contra hread
    obtain ⟨hempty, hnull, htext⟩ := getDataString_of_not_isRead (Bool.not_eq_true _ ▸ hread)
    exact htext (hall hnull hempty)
  · intro hread _ hempty
    rwa [getDataString_of_isRead hread] at hempty

/-- The refusal speaks of a deletion for `NULL` only where `expires_at` is read and has a text. -/
theorem deletion_iff_null_iff (row : BanFields) (s : Server) :
    ((ReportsDeletion (reportBan row s).1 ↔ row.expires_at = .null) ↔
      row.expires_at = .null ∨ row.expires_at.isRead = true ∧ row.expires_at.text ≠ []) ∧
    ∀ f : FieldView, (f ≠ .null → f.getDataString = [] → f.text = []) ↔ f.isRead = true := by
  constructor
  · rw [reportBan_iff]
    exact empty_iff_null_iff row.expires_at
  · exact empty_text_iff

def temporaryBan : BanFields where
  id := .uint64 1
  ban_type := .string (ascii "account")
  target := .string (ascii "1")
  active := .int64 1
  expires_at := .datetime ⟨ascii "2099-12-31 23:59:59", by decide⟩
  created_at := .datetime ⟨ascii "2025-01-01 00:00:00", by decide⟩
  banned_by := .int64 0
  reason := .string (ascii "Spam")

theorem temporary_ban_deleted :
    ¬ ∀ (row : BanFields) (s : Server),
      ReportsDeletion (reportBan row s).1 ↔ row.expires_at = .null := by
  intro hall
  have hnull := (hall temporaryBan ⟨⟨none, ⟨true, true, false, true⟩,
    fun _ => ⟨⟨true, true, false, true⟩, ⟨true, true, false, true⟩, ⟨true, true, false, true⟩⟩,
    ⟨[], [], []⟩⟩, ∅, ∅⟩).mp ((reportBan_iff _ _).mpr rfl)
  exact absurd hnull FieldView.noConfusion

/-- A field of the tables as the driver has it; the kinds of `other` are dates. -/
def fieldView (stamp : Text) : Field → FieldView
  | .null => .null
  | .int64 value => .int64 value
  | .uint64 value => .uint64 value
  | .string value => .string value
  | .blob value => .blob value
  | .other => .datetime stamp

def BanRow.fields (row : BanRow) (stamp : Text) : BanFields where
  id := fieldView stamp row.id
  ban_type := .string row.ban_type.text
  target := .string row.target
  active := .int64 row.active
  expires_at := fieldView stamp row.expiresField
  created_at := fieldView stamp row.created_at
  banned_by := fieldView stamp row.banned_by
  reason := fieldView stamp row.reason

theorem field_fieldView (stamp : Text) (f : Field) : (fieldView stamp f).field = f := by
  cases f <;> rfl

theorem load_fields (row : BanRow) (stamp : Text) :
    (BanRow.fields row stamp).load = BanRow.load row := by
  simp only [BanFields.load, BanRow.fields, BanRow.load, FieldView.getDataInt,
    FieldView.getDataString, field_fieldView]
  rfl

theorem checkAccount_found {env : Env} {account : Account} {s : Server} {row : BanRow}
    {rows : List BanRow} (hserves : s.serves = true)
    (hrows : banRows env .account (ascii (toString account.number.toNat)) s.tables = row :: rows)
    (clientIp : UInt32) (stamp : Text) :
    (checkAccount env clientIp account s).1 =
      .banished (reportBan (BanRow.fields row stamp) s.next).1 := by
  rw [checkAccount, bind_run, getBanishment, bind_run, storeQuery_run, hserves, if_pos rfl, hrows]
  rw [reportBan, load_fields]
  rfl

theorem table_ban_deleted (row : BanRow) (stamp : Text) (s : Server) :
    ReportsDeletion (reportBan (BanRow.fields row stamp) s).1 := by
  rw [reportBan_iff, FieldView.getDataString, BanRow.fields, field_fieldView, BanRow.expiresField]
  cases row.expires_at <;> rfl

end LoginServer.Io
