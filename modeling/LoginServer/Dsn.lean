import LoginServer.Tables
import LoginServer.Library.Decimals
import LoginServer.Library.Search

/-! # The data source name

`Database::connect` cuts `s_dsn` at one delimiter after the other and hands the pieces to the
driver. A name is written `scheme://[user[:pass]@]host[:port][/db[?query]]`; its parts carry the
delimiters they are free of. -/
namespace LoginServer.Sql

open Bytes Search

structure ConnectParams where
  host : List UInt8
  port : UInt16
  username : List UInt8
  password : List UInt8
  database : List UInt8
deriving DecidableEq

def isSign (c : UInt8) : Bool := c = 0x2B ∨ c = 0x2D

/-- `std::stoi`; without digits and outside an `int` it throws. -/
def stoi (s : List UInt8) : Option ℤ :=
  let s := (cString s).dropWhile isSpace
  let digits := if s.head?.any isSign then s.tail else s
  let value : ℤ := if s.head? = some 0x2D then -decimal digits else decimal digits
  if (digits.takeWhile isDigit).isEmpty then none
  else if value < -2147483648 ∨ 2147483647 < value then none
  else some value

def cutScheme (s_dsn : List UInt8) : List UInt8 :=
  match split [0x3A, 0x2F, 0x2F] s_dsn with
  | some (_, remainder) => remainder
  | none => s_dsn

def cutDatabase (remainder : List UInt8) : List UInt8 × List UInt8 :=
  match split [0x2F] remainder with
  | some (remainder, database) =>
    match split [0x3F] database with
    | some (database, _) => (remainder, database)
    | none => (remainder, database)
  | none => (remainder, [])

def cutUserinfo (remainder : List UInt8) : List UInt8 × List UInt8 :=
  match split [0x40] remainder with
  | some (userinfo, hostinfo) => (userinfo, hostinfo)
  | none => ([], remainder)

def cutPassword (userinfo : List UInt8) : List UInt8 × List UInt8 :=
  match split [0x3A] userinfo with
  | some (user, pass) => (user, pass)
  | none => (userinfo, [])

def cutPort (hostinfo : List UInt8) : Option (List UInt8 × UInt16) :=
  match split [0x3A] hostinfo with
  | some (host, port) => (stoi port).map fun port => (host, UInt16.ofInt port)
  | none => some (if hostinfo = [] then ascii "localhost" else hostinfo, 3306)

/-- What `connect` hands to the driver; nothing when `stoi` throws before. -/
def connectParams (s_dsn : List UInt8) : Option ConnectParams :=
  let remainder := cutScheme s_dsn
  let (remainder, database) := cutDatabase remainder
  let (userinfo, hostinfo) := cutUserinfo remainder
  let (user, pass) := cutPassword userinfo
  (cutPort hostinfo).map fun (host, port) =>
    { host, port, username := user, password := pass, database }

structure Userinfo where
  user : List UInt8
  pass : Option (List UInt8)
  colon_user : 0x3A ∉ user
  at_user : 0x40 ∉ user
  slash_user : 0x2F ∉ user
  at_pass : ∀ p ∈ pass, 0x40 ∉ p
  slash_pass : ∀ p ∈ pass, 0x2F ∉ p

/-- The digits of a port, with zeros in front or without. -/
structure Port where
  digits : List UInt8
  ne_nil : digits ≠ []
  isDigit : ∀ c ∈ digits, isDigit c = true
  range : Decimals.value digits ≤ 65535

def Port.number (p : Port) : UInt16 :=
  UInt16.ofNatLT (Decimals.value p.digits) (Nat.lt_succ_of_le p.range)

structure Path where
  db : List UInt8
  query : Option (List UInt8)
  question_db : 0x3F ∉ db

structure Dsn where
  scheme : List UInt8
  userinfo : Option Userinfo
  host : List UInt8
  port : Option Port
  path : Option Path
  letter_scheme : ∀ c ∈ scheme, 65 ≤ c ∧ c ≤ 90 ∨ 97 ≤ c ∧ c ≤ 122
  host_ne_nil : host ≠ []
  colon_host : 0x3A ∉ host
  at_host : 0x40 ∉ host
  slash_host : 0x2F ∉ host

def behind (c : UInt8) : Option (List UInt8) → List UInt8
  | none => []
  | some text => c :: text

def Userinfo.format (u : Userinfo) : List UInt8 := u.user ++ behind 0x3A u.pass

def Path.format (p : Path) : List UInt8 := p.db ++ behind 0x3F p.query

def Dsn.userinfoText (d : Dsn) : List UInt8 :=
  match d.userinfo with
  | none => []
  | some u => u.format ++ [0x40]

def Dsn.hostinfo (d : Dsn) : List UInt8 := d.host ++ behind 0x3A (d.port.map Port.digits)

def Dsn.format (d : Dsn) : List UInt8 :=
  d.scheme ++ ([0x3A, 0x2F, 0x2F] ++
    (d.userinfoText ++ d.hostinfo ++ behind 0x2F (d.path.map Path.format)))

/-- The parts of the name; an absent part is empty, and the port 3306. -/
def Dsn.params (d : Dsn) : ConnectParams where
  host := d.host
  port := (d.port.map Port.number).getD 3306
  username := (d.userinfo.map Userinfo.user).getD []
  password := (d.userinfo.bind Userinfo.pass).getD []
  database := (d.path.map Path.db).getD []

theorem isDigit_toNat {c : UInt8} (h : isDigit c = true) : 48 ≤ c.toNat ∧ c.toNat ≤ 57 := by
  rw [isDigit, decide_eq_true_eq, UInt8.le_iff_toNat_le, UInt8.le_iff_toNat_le] at h
  exact h

theorem isDigit_ordinary {c : UInt8} (h : isDigit c = true) :
    c ≠ 0 ∧ ¬ isSpace c = true ∧ ¬ isSign c = true ∧ c ≠ 0x2D := by
  obtain ⟨hlow, hhigh⟩ := isDigit_toNat h
  simp only [isSpace, isSign, decide_eq_true_eq, UInt8.le_iff_toNat_le, ne_eq,
    ← UInt8.toNat_inj]
  simp only [UInt8.reduceToNat]
  omega

theorem takeWhile_digits (p : Port) : p.digits.takeWhile isDigit = p.digits := by
  rw [List.takeWhile_eq_self_iff]
  exact p.isDigit

theorem cString_digits (p : Port) : cString p.digits = p.digits := by
  rw [cString_eq_self_iff]
  intro hzero
  exact (isDigit_ordinary (p.isDigit 0 hzero)).1 rfl

theorem dropWhile_digits (p : Port) : p.digits.dropWhile isSpace = p.digits := by
  cases hdigits : p.digits with
  | nil => rfl
  | cons c digits =>
    have hdigit := p.isDigit c (hdigits ▸ List.mem_cons_self)
    exact List.dropWhile_cons_of_neg (isDigit_ordinary hdigit).2.1

theorem head_digits (p : Port) :
    p.digits.head?.any isSign = false ∧ p.digits.head? ≠ some 0x2D := by
  cases hdigits : p.digits with
  | nil => exact absurd hdigits p.ne_nil
  | cons c digits =>
    have hdigit := p.isDigit c (hdigits ▸ List.mem_cons_self)
    obtain ⟨-, -, hsign, hminus⟩ := isDigit_ordinary hdigit
    constructor
    · rw [← Bool.not_eq_true]
      exact hsign
    · rw [List.head?_cons, ne_eq, Option.some_inj]
      exact hminus

theorem stoi_digits (p : Port) : stoi p.digits = some (Decimals.value p.digits : ℤ) := by
  have hdecimal : decimal p.digits = Decimals.value p.digits := by
    rw [decimal, takeWhile_digits, Decimals.value]
  have hrange := p.range
  obtain ⟨hsign, hminus⟩ := head_digits p
  rw [stoi]
  simp only [cString_digits, dropWhile_digits, hsign, hminus, Bool.false_eq_true, ↓reduceIte,
    takeWhile_digits, hdecimal, List.isEmpty_iff, p.ne_nil]
  rw [if_neg (by omega)]

/-- The cast to `unsigned short` loses nothing of a port. -/
theorem number_eq (p : Port) : p.number = UInt16.ofInt (Decimals.value p.digits : ℤ) := by
  have hrange := p.range
  have hmod : ((Decimals.value p.digits : ℤ) % 2 ^ 16).toNat = Decimals.value p.digits := by omega
  rw [Port.number, UInt16.ofNatLT_eq_ofNat, UInt16.ofInt, hmod]

theorem split_behind {c : UInt8} {text : List UInt8} (h : c ∉ text) (part : Option (List UInt8)) :
    split [c] (text ++ behind c part) = part.map fun part => (text, part) := by
  cases part with
  | none =>
    rw [behind, List.append_nil]
    exact split_eq_none h
  | some part => exact split_append h

theorem notMem_digits {c : UInt8} (h : isDigit c = false) (p : Option Port) :
    ∀ digits ∈ p.map Port.digits, c ∉ digits := by
  intro digits hdigits hc
  obtain ⟨p, -, rfl⟩ := Option.map_eq_some_iff.mp hdigits
  rw [p.isDigit c hc] at h
  exact absurd h (by decide)

theorem notMem_behind {c d : UInt8} {part : Option (List UInt8)} (hd : c ≠ d)
    (h : ∀ text ∈ part, c ∉ text) : c ∉ behind d part := by
  cases part with
  | none => exact List.not_mem_nil
  | some text => exact List.not_mem_cons_of_ne_of_not_mem hd (h text rfl)

variable (d : Dsn)

theorem colon_scheme : 0x3A ∉ d.scheme := by
  intro hc
  have hletter := d.letter_scheme _ hc
  exact absurd hletter (by decide)

theorem hostinfo_plain {c : UInt8} (hc : c ∉ d.host) (hcolon : c ≠ 0x3A)
    (hdigit : isDigit c = false) : c ∉ d.hostinfo := by
  rw [Dsn.hostinfo, List.mem_append, not_or]
  constructor
  · exact hc
  · exact notMem_behind hcolon (notMem_digits hdigit d.port)

theorem slash_userinfo : 0x2F ∉ d.userinfoText := by
  rw [Dsn.userinfoText]
  cases d.userinfo with
  | none => exact List.not_mem_nil
  | some u =>
    simp only [Userinfo.format, List.mem_append, not_or]
    refine ⟨⟨u.slash_user, ?_⟩, by decide⟩
    exact notMem_behind (by decide) u.slash_pass

theorem cutScheme_format : cutScheme d.format =
    d.userinfoText ++ d.hostinfo ++ behind 0x2F (d.path.map Path.format) := by
  rw [cutScheme, Dsn.format, split_append (colon_scheme d)]

theorem cutDatabase_format {text : List UInt8} (h : 0x2F ∉ text) (path : Option Path) :
    cutDatabase (text ++ behind 0x2F (path.map Path.format)) =
      (text, (path.map Path.db).getD []) := by
  rw [cutDatabase, split_behind h]
  cases path with
  | none =>
    rw [Option.map_none, Option.map_none, Option.map_none, Option.getD_none]
    simp [behind]
  | some p =>
    simp only [Option.map_some, Path.format, split_behind p.question_db, Option.getD_some]
    cases p.query <;> simp [behind]

theorem at_userinfo (u : Userinfo) : 0x40 ∉ u.format := by
  rw [Userinfo.format, List.mem_append, not_or]
  constructor
  · exact u.at_user
  · exact notMem_behind (by decide) u.at_pass

theorem cutUserinfo_format {hostinfo : List UInt8} (h : 0x40 ∉ hostinfo) :
    cutUserinfo (d.userinfoText ++ hostinfo) =
      ((d.userinfo.map Userinfo.format).getD [], hostinfo) := by
  rw [cutUserinfo, Dsn.userinfoText]
  cases d.userinfo with
  | none =>
    rw [List.nil_append, split_eq_none h]
    rfl
  | some u =>
    simp only [List.append_assoc]
    rw [split_append (at_userinfo u)]
    rfl

theorem cutPassword_format (u : Option Userinfo) :
    cutPassword ((u.map Userinfo.format).getD []) =
      ((u.map Userinfo.user).getD [], (u.bind Userinfo.pass).getD []) := by
  cases u with
  | none => rfl
  | some u =>
    simp only [cutPassword, Option.map_some, Option.getD_some, Option.bind_some, Userinfo.format]
    rw [split_behind u.colon_user]
    cases u.pass with
    | none => simp [behind]
    | some pass => rfl

theorem cutPort_format :
    cutPort d.hostinfo = some (d.host, (d.port.map Port.number).getD 3306) := by
  rw [cutPort, Dsn.hostinfo, split_behind d.colon_host]
  cases d.port with
  | none =>
    rw [Option.map_none, Option.map_none, behind, List.append_nil]
    simp only [d.host_ne_nil, ↓reduceIte]
    rfl
  | some p =>
    simp only [Option.map_some, stoi_digits, Option.getD_some, number_eq]

/-- What a name is written from is what the driver is given. -/
theorem connectParams_format : connectParams d.format = some d.params := by
  have hat : 0x40 ∉ d.hostinfo := hostinfo_plain d d.at_host (by decide) (by decide)
  have hslash : 0x2F ∉ d.userinfoText ++ d.hostinfo := by
    rw [List.mem_append, not_or]
    constructor
    · exact slash_userinfo d
    · exact hostinfo_plain d d.slash_host (by decide) (by decide)
  simp only [connectParams, cutScheme_format, cutDatabase_format hslash, cutUserinfo_format d hat,
    cutPassword_format, cutPort_format]
  rfl

end LoginServer.Sql
