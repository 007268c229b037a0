import LoginServer.Motd
import LoginServer.Library.Search
import Mathlib.Data.List.DropRight

/-! # The command line

`explodeString`, and `argumentsHandler`, which sets what a later `load` is to leave alone. -/
namespace LoginServer.Configuration

open Bytes Worlds Search

def trimString (str : List UInt8) : List UInt8 :=
  (str.rdropWhile (· = 0x20)).dropWhile (· = 0x20)

/-- The loop of `explodeString` with its counter, on what is left of the string; `fuel` bounds the
number of pieces. -/
def explodeFrom (separator : List UInt8) (trim : Bool) (limit : UInt16) :
    ℕ → UInt16 → List UInt8 → Option (List (List UInt8))
  | 0, _, _ => none
  | fuel + 1, i, string =>
    match split separator string with
    | none => some [string]
    | some (t, rest) =>
      let t := if trim then trimString t else t
      if limit > 0 ∧ i + 1 > limit then some [t, rest]
      else (explodeFrom separator trim limit fuel (i + 1) rest).map (t :: ·)

/-- A separator that is not empty makes what is left shorter with each piece. -/
def explodeString (string separator : List UInt8) (trim : Bool) (limit : UInt16) :
    Option (List (List UInt8)) :=
  explodeFrom separator trim limit (string.length + 1) 1 string

structure Startup where
  g_config : ConfigManager
  g_configDir : List UInt8

def runfileNames : List (List UInt8) :=
  [ascii "--runfile", ascii "--run-file", ascii "--pidfile", ascii "--pid-file"]

def logNames : List (List UInt8) := [ascii "--log"]

def daemonNames : List (List UInt8) := [ascii "--daemon", ascii "-d"]

/-- An argument in its pieces; nothing when a piece is read that is not there. -/
def handleOption (s : Startup) (tmp : List (List UInt8)) : Option Startup := do
  let name ← tmp[0]?
  if name = ascii "--path" then
    let value ← tmp[1]?
    some { s with g_configDir := value }
  else if name ∈ runfileNames then
    let value ← tmp[1]?
    some { s with g_config := s.g_config.setString .RUNFILE value }
  else if name ∈ logNames then
    let value ← tmp[1]?
    some { s with g_config := s.g_config.setString .OUTPUT_LOG value }
  else if name ∈ daemonNames then
    some { s with g_config := s.g_config.setBool .DAEMONIZE true }
  else some s

/-- The answer, and the settings with what was set before it. -/
def argumentsHandler (s : Startup) : List (List UInt8) → Option (Bool × Startup)
  | [] => some (true, s)
  | arg :: args =>
    if arg = ascii "--help" then some (false, s)
    else if arg = ascii "--version" ∨ arg = ascii "-v" then some (false, s)
    else do
      let tmp ← explodeString arg (ascii "=") true 0
      let s ← handleOption s tmp
      argumentsHandler s args

def pieceValue (names : List (List UInt8)) : List (List UInt8) → Option (List UInt8)
  | name :: value :: _ => if name ∈ names then some value else none
  | _ => none

def pieceDaemon : List (List UInt8) → Bool
  | name :: _ => name ∈ daemonNames
  | [] => false

def valueOf (names : List (List UInt8)) (arg : List UInt8) : Option (List UInt8) :=
  (explodeString arg (ascii "=") true 0).bind (pieceValue names)

def lastValue (names args : List (List UInt8)) : Option (List UInt8) :=
  (args.filterMap (valueOf names)).getLast?

def isDaemon (arg : List UInt8) : Bool :=
  (explodeString arg (ascii "=") true 0).any pieceDaemon

def DaemonGiven (args : List (List UInt8)) : Prop := args.any isDaemon = true

/-- What was set on the command line is what is in force. -/
structure CommandLineWins (args : List (List UInt8)) (c : ConfigManager) : Prop where
  runfile : ∀ value ∈ lastValue runfileNames args, value ≠ [] → c.m_confString .RUNFILE = value
  log : ∀ value ∈ lastValue logNames args, value ≠ [] → c.m_confString .OUTPUT_LOG = value
  daemon : DaemonGiven args → c.m_confBool .DAEMONIZE = true

/-- The document does not take a flag back: it has no object `legacy`, or one that asks for a
daemon itself. -/
def DaemonKept (root : Members) : Prop :=
  ∀ leg ∈ section_ root "legacy", leg.lookup (ascii "daemonize") = some (.bool true)

theorem names_disjoint :
    (∀ name ∈ runfileNames, name ∉ logNames ∧ name ∉ daemonNames) ∧
      (∀ name ∈ logNames, name ∉ daemonNames) ∧
      ascii "--path" ∉ runfileNames ∧ ascii "--path" ∉ logNames ∧
      ascii "--path" ∉ daemonNames := by
  decide

theorem pieceValue_of_notMem {names : List (List UInt8)} {name : List UInt8}
    (h : name ∉ names) (rest : List (List UInt8)) : pieceValue names (name :: rest) = none := by
  cases rest with
  | nil => rfl
  | cons value rest => exact if_neg h

structure Handled (s t : Startup) (tmp : List (List UInt8)) : Prop where
  runfile : t.g_config.m_confString .RUNFILE =
    (pieceValue runfileNames tmp).getD (s.g_config.m_confString .RUNFILE)
  log : t.g_config.m_confString .OUTPUT_LOG =
    (pieceValue logNames tmp).getD (s.g_config.m_confString .OUTPUT_LOG)
  daemon : t.g_config.m_confBool .DAEMONIZE =
    (pieceDaemon tmp || s.g_config.m_confBool .DAEMONIZE)

theorem handled_of_other {s : Startup} {name : List UInt8} (hrun : name ∉ runfileNames)
    (hlog : name ∉ logNames) (hdaemon : name ∉ daemonNames) (rest : List (List UInt8))
    (g_configDir : List UInt8) : Handled s { s with g_configDir } (name :: rest) := by
  constructor
  · rw [pieceValue_of_notMem hrun, Option.getD_none]
  · rw [pieceValue_of_notMem hlog, Option.getD_none]
  · simp [pieceDaemon, hdaemon]

theorem handled_of_runfile (s : Startup) {name : List UInt8} (hrun : name ∈ runfileNames)
    (value : List UInt8) (rest : List (List UInt8)) :
    Handled s { s with g_config := s.g_config.setString .RUNFILE value }
      (name :: value :: rest) := by
  obtain ⟨hlog, hdaemon⟩ := names_disjoint.1 name hrun
  constructor
  · rw [pieceValue, if_pos hrun]
    rfl
  · rw [pieceValue_of_notMem hlog]
    rfl
  · simp [pieceDaemon, hdaemon, ConfigManager.setString]

theorem handled_of_log (s : Startup) {name : List UInt8} (hrun : name ∉ runfileNames)
    (hlog : name ∈ logNames) (value : List UInt8) (rest : List (List UInt8)) :
    Handled s { s with g_config := s.g_config.setString .OUTPUT_LOG value }
      (name :: value :: rest) := by
  have hdaemon := names_disjoint.2.1 name hlog
  constructor
  · rw [pieceValue_of_notMem hrun]
    rfl
  · rw [pieceValue, if_pos hlog]
    rfl
  · simp [pieceDaemon, hdaemon, ConfigManager.setString]

theorem handled_of_daemon (s : Startup) {name : List UInt8} (hrun : name ∉ runfileNames)
    (hlog : name ∉ logNames) (hdaemon : name ∈ daemonNames) (rest : List (List UInt8)) :
    Handled s { s with g_config := s.g_config.setBool .DAEMONIZE true } (name :: rest) := by
  constructor
  · rw [pieceValue_of_notMem hrun]
    rfl
  · rw [pieceValue_of_notMem hlog]
    rfl
  · simp [pieceDaemon, hdaemon, ConfigManager.setBool]

theorem eq_cons_of_getElem? {name value : List UInt8} {rest : List (List UInt8)}
    (h : (name :: rest)[1]? = some value) : ∃ tail, rest = value :: tail := by
  cases rest with
  | nil => exact nomatch h
  | cons piece tail =>
    cases h
    exact ⟨tail, rfl⟩

theorem handleOption_handled {s t : Startup} {tmp : List (List UInt8)}
    (h : handleOption s tmp = some t) : Handled s t tmp := by
  obtain ⟨-, -, hpathRun, hpathLog, hpathDaemon⟩ := names_disjoint
  cases tmp with
  | nil => exact nomatch h
  | cons name rest =>
    rw [handleOption, List.getElem?_cons_zero, Option.bind_eq_bind, Option.bind_some] at h
    by_cases hpath : name = ascii "--path"
    · rw [if_pos hpath] at h
      obtain ⟨value, -, ⟨⟩⟩ := Option.bind_eq_some_iff.mp h
      rw [hpath]
      exact handled_of_other hpathRun hpathLog hpathDaemon rest value
    · rw [if_neg hpath] at h
      by_cases hrun : name ∈ runfileNames
      · rw [if_pos hrun] at h
        obtain ⟨value, hvalue, ⟨⟩⟩ := Option.bind_eq_some_iff.mp h
        obtain ⟨tail, rfl⟩ := eq_cons_of_getElem? hvalue
        exact handled_of_runfile s hrun value tail
      · rw [if_neg hrun] at h
        by_cases hlog : name ∈ logNames
        · rw [if_pos hlog] at h
          obtain ⟨value, hvalue, ⟨⟩⟩ := Option.bind_eq_some_iff.mp h
          obtain ⟨tail, rfl⟩ := eq_cons_of_getElem? hvalue
          exact handled_of_log s hrun hlog value tail
        · rw [if_neg hlog] at h
          by_cases hdaemon : name ∈ daemonNames
          · rw [if_pos hdaemon] at h
            cases h
            exact handled_of_daemon s hrun hlog hdaemon rest
          · rw [if_neg hdaemon] at h
            cases h
            exact handled_of_other hrun hlog hdaemon rest _

theorem argumentsHandler_cons {s u : Startup} {arg : List UInt8} {args : List (List UInt8)}
    (h : argumentsHandler s (arg :: args) = some (true, u)) :
    ∃ tmp t, explodeString arg (ascii "=") true 0 = some tmp ∧ Handled s t tmp ∧
      argumentsHandler t args = some (true, u) := by
  rw [argumentsHandler] at h
  by_cases hhelp : arg = ascii "--help"
  · rw [if_pos hhelp] at h
    exact absurd (Prod.mk.inj (Option.some.inj h)).1 (by decide)
  · rw [if_neg hhelp] at h
    by_cases hversion : arg = ascii "--version" ∨ arg = ascii "-v"
    · rw [if_pos hversion] at h
      exact absurd (Prod.mk.inj (Option.some.inj h)).1 (by decide)
    · rw [if_neg hversion] at h
      obtain ⟨tmp, htmp, hrest⟩ := Option.bind_eq_some_iff.mp h
      obtain ⟨t, ht, hrest⟩ := Option.bind_eq_some_iff.mp hrest
      exact ⟨tmp, t, htmp, handleOption_handled ht, hrest⟩

theorem lastValue_cons (names : List (List UInt8)) (arg : List UInt8)
    (args : List (List UInt8)) (value : List UInt8) :
    (lastValue names (arg :: args)).getD value =
      (lastValue names args).getD ((valueOf names arg).getD value) := by
  rw [lastValue, lastValue, List.filterMap_cons]
  cases valueOf names arg with
  | none => rfl
  | some given =>
    dsimp only
    rw [List.getLast?_cons, Option.getD_some, Option.getD_some]

theorem argumentsHandler_settings {s u : Startup} {args : List (List UInt8)}
    (h : argumentsHandler s args = some (true, u)) :
    u.g_config.m_confString .RUNFILE =
        (lastValue runfileNames args).getD (s.g_config.m_confString .RUNFILE) ∧
      u.g_config.m_confString .OUTPUT_LOG =
        (lastValue logNames args).getD (s.g_config.m_confString .OUTPUT_LOG) ∧
      u.g_config.m_confBool .DAEMONIZE =
        (args.any isDaemon || s.g_config.m_confBool .DAEMONIZE) := by
  induction args generalizing s with
  | nil =>
    cases h
    exact ⟨rfl, rfl, rfl⟩
  | cons arg args ih =>
    obtain ⟨tmp, t, htmp, hhandled, hrest⟩ := argumentsHandler_cons h
    obtain ⟨hrunfile, hlog, hdaemon⟩ := ih hrest
    have hvalue : ∀ names, valueOf names arg = pieceValue names tmp := by
      intro names
      rw [valueOf, htmp, Option.bind_some]
    have hgiven : isDaemon arg = pieceDaemon tmp := by
      rw [isDaemon, htmp, Option.any_some]
    refine ⟨?_, ?_, ?_⟩
    · rw [hrunfile, hhandled.runfile, lastValue_cons, hvalue]
    · rw [hlog, hhandled.log, lastValue_cons, hvalue]
    · rw [hdaemon, hhandled.daemon, List.any_cons, hgiven, Bool.or_left_comm, Bool.or_assoc]

/-- A run file and a log that are named already are what a load leaves. -/
theorem load_string {what : StringConfig} (hwhat : what = .RUNFILE ∨ what = .OUTPUT_LOG)
    {c : ConfigManager} (h : c.m_confString what ≠ []) (configDir : List UInt8) (root : Members)
    (answer : Answer) :
    (load c configDir (some (.object root)) answer).2.m_confString what = c.m_confString what := by
  have hsame := reloadMotd_same (loadSettings configDir root c) answer
  have hstring := hsame.string what (by rcases hwhat with rfl | rfl <;> decide)
  rw [load, hstring, loadSettings]
  cases section_ root "legacy" with
  | none => rcases hwhat with rfl | rfl <;> rfl
  | some leg =>
    rcases hwhat with rfl | rfl
    · exact if_neg h
    · exact if_neg h

theorem load_daemonize (c : ConfigManager) (configDir : List UInt8) (root : Members)
    (answer : Answer) :
    (load c configDir (some (.object root)) answer).2.m_confBool .DAEMONIZE =
      match section_ root "legacy" with
      | some leg => getBool_ leg "daemonize" false
      | none => c.m_confBool .DAEMONIZE := by
  have hsame := reloadMotd_same (loadSettings configDir root c) answer
  rw [load, hsame.bool, loadSettings]
  cases section_ root "legacy" <;> rfl

theorem getBool_eq_true_iff (leg : Members) (key : String) :
    getBool_ leg key false = true ↔ leg.lookup (ascii key) = some (.bool true) := by
  rw [getBool_]
  constructor
  · intro h
    split at h
    · rename_i b hb
      rw [hb, h]
    · exact absurd h Bool.false_ne_true
  · intro h
    rw [h]

/-- A flag that was given stays just when the document does not take it back. -/
theorem load_daemonize_iff {c : ConfigManager} (h : c.m_confBool .DAEMONIZE = true)
    (configDir : List UInt8) (root : Members) (answer : Answer) :
    (load c configDir (some (.object root)) answer).2.m_confBool .DAEMONIZE = true ↔
      DaemonKept root := by
  rw [load_daemonize, DaemonKept]
  cases section_ root "legacy" with
  | none => exact iff_of_true h fun _ hnone => nomatch hnone
  | some leg =>
    simp only [Option.mem_some_iff, forall_eq']
    exact getBool_eq_true_iff leg "daemonize"

/-- What the command line sets is in force after the load just when a daemon is not asked for or
the document does not take that back. -/
theorem command_line_wins_iff {s t : Startup} {args : List (List UInt8)}
    (h : argumentsHandler s args = some (true, t)) (root : Members) (answer : Answer) :
    CommandLineWins args (load t.g_config t.g_configDir (some (.object root)) answer).2 ↔
      (DaemonGiven args → DaemonKept root) := by
  obtain ⟨hrunfile, hlog, hdaemon⟩ := argumentsHandler_settings h
  have hgiven : DaemonGiven args → t.g_config.m_confBool .DAEMONIZE = true := by
    intro hgiven
    rw [hdaemon, hgiven, Bool.true_or]
  constructor
  · intro hwins hd
    exact (load_daemonize_iff (hgiven hd) _ root answer).mp (hwins.daemon hd)
  · intro hkept
    constructor
    · intro value hvalue hne
      have hset : t.g_config.m_confString .RUNFILE = value := by rw [hrunfile, hvalue]; rfl
      rw [load_string (Or.inl rfl) (hset ▸ hne), hset]
    · intro value hvalue hne
      have hset : t.g_config.m_confString .OUTPUT_LOG = value := by rw [hlog, hvalue]; rfl
      rw [load_string (Or.inr rfl) (hset ▸ hne), hset]
    · intro hd
      exact (load_daemonize_iff (hgiven hd) _ root answer).mpr (hkept hd)

def freshStartup : Startup := ⟨freshConfig, ascii "."⟩

theorem plain_document_wins :
    CommandLineWins [ascii "otlogin", ascii "--log=out.log", ascii "-d"]
      (load ((freshConfig.setString .OUTPUT_LOG (ascii "out.log")).setBool .DAEMONIZE true)
        (ascii ".") (some (.object [])) .exception).2 :=
  (command_line_wins_iff (s := freshStartup) (t := ⟨_, _⟩) rfl [] .exception).mpr
    fun _ _ hnone => nomatch hnone

theorem daemon_lost :
    ¬ ∀ (s t : Startup) (args : List (List UInt8)) (root : Members) (answer : Answer),
      argumentsHandler s args = some (true, t) →
      CommandLineWins args
        (load t.g_config t.g_configDir (some (.object root)) answer).2 := by
  intro hall
  have hwins := hall freshStartup ⟨freshConfig.setBool .DAEMONIZE true, ascii "."⟩
    [ascii "otlogin", ascii "--daemon"] [(ascii "legacy", .object [])] .exception rfl
  exact absurd (hwins.daemon rfl) (by decide)

end LoginServer.Configuration
