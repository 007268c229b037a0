import LoginServer.Motd

/-! # The defaults of a document without `legacy`

`load` has a branch for a document with an object `legacy` and one for a document without it. With
an empty object every setting takes its default; the other branch leaves some of them alone. -/
namespace LoginServer.Configuration

open Bytes Worlds

def withLegacy (root : Members) : Members :=
  (ascii "legacy", .object []) :: root.filter fun p => p.1 ≠ ascii "legacy"

/-- The settings that the branch without `legacy` leaves alone are at their defaults, and a run
file is already named. -/
structure DefaultsInPlace (c : ConfigManager) : Prop where
  ownerName : c.m_confString .OWNER_NAME = []
  ownerEmail : c.m_confString .OWNER_EMAIL = ascii "@otland.net"
  url : c.m_confString .URL = ascii "http://otland.net/"
  location : c.m_confString .LOCATION = ascii "Europe"
  listenAddr : c.m_confString .LISTEN_ADDR = ascii "0.0.0.0:7171"
  runfile : c.m_confString .RUNFILE ≠ []
  rsaPrime1 : c.m_confString .RSA_PRIME1 = rsaPrime1
  rsaPrime2 : c.m_confString .RSA_PRIME2 = rsaPrime2
  rsaPublic : c.m_confString .RSA_PUBLIC = rsaPublic
  rsaModulus : c.m_confString .RSA_MODULUS = rsaModulus
  rsaPrivate : c.m_confString .RSA_PRIVATE = rsaPrivate
  freePremium : c.m_confBool .FREE_PREMIUM = false
  initPremiumUpdate : c.m_confBool .INIT_PREMIUM_UPDATE = true
  daemonize : c.m_confBool .DAEMONIZE = false
  forceClose : c.m_confBool .FORCE_CLOSE_SLOW_CONNECTION = false

theorem lookup_withLegacy (root : Members) {key : List UInt8} (h : key ≠ ascii "legacy") :
    (withLegacy root).lookup key = root.lookup key := by
  rw [withLegacy, List.lookup_cons, beq_false_of_ne h]
  dsimp only
  induction root with
  | nil => rfl
  | cons p root ih =>
    obtain ⟨k, v⟩ := p
    by_cases hk : k = ascii "legacy"
    · rw [List.filter_cons_of_neg (by simpa using hk), ih, List.lookup_cons,
        beq_false_of_ne (hk ▸ h)]
    · rw [List.filter_cons_of_pos (by simpa using hk), List.lookup_cons, List.lookup_cons, ih]

theorem section_withLegacy (root : Members) {name : String} (h : ascii name ≠ ascii "legacy") :
    section_ (withLegacy root) name = section_ root name := by
  rw [section_, lookup_withLegacy root h, section_]

theorem legacy_withLegacy (root : Members) : section_ (withLegacy root) "legacy" = some [] := by
  rw [section_, withLegacy, List.lookup_cons, beq_self_eq_true]

theorem loadSections_withLegacy (configDir : List UInt8) (root : Members) (c : ConfigManager) :
    loadSections configDir (withLegacy root) c = loadSections configDir root c := by
  have hdatabase := section_withLegacy root (show ascii "database" ≠ ascii "legacy" by decide)
  have hauth := section_withLegacy root (show ascii "auth" ≠ ascii "legacy" by decide)
  have hdiscord := section_withLegacy root (show ascii "discord" ≠ ascii "legacy" by decide)
  simp only [loadSections, sectionStr, hdatabase, hauth, hdiscord]

variable {c d : ConfigManager}

theorem output_log_default (s : List UInt8) : s = if s = [] then [] else s := by
  split
  · assumption
  · rfl

theorem runfile_default_iff (s : List UInt8) :
    s = (if s = [] then ascii "tfls.pid" else s) ↔ s ≠ [] := by
  constructor
  · rintro h rfl
    exact absurd h (by decide)
  · intro h
    rw [if_neg h]

theorem defaults_in_place (h : loadDefaults c = loadLegacy [] c) : DefaultsInPlace c := by
  have hstring := fun what => congrFun (congrArg ConfigManager.m_confString h) what
  have hbool := fun what => congrFun (congrArg ConfigManager.m_confBool h) what
  exact
    { ownerName := hstring .OWNER_NAME
      ownerEmail := hstring .OWNER_EMAIL
      url := hstring .URL
      location := hstring .LOCATION
      listenAddr := hstring .LISTEN_ADDR
      runfile := (runfile_default_iff _).mp (hstring .RUNFILE)
      rsaPrime1 := hstring .RSA_PRIME1
      rsaPrime2 := hstring .RSA_PRIME2
      rsaPublic := hstring .RSA_PUBLIC
      rsaModulus := hstring .RSA_MODULUS
      rsaPrivate := hstring .RSA_PRIVATE
      freePremium := hbool .FREE_PREMIUM
      initPremiumUpdate := hbool .INIT_PREMIUM_UPDATE
      daemonize := hbool .DAEMONIZE
      forceClose := hbool .FORCE_CLOSE_SLOW_CONNECTION }

theorem DefaultsInPlace.eq (h : DefaultsInPlace c) : loadDefaults c = loadLegacy [] c := by
  rw [loadDefaults, loadLegacy, ConfigManager.mk.injEq]
  refine ⟨rfl, ?_, ?_, ?_, rfl⟩
  · funext what
    cases what with
    | OWNER_NAME => exact h.ownerName
    | OWNER_EMAIL => exact h.ownerEmail
    | URL => exact h.url
    | LOCATION => exact h.location
    | LISTEN_ADDR => exact h.listenAddr
    | RUNFILE => exact (runfile_default_iff _).mpr h.runfile
    | OUTPUT_LOG => exact output_log_default _
    | RSA_PRIME1 => exact h.rsaPrime1
    | RSA_PRIME2 => exact h.rsaPrime2
    | RSA_PUBLIC => exact h.rsaPublic
    | RSA_MODULUS => exact h.rsaModulus
    | RSA_PRIVATE => exact h.rsaPrivate
    | _ => rfl
  · funext what
    cases what with
    | FREE_PREMIUM => exact h.freePremium
    | INIT_PREMIUM_UPDATE => exact h.initPremiumUpdate
    | DAEMONIZE => exact h.daemonize
    | FORCE_CLOSE_SLOW_CONNECTION => exact h.forceClose
    | _ => rfl
  · funext what
    cases what <;> rfl

theorem loadDefaults_eq_iff (c : ConfigManager) :
    loadDefaults c = loadLegacy [] c ↔ DefaultsInPlace c :=
  ⟨defaults_in_place, DefaultsInPlace.eq⟩

theorem loadSections_defaults_iff (configDir : List UInt8) (root : Members) (c : ConfigManager) :
    DefaultsInPlace (loadSections configDir root c) ↔ DefaultsInPlace c := by
  constructor
  · intro h
    exact { h with }
  · intro h
    exact { h with }

theorem SameSettings.symm (h : SameSettings c d) : SameSettings d c :=
  ⟨h.loaded.symm, fun what hw => (h.string what hw).symm, fun what hw => (h.number what hw).symm,
    h.bool.symm, h.cores.symm⟩

theorem SameSettings.trans {e : ConfigManager} (h : SameSettings c d) (k : SameSettings d e) :
    SameSettings c e :=
  ⟨k.loaded.trans h.loaded, fun what hw => (k.string what hw).trans (h.string what hw),
    fun what hw => (k.number what hw).trans (h.number what hw), k.bool.trans h.bool,
    k.cores.trans h.cores⟩

theorem SameSettings.eq (h : SameSettings c d)
    (htext : d.m_confString .MOTD_TEXT = c.m_confString .MOTD_TEXT)
    (hnumber : d.m_confNumber .MOTD_ID = c.m_confNumber .MOTD_ID) : d = c := by
  obtain ⟨m_loaded, m_confString, m_confBool, m_confNumber, m_coresUsed⟩ := d
  rw [ConfigManager.mk.injEq]
  refine ⟨h.loaded, ?_, h.bool, ?_, h.cores⟩
  · funext what
    by_cases hwhat : what = .MOTD_TEXT
    · rw [hwhat]
      exact htext
    · exact h.string what hwhat
  · funext what
    by_cases hwhat : what = .MOTD_ID
    · rw [hwhat]
      exact hnumber
    · exact h.number what hwhat

theorem eq_of_loaded (hloaded : d.m_loaded = c.m_loaded)
    (h : { d with m_loaded := true } = { c with m_loaded := true }) : d = c := by
  obtain ⟨m_loaded, m_confString, m_confBool, m_confNumber, m_coresUsed⟩ := c
  obtain ⟨m_loaded', m_confString', m_confBool', m_confNumber', m_coresUsed'⟩ := d
  rw [ConfigManager.mk.injEq] at h ⊢
  exact ⟨hloaded, h.2⟩

/-- A request does not hide a difference between settings that start with the same message. -/
theorem reloadMotd_injective (htext : d.m_confString .MOTD_TEXT = c.m_confString .MOTD_TEXT)
    (hnumber : d.m_confNumber .MOTD_ID = c.m_confNumber .MOTD_ID) {answer : Answer}
    (h : reloadMotd d answer = reloadMotd c answer) : d = c := by
  have hd := reloadMotd_same d answer
  rw [h] at hd
  exact ((reloadMotd_same c answer).trans hd.symm).eq htext hnumber

/-- The two ways to the defaults leave the same settings just when the branch without `legacy`
finds those that it does not set at their defaults. -/
theorem load_defaults_agree_iff {root : Members} (h : section_ root "legacy" = none)
    (c : ConfigManager) (configDir : List UInt8) (answer : Answer) :
    (load c configDir (some (.object root)) answer).2 =
        (load c configDir (some (.object (withLegacy root))) answer).2 ↔
      DefaultsInPlace c := by
  have hplain : loadSettings configDir root c =
      { loadDefaults (loadSections configDir root c) with m_loaded := true } := by
    rw [loadSettings, h]
  have hlegacy : loadSettings configDir (withLegacy root) c =
      { loadLegacy [] (loadSections configDir root c) with m_loaded := true } := by
    rw [loadSettings, legacy_withLegacy, loadSections_withLegacy]
  have hload : ∀ members, (load c configDir (some (.object members)) answer).2 =
      reloadMotd (loadSettings configDir members c) answer := fun _ => rfl
  rw [← loadSections_defaults_iff configDir root, ← loadDefaults_eq_iff, hload, hload]
  obtain ⟨htext, hnumber⟩ := loadSettings_motd configDir root c
  obtain ⟨htext', hnumber'⟩ := loadSettings_motd configDir (withLegacy root) c
  constructor
  · intro heq
    have hsettings := reloadMotd_injective (htext.trans htext'.symm) (hnumber.trans hnumber'.symm)
      heq
    rw [hplain, hlegacy] at hsettings
    exact eq_of_loaded rfl hsettings
  · intro heq
    rw [hplain, hlegacy, heq]

def settledConfig : ConfigManager := loadLegacy [] freshConfig

theorem settled_defaults_agree :
    (load settledConfig (ascii ".") (some (.object [])) .exception).2 =
      (load settledConfig (ascii ".") (some (.object (withLegacy []))) .exception).2 :=
  (load_defaults_agree_iff rfl _ _ _).mpr
    ⟨rfl, rfl, rfl, rfl, rfl, by decide, rfl, rfl, rfl, rfl, rfl, rfl, rfl, rfl, rfl⟩

/-- In a process that has just started, a document without `legacy` leaves the server without an
address to listen on. -/
theorem defaults_differ :
    ¬ ∀ (c : ConfigManager) (configDir : List UInt8) (root : Members) (answer : Answer),
      section_ root "legacy" = none →
      (load c configDir (some (.object root)) answer).2 =
        (load c configDir (some (.object (withLegacy root))) answer).2 := by
  intro hall
  have hagree := hall freshConfig (ascii ".") [] .exception rfl
  have haddress := congrFun (congrArg ConfigManager.m_confString hagree) .LISTEN_ADDR
  exact absurd haddress (by decide)

end LoginServer.Configuration
