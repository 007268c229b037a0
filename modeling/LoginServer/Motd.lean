import LoginServer.CharacterList
import LoginServer.ConfigManager
import LoginServer.Library.Decimals
import LoginServer.Library.Runs

/-! # The message of the day

Runs of `load` and `reloadMotd`: whether what a login formats into its buffer of 1300 bytes fits,
and whether the text and its number change together. -/
namespace LoginServer.Configuration

open Bytes Accounts Worlds Message Runs Machine CharacterList

inductive Event where
  | load (configDir : List UInt8) (document : Option Json) (answer : Answer)
  | reloadMotd (answer : Answer)

def apply (c : ConfigManager) : Event → ConfigManager
  | .load configDir document answer => (load c configDir document answer).2
  | .reloadMotd answer => reloadMotd c answer

/-- The process from its start, with any calls in any order. -/
def configuration : Machine ConfigManager Event where
  start := Constructed
  step c e := some (apply c e)

def requested (c : ConfigManager) : Event → Option (ConfigManager × Answer)
  | .load configDir (some (.object root)) answer => some (loadSettings configDir root c, answer)
  | .load _ _ _ => none
  | .reloadMotd answer => some (c, answer)

/-- The number, a newline and the whole text. -/
def motdLine (c : ConfigManager) : List UInt8 :=
  Decimals.intText c.config.MOTD_ID ++ 0x0A :: c.getString .MOTD_TEXT

/-- What `sprintf` writes and the NUL behind it stay in the buffer, and `putString` puts the whole
line into the message that the login has begun. -/
structure MotdServed (c : ConfigManager) : Prop where
  fits : (motdLine c).length + 1 ≤ 1300
  written : written [.put 1 0x14, .putString (motd c.config) true] =
    leBytes 1 0x14 ++ (leBytes 2 (motdLine c).length ++ motdLine c)

/-- The message that an event obtains has room in the buffer with the number it will have, and
no NUL. -/
def RoomFor (c : ConfigManager) (e : Event) : Prop :=
  ∀ p ∈ requested c e, ∀ content ∈ obtained p.1 p.2, content ≠ [] →
    (Decimals.intText (Int32.ofInt (p.1.m_confNumber .MOTD_ID + 1)).toInt).length + 1 +
      content.length + 1 ≤ 1300 ∧ 0 ∉ content

theorem motd_config (c : ConfigManager) : motd c.config =
    Decimals.intText c.config.MOTD_ID ++ 0x0A :: cString (c.getString .MOTD_TEXT) := by
  rw [motd, List.append_assoc]
  rfl

theorem motd_eq_iff (c : ConfigManager) :
    motd c.config = motdLine c ↔ 0 ∉ c.getString .MOTD_TEXT := by
  rw [motd_config, motdLine, List.append_right_inj, List.cons_inj_right, cString_eq_self_iff]

theorem motd_length_le (c : ConfigManager) : (motd c.config).length ≤ (motdLine c).length := by
  have hle := length_cString_le (c.getString .MOTD_TEXT)
  rw [motd_config, motdLine]
  simp only [List.length_append, List.length_cons]
  omega

theorem written_motd {line : List UInt8} (h : line.length ≤ 1299) :
    written [.put 1 0x14, .putString line true] =
      leBytes 1 0x14 ++ (leBytes 2 line.length ++ line) := by
  have hshort : ∀ c ∈ [Call.put 1 0x14, .putString line true], c.Short := by
    intro c hc
    rcases List.mem_pair.mp hc with rfl | rfl
    · trivial
    · exact ⟨by omega, rfl⟩
  have hbody : [Call.put 1 0x14, .putString line true].flatMap Call.encode =
      leBytes 1 0x14 ++ (leBytes 2 line.length ++ line) := by
    rw [List.flatMap_cons, List.flatMap_cons, List.flatMap_nil, List.append_nil,
      Call.encode_short (by omega)]
    rfl
  rw [← hbody, written_eq_iff hshort, hbody]
  simp only [List.length_append, length_leBytes]
  have hlimit : bodyLimit = 16361 := rfl
  omega

/-- The line is served when it fits and `%s` does not stop inside it. -/
theorem motdServed_iff (c : ConfigManager) :
    MotdServed c ↔ (motdLine c).length + 1 ≤ 1300 ∧ 0 ∉ c.getString .MOTD_TEXT := by
  have hle := motd_length_le c
  constructor
  · rintro ⟨hfits, hwritten⟩
    rw [written_motd (by omega), List.append_right_inj] at hwritten
    have hlength := congrArg List.length hwritten
    simp only [List.length_append, length_leBytes] at hlength
    refine ⟨hfits, (motd_eq_iff c).mp ?_⟩
    exact (List.append_inj hwritten (by rw [length_leBytes, length_leBytes])).2
  · rintro ⟨hfits, hzero⟩
    have hline := (motd_eq_iff c).mpr hzero
    refine ⟨hfits, ?_⟩
    rw [hline]
    exact written_motd (by omega)

variable {c : ConfigManager}

theorem int32_length (n : ℤ) : (Decimals.intText (Int32.ofInt n).toInt).length ≤ 11 := by
  have hge := (Int32.ofInt n).le_toInt
  have hlt := (Int32.ofInt n).toInt_lt
  exact Decimals.length_intText_le (k := 10) (by decide) (by omega)

theorem motdServed_of_loaded (h : c.m_loaded = true) :
    MotdServed c ↔
      (Decimals.intText (Int32.ofInt (c.m_confNumber .MOTD_ID)).toInt).length + 1 +
        (c.m_confString .MOTD_TEXT).length + 1 ≤ 1300 ∧ 0 ∉ c.m_confString .MOTD_TEXT := by
  have hstring : c.getString .MOTD_TEXT = c.m_confString .MOTD_TEXT := if_pos (Or.inl h)
  have hnumber : c.getNumber .MOTD_ID = c.m_confNumber .MOTD_ID := if_pos h
  rw [motdServed_iff, motdLine, ConfigManager.config, hstring, hnumber]
  simp only [List.length_append, List.length_cons]
  have hsum : ∀ m n : ℕ, m + (n + 1) + 1 ≤ 1300 ↔ m + 1 + n + 1 ≤ 1300 := by omega
  rw [hsum]

theorem motdServed_of_short (h : c.m_loaded = true)
    (hshort : (c.m_confString .MOTD_TEXT).length ≤ 17) (hzero : 0 ∉ c.m_confString .MOTD_TEXT) :
    MotdServed c := by
  have hlength := int32_length (c.m_confNumber .MOTD_ID)
  exact (motdServed_of_loaded h).mpr ⟨by omega, hzero⟩

theorem motdServed_of_not_loaded (h : c.m_loaded = false)
    (hdummy : c.m_confString .DUMMY_STR = []) : MotdServed c := by
  have hstring : c.getString .MOTD_TEXT = [] := by simp [ConfigManager.getString, h, hdummy]
  have hnumber : c.getNumber .MOTD_ID = 0 := by simp [ConfigManager.getNumber, h]
  rw [motdServed_iff, motdLine, ConfigManager.config, hstring, hnumber]
  dsimp only
  decide

theorem keepMotd_served (h : c.m_loaded = true) (hserved : MotdServed c) :
    MotdServed (keepMotd c) := by
  by_cases htext : c.m_confString .MOTD_TEXT = []
  · apply motdServed_of_short ((keepMotd_same c).loaded.trans h)
    · rw [keepMotd_text, if_pos htext]
      decide
    · rw [keepMotd_text, if_pos htext]
      decide
  · rw [keepMotd, if_neg htext]
    exact hserved

/-- A request in loaded settings leaves a message that is served exactly when there is room for
what it obtains. -/
theorem reloadMotd_served_iff (h : c.m_loaded = true) (hserved : MotdServed c) (answer : Answer) :
    MotdServed (reloadMotd c answer) ↔ ∀ content ∈ obtained c answer, content ≠ [] →
      (Decimals.intText (Int32.ofInt (c.m_confNumber .MOTD_ID + 1)).toInt).length + 1 +
        content.length + 1 ≤ 1300 ∧ 0 ∉ content := by
  cases hobtained : obtained c answer with
  | none =>
    rw [reloadMotd_of_none hobtained]
    exact iff_of_true (keepMotd_served h hserved) fun _ hnone => nomatch hnone
  | some content =>
    rw [reloadMotd_of_some hobtained]
    by_cases hcontent : content = []
    · subst hcontent
      rw [installMotd_nil]
      refine iff_of_true hserved ?_
      rintro _ ⟨⟩ hne
      exact absurd rfl hne
    · obtain ⟨htext, hnumber⟩ := installMotd_of_ne (c := c) hcontent
      rw [motdServed_of_loaded ((installMotd_same c content).loaded.trans h), htext, hnumber]
      constructor
      · rintro hroom _ ⟨⟩ _
        exact hroom
      · intro hroom
        exact hroom content rfl hcontent

/-- Until a document has been loaded there are no credentials, and nothing that a login would
read. -/
structure Begun (c : ConfigManager) : Prop where
  dummy : c.m_confString .DUMMY_STR = []
  credentials : c.m_loaded = false → c.m_confString .DISCORD_BOT_TOKEN = []

theorem constructed_begun (h : Constructed c) : Begun c :=
  ⟨h.strings .DUMMY_STR, fun _ => h.strings .DISCORD_BOT_TOKEN⟩

theorem SameSettings.begun {d : ConfigManager} (h : SameSettings c d) (hc : Begun c) : Begun d where
  dummy := (h.string .DUMMY_STR (by decide)).trans hc.dummy
  credentials hd := (h.string .DISCORD_BOT_TOKEN (by decide)).trans
    (hc.credentials (h.loaded.symm.trans hd))

theorem loadSettings_begun (configDir : List UInt8) (root : Members) (hc : Begun c) :
    Begun (loadSettings configDir root c) := by
  constructor
  · rw [loadSettings]
    cases section_ root "legacy" with
    | none => exact hc.dummy
    | some leg => exact hc.dummy
  · intro h
    exact absurd h.symm Bool.false_ne_true

theorem apply_eq (c : ConfigManager) (e : Event) : apply c e =
    match requested c e with
    | some p => reloadMotd p.1 p.2
    | none => c := by
  cases e with
  | reloadMotd answer => rfl
  | load configDir document answer =>
    cases document with
    | none => rfl
    | some document => cases document <;> rfl

theorem loadSettings_served (configDir : List UInt8) (root : Members) (c : ConfigManager) :
    MotdServed (loadSettings configDir root c) := by
  obtain ⟨htext, -⟩ := loadSettings_motd configDir root c
  apply motdServed_of_short rfl
  · rw [htext]
    decide
  · rw [htext]
    exact List.not_mem_nil

theorem requested_holds {P : ConfigManager → Prop} (hc : P c)
    (hload : ∀ configDir root, P (loadSettings configDir root c)) (e : Event) :
    ∀ p ∈ requested c e, P p.1 := by
  cases e with
  | reloadMotd answer =>
    rintro _ ⟨⟩
    exact hc
  | load configDir document answer =>
    cases document with
    | none => exact fun _ h => nomatch h
    | some document =>
      cases document with
      | object root =>
        rintro _ ⟨⟩
        exact hload configDir root
      | _ => exact fun _ h => nomatch h

theorem requested_begun (hc : Begun c) (e : Event) : ∀ p ∈ requested c e, Begun p.1 := by
  apply requested_holds hc
  intro configDir root
  exact loadSettings_begun configDir root hc

theorem requested_served (hserved : MotdServed c) (e : Event) :
    ∀ p ∈ requested c e, MotdServed p.1 := by
  apply requested_holds hserved
  intro configDir root
  exact loadSettings_served configDir root c

theorem apply_begun (hc : Begun c) (e : Event) : Begun (apply c e) := by
  have hrequested := requested_begun hc e
  rw [apply_eq]
  cases hp : requested c e with
  | none => exact hc
  | some p => exact (reloadMotd_same p.1 p.2).begun (hrequested p hp)

theorem reloadMotd_not_loaded (hc : Begun c) (h : c.m_loaded = false) (answer : Answer) :
    obtained c answer = none ∧ MotdServed (reloadMotd c answer) := by
  have hsame := reloadMotd_same c answer
  constructor
  · exact if_pos (Or.inl (hc.credentials h))
  · exact motdServed_of_not_loaded (hsame.loaded.trans h) (hsame.begun hc).dummy

theorem apply_served_iff (hc : Begun c) (hserved : MotdServed c) (e : Event) :
    MotdServed (apply c e) ↔ RoomFor c e := by
  have hbegun := requested_begun hc e
  have hprevious := requested_served hserved e
  rw [apply_eq, RoomFor]
  cases hp : requested c e with
  | none => exact iff_of_true hserved fun _ hnone => nomatch hnone
  | some p =>
    simp only [Option.mem_some_iff, forall_eq']
    by_cases hloaded : p.1.m_loaded = true
    · exact reloadMotd_served_iff hloaded (hprevious p hp) p.2
    · obtain ⟨hnone, hkept⟩ :=
        reloadMotd_not_loaded (hbegun p hp) (Bool.not_eq_true _ ▸ hloaded) p.2
      rw [hnone]
      exact iff_of_true hkept fun _ h => nomatch h

theorem configuration_run (c : ConfigManager) (events : List Event) :
    ∃ d, configuration.run c events = some d :=
  exists_run_of_total (fun _ _ => ⟨_, rfl⟩) c events

/-- Whatever is loaded and obtained, a login finds a message that it can serve at every moment of
a run just when each message obtained has room. -/
theorem motd_served_iff (h : Constructed c) (events : List Event) :
    configuration.Along MotdServed c events ↔ configuration.AllSteps RoomFor c events := by
  obtain ⟨d, hd⟩ := configuration_run c events
  have hbegun := constructed_begun h
  have hserved := motdServed_of_not_loaded h.loaded hbegun.dummy
  apply along_iff_allSteps (I := Begun) _ _ hbegun hserved hd
  · rintro s e _ hs ⟨⟩
    exact apply_begun hs e
  · rintro s e _ hs hp ⟨⟩
    exact apply_served_iff hs hp e

def freshConfig : ConfigManager where
  m_loaded := false
  m_confString what := if what = .CONFIG_DIR then ascii "." else []
  m_confBool _ := false
  m_confNumber _ := Encryption.ENCRYPTION_SHA1
  m_coresUsed := []

theorem freshConfig_constructed : Constructed freshConfig := ⟨rfl, fun _ => rfl, rfl, rfl⟩

def channelDocument : Members :=
  [(ascii "discord", .object [(ascii "botToken", .string (ascii "token")),
    (ascii "motdChannel", .string (ascii "1"))])]

def messageAnswer (content : List UInt8) : Answer :=
  .response 200 (some (.array [.object [(ascii "content", .string content)]]))

def loadChannel (content : List UInt8) : Event :=
  .load (ascii ".") (some (.object channelDocument)) (messageAnswer content)

theorem short_motd_served : configuration.Along MotdServed freshConfig
    [loadChannel (ascii "Hello"), .reloadMotd (messageAnswer (ascii "Good bye"))] := by
  apply (motd_served_iff freshConfig_constructed _).mpr
  refine ⟨?_, ?_⟩
  · rintro _ ⟨⟩ _ ⟨⟩ _
    decide
  · rintro _ ⟨⟩
    refine ⟨?_, fun _ _ => trivial⟩
    rintro _ ⟨⟩ _ ⟨⟩ _
    decide

/-- A message that the API allows, one byte too long for its place behind the number 2. -/
def longMessage : List UInt8 := List.replicate 1298 0x61

theorem long_motd_overflows :
    ¬ ∀ (c : ConfigManager) (events : List Event), Constructed c →
      configuration.Along MotdServed c events := by
  intro hall
  have hrun := hall freshConfig [loadChannel longMessage] freshConfig_constructed
  have hroom := ((apply_served_iff (constructed_begun freshConfig_constructed) hrun.1 _).mp
    (hrun.2 _ rfl) _ rfl) longMessage rfl
  have hfits := (hroom (by decide)).1
  rw [longMessage, List.length_replicate] at hfits
  exact absurd hfits (by decide)

end LoginServer.Configuration
