import LoginServer.Account
import LoginServer.Library.Format
import LoginServer.Written
import Mathlib.Algebra.GroupWithZero.Nat

/-! # The character list packet

The writes of `ProtocolLogin::delegate` and the format that the client parses. The number of
entries goes into one byte, and every write is dropped for itself when space runs out. -/
namespace LoginServer.CharacterList

open Bytes Message Formats Accounts

/-- The text that `sprintf` puts into the buffer `motd`. -/
def motd (g_config : Config) : List UInt8 :=
  ascii (toString g_config.MOTD_ID) ++ [0x0A] ++ cString g_config.MOTD_TEXT

def worldOrStatus (g_config : Config) (c : Character) : List UInt8 :=
  if g_config.ON_OR_OFF_CHARLIST = false ∨ c.status < 0 then c.server.name
  else if c.status ≠ 0 then ascii "Online" else ascii "Offline"

/-- `put<uint16_t>` of an `int32_t`. -/
def port16 (w : World) (rand24b : ℕ) : ℕ := (w.port rand24b % 65536).toNat

def characterCalls (g_config : Config) (rand24b : ℕ) (c : Character) : List Call :=
  [.putString c.name true, .putString (worldOrStatus g_config c) true,
    .put 4 c.server.address.toNat, .put 2 (port16 c.server rand24b)]

/-- A player who broadcasts, for the guests of account 10. -/
structure Caster where
  locked : Bool
  server : World
  level : ℤ

abbrev Casters := Std.TreeMap (List UInt8) Caster

def casterCalls (rand24b : ℕ) (name : List UInt8) (c : Caster) : List Call :=
  [.putString name true,
    .putString (ascii (toString c.level) ++ if c.locked then ascii "*" else []) true,
    .put 4 c.server.address.toNat, .put 2 (port16 c.server rand24b)]

def premium (g_config : Config) (account : Account) : ℕ :=
  if g_config.FREE_PREMIUM then GRATIS_PREMIUM else account.premiumDays.toNat

/-- The entries: the casters for account 10, if their query answers, and else the characters.
`rand24b` is the draw for each entry; one with a single port leaves it alone. -/
def entryCalls (g_config : Config) (account : Account) (casters : Option Casters)
    (rand24b : ℕ → ℕ) : List Call :=
  if account.number = 10 then
    match casters with
    | some tmp => .put 1 (tmp.size % 256) ::
        tmp.toList.zipIdx.flatMap fun p => casterCalls (rand24b p.2) p.1.1 p.1.2
    | none => [.put 1 0]
  else .put 1 (account.charList.size % 256) ::
    account.charList.toList.zipIdx.flatMap fun p => characterCalls g_config (rand24b p.2) p.1.2

/-- The writes of `delegate` on its message. -/
def responseCalls (g_config : Config) (account : Account) (casters : Option Casters)
    (rand24b : ℕ → ℕ) : List Call :=
  .put 1 0x14 :: .putString (motd g_config) true :: .put 1 0x64 ::
    (entryCalls g_config account casters rand24b ++ [.put 2 (premium g_config account)])

/-- An entry as the client reads it: name, world or status, address and port. -/
abbrev Entry := List UInt8 × List UInt8 × ℕ × ℕ

abbrev Response := List UInt8 × List Entry × ℕ

def entryFormat : Format Entry :=
  seq (lengthPrefixed 2) (seq (lengthPrefixed 2) (seq (uint 4) (uint 2)))

def responseFormat : Format Response :=
  tagged 0x14 (seq (lengthPrefixed 2) (tagged 0x64 (seq (counted 1 entryFormat) (uint 2))))

def entryOf (g_config : Config) (rand24b : ℕ) (c : Character) : Entry :=
  (c.name, worldOrStatus g_config c, c.server.address.toNat, port16 c.server rand24b)

/-- The message of the day, the character list in the map's order, and the premium days. -/
def responseOf (g_config : Config) (account : Account) (rand24b : ℕ → ℕ) : Response :=
  (motd g_config,
    account.charList.toList.zipIdx.map fun p => entryOf g_config (rand24b p.2) p.1.2,
    premium g_config account)

def Complete (g_config : Config) (account : Account) (casters : Option Casters)
    (rand24b : ℕ → ℕ) (stale : Memory) : Prop :=
  ∃ m, runAll (responseCalls g_config account casters rand24b)
      ⟨0, NETWORK_CRYPTOHEADER_SIZE, stale⟩ = some ((), m) ∧
    responseFormat.decode (m.m_buffer.read NETWORK_CRYPTOHEADER_SIZE m.m_size) =
      some (responseOf g_config account rand24b, [])

/-- What the whole response takes: 7 bytes, the message of the day, and 10 bytes and two strings
for each character. -/
def responseSize (g_config : Config) (account : Account) : ℕ :=
  7 + (motd g_config).length + (account.charList.toList.map fun p =>
    10 + p.2.name.length + (worldOrStatus g_config p.2).length).sum

/-- The strings are short enough for `putString`, and the message of the day for its buffer. -/
structure Accepted (g_config : Config) (account : Account) : Prop where
  motd : (motd g_config).length < 1300
  name : ∀ p ∈ account.charList.toList, p.2.name.length ≤ 8192
  world : ∀ p ∈ account.charList.toList, p.2.server.name.length ≤ 8192

variable {g_config : Config} {account : Account}

theorem worldOrStatus_le (h : Accepted g_config account) :
    ∀ p ∈ account.charList.toList, (worldOrStatus g_config p.2).length ≤ 8192 := by
  intro p hp
  rw [worldOrStatus]
  split
  · exact h.world p hp
  · split <;> decide

theorem characterCalls_encode (rand24b : ℕ) {c : Character} (hn : c.name.length ≤ 8192)
    (hw : (worldOrStatus g_config c).length ≤ 8192) :
    (characterCalls g_config rand24b c).flatMap Call.encode =
      entryFormat.encode (entryOf g_config rand24b c) := by
  simp only [characterCalls, List.flatMap_cons, List.flatMap_nil, Call.encode_short hn,
    Call.encode_short hw]
  simp only [Call.encode, List.append_nil, entryFormat, entryOf, seq, lengthPrefixed_encode, uint]

theorem characterCalls_short (rand24b : ℕ) {c : Character} (hn : c.name.length ≤ 8192)
    (hw : (worldOrStatus g_config c).length ≤ 8192) :
    ∀ call ∈ characterCalls g_config rand24b c, call.Short := by
  simp [characterCalls, Call.Short, hn, hw]

theorem entryOf_length (rand24b : ℕ) (c : Character) :
    (entryFormat.encode (entryOf g_config rand24b c)).length =
      10 + c.name.length + (worldOrStatus g_config c).length := by
  simp only [entryFormat, entryOf, seq, lengthPrefixed_encode, uint, List.length_append,
    length_leBytes]
  omega

theorem characters_encode (h : Accepted g_config account) (rand24b : ℕ → ℕ) :
    (account.charList.toList.zipIdx.flatMap fun p =>
        characterCalls g_config (rand24b p.2) p.1.2).flatMap Call.encode =
      (account.charList.toList.zipIdx.map fun p => entryOf g_config (rand24b p.2) p.1.2).flatMap
        entryFormat.encode := by
  rw [List.flatMap_assoc, List.flatMap_map]
  apply List.flatMap_congr
  intro p hp
  have hmem := List.fst_mem_of_mem_zipIdx hp
  exact characterCalls_encode _ (h.name _ hmem) (worldOrStatus_le h _ hmem)

/-- The writes encode the response, whatever the number of characters: the count on the wire is
the low byte of the number. -/
theorem responseCalls_encode (h : Accepted g_config account) (hn : account.number ≠ 10)
    (casters : Option Casters) (rand24b : ℕ → ℕ) :
    (responseCalls g_config account casters rand24b).flatMap Call.encode =
      responseFormat.encode (responseOf g_config account rand24b) := by
  have hmotd : (motd g_config).length ≤ 8192 := by
    have := h.motd
    omega
  have hcount : leBytes 1 (account.charList.size % 256) = leBytes 1 account.charList.size :=
    leBytes_mod 1 account.charList.size
  simp only [responseCalls, entryCalls, if_neg hn, List.flatMap_cons, List.flatMap_append,
    List.flatMap_nil, Call.encode_short hmotd, List.cons_append, characters_encode h]
  simp only [Call.encode, hcount, responseFormat, responseOf, tagged, seq, counted,
    lengthPrefixed_encode, uint, List.length_map, List.length_zipIdx,
    Std.TreeMap.length_toList, List.append_assoc,
    List.append_nil]
  rfl

theorem responseCalls_short (h : Accepted g_config account) (hn : account.number ≠ 10)
    (casters : Option Casters) (rand24b : ℕ → ℕ) :
    ∀ call ∈ responseCalls g_config account casters rand24b, call.Short := by
  have hmotd : (motd g_config).length ≤ 8192 := by
    have := h.motd
    omega
  have hentries : ∀ call ∈ (account.charList.toList.zipIdx.flatMap fun p =>
      characterCalls g_config (rand24b p.2) p.1.2), call.Short := by
    intro call hcall
    obtain ⟨p, hp, hcall⟩ := List.mem_flatMap.mp hcall
    have hmem := List.fst_mem_of_mem_zipIdx hp
    exact characterCalls_short _ (h.name _ hmem) (worldOrStatus_le h _ hmem) call hcall
  intro call hcall
  simp only [responseCalls, entryCalls, if_neg hn, List.mem_cons, List.mem_append,
    List.not_mem_nil, or_false] at hcall
  rcases hcall with rfl | rfl | rfl | (rfl | hcall) | rfl
  · trivial
  · exact ⟨hmotd, rfl⟩
  · trivial
  · trivial
  · exact hentries call hcall
  · trivial

theorem responseOf_length (g_config : Config) (account : Account) (rand24b : ℕ → ℕ) :
    (responseFormat.encode (responseOf g_config account rand24b)).length =
      responseSize g_config account := by
  have hentries : ((account.charList.toList.zipIdx.map fun p =>
      entryOf g_config (rand24b p.2) p.1.2).flatMap entryFormat.encode).length =
      (account.charList.toList.map fun p =>
        10 + p.2.name.length + (worldOrStatus g_config p.2).length).sum := by
    rw [List.length_flatMap, List.map_map]
    have hfst : (account.charList.toList.zipIdx.map fun p =>
        10 + p.1.2.name.length + (worldOrStatus g_config p.1.2).length) =
        account.charList.toList.map fun p =>
          10 + p.2.name.length + (worldOrStatus g_config p.2).length := by
      rw [← List.zipIdx_map_fst 0 account.charList.toList, List.map_map]
      simp
    rw [← hfst]
    exact congrArg List.sum (List.map_congr_left fun p _ => entryOf_length _ _)
  simp only [responseFormat, responseOf, tagged, seq, counted, lengthPrefixed_encode, uint,
    List.length_cons, List.length_append, length_leBytes, hentries, responseSize]
  omega

theorem port16_lt (w : World) (rand24b : ℕ) : port16 w rand24b < 65536 := by
  have hlt := Int.emod_lt_of_pos (w.port rand24b) (show (0 : ℤ) < 65536 by decide)
  have hge := Int.emod_nonneg (w.port rand24b) (show (65536 : ℤ) ≠ 0 by decide)
  rw [port16]
  omega

theorem entryOf_valid (rand24b : ℕ) {c : Character} (hn : c.name.length ≤ 8192)
    (hw : (worldOrStatus g_config c).length ≤ 8192) :
    entryFormat.Valid (entryOf g_config rand24b c) := by
  have haddress := c.server.address.toNat_lt
  have hport := port16_lt c.server rand24b
  refine ⟨?_, ?_, haddress, hport⟩
  · exact (lengthPrefixed_valid 2 _).mpr (by simp only [entryOf]; omega)
  · exact (lengthPrefixed_valid 2 _).mpr (by simp only [entryOf]; omega)

theorem responseOf_valid (h : Accepted g_config account) (rand24b : ℕ → ℕ) :
    responseFormat.Valid (responseOf g_config account rand24b) ↔
      account.charList.size ≤ 255 := by
  have hlen : (account.charList.toList.zipIdx.map fun p =>
      entryOf g_config (rand24b p.2) p.1.2).length = account.charList.size := by
    rw [List.length_map, List.length_zipIdx, Std.TreeMap.length_toList]
  constructor
  · rintro ⟨_, ⟨hcount, _⟩, _⟩
    simp only [responseOf, hlen] at hcount
    omega
  · intro hsize
    refine ⟨?_, ⟨?_, ?_⟩, ?_⟩
    · have hmotd := h.motd
      exact (lengthPrefixed_valid 2 _).mpr (by simp only [responseOf]; omega)
    · simp only [responseOf, hlen]
      omega
    · intro e he
      obtain ⟨p, hp, rfl⟩ := List.mem_map.mp he
      have hmem := List.fst_mem_of_mem_zipIdx hp
      exact entryOf_valid _ (h.name _ hmem) (worldOrStatus_le h _ hmem)
    · have hdays := account.premiumDays.toNat_lt
      change premium g_config account < 65536
      unfold premium GRATIS_PREMIUM
      split <;> omega

/-- The body parses as the whole response just when its bytes are the encoding of a response that
the format takes. -/
theorem complete_iff_written (casters : Option Casters) (rand24b : ℕ → ℕ) (stale : Memory) :
    Complete g_config account casters rand24b stale ↔
      responseFormat.Valid (responseOf g_config account rand24b) ∧
        written (responseCalls g_config account casters rand24b) =
          responseFormat.encode (responseOf g_config account rand24b) := by
  obtain ⟨u, hu, hholds⟩ := runAll_written stale (responseCalls g_config account casters rand24b)
  rw [← Format.decode_iff]
  constructor
  · rintro ⟨m, hm, hdecode⟩
    cases hu.symm.trans hm
    rwa [hholds.size, hholds.bytes] at hdecode
  · intro hdecode
    exact ⟨u, hu, by rwa [hholds.size, hholds.bytes]⟩

/-- The answer to a login is one complete character list just when the number of characters fits
into a byte and all of it fits into a message. -/
theorem response_complete_iff (hn : account.number ≠ 10) (h : Accepted g_config account)
    (casters : Option Casters) (rand24b : ℕ → ℕ) (stale : Memory) :
    Complete g_config account casters rand24b stale ↔
      account.charList.size ≤ 255 ∧ responseSize g_config account ≤ 16361 := by
  rw [complete_iff_written, responseOf_valid h, ← responseCalls_encode h hn casters,
    written_eq_iff (responseCalls_short h hn casters rand24b), responseCalls_encode h hn casters,
    responseOf_length]
  rfl

def localWorld : World where
  name := ascii "Wypas"
  address := 0x0100007F
  ports := [7172]
  hasPort := by decide

def defaultConfig : Config where
  MOTD_ID := 1
  MOTD_TEXT := ascii "Welcome to Wypas!"
  ON_OR_OFF_CHARLIST := true
  FREE_PREMIUM := false
  LOGIN_TRIES := 3
  RETRY_TIMEOUT := 30000
  LOGIN_TIMEOUT := 5000
  ENCRYPTION := 2
  GAMEMASTER_GROUP := 4
  SERVER_NAME := ascii "Forgotten"
  URL := ascii "http://otland.net/"

def accountOf (names : List (List UInt8)) : Account where
  premiumDays := 0
  warnings := 0
  number := 1
  lastDay := 0
  name := ascii "name"
  password := []
  recoveryKey := []
  salt := []
  charList := Std.TreeMap.ofList
    (names.map fun name => (name, (⟨name, localWorld, 0⟩ : Character)))

theorem one_character_complete :
    Complete defaultConfig (accountOf [ascii "Knight"]) none (fun _ => 0) (fun _ => 0) ↔
      (accountOf [ascii "Knight"]).charList.size ≤ 255 ∧
        responseSize defaultConfig (accountOf [ascii "Knight"]) ≤ 16361 :=
  response_complete_iff (by decide)
    ⟨by decide +kernel, by decide +kernel, by decide +kernel⟩ none _ _

def crowd : Account := accountOf ((List.range 256).map fun i => [UInt8.ofNat i])

theorem crowd_characters :
    (∀ p ∈ crowd.charList.toList, p.2.name.length ≤ 8192 ∧ p.2.server.name.length ≤ 8192) ∧
      ¬ crowd.charList.size ≤ 255 := by
  decide +kernel

theorem many_characters_truncated :
    ¬ ∀ (g_config : Config) (account : Account) (casters : Option Casters) (rand24b : ℕ → ℕ)
      (stale : Memory), account.number ≠ 10 → Accepted g_config account →
      Complete g_config account casters rand24b stale := by
  intro hall
  obtain ⟨hnames, hsize⟩ := crowd_characters
  have haccepted : Accepted defaultConfig crowd :=
    ⟨by decide +kernel, fun p hp => (hnames p hp).1, fun p hp => (hnames p hp).2⟩
  have hcomplete := hall defaultConfig crowd none (fun _ => 0) (fun _ => 0) (by decide) haccepted
  have hvalid := ((complete_iff_written _ _ _).mp hcomplete).1
  exact hsize ((responseOf_valid haccepted _).mp hvalid)

end LoginServer.CharacterList
