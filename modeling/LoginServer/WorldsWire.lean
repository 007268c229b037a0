import LoginServer.Authorisation
import LoginServer.Library.States
import LoginServer.Worlds
import Mathlib.Algebra.Ring.Rat
import Mathlib.Data.Int.Cast.Basic

/-! # From the document of the worlds to the client

The address and the port of an entry of the character list, followed back to the document. On the
way a port goes through 64, 32 and 16 bits, numbers of another kind are passed over, and an
address that is no dotted quad, as the default is none, becomes the failure value. -/
namespace LoginServer.Worlds

open Bytes Accounts CharacterList Message Sql States Io

def Json.number : Json → Option ℚ
  | .int64 n => some n.toInt
  | .uint64 n => some n.toNat
  | .double x => some x
  | _ => none

def portNumbers (obj : Members) : List ℚ :=
  match obj.lookup (ascii "ports") with
  | some (.array l) => l.filterMap Json.number
  | some j => j.number.toList
  | none => []

/-- The port on the wire is one of the document, or the default where that has none. -/
def Written (obj : Members) (port : ℕ) : Prop :=
  (port : ℚ) ∈ portNumbers obj ∨ portNumbers obj = [] ∧ port = 7172

/-- What an entry of the character list is to say of its world. -/
structure Unchanged (obj : Members) (address port : ℕ) : Prop where
  written : Written obj port
  parsed : ∃ a ∈ dottedQuad (cString (addressOf obj)), address = a.toNat
  valid : address ≠ 0xFFFFFFFF

/-- The values of `rand24b`. -/
def RAND24B : ℕ := 16777216

/-- The address is a text that reads as a dotted quad other than 255.255.255.255. -/
def AddressGood (obj : Members) : Prop :=
  ∃ s a, obj.lookup (ascii "address") = some (.string s) ∧ dottedQuad (cString s) = some a ∧
    a ≠ 0xFFFFFFFF

/-- Each port that can be drawn is a number of the document modulo 65536; without a port that the
loader takes, the document gives no number or the default among them. -/
def PortsGood (obj : Members) : Prop :=
  if int64Ports obj = [] then portNumbers obj = [] ∨ 7172 ∈ portNumbers obj
  else ∀ n ∈ (int64Ports obj).take RAND24B, ((n.toInt % 65536 : ℤ) : ℚ) ∈ portNumbers obj

theorem random_range_of_lt {n i : ℕ} (hi : i < n) : (random_range 0 (n - 1) i).toNat = i := by
  rw [random_range]
  split
  · omega
  · rw [if_neg (by omega)]
    have hmod : (i : ℤ) % ((n : ℤ) - 1 - 0 + 1) = i := Int.emod_eq_of_lt (by omega) (by omega)
    omega

theorem random_range_lt {n rand24b : ℕ} (hn : n ≠ 0) (hr : rand24b < RAND24B) :
    (random_range 0 (n - 1) rand24b).toNat < min RAND24B n := by
  have hindex := random_range_index hn rand24b
  refine Nat.lt_min.mpr ⟨?_, hindex⟩
  rw [random_range]
  split
  · simp [RAND24B]
  · rw [if_neg (by omega)]
    have hn' : (n : ℤ) - 1 - 0 + 1 = n := by omega
    have hle := Nat.mod_le rand24b n
    rw [hn', ← Int.natCast_emod]
    omega

/-- The ports that a world can be listed with are its first ones, as many as there are draws. -/
theorem port_mem_iff (w : World) (port : ℤ) :
    (∃ rand24b < RAND24B, w.port rand24b = port) ↔ port ∈ w.ports.take RAND24B := by
  have hne : w.ports.length ≠ 0 := fun h => w.hasPort (List.length_eq_zero_iff.mp h)
  constructor
  · rintro ⟨rand24b, hr, rfl⟩
    have hlt := random_range_lt hne hr
    rw [List.mem_take_iff_getElem]
    exact ⟨_, hlt, rfl⟩
  · intro hmem
    obtain ⟨i, hi, rfl⟩ := List.mem_take_iff_getElem.mp hmem
    obtain ⟨hdraw, hlen⟩ := Nat.lt_min.mp hi
    refine ⟨i, hdraw, ?_⟩
    have hindex := random_range_of_lt hlen
    simp only [World.port, List.get_eq_getElem, hindex]

theorem port_low_bits (n : Int64) : ((n.toInt32.toInt % 65536).toNat : ℚ) =
    ((n.toInt % 65536 : ℤ) : ℚ) := by
  have hmod : n.toInt32.toInt % 65536 = n.toInt % 65536 := by
    rw [Int64.toInt_toInt32, Int.bmod_def]
    split <;> omega
  have hnat : ((n.toInt % 65536).toNat : ℤ) = n.toInt % 65536 := by omega
  rw [hmod, ← Int.cast_natCast, hnat]

theorem int64_written {obj : Members} {n : Int64} (h : n ∈ int64Ports obj) :
    portNumbers obj ≠ [] := by
  rw [int64Ports] at h
  split at h
  · rename_i l hl
    obtain ⟨p, hp, hn⟩ := List.mem_filterMap.mp h
    have hnumber : p.number = some (n.toInt : ℚ) := by
      split at hn
      · cases hn
        rfl
      · cases hn
    rw [portNumbers, hl]
    exact List.ne_nil_of_mem (List.mem_filterMap.mpr ⟨p, hp, hnumber⟩)
  · exact absurd h List.not_mem_nil

theorem ports_written_iff (obj : Members) (id : UInt32) :
    (∀ rand24b < RAND24B, Written obj (port16 (worldOf obj id) rand24b)) ↔ PortsGood obj := by
  have hdrawn : (∀ rand24b < RAND24B, Written obj (port16 (worldOf obj id) rand24b)) ↔
      ∀ port ∈ (portsOf obj).take RAND24B, Written obj (port % 65536).toNat := by
    constructor
    · intro h port hport
      obtain ⟨rand24b, hr, rfl⟩ := (port_mem_iff (worldOf obj id) port).mpr hport
      exact h rand24b hr
    · intro h rand24b hr
      exact h _ ((port_mem_iff (worldOf obj id) _).mp ⟨rand24b, hr, rfl⟩)
  rw [hdrawn, PortsGood]
  by_cases hnone : int64Ports obj = []
  · have hdefault : (portsOf obj).take RAND24B = [7172] := by
      rw [portsOf, if_pos hnone]
      rfl
    have hvalue : ((7172 : ℤ) % 65536).toNat = 7172 := rfl
    rw [hdefault, if_pos hnone, List.forall_mem_singleton, hvalue, Written]
    simp only [and_true, or_comm, Nat.cast_ofNat]
  · have hports : (portsOf obj).take RAND24B =
        ((int64Ports obj).take RAND24B).map fun n => n.toInt32.toInt := by
      rw [portsOf, if_neg hnone, List.map_take]
    rw [hports, if_neg hnone, List.forall_mem_map]
    refine forall₂_congr fun n hn => ?_
    have hwritten := int64_written (List.mem_of_mem_take hn)
    rw [Written, port_low_bits]
    simp only [hwritten, false_and, or_false]

theorem address_good_iff (obj : Members) (id : UInt32) :
    ((∃ a ∈ dottedQuad (cString (addressOf obj)), (worldOf obj id).address.toNat = a.toNat) ∧
      (worldOf obj id).address.toNat ≠ 0xFFFFFFFF) ↔ AddressGood obj := by
  have hdefault : dottedQuad (cString (ascii "localhost")) = none := by decide +kernel
  have hvalid : ∀ a : UInt32, a.toNat ≠ 0xFFFFFFFF ↔ a ≠ 0xFFFFFFFF := fun a =>
    not_congr (UInt32.toNat_inj (b := 0xFFFFFFFF))
  simp only [worldOf, inet_addr, AddressGood]
  constructor
  · rintro ⟨⟨a, ha, _⟩, hne⟩
    rw [Option.mem_def] at ha
    rw [ha, Option.getD_some, hvalid] at hne
    rw [addressOf] at ha
    split at ha
    · rename_i s hs
      exact ⟨s, a, hs, ha, hne⟩
    · rw [hdefault] at ha
      cases ha
  · rintro ⟨s, a, hs, ha, hne⟩
    have haddress : addressOf obj = s := by rw [addressOf, hs]
    rw [haddress, ha, Option.getD_some]
    exact ⟨⟨a, rfl, rfl⟩, (hvalid a).mpr hne⟩

/-! ## The worlds of a login's entries -/

def Known (worlds : WorldsMap) (server : World) : Prop := ∃ id : UInt32, worlds[id]? = some server

def AllValues {α : Type} (P : α → Prop) (m : Std.TreeMap (List UInt8) α) : Prop :=
  ∀ p ∈ m.toList, P p.2

theorem AllValues.insert {α : Type} {P : α → Prop} {m : Std.TreeMap (List UInt8) α}
    (h : AllValues P m) {k : List UInt8} {v : α} (hv : P v) : AllValues P (m.insert k v) := by
  intro p hp
  have hget := Std.TreeMap.mem_toList_iff_getElem?_eq_some.mp hp
  rw [Std.TreeMap.getElem?_insert] at hget
  split at hget
  · cases hget
    exact hv
  · exact h p (Std.TreeMap.mem_toList_iff_getElem?_eq_some.mpr hget)

theorem allValues_empty {α : Type} (P : α → Prop) : AllValues P ∅ := by
  simp [AllValues]

theorem known_of_mem {worlds : WorldsMap} {p : UInt32 × World} (h : p ∈ worlds.toList) :
    Known worlds p.2 := ⟨p.1, Std.TreeMap.mem_toList_iff_getElem?_eq_some.mp h⟩

abbrev KnownCharacters (worlds : WorldsMap) (charList : Characters) : Prop :=
  AllValues (fun c => Known worlds c.server) charList

abbrev KnownCasters (worlds : WorldsMap) (tmp : Casters) : Prop :=
  AllValues (fun c => Known worlds c.server) tmp

theorem knownCharacters_addCharacter {env : Env} {charList : Characters}
    (h : KnownCharacters env.worlds charList) (row : PlayerRow) :
    KnownCharacters env.worlds (addCharacter env charList row) := by
  rw [addCharacter]
  split
  · -- A game master has an entry in each world.
    apply List.foldlRecOn _ _ h
    intro charList hlist p hp
    exact hlist.insert (known_of_mem (List.fst_mem_of_mem_zipIdx hp))
  · split
    · exact h
    · rename_i id defaultWorld worlds hworlds
      refine h.insert ?_
      exact known_of_mem (p := (id, defaultWorld)) (by rw [hworlds]; exact List.mem_cons_self)

theorem knownCharacters_characters (env : Env) (rows : List PlayerRow) :
    KnownCharacters env.worlds (characters env rows) := by
  rw [characters]
  apply List.foldlRecOn (motive := KnownCharacters env.worlds) _ _ (allValues_empty _)
  exact fun charList h row _ => knownCharacters_addCharacter h row

theorem knownCasters_addCaster {env : Env} {tmp : Casters} (h : KnownCasters env.worlds tmp)
    (row : PlayerRow) : KnownCasters env.worlds (addCaster env tmp row) := by
  rw [addCaster]
  split
  · exact h
  · rename_i id defaultWorld worlds hworlds
    split
    · refine h.insert ?_
      exact known_of_mem (p := (id, defaultWorld)) (by rw [hworlds]; exact List.mem_cons_self)
    · exact h

def KnownAnswer (worlds : WorldsMap) : Verdict → Prop
  | .characterList account casters =>
    KnownCharacters worlds account.charList ∧ ∀ tmp ∈ casters, KnownCasters worlds tmp
  | _ => True

theorem findCasters_known (env : Env) (account : Account) :
    Answers (fun casters => ∀ tmp ∈ casters, KnownCasters env.worlds tmp)
      (findCasters env account) := by
  have hnone : ∀ tmp ∈ (none : Option Casters), KnownCasters env.worlds tmp := nofun
  refine Answers.ite ?_ (Answers.pure hnone)
  refine Answers.bind (Answers.any _) fun result _ => ?_
  cases result with
  | none => exact Answers.pure hnone
  | some result =>
    apply Answers.pure
    rintro tmp ⟨⟩
    apply List.foldlRecOn (motive := KnownCasters env.worlds) _ _ (allValues_empty _)
    exact fun tmp h row _ => knownCasters_addCaster h row

theorem listCharacters_known {env : Env} {account : Account}
    (h : KnownCharacters env.worlds account.charList) (clientIp : UInt32) :
    Answers (KnownAnswer env.worlds) (listCharacters env clientIp account) := by
  have hupdated : Answers (fun a : Account => a.charList = account.charList)
      (updatePremium env account) := by
    intro s
    rw [updatePremium_fst]
    exact (premiumUpdate_keeps env.time account).2
  refine Answers.bind hupdated fun updated hlist => Answers.ite (Answers.pure trivial) ?_
  refine Answers.bind (Answers.any _) fun _ _ => ?_
  refine Answers.bind (findCasters_known env updated) fun casters hcasters => Answers.pure ?_
  exact ⟨hlist ▸ h, hcasters⟩

theorem checkAccount_known {env : Env} {account : Account}
    (h : KnownCharacters env.worlds account.charList) (clientIp : UInt32) :
    Answers (KnownAnswer env.worlds) (checkAccount env clientIp account) := by
  refine Answers.bind (Answers.any _) fun ban _ => ?_
  cases ban with
  | none => exact listCharacters_known h clientIp
  | some ban => exact Answers.bind (Answers.any _) fun _ _ => Answers.pure trivial

theorem loadAccount_known (env : Env) (name : List UInt8) :
    Answers (fun r : Bool × Account => KnownCharacters env.worlds r.2.charList)
      (loadAccount env name) := by
  refine Answers.bind (Answers.any _) fun result _ => ?_
  cases result with
  | none => exact Answers.pure (allValues_empty _)
  | some result =>
    refine Answers.bind (Answers.any _) fun players _ => ?_
    cases players with
    | none => exact Answers.pure (allValues_empty _)
    | some players => exact Answers.pure (knownCharacters_characters env _)

theorem loggedTest_charList (env : Env) (password : List UInt8) (loaded : Bool)
    (account : Account) : (loggedTest env password loaded account).charList = account.charList := by
  rw [loggedTest]
  split <;> rfl

theorem delegate_known (env : Env) (name password : List UInt8) (clientIp : UInt32) :
    Answers (KnownAnswer env.worlds) (delegate env name password clientIp) := by
  refine Answers.bind (Answers.any _) fun _ _ => Answers.bind (Answers.any _) fun banished _ => ?_
  refine Answers.ite (Answers.pure trivial) ?_
  refine Answers.bind (loadAccount_known env name) fun r hr => ?_
  have hlogged : KnownCharacters env.worlds (loggedTest env password r.1 r.2).charList := by
    rw [loggedTest_charList]
    exact hr
  refine Answers.ite (Answers.bind (Answers.any _) fun _ _ => Answers.pure trivial) ?_
  apply checkAccount_known
  split
  · exact hlogged
  · exact hlogged

/-! ## The entries on the wire -/

def entries (g_config : Config) (account : Account) (casters : Option Casters) :
    List (ℕ → List Message.Call) :=
  if account.number = 10 then
    (casters.getD ∅).toList.map fun p rand24b => casterCalls rand24b p.1 p.2
  else account.charList.toList.map fun p rand24b => characterCalls g_config rand24b p.2

def entriesOf (g_config : Config) : Io.Verdict → List (ℕ → List Message.Call)
  | .characterList account casters => entries g_config account casters
  | _ => []

def addressAndPort : List Message.Call → Option (ℕ × ℕ)
  | [_, _, .put 4 address, .put 2 port] => some (address, port)
  | _ => none

/-- After the number of entries, the writes of `delegate` are those of its entries. -/
theorem entryCalls_entries (g_config : Config) (account : Account) (casters : Option Casters)
    (rand24b : ℕ → ℕ) :
    entryCalls g_config account casters rand24b =
      .put 1 ((entries g_config account casters).length % 256) ::
        (entries g_config account casters).zipIdx.flatMap fun p => p.1 (rand24b p.2) := by
  unfold entryCalls entries
  split
  · cases casters with
    | none => rfl
    | some tmp =>
      simp only [Option.getD_some, List.length_map, List.zipIdx_map, List.flatMap_map,
        Std.TreeMap.length_toList, Prod.map_fst, Prod.map_snd, id_eq]
  · simp only [List.length_map, List.zipIdx_map, List.flatMap_map, Std.TreeMap.length_toList,
      Prod.map_fst, Prod.map_snd, id_eq]

def Shows (calls : ℕ → List Message.Call) (w : World) : Prop :=
  ∀ rand24b, addressAndPort (calls rand24b) = some (w.address.toNat, port16 w rand24b)

theorem listed_shows {g_config : Config} {worlds : WorldsMap} {account : Account}
    {casters : Option Casters} (h : KnownAnswer worlds (.characterList account casters))
    {calls : ℕ → List Message.Call} (hcalls : calls ∈ entries g_config account casters) :
    ∃ w, Known worlds w ∧ Shows calls w := by
  obtain ⟨hcharacters, hcasters⟩ := h
  have htmp : KnownCasters worlds (casters.getD ∅) := by
    cases casters with
    | none => exact allValues_empty _
    | some tmp => exact hcasters tmp rfl
  rw [entries] at hcalls
  split at hcalls
  · obtain ⟨p, hp, rfl⟩ := List.mem_map.mp hcalls
    exact ⟨p.2.server, htmp p hp, fun _ => rfl⟩
  · obtain ⟨p, hp, rfl⟩ := List.mem_map.mp hcalls
    exact ⟨p.2.server, hcharacters p hp, fun _ => rfl⟩

theorem entry_shows {g_config : Config} {worlds : WorldsMap} {verdict : Io.Verdict}
    (h : KnownAnswer worlds verdict) {calls : ℕ → List Message.Call}
    (hcalls : calls ∈ entriesOf g_config verdict) : ∃ w, Known worlds w ∧ Shows calls w := by
  cases verdict with
  | characterList account casters => exact listed_shows h hcalls
  | _ => cases hcalls

def IndexInside (w : World) : Prop :=
  w.ports ≠ [] ∧ ∀ rand24b : ℕ, 0 ≤ random_range 0 (w.ports.length - 1) rand24b ∧
    random_range 0 (w.ports.length - 1) rand24b < w.ports.length

theorem indexInside (w : World) : IndexInside w :=
  ⟨w.hasPort, random_range_bounds fun h => w.hasPort (List.length_eq_zero_iff.mp h)⟩

/-- The entry comes from a world of the document, and whatever is drawn for it, its index is inside
and its address and port are as the document has them. -/
def ReachesClient (obj : Members) (id : UInt32) (calls : ℕ → List Message.Call) : Prop :=
  IndexInside (worldOf obj id) ∧ ∀ rand24b < RAND24B,
    ∃ p ∈ addressAndPort (calls rand24b), Unchanged obj p.1 p.2

theorem reachesClient_iff {obj : Members} {id : UInt32} {calls : ℕ → List Message.Call}
    (h : Shows calls (worldOf obj id)) :
    ReachesClient obj id calls ↔ AddressGood obj ∧ PortsGood obj := by
  have hentry : ∀ rand24b, (∃ p ∈ addressAndPort (calls rand24b), Unchanged obj p.1 p.2) ↔
      Unchanged obj (worldOf obj id).address.toNat (port16 (worldOf obj id) rand24b) := by
    intro rand24b
    rw [h rand24b]
    simp
  simp only [ReachesClient, hentry, indexInside, true_and]
  rw [← address_good_iff obj id, ← ports_written_iff obj id]
  constructor
  · intro hall
    have haddress := hall 0 (by decide)
    exact ⟨⟨haddress.parsed, haddress.valid⟩, fun rand24b hr => (hall rand24b hr).written⟩
  · rintro ⟨⟨hparsed, hvalid⟩, hwritten⟩ rand24b hr
    exact ⟨hwritten rand24b hr, hparsed, hvalid⟩

/-- Each entry comes from the first entry of the document with an id, and reaches the client as it
is there if and only if the address and the ports of that are good. -/
theorem worlds_reach_client_iff {docs : List Json} {env : Env} {name password : List UInt8}
    {clientIp : UInt32} {s : Server}
    (hload : loadFromJson ∅ (some (.array docs)) = (true, env.worlds)) :
    ∀ calls ∈ entriesOf env.g_config (delegate env name password clientIp s).1,
      ∃ id obj, sourceOf docs id = some obj ∧ Shows calls (worldOf obj id) ∧
        (ReachesClient obj id calls ↔ AddressGood obj ∧ PortsGood obj) := by
  intro calls hcalls
  obtain ⟨w, ⟨id, hid⟩, hshows⟩ := entry_shows (delegate_known env name password clientIp s) hcalls
  rw [loaded_source hload, Option.map_eq_some_iff] at hid
  obtain ⟨obj, hobj, rfl⟩ := hid
  exact ⟨id, obj, hobj, hshows, reachesClient_iff hshows⟩

def hosted : Members :=
  [(ascii "id", .int64 0), (ascii "address", .string (ascii "127.0.0.1")),
    (ascii "ports", .array [.int64 7171])]

def unhosted : Members := [(ascii "id", .int64 0), (ascii "ports", .array [.int64 7171])]

def envOf (obj : Members) : Env :=
  { plainEnv with worlds := (loadFromJson ∅ (some (.array [.object obj]))).2 }

def quietServer : Server :=
  { bannedServer with
    schedule := fun _ => ⟨up, up, up⟩
    tables := ⟨[storedAccount], [storedPlayer], []⟩ }

def listOf (obj : Members) : List (ℕ → List Message.Call) :=
  entriesOf plainEnv.g_config
    (delegate (envOf obj) (ascii "name") (ascii "secret") 0x0100007F quietServer).1

theorem sourceOf_single {obj obj' : Members} {id : UInt32}
    (h : sourceOf [.object obj] id = some obj') : obj' = obj := by
  obtain ⟨entry, hentry, hid⟩ := List.exists_of_findSome?_eq_some h
  cases List.mem_singleton.mp hentry
  rw [entryOfId] at hid
  split at hid
  · exact (Option.some.inj hid).symm
  · cases hid

theorem hosted_address : AddressGood hosted :=
  ⟨ascii "127.0.0.1", 0x0100007F, rfl, by decide +kernel, by decide⟩

theorem hosted_ports : PortsGood hosted := by
  have hports : int64Ports hosted = [7171] := by decide +kernel
  have hnumbers : portNumbers hosted = [7171] := by decide +kernel
  have htake : [(7171 : Int64)].take RAND24B = [7171] := List.take_of_length_le (by decide)
  rw [PortsGood, hports, hnumbers, if_neg (List.cons_ne_nil _ _), htake,
    List.forall_mem_singleton]
  decide +kernel

theorem hosted_reaches_client : listOf hosted ≠ [] ∧ ∀ calls ∈ listOf hosted,
    ∃ id, Shows calls (worldOf hosted id) ∧ ReachesClient hosted id calls := by
  refine ⟨List.ne_nil_of_length_pos (by decide +kernel), fun calls hcalls => ?_⟩
  obtain ⟨id, obj, hobj, hshows, hiff⟩ :=
    @worlds_reach_client_iff [.object hosted] (envOf hosted) (ascii "name") (ascii "secret")
      0x0100007F quietServer rfl calls hcalls
  cases sourceOf_single hobj
  exact ⟨id, hshows, hiff.mpr ⟨hosted_address, hosted_ports⟩⟩

/-- Without an address the client is sent the failure value. -/
theorem unhosted_not_reached :
    ¬ ∀ (docs : List Json) (env : Env) (name password : List UInt8) (clientIp : UInt32)
        (s : Server), loadFromJson ∅ (some (.array docs)) = (true, env.worlds) →
      ∀ calls ∈ entriesOf env.g_config (delegate env name password clientIp s).1,
        ∃ id obj, sourceOf docs id = some obj ∧ ReachesClient obj id calls := by
  intro hall
  have hshown : (listOf unhosted).map (fun calls => addressAndPort (calls 0)) =
      [some (0xFFFFFFFF, 7171)] := by decide +kernel
  obtain ⟨calls, hcalls, hvalue⟩ := List.mem_map.mp (hshown ▸ List.mem_singleton_self _)
  obtain ⟨id, obj, hobj, _, hreaches⟩ := hall [.object unhosted] (envOf unhosted) (ascii "name")
    (ascii "secret") 0x0100007F quietServer rfl calls hcalls
  obtain ⟨p, hp, hunchanged⟩ := hreaches 0 (by decide)
  rw [hvalue] at hp
  cases hp
  exact hunchanged.valid rfl

end LoginServer.Worlds
