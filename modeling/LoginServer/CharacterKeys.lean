import LoginServer.Authorisation
import LoginServer.Library.Decimals
import LoginServer.Library.Inserts

/-! # The keys of the character list

A player stands in the list under the name, and a game master under the name with the number of
each world behind it. All of them share one map, so that a name that ends in a number can take the
place of another entry. -/
namespace LoginServer.Io

open Bytes Accounts Sql Inserts Decimals CharacterList

def playerName (row : PlayerRow) : List UInt8 := row.name.getDataString

def Gamemaster (env : Env) (row : PlayerRow) : Prop :=
  row.group_id.getDataInt.toInt ≥ env.g_config.GAMEMASTER_GROUP

instance (env : Env) (row : PlayerRow) : Decidable (Gamemaster env row) :=
  inferInstanceAs (Decidable (_ ≥ _))

/-- The keys and the entries that `addCharacter` inserts for a row. -/
def characterInserts (env : Env) (row : PlayerRow) : List (List UInt8 × Character) :=
  if Gamemaster env row then
    env.worlds.toList.zipIdx.map fun p =>
      (playerName row ++ text (p.2 % 65536), ⟨playerName row, p.1.2, -1⟩)
  else
    (env.worlds.toList.take 1).map fun p =>
      (playerName row, ⟨playerName row, p.2, row.online.getDataInt.toInt8.toInt⟩)

/-- The entries that a row is to have: one in each world, or one in the first. -/
def entriesOf (env : Env) (row : PlayerRow) : List Character :=
  if Gamemaster env row then env.worlds.toList.map fun p => ⟨playerName row, p.2, -1⟩
  else (env.worlds.toList.take 1).map fun p =>
    ⟨playerName row, p.2, row.online.getDataInt.toInt8.toInt⟩

/-- The list has the entries of the rows, each of them once, and nothing else. -/
def ListsEveryone (env : Env) (rows : List PlayerRow) (charList : Characters) : Prop :=
  (charList.toList.map Prod.snd).Perm (rows.flatMap (entriesOf env))

/-- No name is that of a game master with the number of a world behind it, whether by itself or
with a number of its own, and the numbers of the worlds go into 16 bits. -/
structure NoClash (env : Env) (rows : List PlayerRow) : Prop where
  worlds : (∃ g ∈ rows, Gamemaster env g) → env.worlds.size ≤ 65536
  player : ∀ g ∈ rows, ∀ p ∈ rows, Gamemaster env g → ¬ Gamemaster env p →
    ∀ i < env.worlds.size, playerName p ≠ playerName g ++ text i
  gamemaster : ∀ g ∈ rows, ∀ h ∈ rows, Gamemaster env g → Gamemaster env h →
    playerName g ≠ playerName h →
    ∀ i < env.worlds.size, ∀ j < env.worlds.size, playerName g ++ text i ≠ playerName h ++ text j

variable {env : Env} {rows : List PlayerRow}

theorem addCharacter_eq (env : Env) (charList : Characters) (row : PlayerRow) :
    addCharacter env charList row = insertAll charList (characterInserts env row) := by
  rw [addCharacter, insertAll, characterInserts]
  by_cases hg : row.group_id.getDataInt.toInt ≥ env.g_config.GAMEMASTER_GROUP
  · have hgm : Gamemaster env row := hg
    rw [if_pos hg, if_pos hgm, List.foldl_map]
    rfl
  · have hplayer : ¬ Gamemaster env row := hg
    rw [if_neg hg, if_neg hplayer]
    cases env.worlds.toList with
    | nil => rfl
    | cons w ws => rfl

theorem characters_eq (env : Env) (rows : List PlayerRow) :
    characters env rows = insertAll ∅ (rows.flatMap (characterInserts env)) := by
  rw [characters]
  induction rows using List.reverseRecOn with
  | nil => rfl
  | append_singleton rows row ih =>
    rw [List.foldl_append, List.foldl_cons, List.foldl_nil, ih, addCharacter_eq,
      ← insertAll_append, List.flatMap_append, List.flatMap_singleton]

theorem characterInserts_entries (env : Env) (rows : List PlayerRow) :
    (rows.flatMap (characterInserts env)).map Prod.snd = rows.flatMap (entriesOf env) := by
  rw [List.map_flatMap]
  apply List.flatMap_congr
  intro row _
  rw [characterInserts, entriesOf]
  by_cases hg : Gamemaster env row
  · rw [if_pos hg, if_pos hg, List.map_map]
    conv_rhs => rw [← List.zipIdx_map_fst 0 env.worlds.toList, List.map_map]
    rfl
  · rw [if_neg hg, if_neg hg, List.map_map]
    rfl

def keysOf (env : Env) (row : PlayerRow) : List (List UInt8) :=
  if Gamemaster env row then
    (List.range env.worlds.size).map fun i => playerName row ++ text (i % 65536)
  else [playerName row]

theorem characterInserts_keys (hworlds : env.worlds.size ≠ 0) (rows : List PlayerRow) :
    (rows.flatMap (characterInserts env)).map Prod.fst = rows.flatMap (keysOf env) := by
  rw [List.map_flatMap]
  apply List.flatMap_congr
  intro row _
  have hlen := Std.TreeMap.length_toList (t := env.worlds)
  rw [characterInserts, keysOf]
  by_cases hg : Gamemaster env row
  · rw [if_pos hg, if_pos hg, List.map_map, ← hlen, List.range_eq_range',
      ← List.zipIdx_map_snd 0 env.worlds.toList, List.map_map]
    rfl
  · rw [if_neg hg, if_neg hg, List.map_map]
    cases hl : env.worlds.toList with
    | nil =>
      rw [hl] at hlen
      exact absurd hlen.symm hworlds
    | cons w ws => rfl

theorem keysOf_nodup_iff (row : PlayerRow) :
    (keysOf env row).Nodup ↔ (Gamemaster env row → env.worlds.size ≤ 65536) := by
  rw [keysOf]
  by_cases hg : Gamemaster env row
  · rw [if_pos hg]
    constructor
    · intro hnodup _
      by_contra hmany
      -- the numbers of the first world and of the one that is 2^16 behind it are the same
      have hsame := List.inj_on_of_nodup_map hnodup (x := 0) (y := 65536)
        (List.mem_range.mpr (by omega)) (List.mem_range.mpr (by omega)) rfl
      omega
    · intro hfew
      apply List.nodup_range.map_on
      intro i hi j hj hij
      rw [List.mem_range] at hi hj
      have hfew := hfew hg
      have htext := text_injective (List.append_cancel_left hij)
      rwa [Nat.mod_eq_of_lt (by omega), Nat.mod_eq_of_lt (by omega)] at htext
  · rw [if_neg hg]
    exact ⟨fun _ h => absurd h hg, fun _ => List.nodup_singleton _⟩

theorem mem_keysOf {row : PlayerRow} {key : List UInt8}
    (hfew : Gamemaster env row → env.worlds.size ≤ 65536) :
    key ∈ keysOf env row ↔
      (¬ Gamemaster env row ∧ key = playerName row) ∨
        (Gamemaster env row ∧ ∃ i < env.worlds.size, key = playerName row ++ text i) := by
  rw [keysOf]
  by_cases hg : Gamemaster env row
  · have hfew := hfew hg
    rw [if_pos hg]
    simp only [hg, not_true_eq_false, false_and, true_and, false_or, List.mem_map, List.mem_range]
    constructor
    · rintro ⟨i, hi, rfl⟩
      exact ⟨i, hi, by rw [Nat.mod_eq_of_lt (by omega)]⟩
    · rintro ⟨i, hi, rfl⟩
      exact ⟨i, hi, by rw [Nat.mod_eq_of_lt (by omega)]⟩
  · simp [hg]

theorem NoClash.fewWorlds (h : NoClash env rows) {g : PlayerRow} (hg : g ∈ rows) :
    Gamemaster env g → env.worlds.size ≤ 65536 :=
  fun hgm => h.worlds ⟨g, hg, hgm⟩

theorem NoClash.disjoint (hclash : NoClash env rows) {g h : PlayerRow} (hg : g ∈ rows)
    (hh : h ∈ rows) (hne : playerName g ≠ playerName h) :
    List.Disjoint (keysOf env g) (keysOf env h) := by
  intro key hkg hkh
  rcases (mem_keysOf (hclash.fewWorlds hg)).mp hkg with ⟨hgm, rfl⟩ | ⟨hgm, i, hi, rfl⟩
  · rcases (mem_keysOf (hclash.fewWorlds hh)).mp hkh with ⟨_, he⟩ | ⟨hhm, j, hj, he⟩
    · exact hne he
    · exact hclash.player h hh g hg hhm hgm j hj he
  · rcases (mem_keysOf (hclash.fewWorlds hh)).mp hkh with ⟨hhm, he⟩ | ⟨hhm, j, hj, he⟩
    · exact hclash.player g hg h hh hgm hhm i hi he.symm
    · exact hclash.gamemaster g hg h hh hgm hhm hne i hi j hj he

theorem noClash_of_disjoint (hfew : ∀ g ∈ rows, Gamemaster env g → env.worlds.size ≤ 65536)
    (hapart : ∀ g ∈ rows, ∀ h ∈ rows, playerName g ≠ playerName h →
      List.Disjoint (keysOf env g) (keysOf env h)) : NoClash env rows := by
  constructor
  · rintro ⟨g, hg, hgm⟩
    exact hfew g hg hgm
  · intro g hg p hp hgm hpm i hi he
    have hne : playerName g ≠ playerName p := by
      rw [he]
      exact fun hself => text_ne_nil i (List.append_right_eq_self.mp hself.symm)
    exact hapart g hg p hp hne
      ((mem_keysOf (hfew g hg)).mpr (Or.inr ⟨hgm, i, hi, rfl⟩))
      ((mem_keysOf (hfew p hp)).mpr (Or.inl ⟨hpm, he.symm⟩))
  · intro g hg h hh hgm hhm hne i hi j hj he
    exact hapart g hg h hh hne
      ((mem_keysOf (hfew g hg)).mpr (Or.inr ⟨hgm, i, hi, rfl⟩))
      ((mem_keysOf (hfew h hh)).mpr (Or.inr ⟨hhm, j, hj, he⟩))

theorem keys_nodup_iff (hnames : (rows.map playerName).Nodup) :
    (rows.flatMap (keysOf env)).Nodup ↔ NoClash env rows := by
  have hdistinct : rows.Pairwise fun g h => playerName g ≠ playerName h :=
    List.pairwise_map.mp hnames
  rw [List.nodup_flatMap]
  constructor
  · rintro ⟨hown, hdisjoint⟩
    apply noClash_of_disjoint
    · exact fun g hg => (keysOf_nodup_iff g).mp (hown g hg)
    · intro g hg h hh hne
      have : Std.Symm (Function.onFun List.Disjoint (keysOf env)) :=
        ⟨fun _ _ hd _ hh hg => hd hg hh⟩
      apply hdisjoint.forall hg hh
      rintro rfl
      exact hne rfl
  · intro hclash
    constructor
    · exact fun g hg => (keysOf_nodup_iff g).mpr (hclash.fewWorlds hg)
    · apply hdistinct.imp_of_mem
      intro g h hg hh hne
      exact hclash.disjoint hg hh hne

theorem characters_list_iff (hworlds : env.worlds.size ≠ 0)
    (hnames : (rows.map playerName).Nodup) :
    ListsEveryone env rows (characters env rows) ↔ NoClash env rows := by
  rw [ListsEveryone, characters_eq, ← characterInserts_entries, values_insertAll_perm_iff,
    characterInserts_keys hworlds, keys_nodup_iff hnames]

theorem behind_start (now : ℤ) (s : Server) : Behind now s s 0 where
  connected := by simp [Server.executed]
  schedule i := by rw [Nat.zero_add]
  accounts := rfl
  players := rfl
  bans _ := rfl

theorem loaded_characters {s : Server} {name : List UInt8} {row : AccountRow}
    (hrow : accountRows env name s.tables = [row]) (hx : s.executed 2 = true) :
    (loadAccount env name s).1.2.charList = characters env (playerRows row.id s.tables) := by
  have hloaded := loadAccount_found (behind_start env.now s) hrow
    (Server.executed_of_le hx (by decide))
  rw [hloaded, loadedAccount, if_pos hx]

/-- An account whose two statements are answered is loaded with all its characters, as long as
their keys differ. -/
theorem everyone_listed_iff {s : Server} {name : List UInt8} {row : AccountRow}
    (hworlds : env.worlds.size ≠ 0) (hrow : accountRows env name s.tables = [row])
    (hx : s.executed 2 = true) (hnames : ((playerRows row.id s.tables).map playerName).Nodup) :
    ListsEveryone env (playerRows row.id s.tables) (loadAccount env name s).1.2.charList ↔
      NoClash env (playerRows row.id s.tables) := by
  rw [loaded_characters hrow hx]
  exact characters_list_iff hworlds hnames

def worldsEnv : Env :=
  { plainEnv with worlds := Std.TreeMap.ofList [((0 : UInt32), localWorld),
      (1, { localWorld with name := ascii "Test" }),
      (7, { localWorld with name := ascii "War", ports := [7173, 7174], hasPort := by decide })] }

def masterServer : Server :=
  { bannedServer with
    tables := ⟨[storedAccount],
      [storedPlayer, { storedPlayer with name := .string (ascii "Bob"), group_id := .int64 5 },
        { storedPlayer with name := .string (ascii "Bob3") }], []⟩ }

theorem knight_listed :
    ListsEveryone worldsEnv (playerRows storedAccount.id masterServer.tables)
      (loadAccount worldsEnv (ascii "name") masterServer).1.2.charList := by
  apply (everyone_listed_iff (by decide +kernel) rfl (by decide) (by decide)).mpr
  constructor
  · decide +kernel
  · decide +kernel
  · decide +kernel

/-- A game master, and a player whose name is the other one with a zero behind it. -/
def clashServer : Server :=
  { bannedServer with
    tables := ⟨[storedAccount],
      [{ storedPlayer with name := .string (ascii "Bob"), group_id := .int64 5 },
        { storedPlayer with name := .string (ascii "Bob0"), group_id := .int64 1 }], []⟩ }

theorem entry_overwritten :
    ¬ ∀ (env : Env) (s : Server) (name : List UInt8) (row : AccountRow), env.worlds.size ≠ 0 →
      accountRows env name s.tables = [row] → s.executed 2 = true →
      ((playerRows row.id s.tables).map playerName).Nodup →
      ListsEveryone env (playerRows row.id s.tables) (loadAccount env name s).1.2.charList := by
  intro hall
  have hlists := hall plainEnv clashServer (ascii "name") storedAccount (by decide +kernel) rfl
    (by decide) (by decide)
  rw [loaded_characters rfl (by decide)] at hlists
  have hclash := (characters_list_iff (by decide +kernel) (by decide)).mp hlists
  exact hclash.player _ List.mem_cons_self _ (List.mem_cons_of_mem _ List.mem_cons_self)
    (by decide) (by decide) 0 (by decide +kernel) rfl

end LoginServer.Io
