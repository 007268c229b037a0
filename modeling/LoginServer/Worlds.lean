import LoginServer.Account
import Mathlib.Data.Rat.Defs
import Std.Data.TreeMap

/-! # `Worlds::loadFromJson`

The worlds that a document gives. The parser belongs to a library: a document is the value that it
answers, in which a number keeps the kind that the parser gave it. An entry without an id, or with
one that is there already, is skipped; every other member has a default. -/
namespace LoginServer.Worlds

open Bytes Accounts

/-- A number that is neither kind of integer is a `double`; its value is that in the document. -/
inductive Json where
  | null
  | bool (b : Bool)
  | int64 (n : Int64)
  | uint64 (n : UInt64)
  | double (x : ℚ)
  | string (s : List UInt8)
  | array (l : List Json)
  | object (members : List (List UInt8 × Json))

abbrev Members := List (List UInt8 × Json)

abbrev WorldsMap := Std.TreeMap UInt32 World

def octet : List UInt8 → Option ℕ
  | [] => none
  | digits =>
    let n := digits.foldl (fun n d => 10 * n + (d.toNat - 48)) 0
    if (digits.all fun d => 48 ≤ d ∧ d ≤ 57) ∧ (digits.length = 1 ∨ digits.head? ≠ some 48) ∧
        n < 256 then
      some n
    else none

/-- The address of four numbers with dots between them, its first number in the low byte. -/
def dottedQuad (s : List UInt8) : Option UInt32 :=
  match (s.splitOn 46).mapM octet with
  | some [a, b, c, d] => some (UInt32.ofNat (a + 256 * b + 65536 * c + 16777216 * d))
  | _ => none

def inet_addr (cp : List UInt8) : UInt32 := (dottedQuad cp).getD 0xFFFFFFFF

/-- `(uint32_t)obj.at("id").as_int64()`, for an id of this kind. -/
def idOf (obj : Members) : Option UInt32 :=
  match obj.lookup (ascii "id") with
  | some (.int64 n) => some n.toUInt64.toUInt32
  | _ => none

def nameOf (obj : Members) (id : UInt32) : List UInt8 :=
  match obj.lookup (ascii "name") with
  | some (.string s) => s
  | _ => ascii "Server #" ++ ascii (toString id.toNat)

def addressOf (obj : Members) : List UInt8 :=
  match obj.lookup (ascii "address") with
  | some (.string s) => s
  | _ => ascii "localhost"

/-- The numbers of the ports that are of the kind the loader takes. -/
def int64Ports (obj : Members) : List Int64 :=
  match obj.lookup (ascii "ports") with
  | some (.array l) => l.filterMap fun p => match p with
    | .int64 n => some n
    | _ => none
  | _ => []

/-- `(int32_t)p.as_int64()` for each of them, or the default. -/
def portsOf (obj : Members) : List ℤ :=
  if int64Ports obj = [] then [7172] else (int64Ports obj).map fun n => n.toInt32.toInt

theorem portsOf_ne_nil (obj : Members) : portsOf obj ≠ [] := by
  rw [portsOf]
  split
  · exact List.cons_ne_nil _ _
  · rename_i h
    simpa using h

def worldOf (obj : Members) (id : UInt32) : World where
  name := nameOf obj id
  address := inet_addr (cString (addressOf obj))
  ports := portsOf obj
  hasPort := portsOf_ne_nil obj

def loadEntry (worldList : WorldsMap) : Json → WorldsMap
  | .object obj =>
    match idOf obj with
    | none => worldList
    | some id =>
      if worldList.contains id then worldList else worldList.insert id (worldOf obj id)
  | _ => worldList

/-- No document stands for a file that cannot be opened or parsed. -/
def loadFromJson (worldList : WorldsMap) : Option Json → Bool × WorldsMap
  | some (.array entries) => (true, entries.foldl loadEntry worldList)
  | _ => (false, worldList)

def entryOfId (id : UInt32) : Json → Option Members
  | .object obj => if idOf obj = some id then some obj else none
  | _ => none

/-- The entry that a world of this id comes from: the first one with the id. -/
def sourceOf (entries : List Json) (id : UInt32) : Option Members :=
  entries.findSome? (entryOfId id)

theorem getElem?_loadEntry (worldList : WorldsMap) (entry : Json) (id : UInt32) :
    (loadEntry worldList entry)[id]? =
      worldList[id]?.or ((entryOfId id entry).map fun obj => worldOf obj id) := by
  cases entry with
  | object obj =>
    rw [loadEntry, entryOfId]
    cases hid : idOf obj with
    | none => simp
    | some x =>
      by_cases hx : x = id
      · subst hx
        by_cases hold : x ∈ worldList
        · obtain ⟨w, hw⟩ := Option.isSome_iff_exists.mp
            (Std.TreeMap.mem_iff_isSome_getElem?.mp hold)
          simp [Std.TreeMap.contains_iff_mem.mpr hold, hw]
        · simp [hold]
      · have hne : ¬ some x = some id := fun h => hx (Option.some.inj h)
        simp only [if_neg hne, Option.map_none, Option.or_none]
        split
        · rfl
        · rw [Std.TreeMap.getElem?_insert, if_neg (by simpa using hx)]
  | _ => simp [loadEntry, entryOfId]

/-- The loaded worlds are those that were there and, for every other id, the first entry's. -/
theorem getElem?_foldl_loadEntry (worldList : WorldsMap) (entries : List Json) (id : UInt32) :
    (entries.foldl loadEntry worldList)[id]? =
      worldList[id]?.or ((sourceOf entries id).map fun obj => worldOf obj id) := by
  induction entries generalizing worldList with
  | nil => simp [sourceOf]
  | cons entry entries ih =>
    rw [List.foldl_cons, ih, getElem?_loadEntry, Option.or_assoc]
    rw [sourceOf.eq_1 (entry :: entries), List.findSome?_cons]
    cases entryOfId id entry with
    | none => rfl
    | some obj => rfl

theorem loaded_source {entries : List Json} {worldList : WorldsMap}
    (h : loadFromJson ∅ (some (.array entries)) = (true, worldList)) (id : UInt32) :
    worldList[id]? = (sourceOf entries id).map fun obj => worldOf obj id := by
  have hlist : entries.foldl loadEntry ∅ = worldList := (Prod.mk.inj h).2
  rw [← hlist, getElem?_foldl_loadEntry, Std.TreeMap.getElem?_emptyc, Option.none_or]

end LoginServer.Worlds
