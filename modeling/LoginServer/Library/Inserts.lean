import Mathlib.Data.List.Induction
import Mathlib.Data.List.Nodup
import Mathlib.Data.List.Perm.Basic
import Std.Data.TreeMap.Lemmas

/-! # A map that is filled by inserts

A later insert under a key that is there replaces what an earlier one put. So a map holds all that
was inserted just when the keys are distinct. -/
namespace LoginServer.Inserts

open Std

variable {κ β : Type*}

theorem nodup_keys_snoc {l : List (κ × β)} {p : κ × β} :
    ((l ++ [p]).map Prod.fst).Nodup ↔ (l.map Prod.fst).Nodup ∧ p.1 ∉ l.map Prod.fst := by
  rw [List.map_append, List.map_singleton, List.nodup_append]
  constructor
  · rintro ⟨hl, _, hdis⟩
    exact ⟨hl, fun hmem => hdis _ hmem _ (List.mem_singleton_self _) rfl⟩
  · rintro ⟨hl, hp⟩
    refine ⟨hl, List.nodup_singleton _, ?_⟩
    rintro k hk _ hkp rfl
    exact hp (List.mem_singleton.mp hkp ▸ hk)

variable [Ord κ]

def insertAll (m : TreeMap κ β) (l : List (κ × β)) : TreeMap κ β :=
  l.foldl (fun m p => m.insert p.1 p.2) m

theorem insertAll_append (m : TreeMap κ β) (l r : List (κ × β)) :
    insertAll m (l ++ r) = insertAll (insertAll m l) r :=
  List.foldl_append

theorem insertAll_snoc (m : TreeMap κ β) (l : List (κ × β)) (p : κ × β) :
    insertAll m (l ++ [p]) = (insertAll m l).insert p.1 p.2 := by
  rw [insertAll_append]
  rfl

variable [TransOrd κ]

theorem size_insertAll_le (l : List (κ × β)) : (insertAll ∅ l).size ≤ l.length := by
  induction l using List.reverseRecOn with
  | nil => simp [insertAll]
  | append_singleton l p ih =>
    have hle : ((insertAll ∅ l).insert p.1 p.2).size ≤ (insertAll ∅ l).size + 1 :=
      TreeMap.size_insert_le
    rw [insertAll_snoc, List.length_append, List.length_singleton]
    omega

variable [LawfulEqOrd κ]

theorem mem_insertAll {l : List (κ × β)} {k : κ} :
    k ∈ insertAll ∅ l ↔ k ∈ l.map Prod.fst := by
  induction l using List.reverseRecOn with
  | nil => simp [insertAll]
  | append_singleton l p ih =>
    rw [insertAll_snoc, TreeMap.mem_insert, ih, Std.compare_eq_iff_eq]
    simp only [List.map_append, List.map_cons, List.map_nil, List.mem_append, List.mem_singleton]
    rw [or_comm, eq_comm (a := k)]

theorem size_insertAll_lt {l : List (κ × β)} (h : ¬ (l.map Prod.fst).Nodup) :
    (insertAll ∅ l).size < l.length := by
  induction l using List.reverseRecOn with
  | nil => exact absurd List.nodup_nil h
  | append_singleton l p ih =>
    simp only [insertAll_snoc, TreeMap.size_insert, List.length_append, List.length_singleton,
      TreeMap.contains_iff_mem]
    by_cases hp : p.1 ∈ insertAll ∅ l
    · have hle := size_insertAll_le l
      rw [if_pos hp]
      omega
    · have hl : ¬ (l.map Prod.fst).Nodup := fun hl =>
        h (nodup_keys_snoc.mpr ⟨hl, fun hmem => hp (mem_insertAll.mpr hmem)⟩)
      have hlt := ih hl
      rw [if_neg hp]
      omega

theorem toList_insertAll_perm [DecidableEq κ] {l : List (κ × β)} (h : (l.map Prod.fst).Nodup) :
    (insertAll ∅ l).toList.Perm l := by
  induction l using List.reverseRecOn with
  | nil => exact List.Perm.refl []
  | append_singleton l p ih =>
    obtain ⟨hl, hp⟩ := nodup_keys_snoc.mp h
    have hperm := ih hl
    have hkeep : (insertAll ∅ l).toList.filter (fun r => !decide (p.1 = r.1)) =
        (insertAll ∅ l).toList := by
      apply List.filter_eq_self.mpr
      intro r hr
      have hne : p.1 ≠ r.1 := fun he => hp (he ▸ List.mem_map_of_mem (hperm.mem_iff.mp hr))
      simpa using hne
    have hinsert := TreeMap.toList_insert_perm (t := insertAll ∅ l) (k := p.1) (v := p.2)
    rw [insertAll_snoc]
    calc ((insertAll ∅ l).insert p.1 p.2).toList
        |>.Perm (p :: (insertAll ∅ l).toList) := by simpa [hkeep] using hinsert
      _ |>.Perm (p :: l) := hperm.cons p
      _ |>.Perm (l ++ [p]) := (List.perm_append_singleton p l).symm

/-- The map holds just what was inserted when the keys are distinct, and less when they are not. -/
theorem values_insertAll_perm_iff [DecidableEq κ] (l : List (κ × β)) :
    ((insertAll ∅ l).toList.map Prod.snd).Perm (l.map Prod.snd) ↔ (l.map Prod.fst).Nodup := by
  constructor
  · intro hperm
    by_contra hdup
    have hlt := size_insertAll_lt hdup
    have hlen := hperm.length_eq
    rw [List.length_map, List.length_map, TreeMap.length_toList] at hlen
    omega
  · intro hnodup
    exact (toList_insertAll_perm hnodup).map _

end LoginServer.Inserts
