import LoginServer.Library.RunningSums
import LoginServer.Tools

/-! # The checksum by its definition

The accumulators of `adlerChecksum` are reduced after each chunk only. From any residues a chunk
of 5552 bytes leaves them below 2^32, so they are the unbounded sums until the reduction. -/
namespace LoginServer.Message

open Faults Bytes RunningSums

/-- 1 and the bytes, added up. -/
def adlerA (data : List UInt8) : ℕ := 1 + (data.map UInt8.toNat).sum

def adlerB (data : List UInt8) : ℕ :=
  ((List.range data.length).map fun i => adlerA (data.take (i + 1))).sum

def naturals (s : UInt32 × UInt32) : ℕ × ℕ := (s.1.toNat, s.2.toNat)

theorem naturals_adlerByte {s : UInt32 × UInt32} {data : UInt8}
    (h : (addStep (naturals s) data.toNat).2 < 4294967296) :
    naturals (adlerByte s data) = addStep (naturals s) data.toNat := by
  simp only [naturals, addStep] at h
  simp only [naturals, adlerByte, addStep, UInt32.toNat_add, UInt8.toNat_toUInt32, Prod.mk.injEq]
  omega

theorem naturals_foldl {s : UInt32 × UInt32} {chunk : List UInt8}
    (h : limit 255 chunk.length (naturals s) < 2 * 4294967296) :
    naturals (chunk.foldl adlerByte s) = sums (naturals s) (chunk.map UInt8.toNat) := by
  induction chunk generalizing s with
  | nil => rfl
  | cons data chunk ih =>
    have hdata : data.toNat ≤ 255 := by
      have := data.toNat_lt
      omega
    have hnext := limit_addStep (n := chunk.length) hdata (naturals s)
    have hsnd := snd_le_limit 255 chunk.length (addStep (naturals s) data.toNat)
    rw [List.length_cons] at h
    have hstep : naturals (adlerByte s data) = addStep (naturals s) data.toNat :=
      naturals_adlerByte (by omega)
    rw [List.foldl_cons, ih (by rw [hstep]; omega), hstep, List.map_cons, sums_cons]

/-- The worst chunk: residues of 65520 and 5552 bytes of 255. -/
theorem limit_chunk {s : ℕ × ℕ} {n : ℕ} (h1 : s.1 < 65521) (h2 : s.2 < 65521) (hn : n ≤ 5552) :
    limit 255 n s < 2 * 4294967296 := by
  have hmono := limit_mono (d := 255) hn s
  simp only [limit] at hmono ⊢
  omega

theorem naturals_reduced (s : UInt32 × UInt32) :
    naturals (s.1 % 65521, s.2 % 65521) = reduce 65521 (naturals s) := by
  simp [naturals, reduce]

theorem reduce_of_lt {s : ℕ × ℕ} (h1 : s.1 < 65521) (h2 : s.2 < 65521) : reduce 65521 s = s := by
  rw [reduce, Nat.mod_eq_of_lt h1, Nat.mod_eq_of_lt h2]

theorem naturals_adlerChunks {fuel : ℕ} {s : UInt32 × UInt32} {data : List UInt8}
    (h1 : s.1.toNat < 65521) (h2 : s.2.toNat < 65521) (hfuel : data.length ≤ fuel) :
    naturals (adlerChunks fuel s data) =
      reduce 65521 (sums (naturals s) (data.map UInt8.toNat)) := by
  induction fuel generalizing s data with
  | zero =>
    have hnil : data = [] := List.length_eq_zero_iff.mp (by omega)
    rw [hnil, adlerChunks, List.map_nil, sums_nil, reduce_of_lt h1 h2]
  | succ fuel ih =>
    by_cases hdata : data.length > 0
    · have hchunk : naturals ((data.take 5552).foldl adlerByte s) =
          sums (naturals s) ((data.take 5552).map UInt8.toNat) :=
        naturals_foldl (limit_chunk h1 h2 (List.length_take_le _ _))
      have hsplit : (data.take 5552).map UInt8.toNat ++ (data.drop 5552).map UInt8.toNat =
          data.map UInt8.toNat := by
        rw [← List.map_append, List.take_append_drop]
      rw [adlerChunks, if_pos hdata, ih, naturals_reduced, hchunk, sums_reduce, ← sums_append,
        hsplit]
      · exact Nat.mod_lt _ (by decide)
      · exact Nat.mod_lt _ (by decide)
      · rw [List.length_drop]
        omega
    · have hnil : data = [] := List.length_eq_zero_iff.mp (by omega)
      rw [adlerChunks, if_neg hdata, hnil, List.map_nil, sums_nil, reduce_of_lt h1 h2]

theorem sums_adler (data : List UInt8) :
    sums (1, 0) (data.map UInt8.toNat) = (adlerA data, adlerB data) := by
  refine Prod.ext (sums_fst _ _) ?_
  rw [sums_snd, adlerB, List.length_map]
  simp only [adlerA, List.map_take, Nat.zero_add]

/-- For any data the checksum is that of the definition. -/
theorem toNat_adler (data : List UInt8) :
    (adler data).toNat = (adlerB data % 65521) <<< 16 ||| adlerA data % 65521 := by
  have hs : naturals (adlerChunks data.length (1, 0) data) =
      reduce 65521 (adlerA data, adlerB data) := by
    rw [naturals_adlerChunks (by decide) (by decide) le_rfl, ← sums_adler]
    rfl
  obtain ⟨hA, hB⟩ := Prod.ext_iff.mp hs
  simp only [naturals, reduce] at hA hB
  have hlt : adlerB data % 65521 < 65521 := Nat.mod_lt _ (by decide)
  have hshift : ((adlerChunks data.length (1, 0) data).2 <<< 16).toNat =
      (adlerB data % 65521) <<< 16 := by
    have hcount : UInt32.toNat 16 % 32 = 16 := rfl
    rw [UInt32.toNat_shiftLeft, hB, hcount, Nat.shiftLeft_eq]
    exact Nat.mod_eq_of_lt (by omega)
  rw [adler, UInt32.toNat_or, hshift, hA]

/-- A checksum over the buffer is that of the definition for every length it takes, and from any
residues the accumulators of a chunk, after each of its bytes, are the unbounded sums. -/
theorem adlerChecksum_definition :
    (∀ (data : List UInt8) (p : ℕ) (m : NetworkMessage), 1 ≤ data.length →
      p + data.length ≤ NETWORK_MAX_SIZE →
      m.m_buffer.read p data.length = data →
      ∃ checksum, adlerChecksum p data.length m = some (checksum, m) ∧
        checksum.toNat = (adlerB data % 65521) <<< 16 ||| adlerA data % 65521) ∧
    ∀ (s : UInt32 × UInt32) (chunk : List UInt8), s.1.toNat < 65521 → s.2.toNat < 65521 →
      chunk.length ≤ 5552 → ∀ k,
      naturals ((chunk.take k).foldl adlerByte s) =
        sums (naturals s) ((chunk.take k).map UInt8.toNat) ∧
      (sums (naturals s) ((chunk.take k).map UInt8.toNat)).1 < 4294967296 ∧
      (sums (naturals s) ((chunk.take k).map UInt8.toNat)).2 < 4294967296 := by
  constructor
  · intro data p m hne hfit hread
    refine ⟨adler data, ?_, toNat_adler data⟩
    rw [adlerChecksum_run (by omega) hfit, hread]
  · intro s chunk h1 h2 hlen k
    have hk : (chunk.take k).length ≤ 5552 := (List.length_take_le' _ _).trans hlen
    have heq : naturals ((chunk.take k).foldl adlerByte s) =
        sums (naturals s) ((chunk.take k).map UInt8.toNat) :=
      naturals_foldl (limit_chunk h1 h2 hk)
    refine ⟨heq, ?_, ?_⟩
    · rw [← heq]
      exact UInt32.toNat_lt _
    · rw [← heq]
      exact UInt32.toNat_lt _

theorem adlerChecksum_definition_text :
    ∃ checksum, adlerChecksum 0 9 ⟨0, 0, Memory.write (fun _ => 0) 0 (ascii "Wikipedia")⟩ =
        some (checksum, ⟨0, 0, Memory.write (fun _ => 0) 0 (ascii "Wikipedia")⟩) ∧
      checksum.toNat = 0x11E60398 := by
  obtain ⟨checksum, hrun, hsum⟩ := adlerChecksum_definition.1 (ascii "Wikipedia") 0
    ⟨0, 0, Memory.write (fun _ => 0) 0 (ascii "Wikipedia")⟩ (by decide) (by decide) (by decide)
  refine ⟨checksum, hrun, ?_⟩
  rw [hsum]
  decide

end LoginServer.Message
