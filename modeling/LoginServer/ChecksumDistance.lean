import LoginServer.Adler
import LoginServer.ChecksumTest
import LoginServer.Library.Distance

/-! # Which alterations of a packet the checksum notices

The residues modulo 65521 of the two sums lie in the two halves of the checksum. Up to the
largest packet, one altered byte of the payload moves both, and two move at least one, so three
bytes at least must change for a packet to pass for another. -/
namespace LoginServer.Message

open Bytes Distance RunningSums

theorem adlerB_ramp (data : List UInt8) :
    adlerB data = data.length + ramp (data.map UInt8.toNat) := by
  have hsnd := sums_snd_ramp (1, 0) (data.map UInt8.toNat)
  rw [sums_adler] at hsnd
  simpa using hsnd

theorem toNat_adler_halves (data : List UInt8) :
    (adler data).toNat = adlerA data % 65521 + 65536 * (adlerB data % 65521) := by
  have hlt : adlerA data % 65521 < 2 ^ 16 := by omega
  rw [toNat_adler, ← Nat.shiftLeft_add_eq_or_of_lt hlt, Nat.shiftLeft_eq]
  omega

theorem checksum_halves {cs data : List UInt8} (hcs : cs.length = 4)
    (h : ofLe cs = (adler data).toNat) :
    ofLe (cs.take 2) = adlerA data % 65521 ∧ ofLe (cs.drop 2) = adlerB data % 65521 := by
  have hlen : (cs.take 2).length = 2 := List.length_take_of_le (by omega)
  have hsplit : ofLe cs = ofLe (cs.take 2) + 65536 * ofLe (cs.drop 2) := by
    have happend := ofLe_append (cs.take 2) (cs.drop 2)
    rwa [List.take_append_drop, hlen] at happend
  have hlow : ofLe (cs.take 2) < 65536 := by
    have hlt := ofLe_lt (cs.take 2)
    rwa [hlen] at hlt
  rw [hsplit, toNat_adler_halves] at h
  omega

section Payload

variable {l k : List UInt8}

theorem adlerA_modEq : adlerA l % 65521 = adlerA k % 65521 ↔
    (l.map UInt8.toNat).sum ≡ (k.map UInt8.toNat).sum [MOD 65521] :=
  ⟨Nat.ModEq.add_left_cancel' 1, Nat.ModEq.add_left 1⟩

theorem adlerB_modEq (h : l.length = k.length) : adlerB l % 65521 = adlerB k % 65521 ↔
    ramp (l.map UInt8.toNat) ≡ ramp (k.map UInt8.toNat) [MOD 65521] := by
  rw [adlerB_ramp, adlerB_ramp, h]
  exact ⟨Nat.ModEq.add_left_cancel' k.length, Nat.ModEq.add_left k.length⟩

theorem prime_65521 : Nat.Prime 65521 := by norm_num

theorem bytes_below (l : List UInt8) : ∀ v ∈ l.map UInt8.toNat, v < 256 := by
  intro v hv
  obtain ⟨b, _, rfl⟩ := List.mem_map.mp hv
  exact b.toNat_lt

theorem differences_toNat (l k : List UInt8) :
    differences (l.map UInt8.toNat) (k.map UInt8.toNat) = differences l k :=
  differences_map (fun _ _ => UInt8.toNat_inj.mp) l k

/-- One altered byte moves both residues. -/
theorem one_byte_moves_both (h : l.length = k.length) (hlen : l.length < 65521)
    (hd : differences l k = 1) :
    adlerA l % 65521 ≠ adlerA k % 65521 ∧ adlerB l % 65521 ≠ adlerB k % 65521 := by
  have hboth := one_moves_both prime_65521 (l := l.map UInt8.toNat) (k := k.map UInt8.toNat)
    (by simpa using h) (bytes_below l) (bytes_below k) (by decide) (by simpa using hlen)
    ((differences_toNat l k).trans hd)
  exact ⟨fun hA => hboth.1 (adlerA_modEq.mp hA), fun hB => hboth.2 ((adlerB_modEq h).mp hB)⟩

/-- Two altered bytes move one of the residues. -/
theorem two_bytes_move_one (h : l.length = k.length) (hlen : l.length < 65521)
    (hd : differences l k = 2) (hA : adlerA l % 65521 = adlerA k % 65521) :
    adlerB l % 65521 ≠ adlerB k % 65521 := by
  intro hB
  exact two_move_one prime_65521 (l := l.map UInt8.toNat) (k := k.map UInt8.toNat)
    (by simpa using h) (bytes_below l) (bytes_below k) (by decide) (by simpa using hlen)
    ((differences_toNat l k).trans hd) (adlerA_modEq.mp hA) ((adlerB_modEq h).mp hB)

theorem adler_ne_of_two_bytes (h : l.length = k.length) (hlen : l.length < 65521)
    (hne : l ≠ k) (hd : differences l k ≤ 2) : adler l ≠ adler k := by
  intro heq
  have hnat := congrArg UInt32.toNat heq
  rw [toNat_adler_halves, toNat_adler_halves] at hnat
  have hpos : differences l k ≠ 0 := fun hz => hne ((differences_eq_zero h).mp hz)
  rcases show differences l k = 1 ∨ differences l k = 2 by omega with h1 | h2
  · exact (one_byte_moves_both h hlen h1).1 (by omega)
  · exact two_bytes_move_one h hlen h2 (by omega) (by omega)

end Payload

/-- Sums that agree in the second place: three bytes are enough. -/
example : adler [1, 0, 1] = adler [0, 2, 0] := by decide

theorem mixed_alteration {cs cs' l k : List UInt8} (hcs : cs.length = 4) (hcs' : cs'.length = 4)
    (h : l.length = k.length) (hlen : l.length < 65521) (hsum : ofLe cs = (adler l).toNat)
    (hc : differences cs cs' = 1) (hd : differences l k = 1) : ofLe cs' ≠ (adler k).toNat := by
  intro hsum'
  obtain ⟨hA, hB⟩ := checksum_halves hcs hsum
  obtain ⟨hA', hB'⟩ := checksum_halves hcs' hsum'
  obtain ⟨hneA, hneB⟩ := one_byte_moves_both h hlen hd
  have htake : (cs.take 2).length = (cs'.take 2).length := by simp [hcs, hcs']
  have hdrop : (cs.drop 2).length = (cs'.drop 2).length := by simp [hcs, hcs']
  have hparts := differences_append htake (cs.drop 2) (cs'.drop 2)
  rw [List.take_append_drop, List.take_append_drop, hc] at hparts
  rcases show differences (cs.take 2) (cs'.take 2) = 0 ∨ differences (cs.drop 2) (cs'.drop 2) = 0
    by omega with hz | hz
  · rw [(differences_eq_zero htake).mp hz, hA'] at hA
    exact hneA hA.symm
  · rw [(differences_eq_zero hdrop).mp hz, hB'] at hB
    exact hneB hB.symm

namespace Frame

variable {f g : Frame}

/-- No packet with a right checksum becomes another one by a change of one or two bytes. -/
theorem not_checksummed_of_altered (hf : f.Checksummed)
    (hlen : f.content.length = g.content.length) (hne : f.content ≠ g.content)
    (hd : differences f.content g.content ≤ 2) : ¬ g.Checksummed := by
  obtain ⟨hsize, hsum⟩ := hf
  rintro ⟨hsize', hsum'⟩
  have hbound : (f.content.drop 4).length < 65521 := by
    have hacc := f.accepted
    rw [List.length_drop]
    simp only [NETWORK_MAX_SIZE] at hacc
    omega
  have hcs : (f.content.take 4).length = 4 := List.length_take_of_le (by omega)
  have hcs' : (g.content.take 4).length = 4 := List.length_take_of_le (by omega)
  have hdata : (f.content.drop 4).length = (g.content.drop 4).length := by
    rw [List.length_drop, List.length_drop, hlen]
  have hparts := differences_append (hcs.trans hcs'.symm) (f.content.drop 4) (g.content.drop 4)
  rw [List.take_append_drop, List.take_append_drop] at hparts
  by_cases hsame : f.content.drop 4 = g.content.drop 4
  · -- only the checksum was altered, and the payload has but one
    apply hne
    have hchecksums : f.content.take 4 = g.content.take 4 :=
      ofLe_inj (hcs.trans hcs'.symm) (by rw [hsum, hsame, hsum'])
    rw [← List.take_append_drop 4 f.content, hchecksums, hsame, List.take_append_drop]
  · have hpos : differences (f.content.drop 4) (g.content.drop 4) ≠ 0 :=
      fun hz => hsame ((differences_eq_zero hdata).mp hz)
    by_cases hzero : differences (f.content.take 4) (g.content.take 4) = 0
    · have hchecksums := (differences_eq_zero (hcs.trans hcs'.symm)).mp hzero
      rw [hchecksums, hsum'] at hsum
      exact adler_ne_of_two_bytes hdata hbound hsame (by omega)
        (UInt32.toNat_inj.mp hsum).symm
    · exact mixed_alteration hcs hcs' hdata hbound hsum (by omega) (by omega) hsum'

end Frame

theorem unchecked_unanswered {g : Frame} (hsize : 5 ≤ g.content.length) (hg : ¬ g.Checksummed)
    (rsa : Rsa) (isDisabled : Bool) (stale : Memory) :
    judged g rsa isDisabled stale = some none := by
  have hsum : ¬ (ofLe ((g.loaded stale).m_buffer.read 2 4) =
      expectedChecksum g.size (g.loaded stale).m_buffer) := by
    rw [g.checksum_read stale hsize, g.expectedChecksum_payload stale hsize]
    exact fun h => hg ⟨hsize, h⟩
  rw [judged_eq, judgementAt, if_neg fun h => hsum h.1]

/-- A login packet of which one or two bytes behind the length were altered on the way is dropped,
whatever the key, the attempts of the address and the buffer. -/
theorem altered_packet_unanswered {f g : Frame} (hf : f.Checksummed)
    (hlen : f.content.length = g.content.length) (hne : f.content ≠ g.content)
    (hd : differences f.content g.content ≤ 2) (rsa : Rsa) (isDisabled : Bool) (stale : Memory) :
    judged g rsa isDisabled stale = some none :=
  unchecked_unanswered (hlen ▸ hf.1) (Frame.not_checksummed_of_altered hf hlen hne hd) rsa
    isDisabled stale

def oneByte : Frame := ⟨[0x02, 0x00, 0x02, 0x00, 0x01], by decide, by decide⟩

def oneByteAltered : Frame := ⟨[0x03, 0x00, 0x02, 0x00, 0x02], by decide, by decide⟩

theorem one_byte_altered_unanswered :
    judged oneByteAltered (fun _ => none) false (fun _ => 0) = some none :=
  altered_packet_unanswered (f := oneByte) ⟨by decide, by decide⟩ (by decide) (by decide)
    (by decide) _ _ _

end LoginServer.Message
