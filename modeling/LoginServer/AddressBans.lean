import LoginServer.Authorisation
import LoginServer.Library.Decimals
import LoginServer.Library.States

/-! # Which address a ban stops

The target of a ban is a text, and it is compared with what `convertIPAddress` prints of the
address that logs in. No two addresses are printed alike, so a ban stops at most one address. -/
namespace LoginServer.Io

open Bytes Accounts Sql Attempts States Decimals Encryption CharacterList

def octets (ip : UInt32) : List ℕ :=
  [ip.toNat % 256, ip.toNat / 256 % 256, ip.toNat / 65536 % 256, ip.toNat / 16777216]

theorem toNat_lowByte (n : UInt32) : (n &&& 0xFF).toNat = n.toNat % 256 := by
  rw [UInt32.toNat_and]
  exact Nat.and_two_pow_sub_one_eq_mod _ 8

theorem toNat_shifted (ip : UInt32) : (ip >>> 8).toNat = ip.toNat / 256 ∧
    (ip >>> 16).toNat = ip.toNat / 65536 ∧ (ip >>> 24).toNat = ip.toNat / 16777216 := by
  refine ⟨?_, ?_, ?_⟩ <;> rw [UInt32.toNat_shiftRight, Nat.shiftRight_eq_div_pow] <;> rfl

theorem convertIPAddress_eq (ip : UInt32) :
    convertIPAddress ip = [46].intercalate ((octets ip).map text) := by
  obtain ⟨h8, h16, h24⟩ := toNat_shifted ip
  have hdot : ascii "." = [46] := by decide
  rw [convertIPAddress, toNat_lowByte, toNat_lowByte, toNat_lowByte, h8, h16, h24, hdot]
  simp only [octets, List.map_cons, List.map_nil, text, List.intercalate, List.intersperse,
    List.flatten_cons, List.flatten_nil, List.append_assoc, List.append_nil]

theorem ofNat_octets (ip : UInt32) : UInt32.ofNat (ip.toNat % 256 + 256 * (ip.toNat / 256 % 256) +
    65536 * (ip.toNat / 65536 % 256) + 16777216 * (ip.toNat / 16777216)) = ip := by
  have hlt := ip.toNat_lt
  have hsum : ip.toNat % 256 + 256 * (ip.toNat / 256 % 256) + 65536 * (ip.toNat / 65536 % 256) +
      16777216 * (ip.toNat / 16777216) = ip.toNat := by omega
  rw [hsum, UInt32.ofNat_toNat]

theorem octets_injective : Function.Injective octets := by
  intro ip other h
  simp only [octets, List.cons.injEq, and_true] at h
  obtain ⟨h0, h8, h16, h24⟩ := h
  rw [← ofNat_octets ip, h0, h8, h16, h24, ofNat_octets]

/-- A number has no dot in its text, so the dots are where they are put. -/
theorem splitOn_quad (numbers : List ℕ) (h : numbers ≠ []) :
    ([46].intercalate (numbers.map text)).splitOn 46 = numbers.map text := by
  refine List.splitOn_intercalate (46 : UInt8) ?_ (by simpa using h)
  intro part hpart hdot
  obtain ⟨n, _, rfl⟩ := List.mem_map.mp hpart
  exact absurd (text_digits n 46 hdot).1 (by decide)

theorem convertIPAddress_injective : Function.Injective convertIPAddress := by
  intro ip other h
  rw [convertIPAddress_eq, convertIPAddress_eq] at h
  have htexts : (octets ip).map text = (octets other).map text := by
    rw [← splitOn_quad (octets ip) (List.cons_ne_nil _ _), h,
      splitOn_quad (octets other) (List.cons_ne_nil _ _)]
  exact octets_injective (List.map_injective_iff.mpr text_injective htexts)

/-! ## Logins from an address -/

theorem authenticate_verdict (env : Env) (name password : List UInt8) (clientIp : UInt32) :
    Answers (· ≠ .ipBanished) (authenticate env name password clientIp) := by
  have hlist : ∀ account, Answers (· ≠ .ipBanished) (listCharacters env clientIp account) := by
    intro account
    refine Answers.bind (Answers.any _) fun account _ => ?_
    refine Answers.ite (Answers.pure (fun h => by cases h)) ?_
    refine Answers.bind (Answers.any _) fun _ _ => Answers.bind (Answers.any _) fun _ _ => ?_
    exact Answers.pure fun h => by cases h
  have hcheck : ∀ account, Answers (· ≠ .ipBanished) (checkAccount env clientIp account) := by
    intro account
    refine Answers.bind (Answers.any _) fun ban _ => ?_
    cases ban with
    | none => exact hlist account
    | some ban =>
      exact Answers.bind (Answers.any _) fun _ _ => Answers.pure fun h => by cases h
  refine Answers.bind (Answers.any _) fun loaded _ => ?_
  refine Answers.ite (Answers.bind (Answers.any _) fun _ _ => ?_) (hcheck _)
  exact Answers.pure fun h => by cases h

/-- A login is refused for its address just when it has one, the two statements that say so are
executed, and the target of a ban in force is what is printed of this address; no two addresses are
printed alike. -/
theorem address_banned_iff (env : Env) (s : Server) (name password : List UInt8)
    (clientIp : UInt32) :
    ((delegate env name password clientIp s).1 = .ipBanished ↔
      clientIp ≠ 0 ∧ s.executed 2 = true ∧ ∃ b ∈ s.tables.bans, b.ban_type = .ip ∧
        b.inForce env.now = true ∧ b.target = convertIPAddress clientIp) ∧
      Function.Injective convertIPAddress := by
  obtain ⟨hbanned, _⟩ := isIpBanished_run (checkBanishments_behind env s) clientIp
  refine ⟨?_, convertIPAddress_injective⟩
  change _ ↔ clientIp ≠ 0 ∧ s.executed 2 = true ∧ IpBanned env s.tables clientIp
  rw [← hbanned, delegate, bind_run, bind_run]
  split
  · rename_i hb
    exact iff_of_true rfl hb
  · rename_i hb
    exact iff_of_false (authenticate_verdict env name password clientIp _) hb

end LoginServer.Io
