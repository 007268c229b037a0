import LoginServer.Authorisation

/-! # Premium days over several updates

`updatePremium` takes whole days off and moves `lastDay` by as many, so that the rest of a day
is kept for the next update. On the natural numbers an account is a meter, and reading it twice
is reading it once. -/
namespace LoginServer.Io

open Accounts

/-- Days left, and since when they run; 0 is no date. -/
structure Meter where
  left : ℕ
  since : ℕ

namespace Meter

variable {now t1 t2 : ℕ} {m : Meter}

def Paying (m : Meter) : Prop := 0 < m.left ∧ m.left < GRATIS_PREMIUM

instance (m : Meter) : Decidable m.Paying := inferInstanceAs (Decidable (_ ∧ _))

def days (now : ℕ) (m : Meter) : ℕ := (now - m.since) / 86400

def charge (now : ℕ) (m : Meter) : Meter :=
  if now < m.since + 86400 then m
  else if m.Paying then
    if m.since = 0 then ⟨m.left, now⟩
    else if m.days now ≤ m.left then ⟨m.left - m.days now, m.since + 86400 * m.days now⟩
    else ⟨0, 0⟩
  else ⟨m.left, 0⟩

theorem charge_early (h : now < m.since + 86400) : m.charge now = m := if_pos h

theorem charge_free (h : ¬ now < m.since + 86400) (hfree : ¬ m.Paying) :
    m.charge now = ⟨m.left, 0⟩ := by
  rw [charge, if_neg h, if_neg hfree]

theorem charge_unset (h : ¬ now < m.since + 86400) (hpaying : m.Paying) (hset : m.since = 0) :
    m.charge now = ⟨m.left, now⟩ := by
  rw [charge, if_neg h, if_pos hpaying, if_pos hset]

theorem charge_enough (h : ¬ now < m.since + 86400) (hpaying : m.Paying) (hset : m.since ≠ 0)
    (hdays : m.days now ≤ m.left) :
    m.charge now = ⟨m.left - m.days now, m.since + 86400 * m.days now⟩ := by
  rw [charge, if_neg h, if_pos hpaying, if_neg hset, if_pos hdays]

theorem charge_exhausted (h : ¬ now < m.since + 86400) (hpaying : m.Paying) (hset : m.since ≠ 0)
    (hdays : ¬ m.days now ≤ m.left) : m.charge now = ⟨0, 0⟩ := by
  rw [charge, if_neg h, if_pos hpaying, if_neg hset, if_neg hdays]

theorem charge_stopped (now left : ℕ) (h : ¬ Paying ⟨left, 0⟩) :
    charge now ⟨left, 0⟩ = ⟨left, 0⟩ := by
  by_cases hearly : now < 0 + 86400
  · exact charge_early hearly
  · exact charge_free hearly h

theorem not_paying_zero (since : ℕ) : ¬ Paying ⟨0, since⟩ := fun h => absurd h.1 (lt_irrefl 0)

theorem days_enough (h12 : t1 ≤ t2) (h1 : ¬ t1 < m.since + 86400) :
    days t2 ⟨m.left - m.days t1, m.since + 86400 * m.days t1⟩ = m.days t2 - m.days t1 := by
  simp only [days]
  omega

theorem charge_charge_enough (h12 : t1 ≤ t2) (h1 : ¬ t1 < m.since + 86400) (hpaying : m.Paying)
    (hset : m.since ≠ 0) (hdays : m.days t1 ≤ m.left) :
    (m.charge t1).charge t2 = m.charge t2 := by
  have h2 : ¬ t2 < m.since + 86400 := by omega
  have hmono : m.days t1 ≤ m.days t2 := Nat.div_le_div_right (by omega)
  have hrest := days_enough h12 h1
  have hpos : 0 < m.days t1 := Nat.div_pos (by omega) (by decide)
  rw [charge_enough h1 hpaying hset hdays]
  by_cases hearly : t2 < m.since + 86400 * m.days t1 + 86400
  · -- No further day is over.
    have hsame : m.days t2 = m.days t1 := by
      simp only [days] at hearly ⊢
      omega
    rw [charge_early hearly, charge_enough h2 hpaying hset (by omega), hsame]
  · have hmore : m.days t1 < m.days t2 := by
      simp only [days] at hearly ⊢
      omega
    by_cases hrun : 0 < m.left - m.days t1
    · have hpaying' : Paying ⟨m.left - m.days t1, m.since + 86400 * m.days t1⟩ :=
        ⟨hrun, by have := hpaying.2; simp only; omega⟩
      have hset' : m.since + 86400 * m.days t1 ≠ 0 := by omega
      by_cases hleft : m.days t2 ≤ m.left
      · rw [charge_enough hearly hpaying' hset' (by rw [hrest]; simp only; omega),
          charge_enough h2 hpaying hset hleft, hrest]
        simp only [mk.injEq]
        omega
      · rw [charge_exhausted hearly hpaying' hset' (by rw [hrest]; simp only; omega),
          charge_exhausted h2 hpaying hset hleft]
    · -- The first reading took the last day.
      have hzero : m.left - m.days t1 = 0 := by omega
      rw [hzero, charge_free hearly (not_paying_zero _),
        charge_exhausted h2 hpaying hset (by omega)]

theorem charge_charge (h12 : t1 ≤ t2) (hset : ¬ (m.Paying ∧ m.since = 0)) :
    (m.charge t1).charge t2 = m.charge t2 := by
  by_cases h1 : t1 < m.since + 86400
  · rw [charge_early h1]
  have h2 : ¬ t2 < m.since + 86400 := by omega
  by_cases hpaying : m.Paying
  · have hdate : m.since ≠ 0 := fun h => hset ⟨hpaying, h⟩
    by_cases hdays : m.days t1 ≤ m.left
    · exact charge_charge_enough h12 h1 hpaying hdate hdays
    · have hmono : m.days t1 ≤ m.days t2 := Nat.div_le_div_right (by omega)
      rw [charge_exhausted h1 hpaying hdate hdays, charge_stopped t2 0 (not_paying_zero 0),
        charge_exhausted h2 hpaying hdate (by omega)]
  · rw [charge_free h1 hpaying, charge_stopped t2 m.left hpaying, charge_free h2 hpaying]

theorem charge_set (now : ℕ) (hset : ¬ (m.Paying ∧ m.since = 0)) :
    ¬ ((m.charge now).Paying ∧ (m.charge now).since = 0) := by
  by_cases h : now < m.since + 86400
  · rwa [charge_early h]
  · by_cases hpaying : m.Paying
    · have hdate : m.since ≠ 0 := fun h => hset ⟨hpaying, h⟩
      by_cases hdays : m.days now ≤ m.left
      · rw [charge_enough h hpaying hdate hdays]
        intro hzero
        simp only at hzero
        omega
      · rw [charge_exhausted h hpaying hdate hdays]
        exact fun hzero => not_paying_zero 0 hzero.1
    · rw [charge_free h hpaying]
      exact fun hzero => hpaying hzero.1

theorem foldl_charge {times : List ℕ} {last : ℕ} (hset : ¬ (m.Paying ∧ m.since = 0))
    (h : ∀ t ∈ times, t ≤ last) :
    (times.foldl (fun m t => m.charge t) m).charge last = m.charge last := by
  induction times generalizing m with
  | nil => rfl
  | cons t times ih =>
    obtain ⟨ht, htimes⟩ := List.forall_mem_cons.mp h
    rw [List.foldl_cons, ih (charge_set t hset) htimes, charge_charge ht hset]

theorem charge_left_le (now : ℕ) (m : Meter) : (m.charge now).left ≤ m.left := by
  rw [charge]
  split
  · exact le_rfl
  · split
    · split
      · exact le_rfl
      · split
        · exact Nat.sub_le _ _
        · exact Nat.zero_le _
    · exact le_rfl

theorem charge_left_of_not_paying (h : ¬ m.Paying) : (m.charge now).left = m.left := by
  rw [charge, if_neg h]
  split
  · rfl
  · rfl

end Meter

def meter (account : Account) : Meter := ⟨account.premiumDays.toNat, account.lastDay.toNat⟩

theorem days_toNat {now : ℕ} (hnow : now < 4294967296) (account : Account) :
    (UInt32.ofNat ((now - account.lastDay.toNat) / 86400)).toNat = (meter account).days now :=
  UInt32.toNat_ofNat_of_lt' (by simp only [UInt32.size]; omega)

theorem meter_taken {now : ℕ} {account : Account} (hnow : now < 4294967296)
    (hearly : ¬ now < account.lastDay.toNat + 86400)
    (hdue : (meter account).days now ≤ (meter account).left) :
    meter { account with
        premiumDays := account.premiumDays -
          (UInt32.ofNat ((now - account.lastDay.toNat) / 86400)).toUInt16
        lastDay := UInt32.ofNat (now - (now - account.lastDay.toNat) % 86400) } =
      ⟨(meter account).left - (meter account).days now,
        (meter account).since + 86400 * (meter account).days now⟩ := by
  have hleft := account.premiumDays.toNat_lt
  have hdays := days_toNat hnow account
  simp only [meter, Meter.days] at hdue hdays ⊢
  have hdate : (UInt32.ofNat (now - (now - account.lastDay.toNat) % 86400)).toNat =
      now - (now - account.lastDay.toNat) % 86400 :=
    UInt32.toNat_ofNat_of_lt' (by simp only [UInt32.size]; omega)
  have hcut : (UInt32.ofNat ((now - account.lastDay.toNat) / 86400)).toUInt16.toNat =
      (now - account.lastDay.toNat) / 86400 := by
    rw [UInt32.toNat_toUInt16, hdays]
    exact Nat.mod_eq_of_lt (by omega)
  have hsub : (account.premiumDays -
      (UInt32.ofNat ((now - account.lastDay.toNat) / 86400)).toUInt16).toNat =
        account.premiumDays.toNat - (now - account.lastDay.toNat) / 86400 := by
    rw [UInt16.toNat_sub_of_le _ _ (by rw [UInt16.le_iff_toNat_le, hcut]; exact hdue), hcut]
  rw [hdate, hsub]
  simp only [Meter.mk.injEq, true_and]
  omega

theorem premiumUpdate_meter {now : ℕ} (hnow : now < 4294967296) (account : Account) :
    meter (premiumUpdate now account).1 = (meter account).charge now := by
  have hlast := account.lastDay.toNat_lt
  have hleft := account.premiumDays.toNat_lt
  by_cases hearly : now < account.lastDay.toNat + 86400
  · rw [Meter.charge_early hearly, premiumUpdate]
    dsimp only
    rw [if_pos (by omega)]
  have hlate : ¬ (account.lastDay.toNat > now ∨ now - account.lastDay.toNat < 86400) := by omega
  rw [premiumUpdate]
  dsimp only
  rw [if_neg hlate]
  by_cases hpaying : (meter account).Paying
  · have hcond : account.premiumDays.toNat > 0 ∧
        account.premiumDays.toNat < GRATIS_PREMIUM := hpaying
    rw [if_pos hcond]
    by_cases hzero : account.lastDay.toNat = 0
    · rw [if_pos hzero, Meter.charge_unset hearly hpaying hzero]
      simp only [meter, UInt32.toNat_ofNat_of_lt' hnow]
    · have hdays := days_toNat hnow account
      have hpos : 0 < (meter account).days now := by
        simp only [meter, Meter.days]
        omega
      have hone : UInt32.ofNat ((now - account.lastDay.toNat) / 86400) > 0 := by
        rw [gt_iff_lt, UInt32.lt_iff_toNat_lt, hdays]
        exact hpos
      have hcompare : account.premiumDays.toUInt32 ≥
          UInt32.ofNat ((now - account.lastDay.toNat) / 86400) ↔
            (meter account).days now ≤ (meter account).left := by
        rw [ge_iff_le, UInt32.le_iff_toNat_le, hdays, UInt16.toNat_toUInt32]
        rfl
      rw [if_neg hzero, if_pos hone]
      by_cases hdue : (meter account).days now ≤ (meter account).left
      · rw [if_pos (hcompare.mpr hdue), Meter.charge_enough hearly hpaying hzero hdue]
        exact meter_taken hnow hearly hdue
      · rw [if_neg fun h => hdue (hcompare.mp h),
          Meter.charge_exhausted hearly hpaying hzero hdue]
        rfl
  · have hcond : ¬ (account.premiumDays.toNat > 0 ∧
        account.premiumDays.toNat < GRATIS_PREMIUM) := hpaying
    rw [if_neg hcond, Meter.charge_free hearly hpaying]
    split
    · rfl
    · rename_i hzero
      simp only [ne_eq, not_not] at hzero
      simp only [meter, hzero]

theorem updatePremium_meter {env : Env} (h : env.time < 4294967296) (account : Account)
    (s : Server) : meter (updatePremium env account s).1 = (meter account).charge env.time := by
  rw [updatePremium_fst, premiumUpdate_meter h]

/-- An account with premium days to count and no date to count them from. -/
def Unset (account : Account) : Prop :=
  (1 ≤ account.premiumDays.toNat ∧ account.premiumDays.toNat ≤ 65534) ∧ account.lastDay = 0

theorem meter_eq_iff {a b : Account} :
    meter a = meter b ↔ a.premiumDays = b.premiumDays ∧ a.lastDay = b.lastDay := by
  simp only [meter, Meter.mk.injEq, UInt16.toNat_inj, UInt32.toNat_inj]

theorem meter_unset {account : Account} :
    (meter account).Paying ∧ (meter account).since = 0 ↔ Unset account := by
  have hzero : account.lastDay.toNat = 0 ↔ account.lastDay = 0 := UInt32.toNat_inj (b := 0)
  have hpaying : (meter account).Paying ↔
      1 ≤ account.premiumDays.toNat ∧ account.premiumDays.toNat ≤ 65534 :=
    and_congr_right fun _ => Nat.lt_succ_iff
  exact and_congr hpaying hzero

def updatePremiums (updates : List (Env × Server)) (account : Account) : Account :=
  updates.foldl (fun account p => (updatePremium p.1 account p.2).1) account

theorem updatePremiums_meter {updates : List (Env × Server)}
    (h : ∀ p ∈ updates, p.1.time < 4294967296) (account : Account) :
    meter (updatePremiums updates account) =
      (updates.map (·.1.time)).foldl (fun m t => m.charge t) (meter account) := by
  induction updates generalizing account with
  | nil => rfl
  | cons p updates ih =>
    obtain ⟨hp, hrest⟩ := List.forall_mem_cons.mp h
    rw [updatePremiums, List.foldl_cons, ← updatePremiums, ih hrest, updatePremium_meter hp]
    rfl

/-- However many updates there were before it, an update gives what it gives without them. -/
theorem meter_updatePremiums (earlier : List (Env × Server)) (later : Env) (account : Account)
    (u v : Server) (hset : ¬ Unset account) (hle : ∀ p ∈ earlier, p.1.time ≤ later.time)
    (hlater : later.time < 4294967296) :
    meter (updatePremium later (updatePremiums earlier account) u).1 =
      meter (updatePremium later account v).1 := by
  have hearlier : ∀ p ∈ earlier, p.1.time < 4294967296 := fun p hp =>
    Nat.lt_of_le_of_lt (hle p hp) hlater
  have htimes : ∀ t ∈ earlier.map (·.1.time), t ≤ later.time := List.forall_mem_map.mpr hle
  rw [updatePremium_meter hlater, updatePremium_meter hlater, updatePremiums_meter hearlier,
    Meter.foldl_charge (fun h => hset (meter_unset.mp h)) htimes]

/-- An update in between changes nothing, whatever the tables do with it; no update adds days,
and none takes any from an account that is premium for good. -/
theorem premium_update_twice (earlier later : Env) (account : Account) (s u v : Server)
    (hset : ¬ Unset account) (hle : earlier.time ≤ later.time)
    (hlater : later.time < 4294967296) :
    let between := (updatePremium earlier account s).1
    let twice := (updatePremium later between u).1
    let once := (updatePremium later account v).1
    twice.premiumDays = once.premiumDays ∧ twice.lastDay = once.lastDay ∧
      once.premiumDays ≤ account.premiumDays ∧
      (account.premiumDays.toNat = GRATIS_PREMIUM → once.premiumDays = account.premiumDays) := by
  intro between twice once
  have hsame : meter twice = meter once :=
    meter_updatePremiums [(earlier, s)] later account u v hset
      (List.forall_mem_singleton.mpr hle) hlater
  have hdays : once.premiumDays.toNat = ((meter account).charge later.time).left :=
    congrArg Meter.left (updatePremium_meter hlater account v)
  obtain ⟨hpremium, hdate⟩ := meter_eq_iff.mp hsame
  refine ⟨hpremium, hdate, ?_, fun hgratis => ?_⟩
  · rw [UInt16.le_iff_toNat_le, hdays]
    exact Meter.charge_left_le _ _
  · have hfree : ¬ (meter account).Paying := fun h => absurd h.2 (by simp [meter, hgratis])
    rw [← UInt16.toNat_inj, hdays, Meter.charge_left_of_not_paying hfree]
    rfl

def monthly : Account := { Account.empty with premiumDays := 30, lastDay := 100000 }

def plainEnvAt (time : ℕ) : Env := { plainEnv with time := time }

/-- An update after a day and an hour leaves the hour to the next one. -/
theorem monthly_updated_twice :
    (updatePremium (plainEnvAt 275000) (updatePremium (plainEnvAt 190000) monthly bannedServer).1
      bannedServer).1.premiumDays = 28 ∧
    (updatePremium (plainEnvAt 275000) (updatePremium (plainEnvAt 190000) monthly bannedServer).1
      bannedServer).1.lastDay = 272800 := by
  obtain ⟨hpremium, hlast, _⟩ := premium_update_twice (plainEnvAt 190000) (plainEnvAt 275000)
    monthly bannedServer bannedServer bannedServer (fun h => absurd h.2 (by decide)) (by decide)
    (by decide)
  have honce := updatePremium_fst (plainEnvAt 275000) monthly bannedServer
  rw [hpremium, hlast, honce]
  decide

end LoginServer.Io
