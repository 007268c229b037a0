import LoginServer.Authorisation
import LoginServer.Library.States
import Mathlib.Data.List.Forall2
import Mathlib.Data.List.Nodup

/-! # What logins may change

Of all that a login reads, only two statements write: the one that lifts expired bans, and the one
that stores the premium days of an account that was let in. The rest of the tables stays as it is
over any number of logins and whatever the database makes of their statements, and without a
password that fits, no account is touched at all. -/
namespace LoginServer.Io

open Bytes Accounts Sql Attempts States Encryption CharacterList

/-- What a login at `now` may store as the last day: none, or a moment less than a day ago. -/
def StoredDay (now : ℕ) (lastDay : UInt32) : Prop :=
  lastDay = 0 ∨ ∃ r < 86400, lastDay = UInt32.ofNat (now - r)

/-- The account is that of the row, but for the days that logins at these times have charged. -/
structure Drawn (times : List ℕ) (row : AccountRow) (account : Account) : Prop where
  number : account.number = row.id
  warnings : account.warnings = row.warnings.getDataInt.toUInt32.toUInt16
  premiumDays : account.premiumDays ≤ clampPremium row.premium_days.getDataInt
  lastDay : account.lastDay = row.lastday.getDataInt.toUInt32 ∨
    ∃ now ∈ times, StoredDay now account.lastDay

/-- A row is as it was, or `saveAccount` has stored such an account in its three columns. -/
def Charged (times : List ℕ) (a b : AccountRow) : Prop :=
  b = a ∨ ∃ account, Drawn times a account ∧ b = { a with
    premium_days := .int64 (Int64.ofNat account.premiumDays.toNat)
    warnings := .int64 (Int64.ofNat account.warnings.toNat)
    lastday := .int64 (Int64.ofNat account.lastDay.toNat) }

/-- A ban is as it was, or it had a date to expire at and that has come. -/
def OnlyLifted (now : ℤ) (a b : BanRow) : Prop :=
  b = a ∨ b = { a with active := 0 } ∧ a.active = 1 ∧ ∃ e, a.expires_at = some e ∧ e ≤ now

/-- What logins at these times, and until `now`, may have made of the tables. -/
structure Kept (times : List ℕ) (now : ℤ) (before after : Tables) : Prop where
  players : after.players = before.players
  accounts : List.Forall₂ (Charged times) before.accounts after.accounts
  bans : List.Forall₂ (OnlyLifted now) before.bans after.bans

/-- A name that is cached is the one that the statement would find. -/
def CacheAgrees (t : Tables) (nameCacheMap : Std.TreeMap UInt32 (List UInt8)) : Prop :=
  ∀ guid name, nameCacheMap[guid]? = some name →
    ∃ row, nameRows guid t = [row] ∧ row.name.getDataString = name

theorem lift_onlyLifted {now later : ℤ} (h : now ≤ later) (b : BanRow) :
    OnlyLifted later b (b.lift now) := by
  rw [BanRow.lift]
  split
  · exact Or.inl rfl
  · rename_i e he
    split
    · rename_i hexpired
      exact Or.inr ⟨rfl, hexpired.1, e, he, Int.le_trans hexpired.2 h⟩
    · exact Or.inl rfl

theorem OnlyLifted.trans {now : ℤ} {a b c : BanRow} (h : OnlyLifted now a b)
    (k : OnlyLifted now b c) : OnlyLifted now a c := by
  rcases h with rfl | ⟨rfl, hactive, he⟩
  · exact k
  · rcases k with rfl | ⟨_, hactive', _⟩
    · exact Or.inr ⟨rfl, hactive, he⟩
    · change (0 : Int64) = 1 at hactive'
      cases hactive'

theorem forall₂_trans {α : Type} {R : α → α → Prop} (hR : ∀ a b c, R a b → R b c → R a c)
    {l k m : List α} (h : List.Forall₂ R l k) (h' : List.Forall₂ R k m) : List.Forall₂ R l m := by
  induction h generalizing m with
  | nil => exact h'
  | cons hab _ ih =>
    cases h' with
    | cons hbc h' => exact .cons (hR _ _ _ hab hbc) (ih h')

theorem exists_of_forall₂ {α : Type} {R : α → α → Prop} {l k : List α} (h : List.Forall₂ R l k)
    {b : α} (hb : b ∈ k) : ∃ a ∈ l, R a b := by
  induction h with
  | nil => exact absurd hb List.not_mem_nil
  | cons hab _ ih =>
    rcases List.mem_cons.mp hb with rfl | hb
    · exact ⟨_, List.mem_cons_self, hab⟩
    · obtain ⟨a, ha, hR⟩ := ih hb
      exact ⟨a, List.mem_cons_of_mem _ ha, hR⟩

section Rows

variable {times : List ℕ} {now : ℤ}

theorem Kept.refl (t : Tables) : Kept times now t t :=
  ⟨rfl, List.forall₂_same.mpr fun _ _ => Or.inl rfl, List.forall₂_same.mpr fun _ _ => Or.inl rfl⟩

theorem Kept.lift {earlier : ℤ} (h : earlier ≤ now) {s t : Tables} (hk : Kept times now s t) :
    Kept times now s { t with bans := t.bans.map (BanRow.lift earlier) } := by
  refine ⟨hk.players, hk.accounts, forall₂_trans (fun _ _ _ h k => h.trans k) hk.bans ?_⟩
  rw [List.forall₂_map_right_iff]
  exact List.forall₂_same.mpr fun b _ => lift_onlyLifted h b

theorem clampPremium_stored (days : UInt16) :
    clampPremium (Field.int64 (Int64.ofNat days.toNat)).getDataInt = days := by
  have hlt := days.toNat_lt
  have hint : (Int64.ofNat days.toNat).toInt32.toInt = days.toNat := by
    rw [Int64.toInt_toInt32, Int64.toInt_ofNat_of_lt (by omega)]
    exact Int.bmod_eq_of_le (by omega) (by omega)
  have hmax : ¬ (days.toNat : ℤ) > GRATIS_PREMIUM := by
    simp only [GRATIS_PREMIUM]
    omega
  simp only [clampPremium, Field.getDataInt, hint, if_neg hmax, Int.toNat_natCast,
    UInt16.ofNat_toNat]

theorem warnings_stored (warnings : UInt16) :
    (Field.int64 (Int64.ofNat warnings.toNat)).getDataInt.toUInt32.toUInt16 = warnings := by
  have hlt := warnings.toNat_lt
  have hint : (Int64.ofNat warnings.toNat).toInt32 = Int32.ofNat warnings.toNat := by
    rw [← Int32.toInt_inj, Int64.toInt_toInt32, Int64.toInt_ofNat_of_lt (by omega),
      Int32.toInt_ofNat_of_lt (by omega)]
    exact Int.bmod_eq_of_le (by omega) (by omega)
  rw [Field.getDataInt, hint, Int32.toUInt32_ofNat', UInt32.toUInt16_ofNat', UInt16.ofNat_toNat]

theorem lastDay_stored (lastDay : UInt32) :
    (Field.int64 (Int64.ofNat lastDay.toNat)).getDataInt.toUInt32 = lastDay := by
  rw [Field.getDataInt, Int64.toInt32_ofNat', Int32.toUInt32_ofNat', UInt32.ofNat_toNat]

theorem premiumUpdate_premiumDays (now : ℕ) (account : Account) :
    (premiumUpdate now account).1.premiumDays ≤ account.premiumDays := by
  have hsub : ∀ days : UInt32, account.premiumDays.toUInt32 ≥ days →
      account.premiumDays - days.toUInt16 ≤ account.premiumDays := by
    intro days h
    have hlt := account.premiumDays.toNat_lt
    rw [ge_iff_le, UInt32.le_iff_toNat_le, UInt16.toNat_toUInt32] at h
    have hdays : days.toUInt16 ≤ account.premiumDays := by
      rw [UInt16.le_iff_toNat_le, UInt32.toNat_toUInt16]
      omega
    rw [UInt16.le_iff_toNat_le, UInt16.toNat_sub_of_le _ _ hdays]
    omega
  rw [premiumUpdate]
  dsimp only
  repeat' split
  all_goals first
    | exact UInt16.le_refl _
    | exact UInt16.zero_le
    | (apply hsub; assumption)

theorem premiumUpdate_warnings (now : ℕ) (account : Account) :
    (premiumUpdate now account).1.warnings = account.warnings := by
  rw [premiumUpdate]
  dsimp only
  repeat' split
  all_goals exact rfl

theorem premiumUpdate_lastDay (now : ℕ) (account : Account) :
    (premiumUpdate now account).1.lastDay = account.lastDay ∨
      StoredDay now (premiumUpdate now account).1.lastDay := by
  rw [premiumUpdate]
  dsimp only
  repeat' split
  all_goals first
    | exact .inl rfl
    | exact .inr (.inl rfl)
    | exact .inr (.inr ⟨0, by decide, rfl⟩)
    | exact .inr (.inr ⟨_, Nat.mod_lt _ (by decide), rfl⟩)

theorem Drawn.update {row : AccountRow} {account : Account} (h : Drawn times row account)
    {time : ℕ} (htime : time ∈ times) : Drawn times row (premiumUpdate time account).1 where
  number := (premiumUpdate_keeps time account).1.trans h.number
  warnings := (premiumUpdate_warnings time account).trans h.warnings
  premiumDays := UInt16.le_trans (premiumUpdate_premiumDays time account) h.premiumDays
  lastDay := by
    rcases premiumUpdate_lastDay time account with he | hstored
    · rw [he]
      exact h.lastDay
    · exact .inr ⟨time, htime, hstored⟩

/-- What is loaded from a row that logins have stored to is still drawn from the first one. -/
theorem Charged.load {a b : AccountRow} (h : Charged times a b) (name : List UInt8)
    (charList : Characters) : Drawn times a { AccountRow.load b name with charList := charList } := by
  rcases h with rfl | ⟨account, hdrawn, rfl⟩
  · exact ⟨rfl, rfl, UInt16.le_refl _, .inl rfl⟩
  · refine ⟨rfl, ?_, ?_, ?_⟩
    · exact (warnings_stored account.warnings).trans hdrawn.warnings
    · exact Eq.trans_le (clampPremium_stored account.premiumDays) hdrawn.premiumDays
    · change (Field.int64 (Int64.ofNat account.lastDay.toNat)).getDataInt.toUInt32 = _ ∨
        ∃ now ∈ times,
          StoredDay now (Field.int64 (Int64.ofNat account.lastDay.toNat)).getDataInt.toUInt32
      rw [lastDay_stored]
      exact hdrawn.lastDay

/-- The `UPDATE` of an account, where numbers are unique: the row that it stores to is the one
that the account was read from. -/
theorem saveAccountRow_charged {rows stored : List AccountRow}
    (h : List.Forall₂ (Charged times) rows stored) {account : Account}
    (hkey : (rows.map (·.id)).Nodup) {a : AccountRow} (ha : a ∈ rows)
    (hdrawn : Drawn times a account) :
    List.Forall₂ (Charged times) rows (saveAccountRow account stored) := by
  have hrow : ∀ b ∈ rows, b.id = account.number → b = a := fun b hb hn =>
    List.inj_on_of_nodup_map hkey hb ha (hn.trans hdrawn.number)
  clear hkey ha
  induction h with
  | nil => exact .nil
  | @cons b c rows stored hbc hrest ih =>
    have hid : c.id = b.id := by
      rcases hbc with rfl | ⟨_, _, rfl⟩ <;> rfl
    rw [saveAccountRow]
    split
    · rename_i hn
      obtain rfl : b = a := hrow b List.mem_cons_self (hid.symm.trans hn)
      refine .cons (.inr ⟨account, hdrawn, ?_⟩) hrest
      rcases hbc with rfl | ⟨_, _, rfl⟩ <;> rfl
    · exact .cons hbc (ih fun b hb => hrow b (List.mem_cons_of_mem _ hb))

end Rows

/-! ## The functions of a login -/

/-- A property of the tables and of the cached names, and of no more of the server. -/
def OfStore (P : Tables → Std.TreeMap UInt32 (List UInt8) → Prop) (s : Server) : Prop :=
  P s.tables s.nameCacheMap

variable {P : Tables → Std.TreeMap UInt32 (List UInt8) → Prop}

theorem storeQuery_gives {α : Type} (select : Tables → List α) :
    Gives (OfStore P) (fun r => ∀ result, r = some result →
      ∃ t c, P t c ∧ select t = result.toList) (storeQuery select) := by
  intro s h
  rw [storeQuery_run]
  refine ⟨?_, h⟩
  intro result hr
  split at hr
  · refine ⟨s.tables, s.nameCacheMap, h, ?_⟩
    cases hs : select s.tables with
    | nil => simp [hs, verifyResult] at hr
    | cons row rows =>
      rw [hs, verifyResult, Option.some.injEq] at hr
      rw [← hr, DBResult.toList]
  · cases hr

theorem storeQuery_keeps {α : Type} (select : Tables → List α) :
    Keeps (OfStore P) (storeQuery select) :=
  (storeQuery_gives select).keeps

theorem query_keeps {update : Tables → Tables} (hu : ∀ t c, P t c → P (update t) c) :
    Keeps (OfStore P) (query update) := by
  intro s h
  rw [query, Session.query_eq]
  change P (if s.db.m_connected then (s.schedule 0).effect update s.tables else s.tables)
    s.nameCacheMap
  split
  · exact Attempt.effect_induct (fun t => hu t s.nameCacheMap) _ h
  · exact h

theorem checkBanishments_keeps (env : Env)
    (hlift : ∀ t c, P t c → P { t with bans := t.bans.map (BanRow.lift env.now) } c) :
    Keeps (OfStore P) (checkBanishments env) :=
  query_keeps hlift

theorem isIpBanished_keeps (env : Env) (ip : UInt32) :
    Keeps (OfStore P) (isIpBanished env ip) := by
  refine Keeps.ite (Keeps.pure _) (Keeps.bind (storeQuery_keeps _) fun result => ?_)
  cases result <;> exact Keeps.pure _

/-- What is loaded comes from the row that the name selects. -/
def FromRow (P : Tables → Std.TreeMap UInt32 (List UInt8) → Prop) (env : Env)
    (name : List UInt8) (loaded : Bool × Account) : Prop :=
  loaded.1 = true → ∃ t c, P t c ∧ ∃ row charList, accountRows env name t = [row] ∧
    loaded.2 = { AccountRow.load row name with charList := charList }

theorem loadAccount_gives (env : Env) (name : List UInt8) :
    Gives (OfStore P) (FromRow P env name) (loadAccount env name) := by
  apply Gives.bind (storeQuery_gives _)
  intro result hresult
  cases result with
  | none => exact Gives.pure fun h => absurd h Bool.false_ne_true
  | some result =>
    obtain ⟨t, c, ht, hrows⟩ := hresult result rfl
    have hrow : accountRows env name t = [result.row] := by
      rcases accountRows_cases env name t with hnil | ⟨row, hrow⟩
      · rw [hnil] at hrows
        cases hrows
      · rw [hrow] at hrows ⊢
        rw [(List.cons.inj hrows).1]
    apply Gives.bind (storeQuery_gives _)
    intro players _
    cases players with
    | none => exact Gives.pure fun _ => ⟨t, c, ht, result.row, ∅, hrow, rfl⟩
    | some players => exact Gives.pure fun _ => ⟨t, c, ht, result.row, _, hrow, rfl⟩

theorem findCasters_keeps (env : Env) (account : Account) :
    Keeps (OfStore P) (findCasters env account) := by
  refine Keeps.ite (Keeps.bind (storeQuery_keeps _) fun result => ?_) (Keeps.pure _)
  cases result <;> exact Keeps.pure _

/-- A name that was looked up may be added to the cached ones. -/
def Caches (P : Tables → Std.TreeMap UInt32 (List UInt8) → Prop) : Prop :=
  ∀ t c guid row, P t c → nameRows guid t = [row] → P t (c.insert guid row.name.getDataString)

theorem getNameByGuid_keeps (hcache : Caches P) (guid : UInt32) :
    Keeps (OfStore P) (getNameByGuid guid) := by
  intro s h
  have hget : (get : ServerM Server) s = (s, s) := rfl
  rw [getNameByGuid, bind_run, hget]
  dsimp only
  cases s.nameCacheMap[guid]? with
  | some name => exact h
  | none =>
    dsimp only
    rw [bind_run, storeQuery_run]
    cases hresult : (if s.serves then verifyResult (nameRows guid s.tables) else none) with
    | none => exact h
    | some result =>
      refine hcache s.tables s.nameCacheMap guid result.row h ?_
      split at hresult
      · have htake : (nameRows guid s.tables).length ≤ 1 := by
          rw [nameRows]
          exact List.length_take_le 1 _
        cases hrows : nameRows guid s.tables with
        | nil => simp [hrows, verifyResult] at hresult
        | cons row rows =>
          rw [hrows, verifyResult, Option.some.injEq] at hresult
          rw [hrows, List.length_cons] at htake
          obtain rfl : rows = [] := List.length_eq_zero_iff.mp (by omega)
          rw [← hresult]
      · cases hresult

theorem bannedByName_keeps (hcache : Caches P) (ban : Ban) :
    Keeps (OfStore P) (bannedByName ban) := by
  refine Keeps.ite (Keeps.pure _) (Keeps.bind (getNameByGuid_keeps hcache _) fun name => ?_)
  cases name <;> exact Keeps.pure _

theorem getBanishment_keeps (env : Env) (type : BanType) (target : List UInt8) :
    Keeps (OfStore P) (getBanishment env type target) := by
  apply Keeps.bind (storeQuery_keeps _)
  intro result
  cases result <;> exact Keeps.pure _

theorem recordAttempt_keeps (env : Env) (clientIp : UInt32) (success : Bool) :
    Keeps (OfStore P) (recordAttempt env clientIp success) :=
  fun _ h => h

theorem checkAccount_keeps {L : Account → Prop} (hcache : Caches P)
    (env : Env) (hupdate : ∀ account, L account → L (premiumUpdate env.time account).1)
    (hsave : ∀ account t c, L account → P t c →
      P { t with accounts := saveAccountRow account t.accounts } c)
    (clientIp : UInt32) {account : Account} (h : L account) :
    Keeps (OfStore P) (checkAccount env clientIp account) := by
  have hpremium : Keeps (OfStore P) (updatePremium env account) := by
    have hl := hupdate account h
    rw [updatePremium]
    generalize premiumUpdate env.time account = p at hl
    obtain ⟨updated, save⟩ := p
    exact Keeps.ite (Keeps.bind (query_keeps fun t c => hsave updated t c hl) fun _ =>
      Keeps.pure _) (Keeps.pure _)
  have hlist : Keeps (OfStore P) (listCharacters env clientIp account) := by
    apply Keeps.bind hpremium
    intro account
    refine Keeps.ite (Keeps.pure _) (Keeps.bind (recordAttempt_keeps _ _ _) fun _ => ?_)
    exact Keeps.bind (findCasters_keeps env account) fun _ => Keeps.pure _
  apply Keeps.bind (getBanishment_keeps env _ _)
  intro ban
  cases ban with
  | none => exact hlist
  | some ban => exact Keeps.bind (bannedByName_keeps hcache ban) fun _ => Keeps.pure _

theorem loggedTest_password (env : Env) (password : List UInt8) (loaded : Bool)
    (account : Account) : ∃ hash, loggedTest env password loaded account =
      { account with password := hash } := by
  rw [loggedTest]
  split
  · exact ⟨_, rfl⟩
  · exact ⟨account.password, rfl⟩

/-- A login keeps what its statements keep, of which only two write. -/
theorem delegate_keeps {L : Account → Prop} (hcache : Caches P)
    (env : Env) (hupdate : ∀ account, L account → L (premiumUpdate env.time account).1)
    (hhash : ∀ account hash, L account → L { account with password := hash })
    (hsave : ∀ account t c, L account → P t c →
      P { t with accounts := saveAccountRow account t.accounts } c)
    (hlift : ∀ t c, P t c → P { t with bans := t.bans.map (BanRow.lift env.now) } c)
    {name : List UInt8} (hload : ∀ loaded, FromRow P env name loaded → loaded.1 = true →
      L loaded.2)
    (password : List UInt8) (clientIp : UInt32) :
    Keeps (OfStore P) (delegate env name password clientIp) := by
  have hauthenticate : Keeps (OfStore P) (authenticate env name password clientIp) := by
    refine Gives.keeps (P := fun _ => True) (Gives.bind (loadAccount_gives env name) ?_)
    rintro ⟨loaded, account⟩ hfrom
    refine Gives.of_keeps ?_
    dsimp only
    split
    · exact Keeps.bind (recordAttempt_keeps _ _ _) fun _ => Keeps.pure _
    · rename_i hpassed
      obtain ⟨hash, hlogged⟩ := loggedTest_password env password loaded account
      have htrue : loaded = true := by
        cases loaded with
        | true => rfl
        | false => exact absurd (Or.inl rfl) hpassed
      rw [hlogged]
      apply checkAccount_keeps hcache env hupdate hsave clientIp
      split <;> exact hhash _ _ (hhash _ _ (hload _ hfrom htrue))
  apply Keeps.bind (checkBanishments_keeps env hlift)
  intro _
  apply Keeps.bind (isIpBanished_keeps env clientIp)
  intro banned
  exact Keeps.ite (Keeps.pure _) hauthenticate

/-! ## Runs of logins -/

structure Arrival where
  env : Env
  name : List UInt8
  password : List UInt8
  clientIp : UInt32

def delegateAll (arrivals : List Arrival) : ServerM (List Verdict) :=
  arrivals.mapM fun a => delegate a.env a.name a.password a.clientIp

theorem cacheAgrees_insert {t : Tables} {c : Std.TreeMap UInt32 (List UInt8)}
    (h : CacheAgrees t c) {guid : UInt32} {row : PlayerRow} (hrow : nameRows guid t = [row]) :
    CacheAgrees t (c.insert guid row.name.getDataString) := by
  intro other name hname
  rw [Std.TreeMap.getElem?_insert] at hname
  split at hname
  · rename_i hcompare
    rw [← Std.LawfulEqCmp.eq_of_compare hcompare]
    exact ⟨row, hrow, Option.some.inj hname⟩
  · exact h other name hname

def KeptStore (times : List ℕ) (now : ℤ) (before t : Tables)
    (c : Std.TreeMap UInt32 (List UInt8)) : Prop :=
  Kept times now before t ∧ CacheAgrees t c

theorem cacheAgrees_of_players {t u : Tables} {c : Std.TreeMap UInt32 (List UInt8)}
    (h : CacheAgrees t c) (hplayers : u.players = t.players) : CacheAgrees u c := by
  intro guid name hname
  obtain ⟨row, hrow, hr⟩ := h guid name hname
  refine ⟨row, ?_, hr⟩
  rw [nameRows, hplayers]
  exact hrow

/-- Whatever comes of the statements of any number of logins, the players stay as they are, a row
of an account is as it was or stores the same account with fewer premium days or another last day,
only bans that have expired are lifted, and the names that are cached are those of the table. -/
theorem logins_only_charge (arrivals : List Arrival) {now : ℤ} (s : Server)
    (hnow : ∀ a ∈ arrivals, a.env.now ≤ now) (hkey : (s.tables.accounts.map (·.id)).Nodup)
    (hcache : CacheAgrees s.tables s.nameCacheMap) :
    Kept (arrivals.map (·.env.time)) now s.tables (delegateAll arrivals s).2.tables ∧
      CacheAgrees (delegateAll arrivals s).2.tables (delegateAll arrivals s).2.nameCacheMap := by
  let times := arrivals.map (·.env.time)
  have hkeeps : Keeps (OfStore (KeptStore times now s.tables)) (delegateAll arrivals) := by
    apply Keeps.mapM
    intro a ha
    apply delegate_keeps (L := fun account => ∃ row ∈ s.tables.accounts, Drawn times row account)
    case hcache => exact fun t c guid row h hrow => ⟨h.1, cacheAgrees_insert h.2 hrow⟩
    case hupdate =>
      rintro account ⟨row, hrow, hdrawn⟩
      exact ⟨row, hrow, hdrawn.update (List.mem_map_of_mem ha)⟩
    case hhash =>
      rintro account hash ⟨row, hrow, hdrawn⟩
      exact ⟨row, hrow, hdrawn.number, hdrawn.warnings, hdrawn.premiumDays, hdrawn.lastDay⟩
    case hsave =>
      rintro account t c ⟨row, hrow, hdrawn⟩ ⟨hk, hc⟩
      exact ⟨⟨hk.players, saveAccountRow_charged hk.accounts hkey hrow hdrawn, hk.bans⟩,
        cacheAgrees_of_players hc rfl⟩
    case hlift =>
      rintro t c ⟨hk, hc⟩
      exact ⟨hk.lift (hnow a ha), cacheAgrees_of_players hc rfl⟩
    case hload =>
      intro loaded hfrom hl
      obtain ⟨t, c, ⟨hk, _⟩, row, charList, hrow, hloaded⟩ := hfrom hl
      have hmem : row ∈ t.accounts :=
        List.mem_of_mem_filter (List.mem_of_mem_take (hrow ▸ List.mem_singleton_self row))
      obtain ⟨first, hfirst, hcharged⟩ := exists_of_forall₂ hk.accounts hmem
      rw [hloaded]
      exact ⟨first, hfirst, hcharged.load a.name charList⟩
  exact hkeeps s ⟨Kept.refl s.tables, hcache⟩

def nameLogin (password : String) : Arrival := ⟨plainEnv, ascii "name", ascii password, 0x0100007F⟩

def premiumServer : Server where
  t_holder := some ⟨true⟩
  connection := up
  schedule _ := ⟨up, up, up⟩
  tables := ⟨[{ storedAccount with
    premium_days := .int64 30, lastday := .int64 999700000, warnings := .int64 65537 }],
    [storedPlayer], []⟩
  nameCacheMap := ∅
  ipLoginMap := ∅

theorem name_logins_charge :
    Kept [1000000000, 1000000000, 1000000000] 1000000000 premiumServer.tables
      (delegateAll [nameLogin "secret", nameLogin "guess", nameLogin "secret"]
        premiumServer).2.tables :=
  (logins_only_charge [nameLogin "secret", nameLogin "guess", nameLogin "secret"] premiumServer
    (by decide +kernel) (by decide) fun guid name h => by simp [premiumServer] at h).1

/-- The name selects the account of the guests, or one whose password this is. -/
def Fits (env : Env) (tables : Tables) (name password : List UInt8) : Prop :=
  ∃ row, accountRows env name tables = [row] ∧ (row.id = 10 ∨ PasswordMatches env password row)

theorem delegate_refuses {A : List AccountRow} {B : List PlayerRow}
    {C : Std.TreeMap UInt32 (List UInt8)} {env : Env} {name password : List UInt8}
    (h : ∀ t : Tables, t.accounts = A → ¬ Fits env t name password) (clientIp : UInt32) :
    Gives (OfStore fun t c => t.accounts = A ∧ t.players = B ∧ c = C)
      (fun v => v = .invalid ∨ v = .ipBanished) (delegate env name password clientIp) := by
  have hauthenticate : Gives (OfStore fun t c => t.accounts = A ∧ t.players = B ∧ c = C)
      (fun v => v = .invalid ∨ v = .ipBanished) (authenticate env name password clientIp) := by
    apply Gives.bind (loadAccount_gives env name)
    rintro ⟨loaded, account⟩ hfrom
    refine Gives.ite (fun _ => ?_) fun hpassed => ?_
    · exact Gives.bind (Gives.of_keeps (recordAttempt_keeps _ _ _)) fun _ _ =>
        Gives.pure (Or.inl rfl)
    · -- The account was loaded, and the password test was passed or not made.
      exfalso
      obtain ⟨hloaded, htest⟩ := not_or.mp hpassed
      have htrue : loaded = true := by simpa using hloaded
      obtain ⟨t, c, ⟨ha, _⟩, row, charList, hrow, haccount⟩ := hfrom htrue
      dsimp only at haccount
      refine h t ha ⟨row, hrow, ?_⟩
      by_contra hno
      obtain ⟨h10, hmismatch⟩ := not_or.mp hno
      have hnumber : account.number ≠ 10 := by
        rw [haccount]
        exact h10
      obtain ⟨hagain, hlogged⟩ := loggedTest_run env password hnumber
      subst htrue
      apply htest
      change (loggedTest env password true account).number ≠ 10 ∧
        (!(encryptTest env.digests env.g_config
          ((loggedTest env password true account).salt ++ password)
          (loggedTest env password true account).password).1) = true
      rw [hagain, hlogged]
      refine ⟨hnumber, ?_⟩
      rw [Bool.not_eq_true', Bool.eq_false_iff, haccount]
      exact hmismatch
  apply Gives.bind (Gives.of_keeps (checkBanishments_keeps env fun t c h => h))
  intro _ _
  apply Gives.bind (Gives.of_keeps (isIpBanished_keeps env clientIp))
  intro banned _
  exact Gives.ite (fun _ => Gives.pure (Or.inr rfl)) fun _ => hauthenticate

/-- Guessing, however often, leaves the accounts, the players and the cached names as they were,
and gets no other answer than the two refusals. -/
theorem guesses_touch_nothing (arrivals : List Arrival) (s : Server)
    (hguess : ∀ a ∈ arrivals, ¬ Fits a.env s.tables a.name a.password) :
    (∀ v ∈ (delegateAll arrivals s).1, v = .invalid ∨ v = .ipBanished) ∧
      (delegateAll arrivals s).2.tables.accounts = s.tables.accounts ∧
      (delegateAll arrivals s).2.tables.players = s.tables.players ∧
      (delegateAll arrivals s).2.nameCacheMap = s.nameCacheMap := by
  have hrefuses : ∀ a ∈ arrivals, Gives (OfStore fun t c => t.accounts = s.tables.accounts ∧
      t.players = s.tables.players ∧ c = s.nameCacheMap)
      (fun v => v = .invalid ∨ v = .ipBanished)
      (delegate a.env a.name a.password a.clientIp) := by
    intro a ha
    apply delegate_refuses
    rintro t ht ⟨row, hrow, hfits⟩
    refine hguess a ha ⟨row, ?_, hfits⟩
    rw [accountRows, ← ht]
    exact hrow
  exact Gives.mapM hrefuses s ⟨rfl, rfl, rfl⟩

theorem name_guesses_refused :
    (delegateAll [nameLogin "guess", nameLogin "sesame"] bannedServer).2.tables.accounts =
      [storedAccount] := by
  have hwrong : ∀ a ∈ [nameLogin "guess", nameLogin "sesame"],
      ¬ Fits a.env bannedServer.tables a.name a.password := by
    have hfits : ∀ guess ∈ ["guess", "sesame"],
        ¬ Fits plainEnv bannedServer.tables (ascii "name") (ascii guess) := by
      rintro guess hguess ⟨row, hrow, h10 | hpassword⟩
      · obtain rfl : storedAccount = row := (List.cons.inj hrow).1
        exact absurd h10 (by decide)
      · obtain rfl : storedAccount = row := (List.cons.inj hrow).1
        revert hpassword
        unfold PasswordMatches
        revert guess
        decide +kernel
    rintro a ha
    rcases List.mem_pair.mp ha with rfl | rfl
    · exact hfits "guess" (by decide)
    · exact hfits "sesame" (by decide)
  exact (guesses_touch_nothing _ bannedServer hwrong).2.1

end LoginServer.Io
