import LoginServer.DatabaseOutage
import LoginServer.Delegate

/-! # Who gets a character list

The statements of one login are numbered in the order in which `delegate` issues them. One that
fails for good leaves the thread without a connection, so every later one fails too; what a
failure lets through is decided by the last statement before the list, the search for a ban of
the account. -/
namespace LoginServer.Io

open Bytes Accounts Sql Attempts Encryption CharacterList

/-- The first `n` statements are all executed. -/
def Server.executed (s : Server) (n : ℕ) : Bool :=
  s.db.m_connected && (List.range n).all fun i => (s.schedule i).succeeds

theorem Server.executed_succ (s : Server) (n : ℕ) :
    s.executed (n + 1) = (s.executed n && (s.schedule n).succeeds) := by
  simp [executed, List.range_succ, Bool.and_assoc]

theorem Server.executed_of_le {s : Server} {m n : ℕ} (h : s.executed n = true) (hle : m ≤ n) :
    s.executed m = true := by
  induction hle with
  | refl => exact h
  | step _ ih =>
    rw [executed_succ, Bool.and_eq_true] at h
    exact ih h.1

/-- `u` stands behind `n` statements of a login that began in `s`. Only bans that had expired may
have changed. -/
structure Behind (now : ℤ) (s u : Server) (n : ℕ) : Prop where
  connected : u.db.m_connected = s.executed n
  schedule : ∀ i, u.schedule i = s.schedule (n + i)
  accounts : u.tables.accounts = s.tables.accounts
  players : u.tables.players = s.tables.players
  bans : ∀ p : BanRow → Bool, (u.tables.bans.filter fun b => p b && b.inForce now) =
    s.tables.bans.filter fun b => p b && b.inForce now

namespace Behind

variable {env : Env} {s u : Server} {n : ℕ}

theorem serves {now : ℤ} (h : Behind now s u n) : u.serves = s.executed (n + 1) := by
  rw [Session.serves, h.connected, h.schedule 0, Server.executed_succ]
  rfl

theorem next {now : ℤ} (h : Behind now s u n) : Behind now s u.next (n + 1) where
  connected := h.serves
  schedule := fun i => by
    have hi := h.schedule (i + 1)
    rw [show n + 1 + i = n + (i + 1) by omega]
    exact hi
  accounts := h.accounts
  players := h.players
  bans := h.bans

/-- A statement selects what it would have selected at the start, if it is executed. -/
theorem storeQuery_run {α : Type} {now : ℤ} (h : Behind now s u n) (select : Tables → List α)
    (hs : select u.tables = select s.tables) :
    storeQuery select u =
      (if s.executed (n + 1) then verifyResult (select s.tables) else none, u.next) := by
  rw [Io.storeQuery_run, h.serves, hs]

end Behind

variable {env : Env} {s u : Server} {n : ℕ} {name password : List UInt8} {clientIp : UInt32}

/-- Whether its result was applied or lost, the first statement lifts only bans that expired. -/
theorem checkBanishments_behind (env : Env) (s : Server) :
    Behind env.now s (checkBanishments env s).2 1 := by
  let update : Tables → Tables :=
    fun tables => { tables with bans := tables.bans.map (BanRow.lift env.now) }
  have hrun : (checkBanishments env s).2 = { s with toSession := { s.toSession.next with
      tables := if s.db.m_connected then (s.schedule 0).effect update s.tables
        else s.tables } } := by
    rw [checkBanishments, query, Session.query_eq]
  let kept : Tables → Prop := fun tables =>
    tables.accounts = s.tables.accounts ∧ tables.players = s.tables.players ∧
      ∀ p : BanRow → Bool, (tables.bans.filter fun b => p b && b.inForce env.now) =
        s.tables.bans.filter fun b => p b && b.inForce env.now
  have hupdate : ∀ tables, kept tables → kept (update tables) := by
    rintro tables ⟨ha, hp, hb⟩
    exact ⟨ha, hp, fun p => (filter_lift env.now p tables.bans).trans (hb p)⟩
  have hstart : kept s.tables := ⟨rfl, rfl, fun _ => rfl⟩
  have htables : kept (if s.db.m_connected then (s.schedule 0).effect update s.tables
      else s.tables) := by
    split
    · exact Attempt.effect_induct hupdate _ hstart
    · exact hstart
  obtain ⟨ha, hp, hb⟩ := htables
  rw [hrun]
  refine ⟨?_, fun i => ?_, ha, hp, hb⟩
  · exact (s.executed_succ 0).symm ▸ by simp [Server.executed, Session.db, Session.next,
      Session.after, localDatabase, Session.serves]
  · rw [Nat.add_comm]
    rfl

def IpBanned (env : Env) (tables : Tables) (clientIp : UInt32) : Prop :=
  ∃ b ∈ tables.bans, b.ban_type = .ip ∧ b.inForce env.now = true ∧
    b.target = convertIPAddress clientIp

def AccountBanned (env : Env) (tables : Tables) (number : UInt32) : Prop :=
  ∃ b ∈ tables.bans, b.ban_type = .account ∧ b.inForce env.now = true ∧
    b.target = ascii (toString number.toNat)

theorem ipBans_any (env : Env) (tables : Tables) (clientIp : UInt32) :
    ((ipBans env tables).any fun b => b.target = convertIPAddress clientIp) = true ↔
      IpBanned env tables clientIp := by
  simp [ipBans, IpBanned, List.any_eq_true, and_assoc]

theorem any_verifyResult {α : Type} (p : α → Bool) (rows : List α) :
    (match verifyResult rows with
      | none => false
      | some result => result.toList.any p) = rows.any p := by
  cases rows <;> rfl

theorem isIpBanished_run (h : Behind env.now s u n) (clientIp : UInt32) :
    ((isIpBanished env clientIp u).1 = true ↔
        clientIp ≠ 0 ∧ s.executed (n + 1) = true ∧ IpBanned env s.tables clientIp) ∧
      Behind env.now s (isIpBanished env clientIp u).2 (if clientIp = 0 then n else n + 1) := by
  rw [isIpBanished]
  by_cases hip : clientIp = 0
  · rw [if_pos hip, if_pos hip]
    exact ⟨by simp [pure_run, hip], h⟩
  · have hselect : ipBans env u.tables = ipBans env s.tables := h.bans fun b => b.ban_type = .ip
    rw [if_neg hip, if_neg hip, bind_run, h.storeQuery_run _ hselect, ← ipBans_any]
    cases s.executed (n + 1) with
    | false => exact ⟨by simp [pure_run], h.next⟩
    | true =>
      simp only [if_true]
      rw [← any_verifyResult]
      cases verifyResult (ipBans env s.tables) with
      | none => exact ⟨by simp [pure_run], h.next⟩
      | some result => exact ⟨by simp [pure_run, hip], h.next⟩

theorem accountRows_cases (env : Env) (name : List UInt8) (tables : Tables) :
    accountRows env name tables = [] ∨ ∃ row, accountRows env name tables = [row] := by
  rw [accountRows]
  cases tables.accounts.filter fun row => env.collation.equal row.name name with
  | nil => exact Or.inl rfl
  | cons row rows => exact Or.inr ⟨row, rfl⟩

/-- The account that is loaded when the first `n` statements of the login are executed. -/
def loadedAccount (env : Env) (s : Server) (name : List UInt8) (row : AccountRow) (n : ℕ) :
    Account :=
  { AccountRow.load row name with
    charList := if s.executed n then characters env (playerRows row.id s.tables) else ∅ }

theorem loadAccount_missing (h : Behind env.now s u n)
    (hm : accountRows env name s.tables = [] ∨ s.executed (n + 1) = false) :
    (loadAccount env name u).1 = (false, Account.empty) := by
  have hselect : accountRows env name u.tables = accountRows env name s.tables := by
    simp only [accountRows]
    rw [h.accounts]
  have hnone : (if s.executed (n + 1) then verifyResult (accountRows env name s.tables)
      else none) = none := by
    rcases hm with hm | hm
    · rw [hm]
      simp [verifyResult]
    · rw [hm]
      rfl
  rw [loadAccount, bind_run, h.storeQuery_run _ hselect, hnone]
  rfl

theorem loadAccount_found (h : Behind env.now s u n) {row : AccountRow}
    (hrow : accountRows env name s.tables = [row]) (hx : s.executed (n + 1) = true) :
    loadAccount env name u = ((true, loadedAccount env s name row (n + 2)), u.next.next) := by
  have hselect : accountRows env name u.tables = accountRows env name s.tables := by
    simp only [accountRows]
    rw [h.accounts]
  have hplayers : playerRows row.id u.next.tables = playerRows row.id s.tables := by
    simp only [playerRows]
    rw [h.next.players]
  rw [loadAccount, bind_run, h.storeQuery_run _ hselect, hx, if_pos rfl, hrow]
  simp only [verifyResult]
  rw [bind_run]
  have hnumber : (AccountRow.load row name).number = row.id := rfl
  rw [hnumber, h.next.storeQuery_run _ hplayers, loadedAccount]
  cases s.executed (n + 1 + 1) with
  | false => rfl
  | true =>
    simp only [if_true]
    cases playerRows row.id s.tables <;> rfl

def Verdict.Lists (number : UInt32) : Verdict → Prop
  | .characterList account _ => account.number = number
  | _ => False

theorem premiumUpdate_keeps (now : ℕ) (account : Account) :
    (premiumUpdate now account).1.number = account.number ∧
      (premiumUpdate now account).1.charList = account.charList := by
  rw [premiumUpdate]
  dsimp only
  repeat' split
  all_goals exact ⟨rfl, rfl⟩

theorem updatePremium_fst (env : Env) (account : Account) (s : Server) :
    (updatePremium env account s).1 = (premiumUpdate env.time account).1 := by
  rw [updatePremium]
  obtain ⟨updated, save⟩ := premiumUpdate env.time account
  cases save <;> rfl

theorem listCharacters_lists (env : Env) (clientIp : UInt32) (account : Account) (s : Server)
    (number : UInt32) :
    (listCharacters env clientIp account s).1.Lists number ↔
      account.number = number ∧ (number = 10 ∨ account.charList.size ≠ 0) := by
  obtain ⟨hnumber, hchars⟩ := premiumUpdate_keeps env.time account
  rw [listCharacters, bind_run, updatePremium_fst]
  by_cases hc : account.number ≠ 10 ∧ account.charList.size = 0
  · rw [hnumber, hchars, if_pos hc]
    constructor
    · exact False.elim
    · rintro ⟨rfl, h10 | hne⟩
      · exact hc.1 h10
      · exact hne hc.2
  · rw [hnumber, hchars, if_neg hc]
    change (premiumUpdate env.time account).1.number = number ↔ _
    rw [hnumber]
    constructor
    · rintro rfl
      refine ⟨rfl, ?_⟩
      by_contra hne
      rw [not_or] at hne
      exact hc ⟨hne.1, not_not.mp hne.2⟩
    · exact And.left

theorem checkAccount_lists (h : Behind env.now s u n) (clientIp : UInt32) (account : Account)
    (number : UInt32) :
    (checkAccount env clientIp account u).1.Lists number ↔
      account.number = number ∧ (number = 10 ∨ account.charList.size ≠ 0) ∧
        ¬ (s.executed (n + 1) = true ∧
          banRows env .account (ascii (toString account.number.toNat)) s.tables ≠ []) := by
  have hselect : banRows env .account (ascii (toString account.number.toNat)) u.tables =
      banRows env .account (ascii (toString account.number.toNat)) s.tables :=
    congrArg (List.take 1) (h.bans fun b => env.collation.equal b.target
      (ascii (toString account.number.toNat)) && b.ban_type = .account)
  rw [checkAccount, bind_run, getBanishment, bind_run, h.storeQuery_run _ hselect]
  cases s.executed (n + 1) with
  | false =>
    refine (listCharacters_lists env clientIp account u.next number).trans ?_
    simp
  | true =>
    simp only [if_true]
    cases banRows env .account (ascii (toString account.number.toNat)) s.tables with
    | nil =>
      refine (listCharacters_lists env clientIp account u.next number).trans ?_
      simp
    | cons row rows =>
      constructor
      · exact False.elim
      · rintro ⟨_, _, hnone⟩
        exact absurd ⟨trivial, List.cons_ne_nil _ _⟩ hnone

/-- The test of the password against a row of the table. -/
def PasswordMatches (env : Env) (password : List UInt8) (row : AccountRow) : Prop :=
  (encryptTest env.digests env.g_config (row.salt.getDataString ++ password)
    row.password.getDataString).1 = true

/-- The test that counts answers as one with the stored hash would, since the logged one has put
that into upper case only. -/
theorem loggedTest_run (env : Env) (password : List UInt8) {account : Account}
    (h10 : account.number ≠ 10) :
    let logged := loggedTest env password true account
    let test := encryptTest env.digests env.g_config (account.salt ++ password) account.password
    encryptTest env.digests env.g_config (logged.salt ++ password) logged.password = test ∧
      logged = { account with password := test.2 } := by
  intro logged test
  have hlogged : logged = { account with password := test.2 } := if_pos ⟨rfl, h10⟩
  rw [hlogged]
  exact ⟨encryptTest_again _ _ _ _, rfl⟩

theorem loadedAccount_size (env : Env) (s : Server) (name : List UInt8) (row : AccountRow)
    (n : ℕ) : (loadedAccount env s name row n).charList.size ≠ 0 ↔
      s.executed n = true ∧ (characters env (playerRows row.id s.tables)).size ≠ 0 := by
  rw [loadedAccount]
  cases s.executed n <;> simp

theorem authenticate_guest (h : Behind env.now s u n) (clientIp : UInt32) {number : UInt32}
    {row : AccountRow} (hrow : accountRows env name s.tables = [row])
    (hx : s.executed (n + 1) = true) (hid : row.id = 10)
    (hlists : (authenticate env name password clientIp u).1.Lists number) : number = 10 := by
  have hloaded : (loadedAccount env s name row (n + 2)).number = row.id := rfl
  have hlogged : loggedTest env password true (loadedAccount env s name row (n + 2)) =
      loadedAccount env s name row (n + 2) := if_neg fun hc => hc.2 hid
  rw [authenticate, bind_run, loadAccount_found h hrow hx] at hlists
  dsimp only at hlists
  rw [hlogged, hloaded, if_neg (by simp [hid]), checkAccount_lists h.next.next,
    if_neg (by simp [hid]), hloaded] at hlists
  exact hlists.1.symm.trans hid

theorem authenticate_loaded (h : Behind env.now s u n) (clientIp : UInt32) {number : UInt32}
    {row : AccountRow} (hrow : accountRows env name s.tables = [row])
    (hx : s.executed (n + 1) = true) (hid : row.id ≠ 10) :
    (authenticate env name password clientIp u).1.Lists number ↔
      s.executed (n + 2) = true ∧ PasswordMatches env password row ∧
        (characters env (playerRows row.id s.tables)).size ≠ 0 ∧ row.id = number ∧
        ¬ (s.executed (n + 3) = true ∧
          banRows env .account (ascii (toString number.toNat)) s.tables ≠ []) := by
  have hloaded : (loadedAccount env s name row (n + 2)).number = row.id := rfl
  have htested : (encryptTest env.digests env.g_config
      ((loadedAccount env s name row (n + 2)).salt ++ password)
      (loadedAccount env s name row (n + 2)).password).1 = true ↔
      PasswordMatches env password row := Iff.rfl
  obtain ⟨htest, hlogged⟩ := loggedTest_run env password (hloaded ▸ hid)
  rw [authenticate, bind_run, loadAccount_found h hrow hx]
  dsimp only
  rw [htest, hlogged]
  dsimp only
  by_cases hpassword : PasswordMatches env password row
  · rw [if_neg (by simp [htested.mpr hpassword]), if_pos (hloaded ▸ hid),
      checkAccount_lists h.next.next]
    dsimp only
    rw [hloaded, loadedAccount_size]
    constructor
    · rintro ⟨rfl, h10 | hsize, hban⟩
      · exact absurd h10 hid
      · exact ⟨hsize.1, hpassword, hsize.2, rfl, hban⟩
    · rintro ⟨hx2, _, hsize, rfl, hban⟩
      exact ⟨rfl, Or.inr ⟨hx2, hsize⟩, hban⟩
  · have hmismatch := Bool.eq_false_iff.mpr fun ht => hpassword (htested.mp ht)
    rw [if_pos (by simp [hmismatch, hloaded, hid])]
    constructor
    · exact False.elim
    · intro hlist
      exact absurd hlist.2.1 hpassword

theorem authenticate_lists (h : Behind env.now s u n) (clientIp : UInt32) {number : UInt32}
    (h10 : number ≠ 10) :
    (authenticate env name password clientIp u).1.Lists number ↔
      ∃ row, accountRows env name s.tables = [row] ∧ s.executed (n + 2) = true ∧
        PasswordMatches env password row ∧
        (characters env (playerRows row.id s.tables)).size ≠ 0 ∧ row.id = number ∧
        ¬ (s.executed (n + 3) = true ∧
          banRows env .account (ascii (toString number.toNat)) s.tables ≠ []) := by
  by_cases hfound : (∃ row, accountRows env name s.tables = [row]) ∧ s.executed (n + 1) = true
  · obtain ⟨⟨row, hrow⟩, hx⟩ := hfound
    constructor
    · intro hlists
      by_cases hid : row.id = 10
      · exact absurd (authenticate_guest h clientIp hrow hx hid hlists) h10
      · exact ⟨row, hrow, (authenticate_loaded h clientIp hrow hx hid).mp hlists⟩
    · rintro ⟨r, hr, hlist⟩
      have hid : r.id ≠ 10 := hlist.2.2.2.1 ▸ h10
      exact (authenticate_loaded h clientIp hr hx hid).mpr hlist
  · have hmissing : accountRows env name s.tables = [] ∨ s.executed (n + 1) = false := by
      rcases accountRows_cases env name s.tables with hnil | hrow
      · exact Or.inl hnil
      · exact Or.inr (Bool.eq_false_iff.mpr fun hx => hfound ⟨hrow, hx⟩)
    rw [authenticate, bind_run, loadAccount_missing h hmissing]
    constructor
    · exact False.elim
    · rintro ⟨row, hrow, hx, _⟩
      exact absurd ⟨⟨row, hrow⟩, Server.executed_of_le hx (Nat.le_succ _)⟩ hfound

def before (clientIp : UInt32) : ℕ := if clientIp = 0 then 1 else 2

/-- Everything that comes before the search for a ban of the account lets the login through: the
address is not found banned, the account is loaded with a character, and the password matches. -/
structure LetThrough (env : Env) (s : Server) (name password : List UInt8) (clientIp : UInt32)
    (row : AccountRow) : Prop where
  address : clientIp = 0 ∨ ¬ IpBanned env s.tables clientIp
  executed : s.executed (before clientIp + 2) = true
  account : accountRows env name s.tables = [row]
  password : PasswordMatches env password row
  characters : (characters env (playerRows row.id s.tables)).size ≠ 0

/-- The list goes to an account just when everything before the ban of the account lets it
through, and that ban is not found. -/
theorem delegate_lists (env : Env) (s : Server) (name password : List UInt8) (clientIp : UInt32)
    {number : UInt32} (h10 : number ≠ 10) :
    (delegate env name password clientIp s).1.Lists number ↔
      ∃ row, LetThrough env s name password clientIp row ∧ row.id = number ∧
        ¬ (s.executed (before clientIp + 3) = true ∧
          banRows env .account (ascii (toString number.toNat)) s.tables ≠ []) := by
  obtain ⟨hbanned, hbehind⟩ := isIpBanished_run (checkBanishments_behind env s) clientIp
  rw [delegate, bind_run, bind_run]
  by_cases hb : (isIpBanished env clientIp (checkBanishments env s).2).1 = true
  · obtain ⟨hip, _, hban⟩ := hbanned.mp hb
    rw [if_pos hb]
    constructor
    · exact False.elim
    · rintro ⟨row, hlet, _⟩
      exact (hlet.address.resolve_left hip hban).elim
  · rw [if_neg hb]
    refine (authenticate_lists hbehind clientIp h10).trans ?_
    constructor
    · rintro ⟨row, hrow, hx, hpassword, hsize, hn, hnone⟩
      refine ⟨row, ⟨?_, hx, hrow, hpassword, hsize⟩, hn, hnone⟩
      by_contra haddress
      obtain ⟨hip, hban⟩ := not_or.mp haddress
      rw [if_neg hip] at hx
      exact hb (hbanned.mpr ⟨hip, Server.executed_of_le hx (by decide), not_not.mp hban⟩)
    · rintro ⟨row, hlet, hn, hnone⟩
      exact ⟨row, hlet.account, hlet.executed, hlet.password, hlet.characters, hn, hnone⟩

/-- The login may be answered with the list of this account. -/
structure Authorised (env : Env) (tables : Tables) (name password : List UInt8)
    (clientIp number : UInt32) : Prop where
  address : ¬ IpBanned env tables clientIp
  password : ∃ row, accountRows env name tables = [row] ∧ row.id = number ∧
    PasswordMatches env password row
  account : ¬ AccountBanned env tables number

/-- A character list is sent for an account other than 10 only to a login that is authorised. -/
def ListsOnlyAuthorised (env : Env) (s : Server) (name password : List UInt8)
    (clientIp : UInt32) : Prop :=
  ∀ (account : Account) (casters : Option Casters), account.number ≠ 10 →
    (delegate env name password clientIp s).1 = .characterList account casters →
    sent env (.characterList account casters) =
      some (responseCalls env.g_config account casters env.rand24b) →
    Authorised env s.tables name password clientIp account.number

/-- Where a login gets as far as the search for a ban of its account and there is such a ban, the
statement is executed. A login without an address, which is not searched for among the bans of
addresses, must be stopped there if the address that stands for none is banned. -/
def BanLookedUp (env : Env) (s : Server) (name password : List UInt8)
    (clientIp : UInt32) : Prop :=
  ∀ row, LetThrough env s name password clientIp row → row.id ≠ 10 → env.outputMessage = true →
    (AccountBanned env s.tables row.id → (s.schedule (before clientIp + 2)).succeeds = true) ∧
      (IpBanned env s.tables clientIp → (s.schedule (before clientIp + 2)).succeeds = true ∧
        banRows env .account (ascii (toString row.id.toNat)) s.tables ≠ [])

theorem banRows_of_banned {tables : Tables} {number : UInt32}
    (h : AccountBanned env tables number) :
    banRows env .account (ascii (toString number.toNat)) tables ≠ [] := by
  obtain ⟨b, hb, htype, hforce, htarget⟩ := h
  intro hnil
  rw [banRows, List.take_eq_nil_iff] at hnil
  have hmem := List.filter_eq_nil_iff.mp (hnil.resolve_left Nat.one_ne_zero) b hb
  rw [htarget, env.collation.refl] at hmem
  simp [htype, hforce] at hmem

theorem sent_characterList (env : Env) (account : Account) (casters : Option Casters) :
    sent env (.characterList account casters) =
      some (responseCalls env.g_config account casters env.rand24b) ↔ env.outputMessage = true := by
  cases h : env.outputMessage <;> simp [sent, packet, h]

theorem lists_iff (verdict : Verdict) (number : UInt32) :
    verdict.Lists number ↔
      ∃ account casters, verdict = .characterList account casters ∧ account.number = number := by
  cases verdict <;> simp [Verdict.Lists]

/-- A login that is not stopped by a ban of its account is answered with the list, so it had
better be authorised. -/
theorem authorised_of_letThrough {row : AccountRow}
    (honly : ListsOnlyAuthorised env s name password clientIp)
    (hlet : LetThrough env s name password clientIp row) (h10 : row.id ≠ 10)
    (hout : env.outputMessage = true)
    (hnone : ¬ ((s.schedule (before clientIp + 2)).succeeds = true ∧
      banRows env .account (ascii (toString row.id.toNat)) s.tables ≠ [])) :
    Authorised env s.tables name password clientIp row.id := by
  have hx : s.executed (before clientIp + 3) = (s.schedule (before clientIp + 2)).succeeds := by
    rw [Server.executed_succ, hlet.executed, Bool.true_and]
  have hlists := (delegate_lists env s name password clientIp h10).mpr
    ⟨row, hlet, rfl, hx ▸ hnone⟩
  obtain ⟨account, casters, hverdict, hn⟩ := (lists_iff _ _).mp hlists
  rw [← hn]
  exact honly account casters (hn ▸ h10) hverdict ((sent_characterList _ _ _).mpr hout)

/-- Whatever the database does, character lists go only to authorised logins, just as long as the
search for a ban of the account does not fail where it matters. -/
theorem lists_only_authorised_iff (env : Env) (s : Server) (name password : List UInt8)
    (clientIp : UInt32) :
    ListsOnlyAuthorised env s name password clientIp ↔
      BanLookedUp env s name password clientIp := by
  constructor
  · intro honly row hlet h10 hout
    constructor
    · intro hban
      by_contra hfail
      exact (authorised_of_letThrough honly hlet h10 hout fun h => hfail h.1).account hban
    · intro hban
      by_contra hfail
      exact (authorised_of_letThrough honly hlet h10 hout hfail).address hban
  · intro hlooked account casters h10 hverdict hsent
    have hlists := (lists_iff _ account.number).mpr ⟨account, casters, hverdict, rfl⟩
    obtain ⟨row, hlet, hn, hnone⟩ := (delegate_lists env s name password clientIp h10).mp hlists
    rw [Server.executed_succ, hlet.executed, Bool.true_and] at hnone
    obtain ⟨haccount, hip⟩ := hlooked row hlet (hn ▸ h10) ((sent_characterList _ _ _).mp hsent)
    refine ⟨?_, ⟨row, hlet.account, hn, hlet.password⟩, ?_⟩
    · intro hban
      exact hnone (hn ▸ hip hban)
    · intro hban
      exact hnone ⟨haccount (hn ▸ hban), banRows_of_banned hban⟩

/-- Passwords are stored as they are, and texts are compared byte by byte. -/
def plainEnv : Env where
  g_config := { defaultConfig with ENCRYPTION := 0 }
  worlds := Std.TreeMap.ofList [((0 : UInt32), localWorld)]
  digests := ⟨id, id, id, id⟩
  collation := ⟨fun a b => a = b, by simp⟩
  now := 1000000000
  time := 1000000000
  outputMessage := true
  rand24b _ := 0

def storedAccount : AccountRow where
  id := 1
  name := ascii "name"
  password := .string (ascii "SECRET")
  salt := .string []
  premium_days := .int64 0
  lastday := .int64 0
  key := .null
  warnings := .int64 0

def storedPlayer : PlayerRow where
  id := 1
  account_id := 1
  deleted := 0
  broadcasting := 0
  name := .string (ascii "Knight")
  group_id := .int64 1
  online := .int64 0
  level := .int64 8

def storedBan : BanRow where
  id := .int64 1
  ban_type := .account
  target := ascii "1"
  active := 1
  expires_at := none
  created_at := .other
  banned_by := .null
  reason := .string []

/-- The session is lost after the fourth statement, and the server is down when the fifth one, the
search for the ban, is retried. -/
def bannedServer : Server where
  t_holder := some ⟨true⟩
  connection := up
  schedule i := if i = 4 then ⟨lostSession, down, down⟩ else ⟨up, up, up⟩
  tables := ⟨[storedAccount], [storedPlayer], [storedBan]⟩
  nameCacheMap := ∅
  ipLoginMap := ∅

theorem banned_account_listed :
    ¬ ∀ (env : Env) (s : Server) (name password : List UInt8) (clientIp : UInt32),
      ListsOnlyAuthorised env s name password clientIp := by
  intro hall
  have hlet : LetThrough plainEnv bannedServer (ascii "name") (ascii "secret") 0x0100007F
      storedAccount :=
    { address := Or.inr (by simp [IpBanned, bannedServer, storedBan])
      executed := by decide
      account := rfl
      password := by unfold PasswordMatches; decide +kernel
      characters := by decide +kernel }
  have hauthorised := authorised_of_letThrough (hall _ _ _ _ _) hlet (by decide) rfl
    fun h => absurd h.1 (by decide)
  exact hauthorised.account ⟨storedBan, List.mem_singleton_self _, rfl, rfl, by decide +kernel⟩

end LoginServer.Io
