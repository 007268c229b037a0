import LoginServer.Authorisation
import LoginServer.Library.Runs
import LoginServer.Library.States

/-! # Whether failed logins lock an address out

Logins of one address, one at a time: `onRecvFirstMessage` asks `isDisabled`, and `delegate`
records the attempt. Every login brings the database as it finds it; what stays between logins is
the attempts, the name cache and the clock. -/
namespace LoginServer.Io

open Bytes Accounts Sql Attempts Runs States

def Same (ipLoginMap : IpLoginMap) (s : Server) : Prop := s.ipLoginMap = ipLoginMap

variable {m : IpLoginMap}

theorem query_same (update : Tables → Tables) : Keeps (Same m) (query update) := fun _ h => h

theorem storeQuery_same {α : Type} (select : Tables → List α) :
    Keeps (Same m) (storeQuery select) :=
  fun _ h => h

theorem isIpBanished_same (env : Env) (ip : UInt32) : Keeps (Same m) (isIpBanished env ip) := by
  refine Keeps.ite (Keeps.pure _) (Keeps.bind (storeQuery_same _) fun result => ?_)
  cases result <;> exact Keeps.pure _

theorem loadAccount_same (env : Env) (name : List UInt8) :
    Keeps (Same m) (loadAccount env name) := by
  apply Keeps.bind (storeQuery_same _)
  intro result
  cases result with
  | none => exact Keeps.pure _
  | some result =>
    apply Keeps.bind (storeQuery_same _)
    intro players
    cases players <;> exact Keeps.pure _

theorem updatePremium_same (env : Env) (account : Account) :
    Keeps (Same m) (updatePremium env account) := by
  rw [updatePremium]
  obtain ⟨updated, save⟩ := premiumUpdate env.time account
  exact Keeps.ite (Keeps.bind (query_same _) fun _ => Keeps.pure _) (Keeps.pure _)

theorem findCasters_same (env : Env) (account : Account) :
    Keeps (Same m) (findCasters env account) := by
  refine Keeps.ite (Keeps.bind (storeQuery_same _) fun result => ?_) (Keeps.pure _)
  cases result <;> exact Keeps.pure _

theorem getNameByGuid_same (guid : UInt32) : Keeps (Same m) (getNameByGuid guid) := by
  refine Keeps.bind Keeps.get fun s => ?_
  cases s.nameCacheMap[guid]? with
  | some name => exact Keeps.pure _
  | none =>
    apply Keeps.bind (storeQuery_same _)
    intro result
    cases result with
    | none => exact Keeps.pure _
    | some result => exact Keeps.bind (Keeps.modify fun _ h => h) fun _ => Keeps.pure _

theorem bannedByName_same (ban : Ban) : Keeps (Same m) (bannedByName ban) := by
  refine Keeps.ite (Keeps.pure _) (Keeps.bind (getNameByGuid_same _) fun name => ?_)
  cases name <;> exact Keeps.pure _

theorem getBanishment_same (env : Env) (type : BanType) (target : List UInt8) :
    Keeps (Same m) (getBanishment env type target) := by
  apply Keeps.bind (storeQuery_same _)
  intro result
  cases result <;> exact Keeps.pure _

def recorded (env : Env) (clientIp : UInt32) (ipLoginMap : IpLoginMap) : Verdict → IpLoginMap
  | .invalid => addAttempt env.g_config ipLoginMap env.time clientIp protocolId false
  | .characterList _ _ => addAttempt env.g_config ipLoginMap env.time clientIp protocolId true
  | .ipBanished | .banished _ | .noCharacters => ipLoginMap

def Records (env : Env) (clientIp : UInt32) (f : ServerM Verdict) : Prop :=
  ∀ s, (f s).2.ipLoginMap = recorded env clientIp s.ipLoginMap (f s).1

theorem Records.bind {α : Type} {env : Env} {clientIp : UInt32} {f : ServerM α}
    {g : α → ServerM Verdict} (hf : ∀ m, Keeps (Same m) f)
    (hg : ∀ a, Records env clientIp (g a)) : Records env clientIp (f >>= g) := by
  intro s
  have hsame : (f s).2.ipLoginMap = s.ipLoginMap := hf s.ipLoginMap s rfl
  rw [bind_run, hg, hsame]

theorem Records.ite {c : Prop} [Decidable c] {env : Env} {clientIp : UInt32}
    {f g : ServerM Verdict} (hf : Records env clientIp f) (hg : Records env clientIp g) :
    Records env clientIp (if c then f else g) := by
  split
  · exact hf
  · exact hg

theorem listCharacters_records (env : Env) (clientIp : UInt32) (account : Account) :
    Records env clientIp (listCharacters env clientIp account) := by
  apply Records.bind (fun _ => updatePremium_same env account)
  intro account
  apply Records.ite (fun _ => rfl)
  intro s
  have hsame := findCasters_same env account (m := (recordAttempt env clientIp true s).2.ipLoginMap)
    (recordAttempt env clientIp true s).2 rfl
  exact hsame

theorem checkAccount_records (env : Env) (clientIp : UInt32) (account : Account) :
    Records env clientIp (checkAccount env clientIp account) := by
  apply Records.bind (fun _ => getBanishment_same env _ _)
  intro ban
  cases ban with
  | none => exact listCharacters_records env clientIp account
  | some ban => exact Records.bind (fun _ => bannedByName_same ban) fun _ _ => rfl

/-- `delegate` records one attempt, by its verdict: a failed one when the credentials do not fit,
a successful one with the list, and none when a ban or the lack of characters ends the login. -/
theorem delegate_records (env : Env) (name password : List UInt8) (clientIp : UInt32) :
    Records env clientIp (delegate env name password clientIp) := by
  apply Records.bind (fun _ => query_same _)
  intro _
  apply Records.bind (fun _ => isIpBanished_same env clientIp)
  intro banned
  apply Records.ite (fun _ => rfl)
  apply Records.bind (fun _ => loadAccount_same env name)
  intro loaded
  exact Records.ite (fun _ => rfl) (checkAccount_records env clientIp _)

theorem recorded_oneProtocol (h : OneProtocol m) (env : Env) (clientIp : UInt32)
    (verdict : Verdict) : OneProtocol (recorded env clientIp m verdict) := by
  cases verdict with
  | invalid => exact addAttempt_oneProtocol h _ _ _ _
  | characterList => exact addAttempt_oneProtocol h _ _ _ _
  | ipBanished => exact h
  | banished => exact h
  | noCharacters => exact h

/-- A login with the times of its two halves, in seconds; the second is that of `env`. -/
structure Login where
  env : Env
  session : Session Tables
  name : List UInt8
  password : List UInt8
  asked : ℕ

inductive Answer where
  | disabled
  | verdict (verdict : Verdict)

/-- What stays between logins, and their answers, the last one first. -/
structure State where
  ipLoginMap : IpLoginMap
  nameCacheMap : Std.TreeMap UInt32 (List UInt8)
  clock : ℕ
  answers : List Answer

def State.serve (g_config : Config) (clientIp : UInt32) (s : State) (l : Login) :
    Verdict × Server :=
  delegate { l.env with g_config := g_config } l.name l.password clientIp
    ⟨l.session, s.nameCacheMap, s.ipLoginMap⟩

def State.login (g_config : Config) (clientIp : UInt32) (s : State) (l : Login) : State :=
  if isDisabled g_config s.ipLoginMap l.asked clientIp protocolId then
    { s with clock := l.asked, answers := .disabled :: s.answers }
  else
    { ipLoginMap := (s.serve g_config clientIp l).2.ipLoginMap
      nameCacheMap := (s.serve g_config clientIp l).2.nameCacheMap
      clock := l.env.time
      answers := .verdict (s.serve g_config clientIp l).1 :: s.answers }

def logins (g_config : Config) (clientIp : UInt32) : Machine State Login where
  start s := s.ipLoginMap = ∅ ∧ s.answers = []
  step s l :=
    if s.clock ≤ l.asked ∧ l.asked ≤ l.env.time then some (s.login g_config clientIp l) else none

variable {g_config : Config} {clientIp : UInt32}

theorem login_oneProtocol {s : State} (h : OneProtocol s.ipLoginMap) (l : Login) :
    OneProtocol (s.login g_config clientIp l).ipLoginMap := by
  rw [State.login]
  split
  · exact h
  · have hrec := delegate_records { l.env with g_config := g_config } l.name l.password clientIp
      ⟨l.session, s.nameCacheMap, s.ipLoginMap⟩
    exact hrec ▸ recorded_oneProtocol h _ _ _

theorem reachable_oneProtocol {s : State} (h : (logins g_config clientIp).Reachable s) :
    OneProtocol s.ipLoginMap := by
  refine Machine.invariant (M := logins g_config clientIp)
    (I := fun s => OneProtocol s.ipLoginMap) ?_ ?_ h
  · rintro s ⟨hempty, _⟩
    exact hempty ▸ oneProtocol_empty
  · intro s l u hs hu
    simp only [logins, Option.ite_none_right_eq_some, Option.some.injEq] at hu
    exact hu.2 ▸ login_oneProtocol hs l

/-- The login is answered without a look at its credentials. -/
def Refused (g_config : Config) (clientIp : UInt32) (s : State) (l : Login) : Prop :=
  (s.login g_config clientIp l).answers = .disabled :: s.answers

theorem refused_iff (s : State) (l : Login) :
    Refused g_config clientIp s l ↔
      isDisabled g_config s.ipLoginMap l.asked clientIp protocolId = true := by
  unfold Refused State.login
  split
  · simp [*]
  · simp [*]

theorem reachable_not_refused {s : State} (h : (logins g_config clientIp).Reachable s)
    (l : Login) : ¬ Refused g_config clientIp s l := by
  rw [refused_iff, isDisabled_oneProtocol (reachable_oneProtocol h)]
  exact Bool.false_ne_true

/-- One login comes less than `LOGIN_TIMEOUT / 1000` seconds after another. -/
def Soon (g_config : Config) (a b : Login) : Prop :=
  1000 * ((b.asked : ℤ) - a.asked) < g_config.LOGIN_TIMEOUT

/-- From a zero counter, one login more than `LOGIN_TRIES` failed the test of its credentials,
each soon after the one before, and another one comes soon after the last. -/
structure Hammered (g_config : Config) (clientIp : UInt32) (s u : State) (failed : List Login)
    (l : Login) : Prop where
  tries : 0 < g_config.LOGIN_TRIES
  address : clientIp ≠ 0
  reachable : (logins g_config clientIp).Reachable s
  zero : ∀ it, s.ipLoginMap[clientIp]? = some it → it.loginsAmount = 0
  run : (logins g_config clientIp).run s failed = some u
  count : (failed.length : ℤ) = g_config.LOGIN_TRIES + 1
  invalid : u.answers = List.replicate failed.length (.verdict .invalid) ++ s.answers
  soon : (failed ++ [l]).IsChain (Soon g_config)
  later : u.clock ≤ l.asked ∧ l.asked ≤ l.env.time

/-- However many logins failed, the next one has its credentials looked up. -/
theorem hammered_not_refused {s u : State} {failed : List Login} {l : Login}
    (h : Hammered g_config clientIp s u failed l) : ¬ Refused g_config clientIp u l :=
  reachable_not_refused (Machine.run_reachable h.reachable h.run) l

/-- One failed login is allowed, and the memory lasts five seconds. -/
def oneTry : Config := { CharacterList.defaultConfig with LOGIN_TRIES := 1 }

def guessAt (time : ℕ) : Login where
  env := { plainEnv with time := time }
  session := ⟨some ⟨true⟩, up, fun _ => ⟨up, up, up⟩, ⟨[], [], []⟩⟩
  name := ascii "name"
  password := ascii "guess"
  asked := time

def fresh : State := ⟨∅, ∅, 0, []⟩

def afterGuesses : State :=
  (fresh.login oneTry 0x0100007F (guessAt 1)).login oneTry 0x0100007F (guessAt 2)

theorem guesses_hammered :
    Hammered oneTry 0x0100007F fresh afterGuesses [guessAt 1, guessAt 2] (guessAt 3) where
  tries := by decide
  address := by decide
  reachable := .start ⟨rfl, rfl⟩
  zero := by
    intro it h
    rw [fresh, Std.TreeMap.getElem?_emptyc] at h
    cases h
  run := rfl
  count := rfl
  invalid := rfl
  soon := by simp [Soon, guessAt, oneTry, CharacterList.defaultConfig]
  later := by decide

theorem guesses_not_refused : ¬ Refused oneTry 0x0100007F afterGuesses (guessAt 3) :=
  hammered_not_refused guesses_hammered

theorem lockout_never_happens :
    ¬ ∀ (g_config : Config) (clientIp : UInt32) (s u : State) (failed : List Login) (l : Login),
      Hammered g_config clientIp s u failed l → Refused g_config clientIp u l := by
  intro hall
  have hreachable := Machine.run_reachable guesses_hammered.reachable guesses_hammered.run
  exact reachable_not_refused hreachable _ (hall _ _ _ _ _ _ guesses_hammered)

theorem login_answers (g_config : Config) (clientIp : UInt32) (s : State) (l : Login) :
    ∃ a, (s.login g_config clientIp l).answers = a :: s.answers := by
  rw [State.login]
  split
  · exact ⟨_, rfl⟩
  · exact ⟨_, rfl⟩

theorem step_eq {s u : State} {l : Login} (h : (logins g_config clientIp).step s l = some u) :
    u = s.login g_config clientIp l := by
  simp only [logins, Option.ite_none_right_eq_some, Option.some.injEq] at h
  exact h.2.symm

theorem run_answers {s u : State} {ls : List Login}
    (h : (logins g_config clientIp).run s ls = some u) :
    ∃ answers, answers.length = ls.length ∧ u.answers = answers ++ s.answers := by
  induction ls generalizing s with
  | nil => cases h; exact ⟨[], rfl, rfl⟩
  | cons l ls ih =>
    obtain ⟨v, hv, h⟩ := Machine.run_cons h
    obtain ⟨answers, hlen, hu⟩ := ih h
    obtain ⟨a, ha⟩ := login_answers g_config clientIp s l
    refine ⟨answers ++ [a], by simp [hlen], ?_⟩
    rw [hu, step_eq hv, ha, List.append_assoc]
    rfl

def State.block (s : State) (clientIp : UInt32) : LoginBlock :=
  (s.ipLoginMap[clientIp]?).getD ⟨0, 0x00, 0⟩

theorem login_invalid (hip : clientIp ≠ 0) {s : State} {l : Login}
    (h : (s.login g_config clientIp l).answers = .verdict .invalid :: s.answers) :
    (s.login g_config clientIp l).block clientIp =
        (s.block clientIp).attempt g_config l.env.time protocolId false ∧
      (s.login g_config clientIp l).clock = l.env.time := by
  have hrec := delegate_records { l.env with g_config := g_config } l.name l.password clientIp
    ⟨l.session, s.nameCacheMap, s.ipLoginMap⟩
  rw [State.login] at h ⊢
  split at h
  · cases h
  · rename_i hd
    have hverdict : (s.serve g_config clientIp l).1 = .invalid := by simpa using h
    have hmap : (s.serve g_config clientIp l).2.ipLoginMap =
        addAttempt g_config s.ipLoginMap l.env.time clientIp protocolId false := by
      apply Eq.trans hrec
      change recorded _ _ _ (s.serve g_config clientIp l).1 = _
      rw [hverdict]
      rfl
    rw [if_neg hd]
    refine ⟨?_, rfl⟩
    simp only [State.block, hmap, addAttempt, if_neg hip]
    rw [Std.TreeMap.getElem?_insert_self, Option.getD_some]

theorem attempt_counts {it : LoginBlock} {i : ℕ} (hi : it.loginsAmount.toInt = i)
    (hle : i ≤ g_config.LOGIN_TRIES) (hN : g_config.LOGIN_TRIES < 2147483647) (time : ℤ)
    (p : Int32) : (it.attempt g_config time p false).loginsAmount.toInt = i + 1 := by
  have hreset : ¬ it.loginsAmount.toInt > g_config.LOGIN_TRIES := by omega
  have hcount : (it.attempt g_config time p false).loginsAmount = it.loginsAmount + 1 := by
    simp [LoginBlock.attempt, hreset]
  have hone : (1 : Int32).toInt = 1 := rfl
  rw [hcount, Int32.toInt_add, hi, hone]
  exact Int.bmod_eq_of_le (by omega) (by omega)

theorem step_clock {s u : State} {l : Login} (h : (logins g_config clientIp).step s l = some u) :
    l.asked ≤ u.clock := by
  have hu := step_eq h
  simp only [logins, Option.ite_none_right_eq_some] at h
  subst hu
  rw [State.login]
  split
  · exact Nat.le_refl _
  · exact h.1.2

theorem invalid_first {s v u : State} {l : Login} {failed : List Login}
    (hv : (logins g_config clientIp).step s l = some v)
    (hrun : (logins g_config clientIp).run v failed = some u)
    (hinvalid : u.answers =
      List.replicate (l :: failed).length (.verdict .invalid) ++ s.answers) :
    v.answers = .verdict .invalid :: s.answers ∧
      u.answers = List.replicate failed.length (.verdict .invalid) ++ v.answers := by
  obtain ⟨answers, _, hu⟩ := run_answers hrun
  obtain ⟨a, ha⟩ := login_answers g_config clientIp s l
  rw [← step_eq hv] at ha
  -- the answers of the run are those of the rest behind that of the first login
  have hsplit : answers ++ [a] = List.replicate failed.length (.verdict .invalid) ++
      [.verdict .invalid] := by
    rw [← List.replicate_succ']
    apply (List.append_left_inj s.answers).mp
    rw [List.append_assoc, List.singleton_append, ← ha, ← hu, hinvalid, List.length_cons]
  obtain ⟨hanswers, hfirst⟩ := List.append_inj' hsplit rfl
  rw [List.singleton_inj.mp hfirst] at ha
  exact ⟨ha, by rw [hu, hanswers]⟩

theorem run_counts (hip : clientIp ≠ 0) (hN : g_config.LOGIN_TRIES < 2147483647) {s u : State}
    {failed : List Login} {i : ℕ} (hrun : (logins g_config clientIp).run s failed = some u)
    (hinvalid : u.answers = List.replicate failed.length (.verdict .invalid) ++ s.answers)
    (hi : (s.block clientIp).loginsAmount.toInt = i)
    (hle : (i : ℤ) + failed.length ≤ g_config.LOGIN_TRIES + 1) :
    (u.block clientIp).loginsAmount.toInt = i + failed.length ∧
      (failed = [] ∨ (u.block clientIp).lastLogin = Int32.ofInt u.clock) ∧
      ∀ l ∈ failed.getLast?, l.asked ≤ u.clock := by
  induction failed generalizing s i with
  | nil =>
    cases hrun
    exact ⟨by simpa using hi, Or.inl rfl, by simp⟩
  | cons l failed ih =>
    obtain ⟨v, hv, hrun⟩ := Machine.run_cons hrun
    have hstep := step_eq hv
    obtain ⟨hfirst, hanswers⟩ := invalid_first hv hrun hinvalid
    rw [hstep] at hfirst
    obtain ⟨hblock, hclock⟩ := login_invalid hip hfirst
    rw [← hstep] at hblock hclock
    rw [List.length_cons] at hle
    have hcount := attempt_counts hi (by omega) hN l.env.time protocolId
    rw [← hblock] at hcount
    obtain ⟨hamount, hlast, htimes⟩ := ih (i := i + 1) hrun hanswers hcount (by omega)
    refine ⟨by rw [hamount, List.length_cons]; omega, Or.inr ?_, ?_⟩
    · rcases hlast with rfl | hlast
      · cases hrun
        rw [hblock, hclock]
        rfl
      · exact hlast
    · cases failed with
      | nil =>
        cases hrun
        rintro x hx
        rw [List.getLast?_singleton, Option.mem_some_iff] at hx
        exact hx ▸ step_clock hv
      | cons x failed =>
        rw [List.getLast?_cons_cons]
        exact htimes

/-- The attempts are counted and remembered as they should be: any other protocol would turn the
address away. It is the comparison of the protocols that lets the login through. -/
theorem hammered_other_protocol_disabled {s u : State} {failed : List Login} {l : Login}
    (h : Hammered g_config clientIp s u failed l) (hN : g_config.LOGIN_TRIES < 2147483647)
    (hT : 1000 ∣ g_config.LOGIN_TIMEOUT) (hnow : l.asked < 2147483648) {p : Int32}
    (hp : p ≠ protocolId) : isDisabled g_config u.ipLoginMap l.asked clientIp p = true := by
  have htries := h.tries
  have hcount := h.count
  have hlater := h.later
  have hzero : (s.block clientIp).loginsAmount.toInt = (0 : ℕ) := by
    rw [State.block]
    cases hit : s.ipLoginMap[clientIp]? with
    | none => rfl
    | some it =>
      rw [Option.getD_some, h.zero it hit]
      rfl
  obtain ⟨hamount, hlast, htimes⟩ := run_counts h.address hN h.run h.invalid hzero (by omega)
  have hne : failed ≠ [] := by
    intro hnil
    rw [hnil, List.length_nil] at hcount
    omega
  obtain ⟨last, hmem⟩ := Option.isSome_iff_exists.mp (List.getLast?_isSome.mpr hne)
  have hsoon : Soon g_config last l := (List.isChain_append.mp h.soon).2.2 last hmem l rfl
  have hasked := htimes last hmem
  have hmany : (u.block clientIp).loginsAmount.toInt > g_config.LOGIN_TRIES := by
    rw [hamount]
    omega
  have htime : (Int32.ofInt l.asked).toInt < (u.block clientIp).lastLogin.toInt +
      g_config.LOGIN_TIMEOUT.tdiv 1000 := by
    obtain ⟨q, hq⟩ := hT
    have hnowInt := toInt_ofInt_of_lt (n := l.asked) (by omega) (by omega)
    have hclockInt := toInt_ofInt_of_lt (n := u.clock) (by omega) (by omega)
    rw [hlast.resolve_left hne, hnowInt, hclockInt, hq, Int.mul_tdiv_cancel_left _ (by decide)]
    rw [Soon, hq] at hsoon
    omega
  cases hit : u.ipLoginMap[clientIp]? with
  | none =>
    rw [State.block, hit] at hmany
    change (0 : ℤ) > _ at hmany
    omega
  | some it =>
    have hblock : u.block clientIp = it := by rw [State.block, hit, Option.getD_some]
    rw [hblock] at hmany htime
    have hprotocol := reachable_oneProtocol (Machine.run_reachable h.reachable h.run) clientIp it hit
    exact isDisabled_other_protocol hit h.address h.tries hN (hprotocol ▸ hp.symm) hmany htime

end LoginServer.Io
