import LoginServer.Account

/-! # `isDisabled` and `addAttempt`

The login attempts that `ConnectionManager` keeps for each address. -/
namespace LoginServer.Attempts

open Accounts

structure LoginBlock where
  lastLogin : Int32
  lastProtocol : Int32
  loginsAmount : Int32

abbrev IpLoginMap := Std.TreeMap UInt32 LoginBlock

def protocolId : Int32 := 0x01

/-- `time` is what `time(NULL)` answers, in seconds. -/
def isDisabled (g_config : Config) (ipLoginMap : IpLoginMap) (time : ℤ) (clientIp : UInt32)
    (protocolId : Int32) : Bool :=
  let maxLoginTries := Int32.ofInt g_config.LOGIN_TRIES
  if maxLoginTries = 0 ∨ clientIp = 0 then false
  else match ipLoginMap[clientIp]? with
    | none => false
    | some it => it.lastProtocol ≠ protocolId ∧ it.loginsAmount > maxLoginTries ∧
        (Int32.ofInt time).toInt < it.lastLogin.toInt + g_config.LOGIN_TIMEOUT.tdiv 1000

def LoginBlock.attempt (g_config : Config) (it : LoginBlock) (time : ℤ) (protocolId : Int32)
    (success : Bool) : LoginBlock :=
  let loginsAmount :=
    if it.loginsAmount.toInt > g_config.LOGIN_TRIES then 0 else it.loginsAmount
  let currentTime := Int32.ofInt time
  { lastLogin := currentTime
    lastProtocol := protocolId
    loginsAmount :=
      if !success ∨ currentTime < it.lastLogin + Int32.ofInt g_config.RETRY_TIMEOUT / 1000 then
        loginsAmount + 1
      else 0 }

def addAttempt (g_config : Config) (ipLoginMap : IpLoginMap) (time : ℤ) (clientIp : UInt32)
    (protocolId : Int32) (success : Bool) : IpLoginMap :=
  if clientIp = 0 then ipLoginMap
  else
    let it := (ipLoginMap[clientIp]?).getD ⟨0, 0x00, 0⟩
    ipLoginMap.insert clientIp (it.attempt g_config time protocolId success)

/-- Every block was last written by the login protocol, the only one there is. -/
def OneProtocol (ipLoginMap : IpLoginMap) : Prop :=
  ∀ (clientIp : UInt32) (it : LoginBlock),
    ipLoginMap[clientIp]? = some it → it.lastProtocol = protocolId

theorem oneProtocol_empty : OneProtocol ∅ := by
  intro clientIp it h
  rw [Std.TreeMap.getElem?_emptyc] at h
  cases h

theorem addAttempt_oneProtocol {ipLoginMap : IpLoginMap} (h : OneProtocol ipLoginMap)
    (g_config : Config) (time : ℤ) (clientIp : UInt32) (success : Bool) :
    OneProtocol (addAttempt g_config ipLoginMap time clientIp protocolId success) := by
  rw [addAttempt]
  split
  · exact h
  · intro ip it hit
    rw [Std.TreeMap.getElem?_insert] at hit
    split at hit
    · cases hit
      rfl
    · exact h ip it hit

/-- A block of the same protocol never disables its address, whatever it counts. -/
theorem isDisabled_oneProtocol {ipLoginMap : IpLoginMap} (h : OneProtocol ipLoginMap)
    (g_config : Config) (time : ℤ) (clientIp : UInt32) :
    isDisabled g_config ipLoginMap time clientIp protocolId = false := by
  rw [isDisabled]
  cases hit : ipLoginMap[clientIp]? with
  | none => simp
  | some it => simp [h clientIp it hit]

theorem toInt_ofInt_of_lt {n : ℤ} (h0 : 0 ≤ n) (h : n < 2147483648) :
    (Int32.ofInt n).toInt = n := by
  rw [Int32.toInt_ofInt]
  exact Int.bmod_eq_of_le (by simp only [Int32.size]; omega) (by simp only [Int32.size]; omega)

theorem isDisabled_other_protocol {g_config : Config} {ipLoginMap : IpLoginMap} {time : ℤ}
    {clientIp : UInt32} {it : LoginBlock} {p : Int32} (hit : ipLoginMap[clientIp]? = some it)
    (hip : clientIp ≠ 0) (hpos : 0 < g_config.LOGIN_TRIES)
    (hN : g_config.LOGIN_TRIES < 2147483647) (hp : it.lastProtocol ≠ p)
    (hmany : it.loginsAmount.toInt > g_config.LOGIN_TRIES)
    (htime : (Int32.ofInt time).toInt <
      it.lastLogin.toInt + g_config.LOGIN_TIMEOUT.tdiv 1000) :
    isDisabled g_config ipLoginMap time clientIp p = true := by
  have htries := toInt_ofInt_of_lt (n := g_config.LOGIN_TRIES) (by omega) (by omega)
  have hasked : ¬ (Int32.ofInt g_config.LOGIN_TRIES = 0 ∨ clientIp = 0) := by
    rintro (h0 | h0)
    · rw [h0] at htries
      change (0 : ℤ) = _ at htries
      omega
    · exact hip h0
  have hover : it.loginsAmount > Int32.ofInt g_config.LOGIN_TRIES := by
    rw [gt_iff_lt, Int32.lt_iff_toInt_lt, htries]
    exact hmany
  simp only [isDisabled, if_neg hasked, hit]
  exact decide_eq_true ⟨hp, hover, htime⟩

end LoginServer.Attempts
