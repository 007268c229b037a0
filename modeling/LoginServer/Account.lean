import LoginServer.Library.Bytes
import Mathlib.Data.Int.Notation
import Mathlib.Tactic.Common

/-! # Accounts, characters and worlds

The data of `io.h` and `worlds.h`. Strings are their bytes. A world always has a port, as
`Worlds::loadFromJson` sees to. -/
namespace LoginServer.Accounts

open Bytes

structure World where
  name : List UInt8
  address : UInt32
  ports : List ℤ
  hasPort : ports ≠ []

structure Character where
  name : List UInt8
  server : World
  status : ℤ

/-- A map in the order of `std::string`, which compares bytes. -/
abbrev Characters := Std.TreeMap (List UInt8) Character

structure Account where
  premiumDays : UInt16
  warnings : UInt16
  number : UInt32
  lastDay : UInt32
  name : List UInt8
  password : List UInt8
  recoveryKey : List UInt8
  salt : List UInt8
  charList : Characters

/-- The settings that a login reads; numbers are 64-bit integers. -/
structure Config where
  MOTD_ID : ℤ
  MOTD_TEXT : List UInt8
  ON_OR_OFF_CHARLIST : Bool
  FREE_PREMIUM : Bool
  LOGIN_TRIES : ℤ
  RETRY_TIMEOUT : ℤ
  LOGIN_TIMEOUT : ℤ
  ENCRYPTION : ℤ
  GAMEMASTER_GROUP : ℤ
  SERVER_NAME : List UInt8
  URL : List UInt8

def GRATIS_PREMIUM : ℕ := 65535

/-- `random_range` of the uniform distribution, with what `rand24b` answers. -/
def random_range (lowestNumber highestNumber : ℤ) (rand24b : ℕ) : ℤ :=
  if highestNumber = lowestNumber then lowestNumber
  else if lowestNumber > highestNumber then
    highestNumber + rand24b % (lowestNumber - highestNumber + 1)
  else lowestNumber + rand24b % (highestNumber - lowestNumber + 1)

theorem random_range_bounds {n : ℕ} (hn : n ≠ 0) (rand24b : ℕ) :
    0 ≤ random_range 0 (n - 1) rand24b ∧ random_range 0 (n - 1) rand24b < n := by
  rw [random_range]
  split
  · omega
  · rw [if_neg (by omega)]
    have hlt := Int.emod_lt_of_pos rand24b (show (0 : ℤ) < n - 1 - 0 + 1 by omega)
    have hge := Int.emod_nonneg rand24b (show ((n : ℤ) - 1 - 0 + 1) ≠ 0 by omega)
    omega

theorem random_range_index {n : ℕ} (hn : n ≠ 0) (rand24b : ℕ) :
    (random_range 0 (n - 1) rand24b).toNat < n := by
  have hbounds := random_range_bounds hn rand24b
  omega

/-- `games[random_range(0, games.size() - 1)]`. -/
def World.port (w : World) (rand24b : ℕ) : ℤ :=
  w.ports.get ⟨(random_range 0 (w.ports.length - 1) rand24b).toNat,
    random_range_index (fun h => w.hasPort (List.length_eq_zero_iff.mp h)) rand24b⟩

end LoginServer.Accounts
