import LoginServer.Account
import LoginServer.Library.Bytes

/-! # `encryptTest`

The comparison of a password with what the database stores. A digest mode writes the digest of
the crypto library in hexadecimal digits, and any other mode compares the upper-case texts. -/
namespace LoginServer.Encryption

open Bytes Accounts

/-- What the digest functions of the crypto library leave in `md`. -/
structure Digests where
  MD5 : List UInt8 → List UInt8
  SHA1 : List UInt8 → List UInt8
  SHA256 : List UInt8 → List UInt8
  SHA512 : List UInt8 → List UInt8

def ENCRYPTION_MD5 : ℤ := 1
def ENCRYPTION_SHA1 : ℤ := 2
def ENCRYPTION_SHA256 : ℤ := 3
def ENCRYPTION_SHA512 : ℤ := 4

/-- `char` is signed, so the second range is that of the bytes 224 to 255. -/
def upchar (character : UInt8) : UInt8 :=
  if character ≥ 97 ∧ character ≤ 122 ∨ character ≥ 224 then character - 32 else character

def tolower (character : UInt8) : UInt8 :=
  if character ≥ 65 ∧ character ≤ 90 then character + 32 else character

def hexDigit (n : ℕ) : UInt8 := (ascii "0123456789ABCDEF").getD n 0

/-- `transformToMD5` and its siblings. -/
def transformTo (digest : List UInt8 → List UInt8) (plainText : List UInt8) (upperCase : Bool) :
    List UInt8 :=
  let output := (digest plainText).flatMap fun md =>
    [hexDigit (md.toNat / 16), hexDigit (md.toNat % 16)]
  if upperCase then output else output.map tolower

def _encrypt (d : Digests) (g_config : Config) (str : List UInt8) (upperCase : Bool) :
    List UInt8 :=
  if g_config.ENCRYPTION = ENCRYPTION_MD5 then transformTo d.MD5 str upperCase
  else if g_config.ENCRYPTION = ENCRYPTION_SHA1 then transformTo d.SHA1 str upperCase
  else if g_config.ENCRYPTION = ENCRYPTION_SHA256 then transformTo d.SHA256 str upperCase
  else if g_config.ENCRYPTION = ENCRYPTION_SHA512 then transformTo d.SHA512 str upperCase
  else if upperCase then str.map upchar
  else str

/-- The answer, and what the reference to `hash` holds afterwards. -/
def encryptTest (d : Digests) (g_config : Config) (plain hash : List UInt8) : Bool × List UInt8 :=
  (_encrypt d g_config plain true = hash.map upchar, hash.map upchar)

theorem upchar_upchar (c : UInt8) : upchar (upchar c) = upchar c := by
  simp only [upchar]
  split
  · rename_i h
    rw [if_neg]
    simp only [UInt8.le_iff_toNat_le, ge_iff_le, UInt8.reduceToNat] at h ⊢
    have hlt := c.toNat_lt
    have hge : (32 : UInt8) ≤ c := by
      simp only [UInt8.le_iff_toNat_le, UInt8.reduceToNat]
      omega
    have hsub : (c - 32).toNat = c.toNat - 32 := UInt8.toNat_sub_of_le _ _ hge
    omega
  · rfl

theorem encryptTest_again (d : Digests) (g_config : Config) (plain hash : List UInt8) :
    encryptTest d g_config plain (encryptTest d g_config plain hash).2 =
      encryptTest d g_config plain hash := by
  have hup : (hash.map upchar).map upchar = hash.map upchar := by
    rw [List.map_map]
    exact List.map_congr_left fun c _ => upchar_upchar c
  simp only [encryptTest, hup]

end LoginServer.Encryption
