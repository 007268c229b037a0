import LoginServer.Framing
import LoginServer.Library.Format
import LoginServer.Library.Primes
import LoginServer.Rsa
import Mathlib.Tactic.NormNum.Prime

/-! # The request of a client

The first packet as a client writes it: the plain head, and a block of 128 bytes with the key
words, the name and the password that is encrypted with the public exponent. The server takes from
it what the client put in, whatever its buffer held before. -/
namespace LoginServer.LoginRequest

open Bytes Formats Message Rsa

/-- A key that clients are made for. The start-up tests it by `RSA_check_key` only; that both primes
are odd, and that a block of 128 bytes with a zero in front is below the modulus, is assumed. -/
structure ServerKey extends Rsa.Key where
  checked : RSA_check_key toKey
  p_odd : toKey.p ≠ 2
  q_odd : toKey.q ≠ 2
  large : 256 ^ 127 ≤ toKey.n
  fits : toKey.n ≤ 256 ^ 128

def chainKey : Rsa.Key where
  p := 127 * 2 ^ 504 + 1
  q := 379 * 2 ^ 498 + 1
  n := (127 * 2 ^ 504 + 1) * (379 * 2 ^ 498 + 1)
  e := 65537
  d := (50113 * (127 * 379 * 2 ^ 504) + 1) / 65537

theorem chainKey_p_prime : chainKey.p.Prime :=
  Primes.prime_of_squares (k := 127) (m := 503) (a := 3) (by norm_num) (by decide +kernel)
    (by decide +kernel) (by decide +kernel)

theorem chainKey_q_prime : chainKey.q.Prime :=
  Primes.prime_of_squares (k := 379) (m := 497) (a := 3) (by norm_num) (by decide +kernel)
    (by decide +kernel) (by decide +kernel)

instance : Inhabited ServerKey where
  default :=
    { chainKey with
      checked :=
        ⟨chainKey_p_prime, chainKey_q_prime, by decide +kernel, by decide +kernel,
          by decide +kernel⟩
      p_odd := by decide +kernel
      q_odd := by decide +kernel
      large := by decide +kernel
      fits := by decide +kernel }

namespace ServerKey

/-- The private operation with the parameters of the start-up. -/
def rsa (k : ServerKey) : Rsa := privateDecrypt k.n (crtPower k.toKey (crtParams k.toKey))

/-- What a client does with a block: the first byte is the highest of a number. -/
def publicEncrypt (k : ServerKey) (block : List UInt8) : List UInt8 :=
  (leBytes 128 (ofLe block.reverse ^ k.e % k.n)).reverse

variable (k : ServerKey)

theorem crtPower_plain (c : ℕ) : crtPower k.toKey (crtParams k.toKey) c = c ^ k.d % k.n := by
  apply (crtPower_halves k.checked c).mpr
  have hd := k.checked.d_ne_zero
  constructor
  · exact (Residues.pow_mod_pred_iff k.checked.p_prime hd k.checked.exponents_p c).mpr
      fun h => k.p_odd h.1
  · exact (Residues.pow_mod_pred_iff k.checked.q_prime hd k.checked.exponents_q c).mpr
      fun h => k.q_odd h.1

theorem e_ne_zero : k.e ≠ 0 := by
  intro he
  have hmod := k.checked.exponents_p
  rw [he, Nat.mul_zero] at hmod
  have hdvd : k.p - 1 ∣ 1 := (Nat.modEq_zero_iff_dvd.mp hmod.symm)
  have hle := Nat.le_of_dvd Nat.one_pos hdvd
  have h2 := k.checked.p_prime.two_le
  have hodd := k.p_odd
  omega

theorem power_power {m : ℕ} (hm : m < k.n) : (m ^ k.e % k.n) ^ k.d % k.n = m := by
  have hne : k.d * k.e ≠ 0 := Nat.mul_ne_zero k.checked.d_ne_zero k.e_ne_zero
  have hp := Residues.pow_modEq_self k.checked.p_prime hne k.checked.exponents_p m
  have hq := Residues.pow_modEq_self k.checked.q_prime hne k.checked.exponents_q m
  have hn : m ^ (k.d * k.e) ≡ m [MOD k.n] := by
    rw [k.checked.modulus]
    exact (Nat.modEq_and_modEq_iff_modEq_mul k.checked.coprime.symm).mp ⟨hp, hq⟩
  have hpow : (m ^ k.e % k.n) ^ k.d ≡ m ^ (k.d * k.e) [MOD k.n] := by
    rw [Nat.mul_comm, pow_mul]
    exact (Nat.mod_modEq _ _).pow k.d
  have hmod : (m ^ k.e % k.n) ^ k.d ≡ m [MOD k.n] := hpow.trans hn
  rwa [Nat.ModEq, Nat.mod_eq_of_lt hm] at hmod

theorem length_publicEncrypt (block : List UInt8) : (k.publicEncrypt block).length = 128 := by
  simp [publicEncrypt]

/-- The server's operation undoes the client's on every block that begins with a zero. -/
theorem rsa_publicEncrypt {block : List UInt8} (hlen : block.length = 128)
    (hfirst : block.head? = some 0) :
    ∃ plain, k.rsa (k.publicEncrypt block) = some plain ∧ plain.toList = block := by
  have hm : ofLe block.reverse < k.n := by
    obtain ⟨rest, rfl⟩ := List.head?_eq_some_iff.mp hfirst
    have hlt := ofLe_lt rest.reverse
    have hrest : rest.reverse.length = 127 := by simpa using hlen
    rw [List.reverse_cons, ofLe_append]
    rw [hrest] at hlt
    have hlarge := k.large
    simp only [ofLe, UInt8.toNat_zero, Nat.mul_zero, Nat.add_zero]
    omega
  have hpos : 0 < k.n := Nat.zero_lt_of_lt hm
  have hc : ofLe block.reverse ^ k.e % k.n < k.n := Nat.mod_lt _ hpos
  have hcipher : ofLe (k.publicEncrypt block).reverse = ofLe block.reverse ^ k.e % k.n := by
    rw [publicEncrypt, List.reverse_reverse, ofLe_leBytes]
    exact Nat.mod_eq_of_lt (hc.trans_le k.fits)
  have hblock := leBytes_ofLe block.reverse
  rw [List.length_reverse, hlen] at hblock
  have hplain : (leBytes 128 (crtPower k.toKey (crtParams k.toKey)
      (ofLe block.reverse ^ k.e % k.n))).reverse = block := by
    rw [k.crtPower_plain, k.power_power hm, hblock, List.reverse_reverse]
  rw [rsa, privateDecrypt]
  simp only [hcipher, if_pos hc]
  exact ⟨_, rfl, hplain⟩

end ServerKey

abbrev Block := ℕ × ℕ × ℕ × ℕ × List UInt8 × List UInt8

def blockFormat : Format Block :=
  tagged 0 (seq (uint 4) (seq (uint 4) (seq (uint 4) (seq (uint 4)
    (seq (lengthPrefixed 2) (lengthPrefixed 2))))))

/-- What a client asks for, with what fills its block up. -/
structure Request where
  platform : UInt16
  version : UInt16
  datSignature : UInt32
  sprSignature : UInt32
  picSignature : UInt32
  key : Message.Key
  name : List UInt8
  password : List UInt8
  fill : List UInt8
  whole : 21 + name.length + password.length + fill.length = 128

namespace Request

variable (r : Request)

def words : List ℕ := List.ofFn fun i => (r.key i).toNat

def fields : Block :=
  (r.words.getD 0 0, r.words.getD 1 0, r.words.getD 2 0, r.words.getD 3 0, r.name, r.password)

def block : List UInt8 := blockFormat.encode r.fields ++ r.fill

def payload (k : ServerKey) : List UInt8 :=
  0x01 :: (leBytes 2 r.platform.toNat ++ leBytes 2 r.version.toNat ++
    leBytes 4 r.datSignature.toNat ++ leBytes 4 r.sprSignature.toNat ++
    leBytes 4 r.picSignature.toNat ++ k.publicEncrypt r.block)

theorem length_payload (k : ServerKey) : (r.payload k).length = 145 := by
  simp [payload, k.length_publicEncrypt]

def frame (k : ServerKey) : Frame :=
  frameFor (r.payload k) (by rw [r.length_payload]; decide)

/-- The login as the server names it: the guests have account 10. -/
def login : Login where
  version := r.version.toNat
  key := r.words
  name := if r.name = [] then [0x31, 0x30] else r.name
  password := r.password

theorem fields_valid : blockFormat.Valid r.fields := by
  have hwhole := r.whole
  refine ⟨(r.key 0).toNat_lt, (r.key 1).toNat_lt, (r.key 2).toNat_lt, (r.key 3).toNat_lt, ?_, ?_⟩
  · exact (lengthPrefixed_valid 2 _).mpr (by simp only [fields]; omega)
  · exact (lengthPrefixed_valid 2 _).mpr (by simp only [fields]; omega)

theorem length_block : r.block.length = 128 := by
  have hwhole := r.whole
  simp only [block, blockFormat, fields, tagged, seq, uint, lengthPrefixed_encode,
    List.length_append, List.length_cons, length_leBytes]
  omega

theorem block_first : r.block.head? = some 0 := rfl

end Request

/-! ## What the server reads -/

def Lies (b : Memory) (p : ℕ) (l : List UInt8) : Prop := b.read p l.length = l

theorem lies_append {b : Memory} {p : ℕ} {l k : List UInt8} :
    Lies b p (l ++ k) ↔ Lies b p l ∧ Lies b (p + l.length) k := by
  rw [Lies, List.length_append, Memory.read_add]
  constructor
  · intro h
    exact List.append_inj h (by simp)
  · rintro ⟨hl, hk⟩
    rw [hl, hk]

theorem Lies.uint {b : Memory} {p w v : ℕ} (h : Lies b p (leBytes w v)) (hv : v < 256 ^ w) :
    ofLe (b.read p w) = v := by
  rw [Lies, length_leBytes] at h
  rw [h, ofLe_leBytes, Nat.mod_eq_of_lt hv]

theorem Lies.stringAt {b : Memory} {p : ℕ} {s : List UInt8}
    (h : Lies b p (leBytes 2 s.length ++ s)) (hfit : p + 2 + s.length < NETWORK_MAX_SIZE) :
    stringAt b p = (s, p + 2 + s.length) := by
  obtain ⟨hlen, hs⟩ := lies_append.mp h
  have hlt : s.length < 256 ^ 2 := by
    simp only [NETWORK_MAX_SIZE] at hfit
    omega
  rw [Lies, length_leBytes] at hs
  rw [Message.stringAt, hlen.uint hlt, if_neg (by omega), if_neg (by omega), hs]

theorem blockFormat_encode (k0 k1 k2 k3 : ℕ) (name password : List UInt8) :
    blockFormat.encode (k0, k1, k2, k3, name, password) =
      [0] ++ (leBytes 4 k0 ++ (leBytes 4 k1 ++ (leBytes 4 k2 ++ (leBytes 4 k3 ++
        ((leBytes 2 name.length ++ name) ++ (leBytes 2 password.length ++ password)))))) := by
  simp only [blockFormat, tagged, seq, Formats.uint, lengthPrefixed_encode, List.singleton_append]

/-- The server reads a block by its format: a decrypted block that the format takes, with anything
behind, gives the login of its fields. -/
theorem loginAt_block {b : Memory} {plain rest : List UInt8} {k0 k1 k2 k3 : ℕ}
    {name password : List UInt8} (version : ℕ) (hb : Lies b 0 plain) (hlen : plain.length ≤ 128)
    (hdecode : blockFormat.decode plain = some ((k0, k1, k2, k3, name, password), rest)) :
    loginAt version b =
      ⟨version, [k0, k1, k2, k3], if name = [] then [0x31, 0x30] else name, password⟩ := by
  obtain ⟨⟨hk0, hk1, hk2, hk3, -, -⟩, rfl⟩ := blockFormat.sound _ _ _ hdecode
  rw [blockFormat_encode] at hb hlen
  simp only [lies_append, length_leBytes, List.length_singleton, List.length_append,
    Nat.reduceAdd] at hb hlen
  obtain ⟨⟨-, h0, h1, h2, h3, hname, hpassword⟩, -⟩ := hb
  have hnameAt := (lies_append.mpr hname).stringAt (by simp only [NETWORK_MAX_SIZE]; omega)
  have hpasswordAt : Lies b (17 + 2 + name.length) (leBytes 2 password.length ++ password) := by
    rw [Nat.add_assoc]
    exact lies_append.mpr hpassword
  have hpasswordAt := hpasswordAt.stringAt (by simp only [NETWORK_MAX_SIZE]; omega)
  rw [loginAt]
  simp only [hnameAt, hpasswordAt, h0.uint hk0, h1.uint hk1, h2.uint hk2, h3.uint hk3]

namespace Request

variable (r : Request) (k : ServerKey)

theorem frame_size : (r.frame k).size = 151 := by
  rw [frame, frameFor_size, r.length_payload]

theorem frame_payload (stale : Memory) : Lies ((r.frame k).loaded stale).m_buffer 6 (r.payload k) :=
  frameFor_cipher _ _ stale

theorem frame_checked (stale : Memory) :
    ofLe (((r.frame k).loaded stale).m_buffer.read 2 4) =
      expectedChecksum (r.frame k).size ((r.frame k).loaded stale).m_buffer := by
  have hpayload := r.frame_payload k stale
  have hlt : (adler (r.payload k)).toNat < 256 ^ 4 := (adler (r.payload k)).toNat_lt
  rw [Lies, r.length_payload] at hpayload
  rw [expectedChecksum, r.frame_size, if_neg (by decide), hpayload, frame, frameFor_checksum,
    ofLe_leBytes, Nat.mod_eq_of_lt hlt]

theorem payload_parts {b : Memory} (h : Lies b 6 (r.payload k)) :
    Lies b 6 [0x01] ∧ Lies b 9 (leBytes 2 r.version.toNat) ∧
      Lies b 11 (leBytes 4 r.datSignature.toNat) ∧ Lies b 15 (leBytes 4 r.sprSignature.toNat) ∧
      Lies b 19 (leBytes 4 r.picSignature.toNat) ∧ Lies b 23 (k.publicEncrypt r.block) := by
  rw [payload, ← List.singleton_append] at h
  simp only [lies_append, length_leBytes, List.length_singleton, List.length_append,
    Nat.reduceAdd] at h
  obtain ⟨hid, ⟨⟨⟨⟨-, hversion⟩, hdat⟩, hspr⟩, hpic⟩, hcipher⟩ := h
  exact ⟨hid, hversion, hdat, hspr, hpic, hcipher⟩

theorem decrypted_block {b : Memory} (h : Lies b 23 (k.publicEncrypt r.block)) :
    Lies (decrypted k.rsa b) 0 r.block := by
  rw [Lies, k.length_publicEncrypt] at h
  obtain ⟨plain, hplain, hblock⟩ := k.rsa_publicEncrypt r.length_block r.block_first
  rw [decrypted, h, hplain, ← hblock]
  exact Memory.read_write _ _ _

theorem block_decode : blockFormat.decode r.block = some (r.fields, r.fill) :=
  blockFormat.complete _ _ r.fields_valid

theorem judgement (isDisabled : Bool) (stale : Memory) :
    judgementAt k.rsa isDisabled (r.frame k).size ((r.frame k).loaded stale).m_buffer =
      some (answerLogin isDisabled r.datSignature.toNat r.sprSignature.toNat
        r.picSignature.toNat r.login) := by
  obtain ⟨hid, hversion, hdat, hspr, hpic, hcipher⟩ :=
    r.payload_parts k (r.frame_payload k stale)
  have hchecked := r.frame_checked k stale
  generalize ((r.frame k).loaded stale).m_buffer = b at hid hversion hdat hspr hpic hcipher hchecked ⊢
  have hblock := r.decrypted_block k hcipher
  have hfirst : Lies (decrypted k.rsa b) 0 [0] := by
    rw [Request.block, Request.fields, blockFormat_encode, List.append_assoc] at hblock
    exact (lies_append.mp hblock).1
  have hzero : ofLe ((decrypted k.rsa b).read 0 1) = 0 := hfirst.uint (w := 1) (v := 0) (by decide)
  have hone : b 6 = 1 := by
    rw [Lies, List.length_singleton, Memory.read_succ] at hid
    exact (List.cons.inj hid).1
  have hlogin : loginAt r.version.toNat (decrypted k.rsa b) = r.login :=
    loginAt_block r.version.toNat hblock (Nat.le_of_eq r.length_block) r.block_decode
  rw [judgementAt, if_pos ⟨hchecked, hone⟩, answerAt, r.frame_size,
    hversion.uint r.version.toNat_lt, if_pos ⟨rfl, hzero⟩, hdat.uint r.datSignature.toNat_lt,
    hspr.uint r.sprSignature.toNat_lt, hpic.uint r.picSignature.toNat_lt, hlogin]

end Request

/-- With such a key every request is judged by the version, the signatures and the attempts of the
address, and a login that goes on carries exactly the key, the name and the password of the
client. -/
theorem request_judged (k : ServerKey) (r : Request) (isDisabled : Bool) (stale : Memory) :
    judged (r.frame k) k.rsa isDisabled stale =
      some (some (answerLogin isDisabled r.datSignature.toNat r.sprSignature.toNat
        r.picSignature.toNat r.login)) := by
  rw [judged_eq, r.judgement]

end LoginServer.LoginRequest
