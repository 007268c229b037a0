import LoginServer.NetworkMessage

/-! # `adlerChecksum`

The checksum of a range of the message buffer. The accumulators are 32-bit words reduced after
each chunk of at most 5552 bytes; a length outside `1 .. NETWORK_MAX_SIZE` answers 0 without
reading anything. -/
namespace LoginServer.Message

open Faults Bytes

def adlerByte (s : UInt32 × UInt32) (data : UInt8) : UInt32 × UInt32 :=
  (s.1 + data.toUInt32, s.2 + (s.1 + data.toUInt32))

/-- The chunk loop; `fuel` bounds the number of chunks. -/
def adlerChunks : ℕ → UInt32 × UInt32 → List UInt8 → UInt32 × UInt32
  | 0, s, _ => s
  | fuel + 1, s, data =>
    if data.length > 0 then
      let t := (data.take 5552).foldl adlerByte s
      adlerChunks fuel (t.1 % 65521, t.2 % 65521) (data.drop 5552)
    else s

def adler (data : List UInt8) : UInt32 :=
  let s := adlerChunks data.length (1, 0) data
  s.2 <<< 16 ||| s.1

def adlerChecksum (data length : ℕ) : Access NetworkMessage UInt32 :=
  if length > NETWORK_MAX_SIZE ∨ length = 0 then pure 0
  else do
    let bytes ← load data length
    pure (adler bytes)

theorem adlerChecksum_run {p n : ℕ} {m : NetworkMessage} (hn : n ≠ 0)
    (h : p + n ≤ NETWORK_MAX_SIZE) :
    adlerChecksum p n m = some (adler (m.m_buffer.read p n), m) := by
  rw [adlerChecksum, if_neg (by omega), bind_of_run (load_run h), pure_run]

theorem adlerChecksum_none {p n : ℕ} {m : NetworkMessage} (h : n > NETWORK_MAX_SIZE ∨ n = 0) :
    adlerChecksum p n m = some (0, m) := by
  rw [adlerChecksum, if_pos h, pure_run]

end LoginServer.Message
