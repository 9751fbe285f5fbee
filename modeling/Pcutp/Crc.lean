import Mathlib.Logic.Function.Iterate
import Pcutp.Text

/-!
# CRC-32

`zlib.crc32` is CRC-32/ISO-HDLC: a reflected 32-bit register with polynomial
`0xEDB88320`, complemented before and after.  A running checksum is continued
by passing the previous value as the seed.

The registers are bit vectors, so every operation wraps as on the machine.
-/

namespace Pcutp

/-- A byte string (`bytes`). -/
abbrev Bytes := List UInt8

/-- One bit of the reflected register. -/
def crcShift (c : BitVec 32) : BitVec 32 :=
  if c.getLsbD 0 then (c >>> 1) ^^^ 0xEDB88320#32 else c >>> 1

/-- One byte of the reflected register. -/
def crcByte (c : BitVec 32) (b : UInt8) : BitVec 32 :=
  crcShift^[8] (c ^^^ b.toBitVec.setWidth 32)

/-- `crc32(data, seed)`. -/
def crc32 (data : Bytes) (seed : BitVec 32) : BitVec 32 :=
  ~~~(data.foldl crcByte (~~~seed))

/-- `to_hex(value)`. -/
def to_hex (value : BitVec 32) : Line :=
  hex8 value

/-- `crc32_hex(data)`. -/
def crc32_hex (data : Bytes) : Line :=
  to_hex (crc32 data 0)

/-- `parse_hex(text)`: `none` where the source raises `ValueError`. -/
def parse_hex (text : Line) : Option Nat :=
  if text.length ≠ 8 ∨ text.any (fun c => c ∉ "0123456789abcdefABCDEF".toList) then
    none
  else
    some (text.foldl (fun acc c =>
      acc * 16 + "0123456789ABCDEF".toList.idxOf c.toUpper) 0)

/-- A running checksum continued over a second piece is the checksum of both. -/
theorem crc32_append (a b : Bytes) (seed : BitVec 32) :
    crc32 (a ++ b) seed = crc32 b (crc32 a seed) := by
  simp [crc32, List.foldl_append]

@[simp] theorem crc32_nil (seed : BitVec 32) :
    crc32 [] seed = seed := by
  simp [crc32]

theorem isWord_crc32_hex (data : Bytes) :
    IsWord (crc32_hex data) :=
  isWord_hex8 _

@[simp] theorem upper_crc32_hex (data : Bytes) :
    upper (crc32_hex data) = crc32_hex data :=
  upper_hex8 _

/-- Every printed checksum passes the receiver's field check. -/
theorem parse_hex_to_hex (v : BitVec 32) :
    (parse_hex (to_hex v)).isSome = true := by
  have hdigits : ∀ c ∈ "0123456789ABCDEF".toList,
      c ∈ "0123456789abcdefABCDEF".toList := by
    simp
  have hall : (to_hex v).any (fun c => c ∉ "0123456789abcdefABCDEF".toList) = false := by
    rw [List.any_eq_false]
    intro c hc
    have hmem := hdigits c (mem_hex8 hc)
    simp only [hmem, not_true_eq_false, decide_false, Bool.false_eq_true, not_false_eq_true]
  have hlen : (to_hex v).length = 8 := length_hex8 v
  simp only [parse_hex, hall, hlen]
  simp

example : crc32_hex [49, 50, 51, 52, 53, 54, 55, 56, 57] = "CBF43926".toList := by
  decide +kernel

end Pcutp
