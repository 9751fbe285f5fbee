import Pcutp.Crc
import Pcutp.Errors
import Pcutp.Lib.Lz4

/-!
# Block compression

`compress` is the greedy LZ4 encoder of `compression.py`: a table remembers the
last position of every four-byte key, and a match is taken when it is at least
twelve bytes long.  `decompress` is the bounded decoder of the receiver.  Both
are written as the source's loops; the input that is still to be read stands
for the source's position in it.

`worthwhile` compares estimated times in floating point.  The comparison of
times is a parameter `saves`; the comparison of lengths, `packed <= raw * 0.85`,
is the exact one.
-/

namespace Pcutp

open Lz4 (copyChunks)

section Compress

/-- The variables of the encoder loop. -/
structure CompressState where
  output : Bytes
  table : Bytes → Option Nat
  anchor : Nat
  pos : Nat
  found : Nat

/-- The local function `length` of the encoder. -/
def lengthBytes (value : Nat) : Bytes :=
  if 255 ≤ value then 255 :: lengthBytes (value - 255) else [UInt8.ofNat value]
termination_by value
decreasing_by omega

/-- The inner `while` that extends a match from `count` bytes on. -/
def extendMatch (data : Bytes) (previous pos count : Nat) : Nat :=
  if pos + count < data.length - 5 ∧ data[previous + count]? = data[pos + count]? then
    extendMatch data previous pos (count + 1)
  else
    count
termination_by data.length - 5 - (pos + count)

theorem le_extendMatch (data : Bytes) (previous pos count : Nat) :
    count ≤ extendMatch data previous pos count := by
  fun_induction extendMatch data previous pos count with
  | case1 count h ih =>
      omega
  | case2 count h =>
      exact Nat.le_refl _

/-- `data[start:stop]`. -/
def slice (data : Bytes) (start stop : Nat) : Bytes :=
  (data.take stop).drop start

/-- The bytes appended for a match of `count` bytes at `pos`. -/
def matchBytes (data : Bytes) (anchor pos previous count : Nat) : Bytes :=
  let literals := pos - anchor
  [UInt8.ofNat ((min literals 15 <<< 4) ||| min (count - 4) 15)] ++
    (if 15 ≤ literals then lengthBytes (literals - 15) else []) ++
    slice data anchor pos ++
    [UInt8.ofNat (pos - previous), UInt8.ofNat ((pos - previous) / 256)] ++
    (if 19 ≤ count then lengthBytes (count - 19) else [])

/-- The bytes appended after the loop. -/
def lastBytes (data : Bytes) (anchor : Nat) : Bytes :=
  let literals := data.length - anchor
  [UInt8.ofNat (min literals 15 <<< 4)] ++
    (if 15 ≤ literals then lengthBytes (literals - 15) else []) ++
    data.drop anchor

/-- The main loop of `compress`. -/
def compressLoop (data : Bytes) (s : CompressState) : CompressState :=
  if s.pos + 12 ≤ data.length then
    let key := slice data s.pos (s.pos + 4)
    let previous := s.table key
    let table := Function.update s.table key (some s.pos)
    match previous with
    | none => compressLoop data { s with table, pos := s.pos + 1 }
    | some prev =>
        if s.pos - prev > 65535 then
          compressLoop data { s with table, pos := s.pos + 1 }
        else
          let count := extendMatch data prev s.pos 4
          if count < 12 then
            compressLoop data { s with table, pos := s.pos + 1 }
          else
            compressLoop data
              { output := s.output ++ matchBytes data s.anchor s.pos prev count
                table
                anchor := s.pos + count
                pos := s.pos + count
                found := s.found + 1 }
  else
    s
termination_by data.length - s.pos
decreasing_by
  · omega
  · omega
  · omega
  · have := le_extendMatch data prev s.pos 4
    omega

/-- `compress(data)`: the packed bytes and the number of matches. -/
def compress (data : Bytes) : Bytes × Nat :=
  let s := compressLoop data
    { output := [], table := fun _ => none, anchor := 0, pos := 0, found := 0 }
  (s.output ++ lastBytes data s.anchor, s.found)

/-- `worthwhile(raw, baud)`, with the comparison of times as a parameter. -/
def worthwhile (saves : Nat → Nat → Nat → Bool) (raw : Bytes) : Option Bytes :=
  if raw.length < 64 then
    none
  else
    let (packed, found) := compress raw
    if 20 * packed.length ≤ 17 * raw.length ∧ saves raw.length packed.length found then
      some packed
    else
      none

/-- What `worthwhile` returns is the compressed block. -/
theorem worthwhile_eq
    {saves : Nat → Nat → Nat → Bool} {raw packed : Bytes}
    (h : worthwhile saves raw = some packed) :
    packed = (compress raw).1 := by
  simp only [worthwhile] at h
  split_ifs at h
  exact (Option.some.inj h).symm

/-- What `worthwhile` returns is shorter than the block. -/
theorem worthwhile_length
    {saves : Nat → Nat → Nat → Bool} {raw packed : Bytes}
    (h : worthwhile saves raw = some packed) :
    packed.length ≤ raw.length := by
  rw [worthwhile_eq h]
  simp only [worthwhile] at h
  split_ifs at h with _ hle
  have := hle.1
  omega

end Compress

section Decompress

/-- The loop of the local function `length` of the decoder. -/
def readExtension (size : Nat) : Nat → Bytes → Except PcutpError (Nat × Bytes)
  | _, [] => .error (ProtocolError "truncated LZ4 block")
  | value, extra :: rest =>
      let value := value + extra.toNat
      if value > size then
        .error (ProtocolError "LZ4 length exceeds block")
      else if extra ≠ 255 then
        .ok (value, rest)
      else
        readExtension size value rest

/-- The local function `length` of the decoder. -/
def readLength (size value : Nat) (rest : Bytes) : Except PcutpError (Nat × Bytes) :=
  if value = 15 then readExtension size value rest else .ok (value, rest)

/-- What one turn of the decoder loop leads to. -/
inductive Decoded
  | failed (exc : PcutpError)
  | finished (output : Bytes)
  | more (rest output : Bytes)

/-- The part of a turn after the literals: offset, match length and copy. -/
def decodeMatch (size low : Nat) (rest output : Bytes) : Decoded :=
  match rest with
  | b0 :: b1 :: rest =>
      let offset := b0.toNat ||| (b1.toNat <<< 8)
      match readLength size low rest with
      | .error exc => .failed exc
      | .ok (count, rest) =>
          let count := count + 4
          if ¬ (1 ≤ offset ∧ offset ≤ output.length) ∨ output.length + count > size then
            .failed (ProtocolError "invalid LZ4 match")
          else
            .more rest (copyChunks (output.length - offset) count output)
  | _ => .failed (ProtocolError "truncated LZ4 block")

/-- One turn of the decoder loop, after its token was read. -/
def decodeTurn (size : Nat) (token : UInt8) (rest output : Bytes) : Decoded :=
  match readLength size (token.toNat >>> 4) rest with
  | .error exc => .failed exc
  | .ok (literals, rest) =>
      if literals > rest.length ∨ output.length + literals > size then
        .failed (ProtocolError "invalid LZ4 literal length")
      else
        let output := output ++ rest.take literals
        let rest := rest.drop literals
        if rest = [] then
          if output.length ≠ size then
            .failed (ProtocolError "LZ4 output size mismatch")
          else
            .finished output
        else
          decodeMatch size (token.toNat &&& 15) rest output

theorem readExtension_length
    {size value : Nat} {rest rest' : Bytes} {value' : Nat}
    (h : readExtension size value rest = .ok (value', rest')) :
    rest'.length ≤ rest.length := by
  induction rest generalizing value with
  | nil =>
      simp [readExtension] at h
  | cons extra rest ih =>
      simp only [readExtension] at h
      split_ifs at h
      · cases h
        simp
      · have := ih h
        simp
        omega

theorem readLength_length
    {size value : Nat} {rest rest' : Bytes} {value' : Nat}
    (h : readLength size value rest = .ok (value', rest')) :
    rest'.length ≤ rest.length := by
  rw [readLength] at h
  split_ifs at h
  · exact readExtension_length h
  · cases h
    exact Nat.le_refl _

theorem decodeMatch_length
    {size low : Nat} {rest output rest' output' : Bytes}
    (h : decodeMatch size low rest output = .more rest' output') :
    rest'.length ≤ rest.length := by
  unfold decodeMatch at h
  split at h
  · split at h
    · cases h
    · rename_i hread
      have hle := readLength_length hread
      dsimp only at h
      split_ifs at h
      cases h
      simp
      omega
  · cases h

/-- A turn that goes on leaves no more input than it found after the token. -/
theorem decodeTurn_length
    {size : Nat} {token : UInt8} {rest output rest' output' : Bytes}
    (h : decodeTurn size token rest output = .more rest' output') :
    rest'.length ≤ rest.length := by
  unfold decodeTurn at h
  split at h
  · cases h
  · rename_i hread
    have hle := readLength_length hread
    dsimp only at h
    split_ifs at h
    have hmatch := decodeMatch_length h
    simp only [List.length_drop] at hmatch
    omega

/-- The main loop of `decompress`. -/
def decompressLoop (size : Nat) : Bytes → Bytes → Except PcutpError Bytes
  | [], _ => .error (ProtocolError "missing LZ4 final literals")
  | token :: rest, output =>
      match _h : decodeTurn size token rest output with
      | .failed exc => .error exc
      | .finished output => .ok output
      | .more rest output => decompressLoop size rest output
termination_by rest => rest.length
decreasing_by
  have := decodeTurn_length _h
  simp
  omega

/-- `decompress(data, size)`. -/
def decompress (data : Bytes) (size : Int) : Except PcutpError Bytes :=
  if ¬ (0 ≤ size ∧ size ≤ 4096) then
    .error (ProtocolError "invalid decompressed length")
  else
    decompressLoop size.toNat data []

end Decompress

end Pcutp
