import Pcutp.Crc
import Pcutp.Lib.Memory
import Pcutp.Lib.Reflect

/-!
# The checksums of the PicoCalc

The firmware computes a CRC-32 over a string of at most 255 bytes, with a
register that shifts towards its most significant bit.  `CrcChunk` continues a
checksum by seeding that register with the reverse of the complemented value,
and `CrcBoth` walks a block in chunks, for the checksum of the block and for
the one of the file.  BASIC integers have 64 bits.
-/

namespace Pcutp.Picocalc

open Memory (Area)

/-- `MATH(CRC32 s, Len(s), poly, start, end, 1, 1)`: the register takes the reversed bytes, and
is reversed itself before `end` is added. -/
def mathCrc32 (s : Bytes) (poly start stop : BitVec 64) : BitVec 64 :=
  ((s.foldl (Reflect.byteHigh (poly.setWidth 32)) (start.setWidth 32)).reverse ^^^
    stop.setWidth 32).setWidth 64

section Reflect32

/-- The inner loop of `BuildReflect`. -/
def reflectByte (v : BitVec 64) : BitVec 64 :=
  (List.range 8).foldl
    (fun r j => if (v >>> j) &&& 1#64 ≠ 0#64 then r ||| (1#64 <<< (7 - j)) else r) 0#64

/-- `rtab%()` after `BuildReflect`. -/
def rtab : Vector (BitVec 64) 256 :=
  Vector.ofFn fun i => reflectByte (BitVec.ofNat 64 i)

theorem and_255_toNat (v : BitVec 64) :
    (v &&& 255#64).toNat = v.toNat % 256 := by
  rw [BitVec.toNat_and]
  exact Nat.and_two_pow_sub_one_eq_mod v.toNat 8

theorem and_255_lt (v : BitVec 64) :
    (v &&& 255#64).toNat < 256 := by
  rw [and_255_toNat]
  exact Nat.mod_lt _ (by decide)

/-- `rtab%(v And 255)`. -/
def lookup (v : BitVec 64) : BitVec 64 :=
  have hlt := and_255_lt v
  rtab[(v &&& 255#64).toNat]

/-- `Reflect32(v)`. -/
def Reflect32 (v : BitVec 64) : BitVec 64 :=
  (lookup v <<< 24) ||| (lookup (v >>> 8) <<< 16) ||| (lookup (v >>> 16) <<< 8) |||
    lookup (v >>> 24)

/-- `BuildReflect` reverses every byte. -/
theorem reflectByte_eq :
    ∀ i : Fin 256, reflectByte (BitVec.ofNat 64 i) = ((BitVec.ofNat 8 i).reverse).setWidth 64 := by
  decide +kernel

theorem lookup_eq (v : BitVec 64) :
    lookup v = (v.setWidth 8).reverse.setWidth 64 := by
  have hbyte : BitVec.ofNat 8 (v &&& 255#64).toNat = v.setWidth 8 := by
    apply BitVec.eq_of_toNat_eq
    rw [BitVec.toNat_ofNat, and_255_toNat, BitVec.toNat_setWidth, Nat.mod_mod]
  rw [lookup, rtab, Vector.getElem_ofFn, ← hbyte]
  exact reflectByte_eq ⟨(v &&& 255#64).toNat, and_255_lt v⟩

theorem getLsbD_lookup (v : BitVec 64) (i : Nat) :
    (lookup v).getLsbD i = (decide (i < 8) && v.getLsbD (7 - i)) := by
  rw [lookup_eq, BitVec.getLsbD_setWidth, BitVec.getLsbD_reverse, BitVec.getMsbD_eq_getLsbD,
    BitVec.getLsbD_setWidth]
  by_cases hi : i < 8
  · simp [hi, show i < 64 by omega, show 7 - i < 8 by omega]
  · simp [hi]

/-- The table reverses a value of 32 bits. -/
theorem reflect32_eq (x : BitVec 32) :
    Reflect32 (x.setWidth 64) = x.reverse.setWidth 64 := by
  apply BitVec.eq_of_getLsbD_eq
  intro i hi
  simp only [Reflect32, BitVec.getLsbD_or, BitVec.getLsbD_shiftLeft, getLsbD_lookup,
    BitVec.getLsbD_ushiftRight, BitVec.getLsbD_setWidth, BitVec.getLsbD_reverse,
    BitVec.getMsbD_eq_getLsbD, hi, decide_true, Bool.true_and]
  -- Each bit of the result is in the reach of one of the four bytes.
  have hsplit : i < 8 ∨ (8 ≤ i ∧ i < 16) ∨ (16 ≤ i ∧ i < 24) ∨ (24 ≤ i ∧ i < 32) ∨ 32 ≤ i := by
    omega
  rcases hsplit with h | h | h | h | h
  · simp [h, show i < 16 by omega, show i < 24 by omega, show i < 32 by omega,
      show 24 + (7 - i) = 31 - i by omega, show 31 - i < 64 by omega]
  · simp [h, show ¬ i < 8 by omega, show i < 24 by omega, show i < 32 by omega,
      show i - 8 < 8 by omega, show 16 + (7 - (i - 8)) = 31 - i by omega,
      show 31 - i < 64 by omega]
  · simp [h, show ¬ i < 8 by omega, show ¬ i < 16 by omega, show i < 32 by omega,
      show ¬ i - 8 < 8 by omega, show i - 16 < 8 by omega,
      show 8 + (7 - (i - 16)) = 31 - i by omega, show 31 - i < 64 by omega]
  · simp [h, show ¬ i < 8 by omega, show ¬ i < 16 by omega, show ¬ i < 24 by omega,
      show ¬ i - 8 < 8 by omega, show ¬ i - 16 < 8 by omega, show i - 24 < 8 by omega,
      show 7 - (i - 24) = 31 - i by omega, show 31 - i < 64 by omega]
  · simp [show ¬ i < 8 by omega, show ¬ i < 32 by omega, show ¬ i - 8 < 8 by omega,
      show ¬ i - 16 < 8 by omega, show ¬ i - 24 < 8 by omega]

end Reflect32

section CrcBoth

/-- `CrcChunk(state, chunk$)`. -/
def CrcChunk (state : BitVec 64) (chunk : Bytes) : BitVec 64 :=
  mathCrc32 chunk 0x04C11DB7#64 (Reflect32 (state ^^^ 0xFFFFFFFF#64)) 0xFFFFFFFF#64

/-- The loop of `CrcBoth`; `none` when a copy left `buf%()`. -/
def crcLoop (buf : Area 4096) (count off : Nat) (crcBlockOut crcRunningOut : BitVec 64) :
    Option (BitVec 64 × BitVec 64) :=
  if off < count then
    let cl := if count - off > 255 then 255 else count - off
    match buf.read off cl with
    | none => none
    | some s =>
        crcLoop buf count (off + cl) (CrcChunk crcBlockOut s) (CrcChunk crcRunningOut s)
  else
    some (crcBlockOut, crcRunningOut)
termination_by count - off
decreasing_by
  split <;> omega

/-- `CrcBoth blockSeed, fileSeed, count`: `crcBlockOut` and `crcRunningOut`. -/
def CrcBoth (buf : Area 4096) (blockSeed fileSeed : BitVec 64) (count : Nat) :
    Option (BitVec 64 × BitVec 64) :=
  crcLoop buf count 0 blockSeed fileSeed

/-- The blocks of a file, as they stand in `buf%()` one after the other: the two checksums
after each of them. -/
def crcFile : List (Area 4096 × Nat) → BitVec 64 → Option (List (BitVec 64 × BitVec 64))
  | [], _ => some []
  | (buf, count) :: blocks, running =>
      match CrcBoth buf 0 running count with
      | none => none
      | some out => (crcFile blocks out.2).map (out :: ·)

/-- One chunk continues the checksum. -/
theorem crcChunk_eq (state : BitVec 32) (chunk : Bytes) :
    CrcChunk (state.setWidth 64) chunk = (crc32 chunk state).setWidth 64 := by
  have hmask : state.setWidth 64 ^^^ 0xFFFFFFFF#64 = (~~~state).setWidth 64 := by
    apply BitVec.eq_of_getLsbD_eq
    intro i hi
    have hones : (0xFFFFFFFF#64).getLsbD i = decide (i < 32) := by
      have hall := BitVec.getLsbD_allOnes (v := 32) (i := i)
      have heq : 0xFFFFFFFF#64 = (BitVec.allOnes 32).setWidth 64 := by decide +kernel
      rw [heq, BitVec.getLsbD_setWidth, hall]
      simp [hi]
    rw [BitVec.getLsbD_xor, hones, BitVec.getLsbD_setWidth, BitVec.getLsbD_setWidth,
      BitVec.getLsbD_not]
    by_cases h32 : i < 32
    · simp [h32, hi]
    · simp [h32, state.getLsbD_of_ge i (by omega)]
  have hfold := Reflect.reverse_foldl_byteHigh (by decide) 0x04C11DB7#32 (~~~state).reverse chunk
  have hpoly : (0x04C11DB7#32).reverse = 0xEDB88320#32 := by decide +kernel
  have hbyte : crcByte = Reflect.byteLow 0xEDB88320#32 := rfl
  have hwidth : (0x04C11DB7#64).setWidth 32 = 0x04C11DB7#32 := by decide +kernel
  have hones : (0xFFFFFFFF#64).setWidth 32 = BitVec.allOnes 32 := by decide +kernel
  rw [BitVec.reverse_reverse_eq, hpoly] at hfold
  rw [CrcChunk, hmask, reflect32_eq, mathCrc32, BitVec.setWidth_setWidth_of_le _ (by decide),
    BitVec.setWidth_eq, crc32, hbyte, ← hfold, hwidth, hones, BitVec.xor_allOnes]

/-- `CrcBoth` continues both checksums over the first `count` bytes of `buf%()`, and never
copies from outside it. -/
theorem crcLoop_eq
    (buf : Area 4096) {count : Nat} (hcount : count ≤ 4096) (off : Nat)
    (block running : BitVec 32) :
    crcLoop buf count off (block.setWidth 64) (running.setWidth 64) =
      some ((crc32 ((buf.bytes.take count).drop off) block).setWidth 64,
        (crc32 ((buf.bytes.take count).drop off) running).setWidth 64) := by
  generalize hn : count - off = n
  induction n using Nat.strong_induction_on generalizing off block running with
  | _ n ih =>
      rw [crcLoop]
      split
      · rename_i hlt
        generalize hcl : (if count - off > 255 then 255 else count - off) = cl
        have hpos : 0 < cl ∧ off + cl ≤ count := by
          rw [← hcl]
          split <;> omega
        obtain ⟨s, hread, hsplit⟩ := buf.exists_read hpos.2 hcount
        dsimp only
        rw [hread]
        dsimp only
        rw [crcChunk_eq, crcChunk_eq, ih (count - (off + cl)) (by omega) _ _ _ rfl, hsplit,
          crc32_append, crc32_append]
      · rw [List.drop_eq_nil_of_le (by rw [List.length_take]; omega), crc32_nil, crc32_nil]

theorem crcBoth_eq
    (buf : Area 4096) {count : Nat} (hcount : count ≤ 4096) (block running : BitVec 32) :
    CrcBoth buf (block.setWidth 64) (running.setWidth 64) count =
      some ((crc32 (buf.bytes.take count) block).setWidth 64,
        (crc32 (buf.bytes.take count) running).setWidth 64) := by
  rw [CrcBoth, crcLoop_eq buf hcount, List.drop_zero]

theorem crcFile_eq
    {blocks : List (Area 4096 × Nat)} (hblocks : ∀ b ∈ blocks, b.2 ≤ 4096) (data : Bytes) :
    ∃ outs, crcFile blocks ((crc32 data 0).setWidth 64) = some outs ∧
      outs.length = blocks.length ∧
      ∀ (i : Nat) (b : Area 4096 × Nat), blocks[i]? = some b →
        outs[i]? = some
          ((crc32 (b.1.bytes.take b.2) 0).setWidth 64,
            (crc32 (b.1.bytes.take b.2)
              (crc32 (data ++ (blocks.take i).flatMap fun b => b.1.bytes.take b.2) 0)).setWidth
                64) := by
  induction blocks generalizing data with
  | nil => exact ⟨[], rfl, rfl, fun i b h => by cases h⟩
  | cons first blocks ih =>
      obtain ⟨buf, count⟩ := first
      have hfirst := crcBoth_eq buf (hblocks _ List.mem_cons_self) 0 (crc32 data 0)
      obtain ⟨outs, hrun, hlen, hall⟩ := ih
        (fun b hb => hblocks b (List.mem_cons_of_mem _ hb)) (data ++ buf.bytes.take count)
      rw [crc32_append] at hrun
      have hstep : crcFile ((buf, count) :: blocks) ((crc32 data 0).setWidth 64) =
          some (((crc32 (buf.bytes.take count) 0).setWidth 64,
            (crc32 (buf.bytes.take count) (crc32 data 0)).setWidth 64) :: outs) := by
        rw [crcFile]
        have hzero : (0 : BitVec 64) = (0 : BitVec 32).setWidth 64 := rfl
        rw [hzero, hfirst]
        dsimp only
        rw [hrun]
        rfl
      refine ⟨_, hstep, by simp [hlen], fun i b hb => ?_⟩
      cases i with
      | zero =>
          cases hb
          simp
      | succ i =>
          have hlast := hall i b hb
          simpa [List.append_assoc] using hlast

/-- However a file is split into blocks of at most 4096 bytes, after every block
`crcBlockOut` is the CRC-32 of the block and `crcRunningOut` the CRC-32 of all blocks so far,
continued from the previous value as the receiver of `client.py` does. -/
theorem chained_crc_eq_crc32
    (blocks : List (Area 4096 × Nat)) (hblocks : ∀ b ∈ blocks, b.2 ≤ 4096) :
    ∃ outs, crcFile blocks 0 = some outs ∧ outs.length = blocks.length ∧
      ∀ (i : Nat) (b : Area 4096 × Nat), blocks[i]? = some b →
        let payload := b.1.bytes.take b.2
        let before := (blocks.take i).flatMap fun b => b.1.bytes.take b.2
        outs[i]? = some
            ((crc32 payload 0).setWidth 64, (crc32 payload (crc32 before 0)).setWidth 64) ∧
          crc32 payload (crc32 before 0) = crc32 (before ++ payload) 0 := by
  obtain ⟨outs, hrun, hlen, hall⟩ := crcFile_eq hblocks []
  exact ⟨outs, hrun, hlen, fun i b hb => ⟨hall i b hb, (crc32_append _ _ _).symm⟩⟩

/-- The check value of CRC-32/ISO-HDLC, over two blocks. -/
theorem chained_crc_eq_crc32_check_value :
    ∃ outs, crcFile [(Area.ofBytes [49, 50, 51, 52] (by decide), 4),
        (Area.ofBytes [53, 54, 55, 56, 57] (by decide), 5)] 0 = some outs ∧
      outs[1]?.map Prod.snd = some 0xCBF43926#64 := by
  obtain ⟨outs, hrun, _, hall⟩ := chained_crc_eq_crc32
    [(Area.ofBytes [49, 50, 51, 52] (by decide), 4),
      (Area.ofBytes [53, 54, 55, 56, 57] (by decide), 5)] (by decide)
  refine ⟨outs, hrun, ?_⟩
  rw [(hall 1 _ rfl).1]
  decide +kernel

end CrcBoth

end Pcutp.Picocalc
