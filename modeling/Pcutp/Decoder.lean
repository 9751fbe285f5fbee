import Pcutp.CompressionRoundTrip

/-!
# What the decoder accepts

The decoder of the receiver reads data it cannot trust.  Every turn of its loop
that goes on has read one sequence of the LZ4 format, and a turn that returns
has read final literals up to the end of the input; both directions are shown
for a turn and then, by induction over the loop, for the whole input.  So
`decompress` returns exactly the reference expansion of what parses.

`LoopHolds` lists the values that `output` takes, the ones inside a turn included,
and no one of them is longer than the announced size.
-/

namespace Pcutp

open Lz4 (Sequence AllValid expand encodeSeqs encodeFinal copyBack copyChunks)

section Turn

variable {size : Nat}

theorem readExtension_ok
    {value value' : Nat} {rest rest' : Bytes}
    (h : readExtension size value rest = .ok (value', rest')) :
    ∃ tail, value' = value + tail ∧ rest = Lz4.lengthTail tail ++ rest' := by
  induction rest generalizing value with
  | nil => cases h
  | cons extra rest ih =>
      have hbyte := UInt8.toNat_lt extra
      rw [readExtension] at h
      split_ifs at h with hlong hlast
      · cases h
        have hne : extra.toNat ≠ 255 := fun heq => hlast (UInt8.toNat_inj.mp heq)
        refine ⟨extra.toNat, rfl, ?_⟩
        rw [Lz4.lengthTail_of_lt (by omega), UInt8.ofNat_toNat, List.singleton_append]
      · obtain rfl := not_not.mp hlast
        obtain ⟨tail, hvalue, hrest⟩ := ih h
        refine ⟨255 + tail, ?_, ?_⟩
        · rw [hvalue, Nat.add_assoc]
          rfl
        · rw [Lz4.lengthTail_of_ge (Nat.le_add_right _ _), Nat.add_sub_cancel_left, hrest,
            List.cons_append]

/-- A length field that was read is the byte form of its value. -/
theorem readLength_ok
    {value value' : Nat} {rest rest' : Bytes}
    (hvalue : value ≤ 15)
    (h : readLength size value rest = .ok (value', rest')) :
    value = min value' 15 ∧ rest = Lz4.lengthExt value' ++ rest' := by
  rw [readLength] at h
  split_ifs at h with hfull
  · obtain ⟨tail, rfl, hrest⟩ := readExtension_ok h
    refine ⟨by omega, ?_⟩
    rw [Lz4.lengthExt, if_pos (by omega), hrest, hfull, Nat.add_sub_cancel_left]
  · cases h
    refine ⟨by omega, ?_⟩
    rw [Lz4.lengthExt, if_neg (by omega), List.nil_append]

theorem shift_token_le (token : UInt8) :
    token.toNat >>> 4 ≤ 15 := by
  have hlt := UInt8.toNat_lt token
  rw [Nat.shiftRight_eq_div_pow]
  omega

theorem and_token_eq (token : UInt8) :
    token.toNat &&& 15 = token.toNat % 16 := by
  have hmask := Nat.and_two_pow_sub_one_eq_mod token.toNat 4
  rwa [show (2 : Nat) ^ 4 - 1 = 15 by rfl] at hmask

/-- A match that was copied is the byte form of an offset and a length. -/
theorem decodeMatch_more
    {low : Nat} {rest output rest' output' : Bytes}
    (hlow : low ≤ 15)
    (h : decodeMatch size low rest output = .more rest' output') :
    ∃ offset count,
      (0 < offset ∧ offset ≤ output.length ∧ offset ≤ 65535 ∧ 4 ≤ count) ∧
        low = min (count - 4) 15 ∧
        rest = Lz4.le16 offset ++ Lz4.lengthExt (count - 4) ++ rest' ∧
        output' = copyBack offset count output ∧ output.length + count ≤ size := by
  unfold decodeMatch at h
  split at h
  · rename_i b0 b1 rest₀
    have hb0 := UInt8.toNat_lt b0
    have hb1 := UInt8.toNat_lt b1
    have hoffset : b0.toNat ||| (b1.toNat <<< 8) = b0.toNat + b1.toNat * 256 := by
      rw [Nat.or_comm, ← Nat.shiftLeft_add_eq_or_of_lt hb0, Nat.shiftLeft_eq, Nat.add_comm]
    split at h
    · cases h
    · rename_i count rest₁ hread
      obtain ⟨hcount, hrest⟩ := readLength_ok hlow hread
      dsimp only at h
      split_ifs at h with hbad
      cases h
      rw [hoffset] at hbad ⊢
      obtain ⟨hle, hfits⟩ := not_or.mp hbad
      obtain ⟨hpos, hback⟩ := not_not.mp hle
      refine ⟨b0.toNat + b1.toNat * 256, count + 4, ⟨hpos, hback, by omega, by omega⟩, ?_, ?_,
        Lz4.copyChunks_eq_copyBack hpos _ _ hback, by omega⟩
      · rw [Nat.add_sub_cancel, hcount]
      · rw [Lz4.le16_of_bytes, Nat.add_sub_cancel, hrest, List.append_assoc]
        rfl
  · cases h

/-- A turn that goes on has read the byte form of one sequence and run it. -/
theorem decodeTurn_more
    {token : UInt8} {rest output rest' output' : Bytes}
    (h : decodeTurn size token rest output = .more rest' output') :
    ∃ s : Sequence UInt8,
      s.Valid output.length ∧ token :: rest = s.encode ++ rest' ∧ output' = s.run output ∧
        output'.length ≤ size := by
  unfold decodeTurn at h
  split at h
  · cases h
  · rename_i literals rest₁ hread
    obtain ⟨hliterals, hrest⟩ := readLength_ok (shift_token_le token) hread
    dsimp only at h
    split_ifs at h with hlong hend
    obtain ⟨hshort, hfits⟩ := not_or.mp hlong
    have hlen : (rest₁.take literals).length = literals := by
      rw [List.length_take]
      omega
    obtain ⟨offset, count, ⟨hpos, hback, hmax, hfour⟩, hlow, htail, hout, hsize⟩ :=
      decodeMatch_more (by rw [and_token_eq]; omega) h
    have hvalid : Sequence.Valid ⟨rest₁.take literals, offset, count⟩ output.length := by
      rw [List.length_append] at hback
      exact ⟨hpos, hback, hmax, hfour⟩
    refine ⟨⟨rest₁.take literals, offset, count⟩, hvalid, ?_, hout, ?_⟩
    · have htoken : token = Lz4.token (rest₁.take literals).length (count - 4) := by
        refine Lz4.token_of_nibbles ?_ ?_
        · rw [hlen, ← hliterals, Nat.shiftRight_eq_div_pow]
        · rw [← hlow, and_token_eq]
      rw [Sequence.encode, ← htoken, hlen]
      simp only [List.cons_append, List.append_assoc]
      rw [hrest, ← List.append_assoc (Lz4.le16 offset), ← htail, List.take_append_drop]
    · rw [hout, Lz4.length_copyBack hpos _ _ hback]
      exact hsize

/-- A turn that returns has read final literals up to the end of the input. -/
theorem decodeTurn_finished
    {token : UInt8} {rest output out : Bytes}
    (h : decodeTurn size token rest output = .finished out) :
    ∃ low literals,
      token :: rest = encodeFinal low literals ∧ out = output ++ literals ∧
        out.length = size := by
  unfold decodeTurn at h
  split at h
  · cases h
  · rename_i literals rest₁ hread
    obtain ⟨hliterals, hrest⟩ := readLength_ok (shift_token_le token) hread
    dsimp only at h
    split_ifs at h with hlong hend hsize
    · cases h
      obtain ⟨hshort, hfits⟩ := not_or.mp hlong
      have hwhole : rest₁.take literals = rest₁ := by
        rw [List.take_of_length_le]
        exact List.drop_eq_nil_iff.mp hend
      have hlen : rest₁.length = literals := by
        have := List.drop_eq_nil_iff.mp hend
        omega
      refine ⟨token.toNat % 16, rest₁, ?_, by rw [hwhole], not_not.mp hsize⟩
      have htoken : token = Lz4.token rest₁.length (token.toNat % 16) := by
        refine Lz4.token_of_nibbles ?_ (by omega)
        rw [hlen, ← hliterals, Nat.shiftRight_eq_div_pow]
      rw [encodeFinal, ← htoken, hrest, hlen]
    · unfold decodeMatch at h
      split at h
      · split at h
        · cases h
        · dsimp only at h
          split_ifs at h
      · cases h

end Turn

section Loop

variable {size : Nat}

theorem decompressLoop_ok
    {data output out : Bytes}
    (h : decompressLoop size data output = .ok out) :
    ∃ seqs low literals,
      data = encodeSeqs seqs ++ encodeFinal low literals ∧ AllValid seqs output ∧
        out = expand seqs output ++ literals ∧ out.length = size := by
  fun_induction decompressLoop size data output with
  | case1 output => cases h
  | case2 output token rest exc hturn => cases h
  | case3 output token rest out' hturn =>
      cases h
      obtain ⟨low, literals, hdata, hout, hsize⟩ := decodeTurn_finished hturn
      exact ⟨[], low, literals, hdata, trivial, hout, hsize⟩
  | case4 output token rest rest' output' hturn ih =>
      obtain ⟨s, hvalid, hdata, hout, _⟩ := decodeTurn_more hturn
      obtain ⟨seqs, low, literals, hrest, hseqs, hout', hsize⟩ := ih h
      subst hout
      refine ⟨s :: seqs, low, literals, ?_, ⟨hvalid, hseqs⟩, hout', hsize⟩
      rw [hdata, hrest, Lz4.encodeSeqs_cons, List.append_assoc]

/-- The loop accepts exactly the byte forms of a valid parse. -/
theorem decompressLoop_ok_iff
    {data out : Bytes} :
    decompressLoop size data [] = .ok out ↔
      ∃ seqs literals, Lz4.Parses data seqs literals ∧ expand seqs [] ++ literals = out ∧
        out.length = size := by
  constructor
  · intro h
    obtain ⟨seqs, low, literals, hdata, hvalid, hout, hsize⟩ := decompressLoop_ok h
    exact ⟨seqs, literals, ⟨hvalid, low, hdata⟩, hout.symm, hsize⟩
  · rintro ⟨seqs, literals, ⟨hvalid, low, rfl⟩, rfl, hsize⟩
    exact decompressLoop_encodeFinal low hvalid hsize

end Loop

section Errors

variable {size : Nat}

theorem readExtension_error
    {value : Nat} {rest : Bytes} {exc : PcutpError}
    (h : readExtension size value rest = .error exc) :
    ∃ why, exc = ProtocolError why := by
  induction rest generalizing value with
  | nil =>
      cases h
      exact ⟨_, rfl⟩
  | cons extra rest ih =>
      rw [readExtension] at h
      split_ifs at h
      · cases h
        exact ⟨_, rfl⟩
      · exact ih h

theorem readLength_error
    {value : Nat} {rest : Bytes} {exc : PcutpError}
    (h : readLength size value rest = .error exc) :
    ∃ why, exc = ProtocolError why := by
  rw [readLength] at h
  split_ifs at h
  exact readExtension_error h

theorem decodeTurn_failed
    {token : UInt8} {rest output : Bytes} {exc : PcutpError}
    (h : decodeTurn size token rest output = .failed exc) :
    ∃ why, exc = ProtocolError why := by
  unfold decodeTurn at h
  split at h
  · cases h
    exact readLength_error ‹_›
  · dsimp only at h
    split_ifs at h
    · cases h
      exact ⟨_, rfl⟩
    · cases h
      exact ⟨_, rfl⟩
    · unfold decodeMatch at h
      split at h
      · split at h
        · cases h
          exact readLength_error ‹_›
        · dsimp only at h
          split_ifs at h
          cases h
          exact ⟨_, rfl⟩
      · cases h
        exact ⟨_, rfl⟩

theorem decompressLoop_error
    {data output : Bytes} {exc : PcutpError}
    (h : decompressLoop size data output = .error exc) :
    ∃ why, exc = ProtocolError why := by
  fun_induction decompressLoop size data output with
  | case1 output =>
      cases h
      exact ⟨_, rfl⟩
  | case2 output token rest exc' hturn =>
      cases h
      exact decodeTurn_failed hturn
  | case3 output token rest out' hturn => cases h
  | case4 output token rest rest' output' hturn ih => exact ih h

end Errors

section LoopHolds

/-- The values that `output` takes in the copy loop of a match. -/
inductive CopyHolds (source : Nat) : Nat → Bytes → Bytes → Prop
  | head (count : Nat) (output : Bytes) : CopyHolds source count output output
  | chunk {count : Nat} {output held : Bytes}
      (hcount : count ≠ 0)
      (hnext : CopyHolds source (count - ((output.drop source).take count).length)
        (output ++ (output.drop source).take count) held) :
      CopyHolds source count output held

/-- The values that `output` takes while the loop of `decompress` runs. -/
inductive LoopHolds (size : Nat) : Bytes → Bytes → Bytes → Prop
  /-- At the head of the loop. -/
  | head (rest output : Bytes) : LoopHolds size rest output output
  /-- After the literals of a turn. -/
  | literals {token : UInt8} {rest rest' output : Bytes} {n : Nat}
      (hread : readLength size (token.toNat >>> 4) rest = .ok (n, rest'))
      (hfits : ¬ (n > rest'.length ∨ output.length + n > size)) :
      LoopHolds size (token :: rest) output (output ++ rest'.take n)
  /-- In the copy loop of a turn. -/
  | copy {token b0 b1 : UInt8} {rest rest' rest₀ rest₁ output held : Bytes} {n count : Nat}
      (hread : readLength size (token.toNat >>> 4) rest = .ok (n, rest'))
      (hfits : ¬ (n > rest'.length ∨ output.length + n > size))
      (htail : rest'.drop n = b0 :: b1 :: rest₀)
      (hmatch : readLength size (token.toNat &&& 15) rest₀ = .ok (count, rest₁))
      (hsize : (output ++ rest'.take n).length + (count + 4) ≤ size)
      (hheld : CopyHolds
        ((output ++ rest'.take n).length - (b0.toNat ||| (b1.toNat <<< 8))) (count + 4)
        (output ++ rest'.take n) held) :
      LoopHolds size (token :: rest) output held
  /-- In a later turn. -/
  | turn {token : UInt8} {rest rest' output output' held : Bytes}
      (hturn : decodeTurn size token rest output = .more rest' output')
      (hheld : LoopHolds size rest' output' held) :
      LoopHolds size (token :: rest) output held

/-- The values that `output` takes while `decompress(data, size)` runs. -/
def DecompressHolds (data : Bytes) (size : Int) (held : Bytes) : Prop :=
  (0 ≤ size ∧ size ≤ 4096) ∧ LoopHolds size.toNat data [] held

theorem CopyHolds.length_le
    {source count : Nat} {output held : Bytes}
    (h : CopyHolds source count output held) :
    held.length ≤ output.length + count := by
  induction h with
  | head count output => exact Nat.le_add_right _ _
  | chunk hcount hnext ih =>
      simp only [List.length_append, List.length_take] at ih
      omega

theorem LoopHolds.length_le
    {size : Nat} {rest output held : Bytes}
    (h : LoopHolds size rest output held)
    (houtput : output.length ≤ size) :
    held.length ≤ size := by
  induction h with
  | head rest output => exact houtput
  | literals hread hfits =>
      obtain ⟨hshort, hlong⟩ := not_or.mp hfits
      rw [List.length_append, List.length_take]
      omega
  | copy hread hfits htail hmatch hsize hheld => exact hheld.length_le.trans hsize
  | turn hturn hheld ih =>
      obtain ⟨_, _, _, _, hle⟩ := decodeTurn_more hturn
      exact ih hle

end LoopHolds

/-- `decompress` returns the reference expansion of exactly the inputs of the format, raises
only `ProtocolError`, and holds at no time more than the announced size. -/
theorem decompress_accepts_iff
    (packed : Bytes) (size : Int) :
    (∀ out, decompress packed size = .ok out ↔
      (0 ≤ size ∧ size ≤ 4096) ∧
        ∃ seqs literals, Lz4.Parses packed seqs literals ∧ expand seqs [] ++ literals = out ∧
          (out.length : Int) = size) ∧
    (∀ exc, decompress packed size = .error exc → ∃ why, exc = ProtocolError why) ∧
    ∀ held, DecompressHolds packed size held → (held.length : Int) ≤ size := by
  refine ⟨fun out => ?_, fun exc h => ?_, fun held hheld => ?_⟩
  · by_cases hrange : 0 ≤ size ∧ size ≤ 4096
    · have hlen : ∀ n : Nat, n = size.toNat ↔ (n : Int) = size := fun n => by omega
      rw [decompress, if_neg (not_not.mpr hrange), decompressLoop_ok_iff, hlen]
      exact (and_iff_right hrange).symm
    · rw [decompress, if_pos hrange]
      exact ⟨(fun h => by cases h), fun h => absurd h.1 hrange⟩
  · rw [decompress] at h
    split_ifs at h
    · exact decompressLoop_error h
    · cases h
      exact ⟨_, rfl⟩
  · have hle := hheld.2.length_le (Nat.zero_le _)
    have hrange := hheld.1
    omega

end Pcutp
