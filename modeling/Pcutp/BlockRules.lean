import Pcutp.CompressionRoundTrip

/-!
# The end of a compressed block

Decoders that copy in wide steps rely on rules for the end of an LZ4 block:
the last five bytes are literals, and no match starts in the last twelve.
`compress` keeps them because its main loop starts no match later, because the
inner loop stops five bytes before the end, and because a match shorter than
twelve bytes is not taken.

A block has only one parse (`Lz4.Parses.unique`), so what holds of the parse
that the encoder leaves holds of what every decoder reads.
-/

namespace Pcutp

open Lz4 (Sequence AllPlaced EndRules Parses encodeSeqs encodeLast)

/-- What the encoder loop maintains about the end of the block. -/
structure RulesInv (data : Bytes) (s : CompressState) (seqs : List (Sequence UInt8)) : Prop
    extends EncoderInv data s seqs where
  tail : s.anchor ≤ data.length - 5
  placed : AllPlaced data.length seqs []

/-- A match ends before the last five bytes, and it was long and early enough. -/
theorem RulesInv.emit
    {data : Bytes} {s : CompressState} {seqs : List (Sequence UInt8)} {prev : Nat}
    (hinv : RulesInv data s seqs)
    (hpos : s.pos + 12 ≤ data.length)
    (hprev : s.table (slice data s.pos (s.pos + 4)) = some prev)
    (hoffset : ¬ s.pos - prev > 65535)
    (hcount : ¬ extendMatch data prev s.pos 4 < 12) :
    RulesInv data
      { output := s.output ++
          matchBytes data s.anchor s.pos prev (extendMatch data prev s.pos 4)
        table := Function.update s.table (slice data s.pos (s.pos + 4)) (some s.pos)
        anchor := s.pos + extendMatch data prev s.pos 4
        pos := s.pos + extendMatch data prev s.pos 4
        found := s.found + 1 }
      (seqs ++ [⟨slice data s.anchor s.pos, s.pos - prev, extendMatch data prev s.pos 4⟩]) := by
  obtain ⟨_, hkey⟩ := hinv.table _ _ hprev
  have hend := (extendMatch_spec (show s.pos + 4 ≤ data.length - 5 by omega)
    (getElem?_of_slice_eq hkey)).1
  have hproduced : (Lz4.expand seqs []).length = s.anchor := by
    rw [hinv.expands, List.length_take, Nat.min_eq_left hinv.anchor_len]
  have hliterals : (slice data s.anchor s.pos).length = s.pos - s.anchor :=
    length_slice (Nat.le_trans (Nat.le_add_right _ _) hpos)
  refine ⟨hinv.toEncoderInv.emit hpos hprev hoffset hcount, hend,
    Lz4.allPlaced_concat hinv.placed ⟨Nat.not_lt.mp hcount, ?_⟩⟩
  have hle := hinv.anchor_le
  rw [hproduced, hliterals]
  omega

/-- The encoder obeys the rules for the end of a block: for data of any length the packed bytes are
the byte form of sequences that meet them, as many as the matches it counts, and no decoder
can read other sequences from them. -/
theorem compress_obeys_end_rules (data : Bytes) :
    ∃ seqs literals,
      compress data = (encodeSeqs seqs ++ encodeLast literals, seqs.length) ∧
        EndRules data seqs literals ∧
        ∀ seqs' literals', Parses (compress data).1 seqs' literals' →
          seqs' = seqs ∧ literals' = literals := by
  have hstart : RulesInv data
      { output := [], table := fun _ => none, anchor := 0, pos := 0, found := 0 } [] :=
    ⟨encoderInv_start data, Nat.zero_le _, trivial⟩
  obtain ⟨seqs, hinv⟩ := compressLoop_rule
    (fun _ _ h => ⟨h.toEncoderInv.advance, h.tail, h.placed⟩)
    (fun _ _ _ h hpos hprev hoffset hcount => h.emit hpos hprev hoffset hcount) hstart
  have heq := hinv.compress_eq rfl
  refine ⟨seqs, _, heq, ⟨hinv.valid, ?_, ?_, hinv.placed⟩, ?_⟩
  · rw [hinv.expands, List.take_append_drop]
  · have htail := hinv.tail
    rw [List.length_drop]
    omega
  · intro seqs' literals' hparse
    refine hparse.unique ⟨hinv.valid, 0, ?_⟩
    rw [heq, Lz4.encodeLast_eq]

end Pcutp
