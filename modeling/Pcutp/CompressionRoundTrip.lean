import Mathlib.Tactic.SplitIfs
import Pcutp.Compression

/-!
# LZ4 round trip

The encoder emits the byte form of a valid list of LZ4 sequences whose
expansion is the input (`compress_parse`).  The decoder turns the byte form of
every valid list of sequences into its expansion (`decompressLoop_encodeFinal`).
Together they give the round trip.
-/

namespace Pcutp

open Lz4 (Sequence AllValid expand encodeSeqs encodeLast encodeFinal copyBack copyChunks)

section Encoder

theorem lengthBytes_eq_lengthTail (value : Nat) :
    lengthBytes value = Lz4.lengthTail value := by
  fun_induction lengthBytes value with
  | case1 value h ih =>
      rw [Lz4.lengthTail, if_pos h, ih]
  | case2 value h =>
      rw [Lz4.lengthTail, if_neg h]

theorem nibbles_eq_token (literals count : Nat) :
    UInt8.ofNat ((min literals 15 <<< 4) ||| min count 15) = Lz4.token literals count := by
  rw [Lz4.token, ← Nat.shiftLeft_add_eq_or_of_lt (by omega : min count 15 < 2 ^ 4),
    Nat.shiftLeft_eq]

theorem length_slice
    {data : Bytes} {start stop : Nat}
    (hstop : stop ≤ data.length) :
    (slice data start stop).length = stop - start := by
  simp [slice, Nat.min_eq_left hstop]

theorem take_append_slice
    (data : Bytes) {start stop : Nat}
    (hle : start ≤ stop) :
    data.take start ++ slice data start stop = data.take stop := by
  have htake : (data.take stop).take start = data.take start := by
    rw [List.take_take, Nat.min_eq_left hle]
  rw [slice, ← htake, List.take_append_drop]

/-- The bytes of a match are the byte form of the sequence it stands for. -/
theorem matchBytes_eq_encode
    {data : Bytes} {anchor pos previous count : Nat}
    (hpos : pos ≤ data.length) (hcount : 4 ≤ count) :
    matchBytes data anchor pos previous count =
      Sequence.encode ⟨slice data anchor pos, pos - previous, count⟩ := by
  have hcond : (19 ≤ count) = (15 ≤ count - 4) := by
    simp only [eq_iff_iff]
    omega
  simp only [matchBytes, Sequence.encode, Lz4.lengthExt, Lz4.le16, length_slice hpos,
    nibbles_eq_token, lengthBytes_eq_lengthTail, hcond,
    show count - 19 = count - 4 - 15 by omega]
  simp

theorem lastBytes_eq_encodeLast (data : Bytes) (anchor : Nat) :
    lastBytes data anchor = encodeLast (data.drop anchor) := by
  have htoken := nibbles_eq_token (data.length - anchor) 0
  simp only [Nat.zero_min, Nat.or_zero] at htoken
  simp [lastBytes, encodeLast, Lz4.lengthExt, htoken, lengthBytes_eq_lengthTail]

/-- An extended match repeats earlier data and stops before the last five bytes. -/
theorem extendMatch_spec
    {data : Bytes} {previous pos count : Nat}
    (hfits : pos + count ≤ data.length - 5)
    (heq : ∀ i < count, data[previous + i]? = data[pos + i]?) :
    pos + extendMatch data previous pos count ≤ data.length - 5 ∧
      ∀ i < extendMatch data previous pos count,
        data[previous + i]? = data[pos + i]? := by
  fun_induction extendMatch data previous pos count with
  | case1 count h ih =>
      refine ih (by omega) (fun i hi => ?_)
      rcases Nat.lt_succ_iff_lt_or_eq.mp hi with hlt | rfl
      · exact heq i hlt
      · exact h.2
  | case2 count h =>
      exact ⟨hfits, heq⟩

/-- Equal four-byte keys give four equal bytes. -/
theorem getElem?_of_slice_eq
    {data : Bytes} {p q : Nat}
    (h : slice data p (p + 4) = slice data q (q + 4)) :
    ∀ i < 4, data[p + i]? = data[q + i]? := by
  intro i hi
  have hget := congrArg (fun l => l[i]?) h
  simp only [slice, List.getElem?_drop] at hget
  rwa [List.getElem?_take_of_lt (by omega), List.getElem?_take_of_lt (by omega)] at hget

/-- What the encoder loop maintains, for the sequences emitted so far. -/
structure EncoderInv (data : Bytes) (s : CompressState) (seqs : List (Sequence UInt8)) :
    Prop where
  output : s.output = encodeSeqs seqs
  found : s.found = seqs.length
  valid : AllValid seqs []
  expands : expand seqs [] = data.take s.anchor
  anchor_le : s.anchor ≤ s.pos
  anchor_len : s.anchor ≤ data.length
  table : ∀ key p, s.table key = some p → p < s.pos ∧ slice data p (p + 4) = key

/-- Recording the current key keeps the table truthful for later positions. -/
theorem table_update
    {data : Bytes} {table : Bytes → Option Nat} {pos pos' : Nat}
    (htable : ∀ key p, table key = some p → p < pos ∧ slice data p (p + 4) = key)
    (hpos : pos < pos') :
    ∀ key p,
      Function.update table (slice data pos (pos + 4)) (some pos) key = some p →
        p < pos' ∧ slice data p (p + 4) = key := by
  intro key p h
  by_cases hkey : key = slice data pos (pos + 4)
  · subst hkey
    rw [Function.update_self] at h
    cases h
    exact ⟨hpos, rfl⟩
  · rw [Function.update_of_ne hkey] at h
    obtain ⟨hlt, hslice⟩ := htable key p h
    exact ⟨by omega, hslice⟩

/-- Moving on one byte without a match. -/
theorem EncoderInv.advance
    {data : Bytes} {s : CompressState} {seqs : List (Sequence UInt8)}
    (hinv : EncoderInv data s seqs) :
    EncoderInv data
      { s with
        table := Function.update s.table (slice data s.pos (s.pos + 4)) (some s.pos)
        pos := s.pos + 1 } seqs where
  output := hinv.output
  found := hinv.found
  valid := hinv.valid
  expands := hinv.expands
  anchor_le := Nat.le_succ_of_le hinv.anchor_le
  anchor_len := hinv.anchor_len
  table := table_update hinv.table (Nat.lt_succ_self _)

/-- Emitting a match of at least twelve bytes. -/
theorem EncoderInv.emit
    {data : Bytes} {s : CompressState} {seqs : List (Sequence UInt8)} {prev : Nat}
    (hinv : EncoderInv data s seqs)
    (hpos : s.pos + 12 ≤ data.length)
    (hprev : s.table (slice data s.pos (s.pos + 4)) = some prev)
    (hoffset : ¬ s.pos - prev > 65535)
    (hcount : ¬ extendMatch data prev s.pos 4 < 12) :
    EncoderInv data
      { output := s.output ++
          matchBytes data s.anchor s.pos prev (extendMatch data prev s.pos 4)
        table := Function.update s.table (slice data s.pos (s.pos + 4)) (some s.pos)
        anchor := s.pos + extendMatch data prev s.pos 4
        pos := s.pos + extendMatch data prev s.pos 4
        found := s.found + 1 }
      (seqs ++ [⟨slice data s.anchor s.pos, s.pos - prev, extendMatch data prev s.pos 4⟩]) := by
  obtain ⟨hlt, hkey⟩ := hinv.table _ _ hprev
  obtain ⟨hend, heq⟩ :=
    extendMatch_spec (show s.pos + 4 ≤ data.length - 5 by omega) (getElem?_of_slice_eq hkey)
  generalize hc : extendMatch data prev s.pos 4 = count at hcount hend heq
  have hlits : data.take s.anchor ++ slice data s.anchor s.pos = data.take s.pos :=
    take_append_slice data hinv.anchor_le
  have hlen : (slice data s.anchor s.pos).length = s.pos - s.anchor :=
    length_slice (by omega)
  have hanchor : (data.take s.anchor).length = s.anchor := by
    simpa using hinv.anchor_len
  have hrun :
      Sequence.run ⟨slice data s.anchor s.pos, s.pos - prev, count⟩ (data.take s.anchor) =
        data.take (s.pos + count) := by
    have hback : s.pos - (s.pos - prev) = prev := by omega
    have hpositive : 0 < s.pos - prev := by omega
    rw [Sequence.run, hlits]
    refine Lz4.copyBack_take count s.pos hpositive (Nat.sub_le _ _) (by omega) ?_
    rw [hback]
    exact heq
  refine
    { output := ?_, found := ?_, valid := ?_, expands := ?_, anchor_le := Nat.le_refl _,
      anchor_len := show s.pos + count ≤ data.length by omega, table := ?_ }
  · rw [Lz4.encodeSeqs_concat, hinv.output,
      matchBytes_eq_encode (by omega) (by omega)]
  · simp [hinv.found]
  · refine Lz4.allValid_concat hinv.valid ?_
    have hle := hinv.anchor_le
    rw [hinv.expands, hanchor]
    exact ⟨show 0 < s.pos - prev by omega,
      show s.pos - prev ≤ s.anchor + (slice data s.anchor s.pos).length by omega,
      show s.pos - prev ≤ 65535 by omega, show 4 ≤ count by omega⟩
  · rw [Lz4.expand_concat, hinv.expands, hrun]
  · exact table_update hinv.table (show s.pos < s.pos + count by omega)

/-- What both ways on keep holds where the encoder loop ends. -/
theorem compressLoop_rule
    {data : Bytes} {Inv : CompressState → List (Sequence UInt8) → Prop}
    (hadvance : ∀ s seqs, Inv s seqs →
      Inv { s with
        table := Function.update s.table (slice data s.pos (s.pos + 4)) (some s.pos)
        pos := s.pos + 1 } seqs)
    (hemit : ∀ s seqs prev, Inv s seqs → s.pos + 12 ≤ data.length →
      s.table (slice data s.pos (s.pos + 4)) = some prev → ¬ s.pos - prev > 65535 →
      ¬ extendMatch data prev s.pos 4 < 12 →
      Inv
        { output := s.output ++
            matchBytes data s.anchor s.pos prev (extendMatch data prev s.pos 4)
          table := Function.update s.table (slice data s.pos (s.pos + 4)) (some s.pos)
          anchor := s.pos + extendMatch data prev s.pos 4
          pos := s.pos + extendMatch data prev s.pos 4
          found := s.found + 1 }
        (seqs ++ [⟨slice data s.anchor s.pos, s.pos - prev, extendMatch data prev s.pos 4⟩]))
    {s : CompressState} {seqs : List (Sequence UInt8)} (hinv : Inv s seqs) :
    ∃ seqs', Inv (compressLoop data s) seqs' := by
  fun_induction compressLoop data s generalizing seqs with
  | case1 s hpos key previous table hnone =>
      rename_i ih
      exact ih (hadvance _ _ hinv)
  | case2 s hpos key previous table prev hsome hfar =>
      rename_i ih
      exact ih (hadvance _ _ hinv)
  | case3 s hpos key previous table prev hsome hfar count hshort =>
      rename_i ih
      exact ih (hadvance _ _ hinv)
  | case4 s hpos key previous table prev hsome hfar count hshort =>
      rename_i ih
      exact ih (hemit _ _ _ hinv hpos hsome hfar hshort)
  | case5 s hpos =>
      exact ⟨seqs, hinv⟩

/-- Before the first turn nothing is emitted. -/
theorem encoderInv_start (data : Bytes) :
    EncoderInv data
      { output := [], table := fun _ => none, anchor := 0, pos := 0, found := 0 } [] where
  output := rfl
  found := rfl
  valid := trivial
  expands := rfl
  anchor_le := Nat.le_refl _
  anchor_len := Nat.zero_le _
  table := fun _ _ h => by cases h

/-- The encoder loop ends with a parse of the data up to its anchor. -/
theorem compressLoop_inv
    {data : Bytes} {s : CompressState} {seqs : List (Sequence UInt8)}
    (hinv : EncoderInv data s seqs) :
    ∃ seqs', EncoderInv data (compressLoop data s) seqs' :=
  compressLoop_rule (fun _ _ h => h.advance)
    (fun _ _ _ h hpos hprev hoffset hcount => h.emit hpos hprev hoffset hcount) hinv

/-- What `compress` returns, from the parse at the end of its loop. -/
theorem EncoderInv.compress_eq
    {data : Bytes} {seqs : List (Sequence UInt8)} {s : CompressState}
    (hinv : EncoderInv data s seqs)
    (hloop : compressLoop data
      { output := [], table := fun _ => none, anchor := 0, pos := 0, found := 0 } = s) :
    compress data = (encodeSeqs seqs ++ encodeLast (data.drop s.anchor), seqs.length) := by
  simp only [compress, hloop]
  rw [lastBytes_eq_encodeLast, hinv.output, hinv.found]

/-- The packed bytes are the byte form of a valid parse of the input. -/
theorem compress_parse (data : Bytes) :
    ∃ seqs anchor,
      compress data =
          (encodeSeqs seqs ++ encodeLast (data.drop anchor), seqs.length) ∧
        AllValid seqs [] ∧ expand seqs [] = data.take anchor := by
  obtain ⟨seqs, hinv⟩ := compressLoop_inv (encoderInv_start data)
  exact ⟨seqs, _, hinv.compress_eq rfl, hinv.valid, hinv.expands⟩

end Encoder

section Decoder

theorem readExtension_lengthTail
    {size : Nat} (tail start : Nat) (rest : Bytes)
    (hsize : start + tail ≤ size) :
    readExtension size start (Lz4.lengthTail tail ++ rest) = .ok (start + tail, rest) := by
  induction tail using Nat.strong_induction_on generalizing start with
  | _ tail ih =>
      rw [Lz4.lengthTail]
      by_cases hlong : 255 ≤ tail
      · rw [if_pos hlong, List.cons_append, readExtension]
        have h255 : (255 : UInt8).toNat = 255 := rfl
        simp only [h255, ne_eq, not_true_eq_false, if_false]
        rw [if_neg (by omega), ih (tail - 255) (by omega) (start + 255) (by omega),
          show start + 255 + (tail - 255) = start + tail by omega]
      · have hbyte : (UInt8.ofNat tail).toNat = tail := by
          rw [UInt8.toNat_ofNat']
          omega
        have hne : UInt8.ofNat tail ≠ 255 := by
          intro h
          have := congrArg UInt8.toNat h
          rw [hbyte] at this
          exact hlong (by rw [this]; decide)
        rw [if_neg hlong, List.singleton_append, readExtension]
        simp only [hbyte]
        rw [if_neg (by omega), if_pos hne]

/-- A length field of the byte form is read back. -/
theorem readLength_lengthExt
    (size value : Nat) (rest : Bytes)
    (hsize : value ≤ size) :
    readLength size (min value 15) (Lz4.lengthExt value ++ rest) = .ok (value, rest) := by
  by_cases hlong : 15 ≤ value
  · rw [readLength, if_pos (by omega), Lz4.lengthExt, if_pos hlong, Nat.min_eq_right hlong,
      readExtension_lengthTail _ _ _ (by omega), Nat.add_sub_cancel' hlong]
  · rw [readLength, if_neg (by omega), Lz4.lengthExt, if_neg hlong, List.nil_append,
      Nat.min_eq_left (by omega)]

theorem decodeMatch_encode
    (size : Nat) {offset count : Nat} (output rest : Bytes)
    (hoffset : 0 < offset) (hle : offset ≤ output.length) (hmax : offset ≤ 65535)
    (hcount : 4 ≤ count) (hsize : output.length + count ≤ size) :
    decodeMatch size (min (count - 4) 15)
        (Lz4.le16 offset ++ Lz4.lengthExt (count - 4) ++ rest) output =
      .more rest (copyBack offset count output) := by
  have hvalue : (UInt8.ofNat offset).toNat ||| ((UInt8.ofNat (offset / 256)).toNat <<< 8) =
      offset := by
    have hlt : (UInt8.ofNat offset).toNat < 2 ^ 8 := UInt8.toNat_lt _
    rw [Nat.or_comm, ← Nat.shiftLeft_add_eq_or_of_lt hlt, Nat.shiftLeft_eq, Nat.add_comm]
    exact Lz4.le16_value hmax
  have hread := readLength_lengthExt size (count - 4) rest (by omega)
  simp only [Lz4.le16, List.cons_append, List.nil_append, decodeMatch, hread, hvalue]
  rw [if_neg (by omega), show count - 4 + 4 = count by omega,
    Lz4.copyChunks_eq_copyBack hoffset _ _ hle]

theorem token_shift (literals count : Nat) :
    (Lz4.token literals count).toNat >>> 4 = min literals 15 := by
  rw [Nat.shiftRight_eq_div_pow]
  exact Lz4.token_high literals count

theorem token_and (literals count : Nat) :
    (Lz4.token literals count).toNat &&& 15 = min count 15 := by
  have hmask := Nat.and_two_pow_sub_one_eq_mod (Lz4.token literals count).toNat 4
  rw [show (2 : Nat) ^ 4 - 1 = 15 by rfl] at hmask
  rw [hmask]
  exact Lz4.token_low literals count

/-- One turn of the decoder consumes one sequence. -/
theorem decodeTurn_encode
    {size : Nat} {s : Sequence UInt8} {output : Bytes} (rest : Bytes)
    (hs : s.Valid output.length) (hsize : (s.run output).length ≤ size) :
    ∃ token tail,
      s.encode ++ rest = token :: tail ∧
        decodeTurn size token tail output = .more rest (s.run output) := by
  have hlen := s.length_run hs
  obtain ⟨hpos, hback, hmax, hcount⟩ := hs
  refine ⟨Lz4.token s.literals.length (s.count - 4), Lz4.lengthExt s.literals.length ++
    (s.literals ++ (Lz4.le16 s.offset ++ Lz4.lengthExt (s.count - 4) ++ rest)),
    by simp [Sequence.encode], ?_⟩
  have hread := readLength_lengthExt size s.literals.length
    (s.literals ++ (Lz4.le16 s.offset ++ Lz4.lengthExt (s.count - 4) ++ rest)) (by omega)
  have hmatch := decodeMatch_encode size (output ++ s.literals) rest
    hpos (by simpa using hback) hmax hcount (by simp; omega)
  simp only [decodeTurn, token_shift, token_and, hread]
  rw [if_neg (by simp; omega), List.take_left, List.drop_left, if_neg (by simp [Lz4.le16]),
    hmatch]
  rfl

/-- The last turn consumes final literals with any match bits. -/
theorem decodeTurn_encodeFinal
    {size : Nat} (low : Nat) {literals output : Bytes}
    (hsize : (output ++ literals).length = size) :
    ∃ token tail,
      encodeFinal low literals = token :: tail ∧
        decodeTurn size token tail output = .finished (output ++ literals) := by
  refine ⟨_, _, rfl, ?_⟩
  have hlen : output.length + literals.length = size := by
    simpa using hsize
  have hread := readLength_lengthExt size literals.length literals (by omega)
  simp only [decodeTurn, token_shift, hread]
  rw [if_neg (by omega), List.take_length, List.drop_length, if_pos rfl,
    if_neg (not_not.mpr hsize)]

/-- The decoder loop turns the byte form of a valid parse into its expansion. -/
theorem decompressLoop_encodeFinal
    {size : Nat} {seqs : List (Sequence UInt8)} (low : Nat) {literals output : Bytes}
    (hvalid : AllValid seqs output)
    (hsize : (expand seqs output ++ literals).length = size) :
    decompressLoop size (encodeSeqs seqs ++ encodeFinal low literals) output =
      .ok (expand seqs output ++ literals) := by
  induction seqs generalizing output with
  | nil =>
      obtain ⟨token, tail, htail, hturn⟩ := decodeTurn_encodeFinal low hsize
      rw [Lz4.encodeSeqs_nil, List.nil_append, htail, decompressLoop]
      split <;> simp_all
  | cons s seqs ih =>
      have hle := Lz4.length_le_expand hvalid.2
      have hrun : (s.run output).length ≤ size := by
        rw [← hsize, List.length_append]
        exact Nat.le_add_right_of_le hle
      obtain ⟨token, tail, htail, hturn⟩ :=
        decodeTurn_encode (encodeSeqs seqs ++ encodeFinal low literals) hvalid.1 hrun
      have ih' := ih hvalid.2 hsize
      rw [Lz4.encodeSeqs_cons, List.append_assoc, htail, decompressLoop]
      split <;> simp_all

end Decoder

/-- The decoder loop undoes the encoder, for blocks of any length. -/
theorem decompressLoop_compress (data : Bytes) :
    decompressLoop data.length (compress data).1 [] = .ok data := by
  obtain ⟨seqs, anchor, hcompress, hvalid, hexpand⟩ := compress_parse data
  have hwhole : expand seqs [] ++ data.drop anchor = data := by
    rw [hexpand, List.take_append_drop]
  rw [hcompress, Lz4.encodeLast_eq, decompressLoop_encodeFinal 0 hvalid (by rw [hwhole]), hwhole]

/-- A block that was found worth compressing is decompressed to itself. -/
theorem decompress_worthwhile
    {saves : Nat → Nat → Nat → Bool} {raw packed : Bytes}
    (h : worthwhile saves raw = some packed) (hlen : raw.length ≤ 4096) :
    decompress packed raw.length = .ok raw := by
  rw [worthwhile_eq h, decompress, if_neg (by omega), Int.toNat_natCast,
    decompressLoop_compress]

/-- Decompressing a compressed block of up to 4096 bytes gives the block back. -/
theorem decompress_compress
    (data : Bytes) (hlen : data.length ≤ 4096) :
    decompress (compress data).1 data.length = .ok data := by
  rw [decompress, if_neg (by omega), Int.toNat_natCast, decompressLoop_compress]

/-- The round trip on a block with an overlapping match. -/
theorem decompress_compress_run :
    decompress (compress (List.replicate 40 7)).1 40 = .ok (List.replicate 40 7) :=
  decompress_compress (List.replicate 40 7) (by decide)

end Pcutp
