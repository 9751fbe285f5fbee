import Mathlib.Data.List.Basic
import Mathlib.Data.Nat.ModEq

/-!
# LZ4 blocks

An LZ4 block is a list of sequences followed by final literals.  A sequence
copies its literals to the output and then repeats `count` items that were
produced `offset` places earlier.  The repeated range may overlap the items it
produces, so the reference meaning `copyBack` copies one item at a time.

`copyChunks` is the faster copy that real decoders use: it copies as much as is
already there, from a fixed source, so that the available part doubles each
round.  `copyChunks_eq_copyBack` shows that the two agree.

`encode` is the byte format: a token with two four-bit lengths, length
extensions in steps of 255, and a two-byte little-endian offset.
-/

namespace Lz4

universe u

section Copy

variable {α : Type u}

/-- Append `count` items, each equal to the one `offset` places before it. -/
def copyBack (offset : Nat) : Nat → List α → List α
  | 0, out => out
  | count + 1, out =>
      match out[out.length - offset]? with
      | some x => copyBack offset count (out ++ [x])
      | none => out

/-- Append `count` items from `source` on, as many at a time as are there. -/
def copyChunks (source count : Nat) (out : List α) : List α :=
  if _h : count = 0 ∨ out.length ≤ source then
    out
  else
    let chunk := (out.drop source).take count
    copyChunks source (count - chunk.length) (out ++ chunk)
termination_by count
decreasing_by
  simp only [List.length_take, List.length_drop]
  omega

/-- The items that a copy with period `period` from `source` appends. -/
def repeated (out : List α) (source period : Nat) (count : Nat) : List (Option α) :=
  (List.range count).map (fun i => out[source + i % period]?)

theorem repeated_succ
    (out : List α) (source period count : Nat) :
    repeated out source period (count + 1) =
      out[source]? ::
        (List.range count).map (fun i => out[source + (i + 1) % period]?) := by
  simp [repeated, List.range_succ_eq_map, Function.comp_def]

/-- The item-by-item copy appends the last `offset` items periodically. -/
theorem copyBack_eq_repeated
    {offset : Nat} (hoffset : 0 < offset)
    (count : Nat) (out : List α) (hout : offset ≤ out.length) :
    (copyBack offset count out).map some =
      out.map some ++ repeated out (out.length - offset) offset count := by
  induction count generalizing out with
  | zero =>
      simp [copyBack, repeated]
  | succ count ih =>
      have hlt : out.length - offset < out.length := by omega
      have hget : out[out.length - offset]? = some out[out.length - offset] :=
        List.getElem?_eq_getElem hlt
      rw [copyBack, hget]
      dsimp only
      rw [ih (out ++ [out[out.length - offset]]) (by simp; omega), repeated_succ, hget]
      have htail :
          repeated (out ++ [out[out.length - offset]])
              ((out ++ [out[out.length - offset]]).length - offset) offset count =
            (List.range count).map
              (fun i => out[out.length - offset + (i + 1) % offset]?) := by
        refine List.map_congr_left (fun i _ => ?_)
        have hmod : i % offset < offset := Nat.mod_lt _ hoffset
        simp only [List.length_append, List.length_singleton]
        by_cases hwrap : i % offset + 1 = offset
        · have hzero : (i + 1) % offset = 0 := by
            rw [← Nat.mod_add_mod, hwrap, Nat.mod_self]
          have hidx : out.length + 1 - offset + i % offset = out.length := by omega
          rw [hidx, hzero, List.getElem?_concat_length, Nat.add_zero, hget]
        · have hsucc : (i + 1) % offset = i % offset + 1 := by
            rw [← Nat.mod_add_mod, Nat.mod_eq_of_lt (by omega)]
          rw [hsucc, List.getElem?_append_left (by omega)]
          congr 1
          omega
      rw [htail]
      simp

/-- The chunked copy appends everything from `source` on periodically. -/
theorem copyChunks_eq_repeated
    (source count : Nat) (out : List α) (hsource : source < out.length) :
    (copyChunks source count out).map some =
      out.map some ++ repeated out source (out.length - source) count := by
  fun_induction copyChunks source count out with
  | case1 count out hstop =>
      have hzero : count = 0 := by omega
      subst hzero
      simp [repeated]
  | case2 count out hgo chunk ih =>
      have hchunk : chunk = (out.drop source).take count := rfl
      rw [ih (by simp; omega), List.map_append, List.append_assoc]
      congr 1
      have hlen : chunk.length = min count (out.length - source) := by
        simp [hchunk]
      have hget : ∀ i < chunk.length, chunk[i]? = out[source + i]? := by
        intro i hi
        rw [hchunk, List.getElem?_take_of_lt (by omega), List.getElem?_drop]
      have hfirst : chunk.map some =
          (List.range chunk.length).map
            (fun i => out[source + i % (out.length - source)]?) := by
        refine List.ext_getElem? (fun i => ?_)
        by_cases hi : i < chunk.length
        · have hmod : i % (out.length - source) = i := Nat.mod_eq_of_lt (by omega)
          rw [List.getElem?_map, List.getElem?_map, List.getElem?_range hi, hget i hi]
          simp only [Option.map_some, hmod]
          rw [List.getElem?_eq_getElem (by omega)]
          rfl
        · rw [List.getElem?_eq_none (by simpa using Nat.not_lt.mp hi),
            List.getElem?_eq_none (by simpa using Nat.not_lt.mp hi)]
      have hrange : List.range count =
          List.range chunk.length ++
            (List.range (count - chunk.length)).map (fun i => chunk.length + i) := by
        conv_lhs => rw [show count = chunk.length + (count - chunk.length) by omega]
        exact List.range_add
      rw [hfirst, repeated, repeated, hrange, List.map_append]
      congr 1
      rw [List.map_map]
      refine List.map_congr_left (fun i hi => ?_)
      have hi' : i < count - chunk.length := List.mem_range.mp hi
      -- More than one chunk is copied only when the first one took everything.
      have hfull : chunk.length = out.length - source := by omega
      have hperiod : (out ++ chunk).length - source = 2 * (out.length - source) := by
        simp only [List.length_append, hfull]
        omega
      have hmod2 : i % (2 * (out.length - source)) % (out.length - source) =
          i % (out.length - source) :=
        Nat.mod_mod_of_dvd _ (Nat.dvd_mul_left _ _)
      have hlt2 : i % (2 * (out.length - source)) < 2 * (out.length - source) :=
        Nat.mod_lt _ (by omega)
      have hshift : (chunk.length + i) % (out.length - source) =
          i % (out.length - source) := by
        rw [hfull, Nat.add_mod_left]
      simp only [Function.comp_apply, hperiod, hshift, ← hmod2]
      generalize i % (2 * (out.length - source)) = j at hlt2
      by_cases hj : j < out.length - source
      · rw [Nat.mod_eq_of_lt hj, List.getElem?_append_left (by omega)]
      · have hsub : j % (out.length - source) = j - (out.length - source) := by
          rw [Nat.mod_eq_sub_mod (by omega), Nat.mod_eq_of_lt (by omega)]
        rw [List.getElem?_append_right (by omega), hsub, hget _ (by omega)]
        congr 1
        omega

/-- Copying in chunks gives the same output as copying item by item. -/
theorem copyChunks_eq_copyBack
    {offset : Nat} (hoffset : 0 < offset)
    (count : Nat) (out : List α) (hout : offset ≤ out.length) :
    copyChunks (out.length - offset) count out = copyBack offset count out := by
  have hinj : Function.Injective (List.map (some : α → Option α)) :=
    List.map_injective_iff.mpr (Option.some_injective α)
  apply hinj
  rw [copyChunks_eq_repeated _ _ _ (by omega), copyBack_eq_repeated hoffset _ _ hout,
    show out.length - (out.length - offset) = offset by omega]

/-- A copy that repeats what the data repeats extends a prefix of the data. -/
theorem copyBack_take
    {data : List α} {offset : Nat}
    (count n : Nat)
    (hoffset : 0 < offset) (hn : offset ≤ n) (hlen : n + count ≤ data.length)
    (heq : ∀ i < count, data[n - offset + i]? = data[n + i]?) :
    copyBack offset count (data.take n) = data.take (n + count) := by
  induction count generalizing n with
  | zero =>
      rfl
  | succ count ih =>
      have htake : (data.take n).length = n := by
        simp
        omega
      have hget : (data.take n)[(data.take n).length - offset]? = some data[n] := by
        rw [htake, List.getElem?_take_of_lt (by omega)]
        have h0 := heq 0 (by omega)
        simp only [Nat.add_zero] at h0
        rw [h0, List.getElem?_eq_getElem (by omega)]
      rw [copyBack, hget]
      dsimp only
      rw [List.take_append_getElem, ih (n + 1) (by omega) (by omega)]
      · congr 1
        omega
      · intro i hi
        have hnext := heq (i + 1) (by omega)
        rw [show n - offset + (i + 1) = n + 1 - offset + i by omega,
          show n + (i + 1) = n + 1 + i by omega] at hnext
        exact hnext

end Copy

/-- Literals followed by a match that ends `count` items later. -/
structure Sequence (α : Type u) where
  literals : List α
  offset : Nat
  count : Nat

section Expand

variable {α : Type u}

/-- Output after one sequence. -/
def Sequence.run (s : Sequence α) (out : List α) : List α :=
  copyBack s.offset s.count (out ++ s.literals)

/-- Output after a list of sequences. -/
def expand (seqs : List (Sequence α)) (out : List α) : List α :=
  seqs.foldl (fun out s => s.run out) out

/-- The offset points into the output, fits two bytes, and the match is coded. -/
def Sequence.Valid (s : Sequence α) (produced : Nat) : Prop :=
  0 < s.offset ∧ s.offset ≤ produced + s.literals.length ∧ s.offset ≤ 65535 ∧ 4 ≤ s.count

/-- Every sequence is valid for the output it meets. -/
def AllValid : List (Sequence α) → List α → Prop
  | [], _ => True
  | s :: seqs, out => s.Valid out.length ∧ AllValid seqs (s.run out)

@[simp] theorem expand_nil (out : List α) :
    expand [] out = out := by
  rfl

@[simp] theorem expand_cons
    (s : Sequence α) (seqs : List (Sequence α)) (out : List α) :
    expand (s :: seqs) out = expand seqs (s.run out) := by
  rfl

theorem expand_concat
    (seqs : List (Sequence α)) (s : Sequence α) (out : List α) :
    expand (seqs ++ [s]) out = s.run (expand seqs out) := by
  simp [expand]

theorem allValid_concat
    {seqs : List (Sequence α)} {s : Sequence α} {out : List α}
    (hseqs : AllValid seqs out)
    (hs : s.Valid (expand seqs out).length) :
    AllValid (seqs ++ [s]) out := by
  induction seqs generalizing out with
  | nil =>
      exact ⟨hs, trivial⟩
  | cons s' seqs ih =>
      exact ⟨hseqs.1, ih hseqs.2 hs⟩

theorem length_copyBack
    {offset : Nat} (hoffset : 0 < offset)
    (count : Nat) (out : List α) (hout : offset ≤ out.length) :
    (copyBack offset count out).length = out.length + count := by
  have h := congrArg List.length (copyBack_eq_repeated hoffset count out hout)
  simpa [repeated] using h

theorem Sequence.length_run
    {s : Sequence α} {out : List α}
    (hs : s.Valid out.length) :
    (s.run out).length = out.length + s.literals.length + s.count := by
  rw [Sequence.run, length_copyBack hs.1 _ _ (by simpa using hs.2.1)]
  simp

theorem length_le_expand
    {seqs : List (Sequence α)} {out : List α}
    (hseqs : AllValid seqs out) :
    out.length ≤ (expand seqs out).length := by
  induction seqs generalizing out with
  | nil =>
      simp
  | cons s seqs ih =>
      have hrun := s.length_run hseqs.1
      have htail := ih hseqs.2
      simp only [expand_cons]
      omega

end Expand

section Encode

/-- Extension bytes of a length, beyond what its four token bits hold. -/
def lengthTail (value : Nat) : List UInt8 :=
  if 255 ≤ value then 255 :: lengthTail (value - 255) else [UInt8.ofNat value]
termination_by value
decreasing_by omega

/-- Extension bytes, present only when the four token bits are saturated. -/
def lengthExt (value : Nat) : List UInt8 :=
  if 15 ≤ value then lengthTail (value - 15) else []

/-- A token: literal length in the high four bits, match length in the low. -/
def token (literals count : Nat) : UInt8 :=
  UInt8.ofNat (min literals 15 * 16 + min count 15)

/-- A two-byte little-endian number. -/
def le16 (n : Nat) : List UInt8 :=
  [UInt8.ofNat n, UInt8.ofNat (n / 256)]

/-- Byte form of one sequence. -/
def Sequence.encode (s : Sequence UInt8) : List UInt8 :=
  token s.literals.length (s.count - 4) ::
    (lengthExt s.literals.length ++ s.literals ++ le16 s.offset ++ lengthExt (s.count - 4))

/-- Byte form of the final literals. -/
def encodeLast (literals : List UInt8) : List UInt8 :=
  token literals.length 0 :: (lengthExt literals.length ++ literals)

/-- Byte form of the final literals, whatever the match bits of their token say. -/
def encodeFinal (low : Nat) (literals : List UInt8) : List UInt8 :=
  token literals.length low :: (lengthExt literals.length ++ literals)

theorem encodeLast_eq (literals : List UInt8) :
    encodeLast literals = encodeFinal 0 literals := by
  rfl

/-- Byte form of a list of sequences. -/
def encodeSeqs (seqs : List (Sequence UInt8)) : List UInt8 :=
  seqs.flatMap Sequence.encode

@[simp] theorem encodeSeqs_nil :
    encodeSeqs [] = [] := by
  rfl

@[simp] theorem encodeSeqs_cons
    (s : Sequence UInt8) (seqs : List (Sequence UInt8)) :
    encodeSeqs (s :: seqs) = s.encode ++ encodeSeqs seqs := by
  rfl

theorem encodeSeqs_concat
    (seqs : List (Sequence UInt8)) (s : Sequence UInt8) :
    encodeSeqs (seqs ++ [s]) = encodeSeqs seqs ++ s.encode := by
  simp [encodeSeqs]

theorem token_high (literals count : Nat) :
    (token literals count).toNat / 16 = min literals 15 := by
  have hlt : min literals 15 * 16 + min count 15 < 256 := by omega
  rw [token, UInt8.toNat_ofNat', Nat.mod_eq_of_lt hlt]
  omega

theorem token_low (literals count : Nat) :
    (token literals count).toNat % 16 = min count 15 := by
  have hlt : min literals 15 * 16 + min count 15 < 256 := by omega
  rw [token, UInt8.toNat_ofNat', Nat.mod_eq_of_lt hlt]
  omega

/-- A byte is the token of the two lengths its halves stand for. -/
theorem token_of_nibbles
    {t : UInt8} {literals count : Nat}
    (hhigh : t.toNat / 16 = min literals 15) (hlow : t.toNat % 16 = min count 15) :
    t = token literals count := by
  apply UInt8.toNat_inj.mp
  have hhigh' := token_high literals count
  have hlow' := token_low literals count
  omega

theorem le16_value
    {n : Nat} (hn : n ≤ 65535) :
    (UInt8.ofNat n).toNat + (UInt8.ofNat (n / 256)).toNat * 256 = n := by
  rw [UInt8.toNat_ofNat', UInt8.toNat_ofNat']
  omega

theorem le16_of_bytes (b0 b1 : UInt8) :
    le16 (b0.toNat + b1.toNat * 256) = [b0, b1] := by
  have hlow := UInt8.toNat_lt b0
  have hhigh := UInt8.toNat_lt b1
  rw [le16]
  congr 1
  · apply UInt8.toNat_inj.mp
    rw [UInt8.toNat_ofNat']
    omega
  · congr 1
    apply UInt8.toNat_inj.mp
    rw [UInt8.toNat_ofNat']
    omega

theorem lengthTail_of_ge
    {value : Nat} (h : 255 ≤ value) :
    lengthTail value = 255 :: lengthTail (value - 255) := by
  rw [lengthTail, if_pos h]

theorem lengthTail_of_lt
    {value : Nat} (h : value < 255) :
    lengthTail value = [UInt8.ofNat value] := by
  rw [lengthTail, if_neg (by omega)]

/-- The bytes of a block are the byte form of these sequences and these final literals. -/
def Parses (packed : List UInt8) (seqs : List (Sequence UInt8)) (literals : List UInt8) : Prop :=
  AllValid seqs [] ∧ ∃ low, packed = encodeSeqs seqs ++ encodeFinal low literals

end Encode

section Unique

variable {x y : List UInt8}

/-- A length extension can be cut from what follows it in one way only. -/
theorem lengthTail_cancel
    {a b : Nat} (h : lengthTail a ++ x = lengthTail b ++ y) :
    a = b ∧ x = y := by
  induction a using Nat.strong_induction_on generalizing b with
  | _ a ih =>
      -- A byte below 255 ends the extension.
      have hbyte : ∀ n < 255, UInt8.ofNat n ≠ 255 := by
        intro n hn heq
        have htoNat := congrArg UInt8.toNat heq
        rw [UInt8.toNat_ofNat', Nat.mod_eq_of_lt (by omega)] at htoNat
        exact absurd htoNat (Nat.ne_of_lt hn)
      by_cases ha : 255 ≤ a
      · by_cases hb : 255 ≤ b
        · rw [lengthTail_of_ge ha, lengthTail_of_ge hb, List.cons_append, List.cons_append,
            List.cons.injEq] at h
          obtain ⟨heq, hrest⟩ := ih (a - 255) (by omega) h.2
          exact ⟨by omega, hrest⟩
        · simp only [lengthTail_of_ge ha, lengthTail_of_lt (Nat.lt_of_not_le hb), List.cons_append,
            List.cons.injEq] at h
          exact absurd h.1.symm (hbyte b (Nat.lt_of_not_le hb))
      · by_cases hb : 255 ≤ b
        · simp only [lengthTail_of_lt (Nat.lt_of_not_le ha), lengthTail_of_ge hb, List.cons_append,
            List.cons.injEq] at h
          exact absurd h.1 (hbyte a (Nat.lt_of_not_le ha))
        · rw [lengthTail_of_lt (Nat.lt_of_not_le ha), lengthTail_of_lt (Nat.lt_of_not_le hb),
            List.singleton_append, List.singleton_append, List.cons.injEq] at h
          have htoNat := congrArg UInt8.toNat h.1
          rw [UInt8.toNat_ofNat', UInt8.toNat_ofNat'] at htoNat
          exact ⟨by omega, h.2⟩

/-- The token says whether a length has an extension. -/
theorem lengthExt_cancel
    {a b : Nat} (hmin : min a 15 = min b 15) (h : lengthExt a ++ x = lengthExt b ++ y) :
    a = b ∧ x = y := by
  unfold lengthExt at h
  by_cases ha : 15 ≤ a
  · rw [if_pos ha, if_pos (by omega)] at h
    obtain ⟨heq, hrest⟩ := lengthTail_cancel h
    exact ⟨by omega, hrest⟩
  · rw [if_neg ha, if_neg (by omega)] at h
    exact ⟨by omega, h⟩

/-- The literals after a token. -/
theorem literals_cancel
    {l l' : List UInt8} {low low' : Nat} (htoken : token l.length low = token l'.length low')
    (h : lengthExt l.length ++ (l ++ x) = lengthExt l'.length ++ (l' ++ y)) :
    l = l' ∧ x = y := by
  have hmin : min l.length 15 = min l'.length 15 := by
    rw [← token_high _ low, htoken, token_high]
  obtain ⟨hlen, hrest⟩ := lengthExt_cancel hmin h
  exact List.append_inj hrest hlen

/-- A sequence can be cut from what follows it in one way only. -/
theorem Sequence.encode_cancel
    {s s' : Sequence UInt8} (hoffset : s.offset ≤ 65535) (hoffset' : s'.offset ≤ 65535)
    (hcount : 4 ≤ s.count) (hcount' : 4 ≤ s'.count) (h : s.encode ++ x = s'.encode ++ y) :
    s = s' ∧ x = y := by
  obtain ⟨literals, offset, count⟩ := s
  obtain ⟨literals', offset', count'⟩ := s'
  dsimp only at hoffset hoffset' hcount hcount'
  simp only [encode, List.cons_append, List.append_assoc, List.cons.injEq] at h
  obtain ⟨htoken, hbody⟩ := h
  obtain ⟨rfl, htail⟩ := literals_cancel htoken hbody
  simp only [le16, List.cons_append, List.nil_append, List.cons.injEq] at htail
  obtain ⟨hb0, hb1, hext⟩ := htail
  have hvalue : offset = offset' := by
    rw [← le16_value hoffset, ← le16_value hoffset', hb0, hb1]
  have hmin : min (count - 4) 15 = min (count' - 4) 15 := by
    rw [← token_low literals.length, htoken, token_low]
  obtain ⟨hcounts, hrest⟩ := lengthExt_cancel hmin hext
  have heq : count = count' := by omega
  rw [hvalue, heq]
  exact ⟨rfl, hrest⟩

/-- After the literals of a sequence there is an offset, after the last literals nothing. -/
theorem Sequence.encode_ne_final
    (s : Sequence UInt8) (low : Nat) (literals : List UInt8) :
    s.encode ++ x ≠ encodeFinal low literals := by
  intro h
  simp only [encode, encodeFinal, List.cons_append, List.append_assoc, List.cons.injEq] at h
  have hbody : lengthExt s.literals.length ++ (s.literals ++ (le16 s.offset ++
      (lengthExt (s.count - 4) ++ x))) =
      lengthExt literals.length ++ (literals ++ []) := by
    rw [List.append_nil]
    exact h.2
  have hnil := (literals_cancel h.1 hbody).2
  simp [le16] at hnil

theorem encodeSeqs_cancel
    {seqs seqs' : List (Sequence UInt8)} {out literals literals' : List UInt8} {low low' : Nat}
    (hvalid : AllValid seqs out) (hvalid' : AllValid seqs' out)
    (h : encodeSeqs seqs ++ encodeFinal low literals =
      encodeSeqs seqs' ++ encodeFinal low' literals') :
    seqs = seqs' ∧ literals = literals' := by
  induction seqs generalizing seqs' out with
  | nil =>
      cases seqs' with
      | nil =>
          simp only [encodeSeqs_nil, List.nil_append, encodeFinal, List.cons.injEq] at h
          have hbody : lengthExt literals.length ++ (literals ++ []) =
              lengthExt literals'.length ++ (literals' ++ []) := by
            rw [List.append_nil, List.append_nil]
            exact h.2
          exact ⟨rfl, (literals_cancel h.1 hbody).1⟩
      | cons s' seqs' =>
          rw [encodeSeqs_nil, List.nil_append, encodeSeqs_cons, List.append_assoc] at h
          exact absurd h.symm (s'.encode_ne_final low literals)
  | cons s seqs ih =>
      cases seqs' with
      | nil =>
          rw [encodeSeqs_nil, List.nil_append, encodeSeqs_cons, List.append_assoc] at h
          exact absurd h (s.encode_ne_final low' literals')
      | cons s' seqs' =>
          rw [encodeSeqs_cons, encodeSeqs_cons, List.append_assoc, List.append_assoc] at h
          obtain ⟨rfl, hrest⟩ := Sequence.encode_cancel hvalid.1.2.2.1 hvalid'.1.2.2.1
            hvalid.1.2.2.2 hvalid'.1.2.2.2 h
          obtain ⟨rfl, hliterals⟩ := ih hvalid.2 hvalid'.2 hrest
          exact ⟨rfl, hliterals⟩

/-- A block has one parse. -/
theorem Parses.unique
    {packed : List UInt8} {seqs seqs' : List (Sequence UInt8)} {literals literals' : List UInt8}
    (h : Parses packed seqs literals) (h' : Parses packed seqs' literals') :
    seqs = seqs' ∧ literals = literals' := by
  obtain ⟨hvalid, low, rfl⟩ := h
  obtain ⟨hvalid', low', heq⟩ := h'
  exact encodeSeqs_cancel hvalid hvalid' heq

end Unique

section EndRules

variable {α : Type u}

/-- The match is at least twelve items long and starts at least twelve items before the end of
`total` items. -/
def Sequence.Placed (s : Sequence α) (total produced : Nat) : Prop :=
  12 ≤ s.count ∧ produced + s.literals.length + 12 ≤ total

/-- Every sequence is placed by the output it meets. -/
def AllPlaced (total : Nat) : List (Sequence α) → List α → Prop
  | [], _ => True
  | s :: seqs, out => s.Placed total out.length ∧ AllPlaced total seqs (s.run out)

theorem allPlaced_concat
    {total : Nat} {seqs : List (Sequence α)} {s : Sequence α} {out : List α}
    (hseqs : AllPlaced total seqs out) (hs : s.Placed total (expand seqs out).length) :
    AllPlaced total (seqs ++ [s]) out := by
  induction seqs generalizing out with
  | nil =>
      exact ⟨hs, trivial⟩
  | cons s' seqs ih =>
      exact ⟨hseqs.1, ih hseqs.2 hs⟩

/-- The rules for the end of a block: what the sequences and the last literals stand for is the
data, at least its last five items are literals, and matches keep their distance from its end. -/
structure EndRules (data : List α) (seqs : List (Sequence α)) (literals : List α) : Prop where
  valid : AllValid seqs []
  whole : expand seqs [] ++ literals = data
  tail : min 5 data.length ≤ literals.length
  placed : AllPlaced data.length seqs []

end EndRules

end Lz4
