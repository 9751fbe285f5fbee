import Pcutp.Decoder
import Pcutp.Lib.Memory

/-!
# The decoder of the PicoCalc

`UnpackLZ4` of `PCUTP.BAS` reads its input from `buf%()`, builds the block in
`unpack%()` and copies it back when it is complete.  Both arrays are areas of
4096 bytes here, and `Peek` and `MEMORY COPY` have no result outside them, so
that a result of `UnpackLZ4` is also a proof that it stays inside.

The function tests its bounds in another order than `decompress`: the offset of
a match before the extension of its length.  The two agree turn by turn,
because a turn that fails any test fails as a whole.
-/

namespace Pcutp.Picocalc

open Memory (Area)
open Lz4 (copyChunks)

/-- `buf%()` and `unpack%()`. -/
structure Arrays where
  buf : Area 4096
  unpack : Area 4096

/-- What reading a length does: a bad access, `Exit Function`, or a length and where it ends. -/
inductive Extent
  | fault
  | exit
  | go (ip len : Nat)

/-- What a turn of the main loop does: a bad access, a result of the function, or another turn. -/
inductive Turn
  | fault
  | exit (result : Bool) (arrays : Arrays)
  | next (ip op : Nat) (arrays : Arrays)

section Unpack

variable (packedLen plainLen : Nat)

/-- The loop `Loop While extra = 255`. -/
def extend (buf : Area 4096) (ip len : Nat) : Extent :=
  if packedLen ≤ ip then
    .exit
  else
    match buf.peek ip with
    | none => .fault
    | some extra =>
        let len := len + extra.toNat
        if len > plainLen then
          .exit
        else if extra = 255 then
          extend buf (ip + 1) len
        else
          .go (ip + 1) len
termination_by packedLen - ip

/-- A length of four bits with its extension. -/
def extent (buf : Area 4096) (ip len : Nat) : Extent :=
  if len = 15 then extend packedLen plainLen buf ip len else .go ip len

/-- The loop `Do While ml > 0`. -/
def copyMatch (unpack : Area 4096) (fromp op ml : Nat) (h : fromp < op) :
    Option (Area 4096 × Nat) :=
  if _hml : ml > 0 then
    let count := if op - fromp > ml then ml else op - fromp
    match unpack.move fromp op count with
    | none => none
    | some unpack => copyMatch unpack fromp (op + count) (ml - count) (by omega)
  else
    some (unpack, op)
termination_by ml
decreasing_by
  split <;> omega

/-- The part of a turn after the literals. -/
def matchTurn (arrays : Arrays) (tok : UInt8) (ip op : Nat) : Turn :=
  if ip + 2 > packedLen then
    .exit false arrays
  else
    match arrays.buf.peek ip, arrays.buf.peek (ip + 1) with
    | some b0, some b1 =>
        let off := b0.toNat + 256 * b1.toNat
        if hoff : off < 1 ∨ off > op then
          .exit false arrays
        else
          match extent packedLen plainLen arrays.buf (ip + 2) (tok.toNat &&& 15) with
          | .fault => .fault
          | .exit => .exit false arrays
          | .go ip ml =>
              let ml := ml + 4
              if op + ml > plainLen then
                .exit false arrays
              else
                match copyMatch arrays.unpack (op - off) op ml (by omega) with
                | none => .fault
                | some (unpack, op) => .next ip op { arrays with unpack }
    | _, _ => .fault

/-- The part of a turn after the literals were copied. -/
def endTurn (arrays : Arrays) (tok : UInt8) (ip op : Nat) : Turn :=
  if ip = packedLen then
    if op ≠ plainLen then
      .exit false arrays
    else
      match (if op > 0 then Memory.copy arrays.unpack 0 arrays.buf 0 op else some arrays.buf) with
      | none => .fault
      | some buf => .exit true { arrays with buf }
  else
    matchTurn packedLen plainLen arrays tok ip op

/-- One turn of the loop `Do While ip < packedLen`. -/
def turn (arrays : Arrays) (ip op : Nat) : Turn :=
  match arrays.buf.peek ip with
  | none => .fault
  | some tok =>
      match extent packedLen plainLen arrays.buf (ip + 1) (tok.toNat >>> 4) with
      | .fault => .fault
      | .exit => .exit false arrays
      | .go ip lit =>
          if ip + lit > packedLen ∨ op + lit > plainLen then
            .exit false arrays
          else
            match (if lit > 0 then Memory.copy arrays.buf ip arrays.unpack op lit
              else some arrays.unpack) with
            | none => .fault
            | some unpack =>
                endTurn packedLen plainLen { arrays with unpack } tok (ip + lit) (op + lit)

variable {packedLen plainLen}

theorem extend_le
    {buf : Area 4096} {ip len ip' len' : Nat}
    (h : extend packedLen plainLen buf ip len = .go ip' len') :
    ip ≤ ip' := by
  fun_induction extend packedLen plainLen buf ip len with
  | case1 | case2 | case3 => cases h
  | case4 ip len =>
      rename_i ih
      exact (Nat.le_succ ip).trans (ih h)
  | case5 ip len =>
      injection h with hnext
      omega

theorem extent_le
    {buf : Area 4096} {ip len ip' len' : Nat}
    (h : extent packedLen plainLen buf ip len = .go ip' len') :
    ip ≤ ip' := by
  rw [extent] at h
  split_ifs at h
  · exact extend_le h
  · cases h
    exact Nat.le_refl _

/-- A turn that leads to another one has read its token at least. -/
theorem turn_lt
    {arrays arrays' : Arrays} {ip op ip' op' : Nat}
    (h : turn packedLen plainLen arrays ip op = .next ip' op' arrays') :
    ip < ip' := by
  unfold turn at h
  split at h
  · cases h
  · split at h
    · cases h
    · cases h
    · rename_i hext
      have hle := extent_le hext
      split at h
      · cases h
      · split at h
        · cases h
        · unfold endTurn at h
          split at h
          · split at h
            · cases h
            · split at h <;> cases h
          · unfold matchTurn at h
            split at h
            · cases h
            · split at h
              · dsimp only at h
                split at h
                · cases h
                · split at h
                  · cases h
                  · cases h
                  · rename_i hext'
                    have hle' := extent_le hext'
                    split at h
                    · cases h
                    · split at h
                      · cases h
                      · cases h
                        omega
              · cases h

variable (packedLen plainLen)

/-- The main loop; `none` when an access was bad. -/
def unpackLoop (arrays : Arrays) (ip op : Nat) : Option (Bool × Arrays) :=
  if _hip : ip < packedLen then
    match _h : turn packedLen plainLen arrays ip op with
    | .fault => none
    | .exit result arrays => some (result, arrays)
    | .next ip op arrays => unpackLoop arrays ip op
  else
    some (false, arrays)
termination_by packedLen - ip
decreasing_by
  have := turn_lt _h
  omega

/-- `UnpackLZ4(packedLen, plainLen)`: its value and the arrays it leaves. -/
def UnpackLZ4 (arrays : Arrays) : Option (Bool × Arrays) :=
  unpackLoop packedLen plainLen arrays 0 0

end Unpack

section Agree

variable {packedLen plainLen : Nat}

/-- A length was read as by `readLength`, or failed as there. -/
inductive Extent.Agrees (data : Bytes) (ip : Nat) : Extent → Except PcutpError (Nat × Bytes) → Prop
  | exit (exc : PcutpError) : Agrees data ip .exit (.error exc)
  | go {ip' : Nat} (len : Nat) (hip : ip ≤ ip') (hend : ip' ≤ data.length) :
      Agrees data ip (.go ip' len) (.ok (len, data.drop ip'))

/-- A turn ends as a turn of `decompress`. -/
inductive Turn.Agrees (buf : Area 4096) (data : Bytes) (plainLen : Nat) : Turn → Decoded → Prop
  | failed {after : Arrays} (exc : PcutpError) (hbuf : after.buf = buf) :
      Agrees buf data plainLen (.exit false after) (.failed exc)
  | finished {after : Arrays} {out : Bytes} (hout : after.buf.bytes.take plainLen = out) :
      Agrees buf data plainLen (.exit true after) (.finished out)
  | more {ip op : Nat} {after : Arrays} (hbuf : after.buf = buf)
      (hip : ip ≤ data.length) (hop : op ≤ plainLen) :
      Agrees buf data plainLen (.next ip op after)
        (.more (data.drop ip) (after.unpack.bytes.take op))

/-- What is left of the input at an index of `buf%()` starts with the byte there. -/
theorem peek_take
    (buf : Area 4096) {ip : Nat}
    (hpacked : packedLen ≤ 4096) (hip : ip < packedLen) :
    ∃ b, buf.peek ip = some b ∧
      (buf.bytes.take packedLen).drop ip = b :: (buf.bytes.take packedLen).drop (ip + 1) := by
  have hlen := buf.length_eq
  have hlt : ip < (buf.bytes.take packedLen).length := by
    rw [List.length_take]
    omega
  refine ⟨_, buf.peek_eq (by omega), ?_⟩
  rw [List.drop_eq_getElem_cons hlt, List.getElem_take]

theorem length_data
    (buf : Area 4096) (hpacked : packedLen ≤ 4096) :
    (buf.bytes.take packedLen).length = packedLen := by
  rw [List.length_take, buf.length_eq]
  omega

theorem extend_agrees
    (buf : Area 4096) (hpacked : packedLen ≤ 4096) (ip len : Nat) :
    Extent.Agrees (buf.bytes.take packedLen) ip (extend packedLen plainLen buf ip len)
      (readExtension plainLen len ((buf.bytes.take packedLen).drop ip)) := by
  have hdata := length_data buf hpacked
  fun_induction extend packedLen plainLen buf ip len with
  | case1 ip len hip =>
      rw [List.drop_eq_nil_of_le (by omega)]
      exact .exit _
  | case2 ip len hip hpeek =>
      obtain ⟨b, hb, _⟩ := peek_take buf hpacked (Nat.not_le.mp hip)
      rw [hb] at hpeek
      cases hpeek
  | case3 ip len hip extra hpeek =>
      rename_i hlong
      obtain ⟨b, hb, hdrop⟩ := peek_take buf hpacked (Nat.not_le.mp hip)
      obtain rfl := Option.some.inj (hb.symm.trans hpeek)
      rw [hdrop, readExtension, if_pos hlong]
      exact .exit _
  | case4 ip len hip hpeek =>
      rename_i hshort ih
      obtain ⟨b, hb, hdrop⟩ := peek_take buf hpacked (Nat.not_le.mp hip)
      obtain rfl := Option.some.inj (hb.symm.trans hpeek)
      rw [hdrop, readExtension, if_neg hshort, if_neg (by simp)]
      generalize hext : extend packedLen plainLen buf (ip + 1) _ = e at ih
      generalize readExtension plainLen _ _ = r at ih
      cases ih with
      | exit exc => exact .exit exc
      | go len' hle hend => exact .go len' (by omega) hend
  | case5 ip len hip extra hpeek =>
      rename_i hshort hlast
      obtain ⟨b, hb, hdrop⟩ := peek_take buf hpacked (Nat.not_le.mp hip)
      obtain rfl := Option.some.inj (hb.symm.trans hpeek)
      rw [hdrop, readExtension, if_neg hshort, if_pos hlast]
      exact .go _ (Nat.le_succ ip) (by omega)

theorem extent_agrees
    (buf : Area 4096) (hpacked : packedLen ≤ 4096) {ip : Nat} (len : Nat) (hip : ip ≤ packedLen) :
    Extent.Agrees (buf.bytes.take packedLen) ip (extent packedLen plainLen buf ip len)
      (readLength plainLen len ((buf.bytes.take packedLen).drop ip)) := by
  rw [extent, readLength]
  split
  · exact extend_agrees buf hpacked ip len
  · exact .go len (Nat.le_refl _) (by rw [length_data buf hpacked]; exact hip)

/-- The copy of a match is the chunked copy, and stays inside `unpack%()`. -/
theorem copyMatch_eq
    (unpack : Area 4096) (fromp op ml : Nat) (hfrom : fromp < op) (hfits : op + ml ≤ 4096) :
    ∃ unpack', copyMatch unpack fromp op ml hfrom = some (unpack', op + ml) ∧
      unpack'.bytes.take (op + ml) = copyChunks fromp ml (unpack.bytes.take op) := by
  have hlen : ∀ {a : Area 4096} {n : Nat}, n ≤ 4096 → (a.bytes.take n).length = n := by
    intro a n hn
    rw [List.length_take, a.length_eq]
    omega
  fun_induction copyMatch unpack fromp op ml hfrom with
  | case1 unpack op ml hfrom hml count hmove =>
      obtain ⟨_, hmoved, _⟩ := unpack.exists_move fromp op count
        (by simp only [count]; split <;> omega) (by simp only [count]; split <;> omega)
      rw [hmoved] at hmove
      cases hmove
  | case2 unpack op ml hfrom hml count unpack₁ hmove ih =>
      have hcount : count = min ml (op - fromp) := by
        simp only [count]
        split <;> omega
      obtain ⟨_, hmoved, htake⟩ := unpack.exists_move fromp op count
        (by omega) (by omega)
      obtain rfl := Option.some.inj (hmoved.symm.trans hmove)
      obtain ⟨unpack', hcopy, hchunks⟩ := ih (by omega)
      have hsum : op + count + (ml - count) = op + ml := by omega
      rw [hsum] at hcopy hchunks
      refine ⟨unpack', hcopy, ?_⟩
      have hop := hlen (a := unpack) (n := op) (by omega)
      have hchunk : (((unpack.bytes.take op).drop fromp).take ml).length = count := by
        rw [List.length_take, List.length_drop, hop, hcount]
      have hsame : ((unpack.bytes.take op).drop fromp).take count =
          ((unpack.bytes.take op).drop fromp).take ml := by
        rw [List.take_eq_take_iff, List.length_drop, hop]
        omega
      rw [hchunks, htake, hsame, copyChunks.eq_def fromp ml, dif_neg (by omega)]
      dsimp only
      rw [hchunk]
  | case3 unpack op ml hfrom hml =>
      obtain rfl : ml = 0 := by omega
      refine ⟨unpack, rfl, ?_⟩
      rw [copyChunks, dif_pos (Or.inl rfl)]
      rfl

theorem matchTurn_agrees
    {arrays : Arrays} (tok : UInt8) {ip op : Nat}
    (hpacked : packedLen ≤ 4096) (hplain : plainLen ≤ 4096) (hop : op ≤ plainLen) :
    Turn.Agrees arrays.buf (arrays.buf.bytes.take packedLen) plainLen
      (matchTurn packedLen plainLen arrays tok ip op)
      (decodeMatch plainLen (tok.toNat &&& 15) ((arrays.buf.bytes.take packedLen).drop ip)
        (arrays.unpack.bytes.take op)) := by
  have hdata := length_data arrays.buf hpacked
  have hlen : (arrays.unpack.bytes.take op).length = op := by
    rw [List.length_take, arrays.unpack.length_eq]
    omega
  rw [matchTurn]
  split_ifs with hshort
  · have hone : ((arrays.buf.bytes.take packedLen).drop ip).length ≤ 1 := by
      rw [List.length_drop, hdata]
      omega
    unfold decodeMatch
    split
    · rename_i heq
      rw [heq] at hone
      simp at hone
    · exact .failed _ rfl
  · obtain ⟨b0, hb0, hdrop0⟩ := peek_take arrays.buf hpacked (show ip < packedLen by omega)
    obtain ⟨b1, hb1, hdrop1⟩ :=
      peek_take arrays.buf hpacked (show ip + 1 < packedLen by omega)
    have hoffset : b0.toNat ||| (b1.toNat <<< 8) = b0.toNat + 256 * b1.toNat := by
      rw [Nat.or_comm, ← Nat.shiftLeft_add_eq_or_of_lt (UInt8.toNat_lt b0), Nat.shiftLeft_eq]
      omega
    have hext : Extent.Agrees _ _
        (extent packedLen plainLen arrays.buf (ip + 2) (tok.toNat &&& 15)) _ :=
      extent_agrees arrays.buf hpacked (tok.toNat &&& 15) (by omega)
    rw [hdrop0, hdrop1, decodeMatch, hoffset, hb0, hb1]
    dsimp only
    split_ifs with hoff
    · -- `decompress` reads the length first; it fails there, or at the offset.
      split
      · exact .failed _ rfl
      · rw [if_pos (Or.inl (by rw [hlen]; omega))]
        exact .failed _ rfl
    · generalize extent packedLen plainLen arrays.buf (ip + 2) _ = e at hext
      generalize readLength plainLen _ _ = r at hext
      cases hext with
      | exit exc => exact .failed _ rfl
      | go ml hip hend =>
          dsimp only
          split_ifs with hlong hbad hbad
          · exact .failed _ rfl
          · exact absurd (Or.inr (by rw [hlen]; exact hlong)) hbad
          · exact absurd hbad (by rw [hlen]; omega)
          · obtain ⟨unpack', hcopy, hchunks⟩ := copyMatch_eq arrays.unpack
              (op - (b0.toNat + 256 * b1.toNat)) op (ml + 4) (by omega) (by omega)
            rw [hcopy, hlen, ← hchunks]
            exact .more rfl hend (by omega)

theorem endTurn_agrees
    (arrays : Arrays) (tok : UInt8) {ip op : Nat}
    (hpacked : packedLen ≤ 4096) (hplain : plainLen ≤ 4096) (hip : ip ≤ packedLen)
    (hop : op ≤ plainLen) :
    Turn.Agrees arrays.buf (arrays.buf.bytes.take packedLen) plainLen
      (endTurn packedLen plainLen arrays tok ip op)
      (if (arrays.buf.bytes.take packedLen).drop ip = [] then
        if (arrays.unpack.bytes.take op).length ≠ plainLen then
          .failed (ProtocolError "LZ4 output size mismatch")
        else
          .finished (arrays.unpack.bytes.take op)
      else
        decodeMatch plainLen (tok.toNat &&& 15) ((arrays.buf.bytes.take packedLen).drop ip)
          (arrays.unpack.bytes.take op)) := by
  have hdata := length_data arrays.buf hpacked
  have hlen : (arrays.unpack.bytes.take op).length = op := by
    rw [List.length_take, arrays.unpack.length_eq]
    omega
  have hend : (arrays.buf.bytes.take packedLen).drop ip = [] ↔ ip = packedLen := by
    rw [List.drop_eq_nil_iff, hdata]
    omega
  rw [endTurn, hlen]
  by_cases hlast : ip = packedLen
  · rw [if_pos hlast, if_pos (hend.mpr hlast)]
    by_cases hsize : op = plainLen
    · rw [if_neg (not_not.mpr hsize), if_neg (not_not.mpr hsize)]
      obtain ⟨buf', hcopy, hbytes⟩ := Memory.exists_copy arrays.unpack arrays.buf 0 0 op
        (by omega) (by omega)
      have htake := Memory.take_of_copy (by omega) (by omega) hbytes
      split_ifs with hpos
      · rw [hcopy]
        refine .finished ?_
        rw [← hsize]
        simpa using htake
      · refine .finished ?_
        rw [← hsize, show op = 0 by omega]
        rfl
    · rw [if_pos hsize, if_pos hsize]
      exact .failed _ rfl
  · rw [if_neg hlast, if_neg (fun h => hlast (hend.mp h))]
    exact matchTurn_agrees tok hpacked hplain hop

/-- The turns of the two decoders agree. -/
theorem turn_agrees
    (arrays : Arrays) {ip op : Nat}
    (hpacked : packedLen ≤ 4096) (hplain : plainLen ≤ 4096) (hip : ip < packedLen)
    (hop : op ≤ plainLen) :
    ∃ tok, (arrays.buf.bytes.take packedLen).drop ip =
        tok :: (arrays.buf.bytes.take packedLen).drop (ip + 1) ∧
      Turn.Agrees arrays.buf (arrays.buf.bytes.take packedLen) plainLen
        (turn packedLen plainLen arrays ip op)
        (decodeTurn plainLen tok ((arrays.buf.bytes.take packedLen).drop (ip + 1))
          (arrays.unpack.bytes.take op)) := by
  have hdata := length_data arrays.buf hpacked
  have hlen : (arrays.unpack.bytes.take op).length = op := by
    rw [List.length_take, arrays.unpack.length_eq]
    omega
  obtain ⟨tok, htok, hdrop⟩ := peek_take arrays.buf hpacked hip
  refine ⟨tok, hdrop, ?_⟩
  have hext : Extent.Agrees _ _
      (extent packedLen plainLen arrays.buf (ip + 1) (tok.toNat >>> 4)) _ :=
    extent_agrees arrays.buf hpacked (tok.toNat >>> 4) (by omega)
  rw [turn, htok, decodeTurn]
  dsimp only
  generalize extent packedLen plainLen arrays.buf (ip + 1) _ = e at hext
  generalize readLength plainLen _ _ = r at hext
  cases hext with
  | exit exc => exact .failed _ rfl
  | @go ip' lit hle hend =>
      dsimp only
      rw [hdata] at hend
      rw [List.length_drop, hdata, hlen]
      by_cases hbad : ip' + lit > packedLen ∨ op + lit > plainLen
      · have hbad' : lit > packedLen - ip' ∨ op + lit > plainLen := by omega
        rw [if_pos hbad, if_pos hbad']
        exact .failed _ rfl
      · have hfits : ¬ (lit > packedLen - ip' ∨ op + lit > plainLen) := by omega
        obtain ⟨unpack', hcopy, htake⟩ : ∃ unpack' : Area 4096,
            (if lit > 0 then Memory.copy arrays.buf ip' arrays.unpack op lit
              else some arrays.unpack) = some unpack' ∧
            unpack'.bytes.take (op + lit) =
              arrays.unpack.bytes.take op ++ (arrays.buf.bytes.drop ip').take lit := by
          split_ifs with hlit
          · obtain ⟨unpack', hcopy, hbytes⟩ := Memory.exists_copy arrays.buf arrays.unpack
              ip' op lit (by omega) (by omega)
            exact ⟨unpack', hcopy, Memory.take_of_copy (by omega) (by omega) hbytes⟩
          · obtain rfl : lit = 0 := by omega
            exact ⟨arrays.unpack, rfl, by simp⟩
        have hlits : ((arrays.buf.bytes.take packedLen).drop ip').take lit =
            (arrays.buf.bytes.drop ip').take lit := by
          rw [List.drop_take, List.take_take, Nat.min_eq_left (by omega)]
        rw [if_neg hbad, if_neg hfits, List.drop_drop, hcopy, hlits, ← htake]
        exact endTurn_agrees { arrays with unpack := unpack' } tok hpacked hplain
          (by omega) (by omega)

/-- `UnpackLZ4` ends as `decompress`. -/
inductive Unpacked (buf : Area 4096) (plainLen : Nat) :
    Bool → Arrays → Except PcutpError Bytes → Prop
  | accepted {after : Arrays} {out : Bytes} (hout : after.buf.bytes.take plainLen = out) :
      Unpacked buf plainLen true after (.ok out)
  | refused {after : Arrays} (exc : PcutpError) (hbuf : after.buf = buf) :
      Unpacked buf plainLen false after (.error exc)

theorem decompressLoop_cons
    (size : Nat) (token : UInt8) (rest output : Bytes) :
    decompressLoop size (token :: rest) output =
      match decodeTurn size token rest output with
      | .failed exc => .error exc
      | .finished output => .ok output
      | .more rest output => decompressLoop size rest output := by
  rw [decompressLoop]
  split <;> simp_all

/-- The main loops of the two decoders agree. -/
theorem unpackLoop_agrees
    (hpacked : packedLen ≤ 4096) (hplain : plainLen ≤ 4096)
    (arrays : Arrays) {ip op : Nat} (hip : ip ≤ packedLen) (hop : op ≤ plainLen) :
    ∃ result after, unpackLoop packedLen plainLen arrays ip op = some (result, after) ∧
      Unpacked arrays.buf plainLen result after
        (decompressLoop plainLen ((arrays.buf.bytes.take packedLen).drop ip)
          (arrays.unpack.bytes.take op)) := by
  have hdata := length_data arrays.buf hpacked
  fun_induction unpackLoop packedLen plainLen arrays ip op with
  | case1 arrays ip op hlt hturn =>
      obtain ⟨tok, _, hagrees⟩ := turn_agrees arrays hpacked hplain hlt hop
      rw [hturn] at hagrees
      cases hagrees
  | case2 arrays ip op hlt result after hturn =>
      obtain ⟨tok, hdrop, hagrees⟩ := turn_agrees arrays hpacked hplain hlt hop
      refine ⟨result, after, rfl, ?_⟩
      rw [hturn] at hagrees
      rw [hdrop, decompressLoop_cons]
      generalize decodeTurn plainLen tok _ _ = d at hagrees ⊢
      cases hagrees with
      | failed exc hbuf => exact .refused exc hbuf
      | finished hout => exact .accepted hout
  | case3 arrays ip op hlt ip' op' after hturn ih =>
      obtain ⟨tok, hdrop, hagrees⟩ := turn_agrees arrays hpacked hplain hlt hop
      rw [hturn] at hagrees
      rw [hdrop, decompressLoop_cons]
      generalize decodeTurn plainLen tok _ _ = d at hagrees ⊢
      cases hagrees with
      | more hbuf hip' hop' =>
          rw [← hbuf] at hdata hip' ⊢
          exact ih (by omega) hop' hdata
  | case4 arrays ip op hge =>
      refine ⟨false, arrays, rfl, ?_⟩
      rw [List.drop_eq_nil_of_le (by omega), decompressLoop]
      exact .refused _ rfl

theorem unpacked_decompress
    (hpacked : packedLen ≤ 4096) (hplain : plainLen ≤ 4096) (arrays : Arrays) :
    ∃ result after, UnpackLZ4 packedLen plainLen arrays = some (result, after) ∧
      Unpacked arrays.buf plainLen result after
        (decompress (arrays.buf.bytes.take packedLen) plainLen) := by
  have hrun := unpackLoop_agrees hpacked hplain arrays (Nat.zero_le _) (Nat.zero_le _)
  rw [List.drop_zero, List.take_zero] at hrun
  rw [decompress, if_neg (by omega), Int.toNat_natCast]
  exact hrun

end Agree

/-- `UnpackLZ4` never leaves the arrays, returns 1 exactly for the inputs that `decompress`
accepts, with the same block in `buf%()`, and returns 0 for all others, with `buf%()` as it
was. -/
theorem unpackLZ4_eq_decompress
    (packedLen plainLen : Nat) (arrays : Arrays)
    (hpacked : packedLen ≤ 4096) (hplain : plainLen ≤ 4096) :
    ∃ result after, UnpackLZ4 packedLen plainLen arrays = some (result, after) ∧
      (∀ out, result = true ∧ after.buf.bytes.take plainLen = out ↔
        decompress (arrays.buf.bytes.take packedLen) plainLen = .ok out) ∧
      (result = false ∧ after.buf = arrays.buf ↔
        ∃ why, decompress (arrays.buf.bytes.take packedLen) plainLen =
          .error (ProtocolError why)) := by
  obtain ⟨result, after, hrun, hunpacked⟩ :=
    unpackLoop_agrees hpacked hplain arrays (Nat.zero_le _) (Nat.zero_le _)
  have hdecompress : decompress (arrays.buf.bytes.take packedLen) plainLen =
      decompressLoop plainLen (arrays.buf.bytes.take packedLen) [] := by
    rw [decompress, if_neg (by omega), Int.toNat_natCast]
  rw [List.drop_zero, List.take_zero] at hunpacked
  refine ⟨result, after, hrun, ?_⟩
  rw [hdecompress]
  generalize hloop : decompressLoop plainLen (arrays.buf.bytes.take packedLen) [] = r
    at hunpacked
  cases hunpacked with
  | @accepted after out hout =>
      refine ⟨fun out' => ?_, ?_⟩
      · rw [hout, Except.ok.injEq]
        exact and_iff_right rfl
      · simp
  | refused exc hbuf =>
      obtain ⟨why, rfl⟩ := decompressLoop_error hloop
      refine ⟨fun out' => by simp, ?_⟩
      exact ⟨fun _ => ⟨why, rfl⟩, fun _ => ⟨rfl, hbuf⟩⟩

/-- A literal, a match of eight bytes that overlaps what it writes, and a last literal. -/
theorem unpackLZ4_eq_decompress_overlap :
    ∃ (arrays after : Arrays), UnpackLZ4 6 10 arrays = some (true, after) ∧
      after.buf.bytes.take 10 = List.replicate 9 65 ++ [66] := by
  let packed : Bytes := [20, 65, 1, 0, 16, 66]
  let arrays : Arrays :=
    { buf := Area.ofBytes packed (by decide)
      unpack := Area.ofBytes [] (by decide) }
  obtain ⟨result, after, hrun, hok, _⟩ :=
    unpackLZ4_eq_decompress 6 10 arrays (by decide) (by decide)
  have hdecompress : decompress (arrays.buf.bytes.take 6) 10 =
      .ok (List.replicate 9 65 ++ [66]) := by
    rw [show arrays.buf.bytes.take 6 = packed from Area.take_ofBytes packed (by decide)]
    decide +kernel
  obtain ⟨rfl, htake⟩ := (hok _).mpr hdecompress
  exact ⟨arrays, after, hrun, htake⟩

end Pcutp.Picocalc
