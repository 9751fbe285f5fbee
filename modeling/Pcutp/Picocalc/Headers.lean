import Pcutp.Link
import Pcutp.Picocalc.WholeLines

/-!
# The fields of the protocol as the firmware reads them

`Split` finds the words of a joined line at their places, `Val` reads decimal
and hexadecimal fields, and `RecvLine$` keeps a printed line of at most 250
characters as it was sent.  What the documentation of the firmware says of `Val`
is `ReadsNumbers`; the rest is proved of the program.
-/

namespace Pcutp.Picocalc

section Split

theorem splitLoop_word
    {w : Line} (hw : ' ' ∉ w) (line : Line) {k : Nat} (hk : k < 9) (cur : Line)
    (parts : Vector Line 9) :
    splitLoop (w ++ ' ' :: line) k cur parts =
      splitLoop line (k + 1) [] (parts.set k (cur ++ w)) := by
  induction w generalizing cur with
  | nil => rw [List.nil_append, splitLoop, if_pos rfl, dif_pos hk, List.append_nil]
  | cons c w ih =>
      rw [List.mem_cons, not_or] at hw
      rw [List.cons_append, splitLoop, if_neg (Ne.symm hw.1), ih hw.2, List.append_assoc]
      rfl

theorem splitLoop_last
    {w : Line} (hw : ' ' ∉ w) {k : Nat} (hk : k < 9) (cur : Line) (parts : Vector Line 9) :
    splitLoop w k cur parts =
      some (Vector.ofFn fun i => if i.val ≤ k then (parts.set k (cur ++ w)).get i else []) := by
  induction w generalizing cur with
  | nil =>
      rw [splitLoop, dif_pos hk, List.append_nil]
      rfl
  | cons c w ih =>
      rw [List.mem_cons, not_or] at hw
      rw [splitLoop, if_neg (Ne.symm hw.1), ih hw.2, List.append_assoc]
      rfl

/-- From its k-th field on, `Split` fills the array with the words that are left. -/
theorem splitLoop_join
    {w : Line} {ws : List Line} (hws : ∀ v ∈ w :: ws, ' ' ∉ v) {k : Nat} (hk : k + ws.length < 9)
    (parts : Vector Line 9) :
    ∃ v, splitLoop (join (w :: ws)) k [] parts = some v ∧
      ∀ (i : Nat) (hi : i < 9), v[i] = if i < k then parts[i] else word (w :: ws) (i - k) := by
  induction ws generalizing w k parts with
  | nil =>
      have hjoin : join [w] = w := rfl
      have hk' : k < 9 := hk
      rw [hjoin, splitLoop_last (hws w List.mem_cons_self) hk']
      refine ⟨_, rfl, fun i hi => ?_⟩
      rw [Vector.getElem_ofFn]
      rcases Nat.lt_trichotomy i k with hlt | rfl | hgt
      · rw [if_pos hlt, if_pos (Nat.le_of_lt hlt)]
        exact Vector.getElem_set_ne _ _ (Nat.ne_of_gt hlt)
      · rw [if_pos le_rfl, if_neg (Nat.lt_irrefl i), Nat.sub_self]
        exact Vector.getElem_set_self _
      · obtain ⟨j, rfl⟩ := Nat.exists_eq_add_of_lt hgt
        have hafter : ¬ k + j + 1 ≤ k := by omega
        have hfield : ¬ k + j + 1 < k := by omega
        rw [if_neg hafter, if_neg hfield, show k + j + 1 - k = j + 1 from by omega]
        rfl
  | cons v ws ih =>
      have hjoin : join (w :: v :: ws) = w ++ ' ' :: join (v :: ws) := rfl
      rw [List.length_cons] at hk
      rw [hjoin, splitLoop_word (hws w List.mem_cons_self) _ (by omega)]
      obtain ⟨u, hu, hfields⟩ := ih (fun x hx => hws x (List.mem_cons_of_mem _ hx))
        (k := k + 1) (by omega) (parts.set k ([] ++ w) (by omega))
      refine ⟨u, hu, fun i hi => ?_⟩
      rw [hfields i hi]
      rcases Nat.lt_trichotomy i k with hlt | rfl | hgt
      · rw [if_pos (by omega), if_pos hlt]
        exact Vector.getElem_set_ne _ _ (Nat.ne_of_gt hlt)
      · rw [if_pos (by omega), if_neg (Nat.lt_irrefl i), Nat.sub_self]
        exact Vector.getElem_set_self _
      · rw [if_neg (by omega), if_neg (by omega), show i - k = i - (k + 1) + 1 from by omega,
          word_succ]

/-- `Split` on a joined line. -/
theorem split_words
    {w : Line} {ws : List Line} (hws : ∀ v ∈ w :: ws, ' ' ∉ v) (hlen : ws.length < 9)
    (parts : Vector Line 9) :
    ∃ v, Split (join (w :: ws)) parts = some v ∧
      ∀ (i : Nat) (hi : i < 9), v[i] = word (w :: ws) i := by
  obtain ⟨v, hv, hfields⟩ := splitLoop_join hws (k := 0) (by omega) parts
  refine ⟨v, hv, fun i hi => ?_⟩
  rw [hfields i hi, if_neg (Nat.not_lt_zero i), Nat.sub_zero]

theorem no_blank_of_isWord
    {w : Line} (hw : IsWord w) :
    ' ' ∉ w := fun hmem =>
  absurd (hw.2 ' ' hmem) (by decide)

end Split

section Numbers

/-- `Val` reads integers that a number of the firmware holds exactly, and eight hexadecimal
digits after `&H`. -/
structure ReadsNumbers (nums : Numbers) : Prop where
  decimal : ∀ w, isdecimal w = true → int w < 2 ^ 53 → nums.Val w = int w
  hexadecimal : ∀ w v, parse_hex w = some v → nums.Val ("&H".toList ++ w) = v

/-- The value of an upper-case digit, printed, is the digit. -/
theorem hexDigit_idxOf
    {c : Char} (hc : c ∈ "0123456789abcdefABCDEF".toList) :
    "0123456789ABCDEF".toList.idxOf c.toUpper < 16 ∧
      hexDigit ("0123456789ABCDEF".toList.idxOf c.toUpper) = c.toUpper := by
  have hall : ("0123456789abcdefABCDEF".toList.all fun c =>
      decide ("0123456789ABCDEF".toList.idxOf c.toUpper < 16 ∧
        hexDigit ("0123456789ABCDEF".toList.idxOf c.toUpper) = c.toUpper)) = true := by
    decide
  exact of_decide_eq_true (List.all_eq_true.mp hall c hc)

/-- Digits that are read one after another. -/
theorem foldl_digits
    {ds : List Nat} (hds : ∀ d ∈ ds, d < 16) :
    ds.foldl (fun acc d => acc * 16 + d) 0 < 16 ^ ds.length ∧
      ∀ i < ds.length,
        ds.reverse[i]? = some (ds.foldl (fun acc d => acc * 16 + d) 0 / 16 ^ i % 16) := by
  induction ds using List.reverseRecOn with
  | nil => exact ⟨by decide, fun i hi => absurd hi (Nat.not_lt_zero i)⟩
  | append_singleton ds d ih =>
      obtain ⟨hlt, hdigits⟩ := ih fun x hx => hds x (List.mem_append_left _ hx)
      have hd : d < 16 := hds d (List.mem_append_right _ List.mem_cons_self)
      rw [List.foldl_concat]
      refine ⟨?_, fun i hi => ?_⟩
      · rw [List.length_append, List.length_singleton, Nat.pow_succ]
        omega
      · rw [List.length_append, List.length_singleton] at hi
        rw [List.reverse_append, List.reverse_singleton, List.singleton_append]
        cases i with
        | zero =>
            rw [Nat.pow_zero, Nat.div_one, List.getElem?_cons_zero, Option.some_inj]
            omega
        | succ i =>
            have hdiv : (ds.foldl (fun acc d => acc * 16 + d) 0 * 16 + d) / 16 =
                ds.foldl (fun acc d => acc * 16 + d) 0 := by
              omega
            rw [Nat.pow_succ', ← Nat.div_div_eq_div_mul, hdiv, List.getElem?_cons_succ]
            exact hdigits i (by omega)

/-- What is read from eight digits is printed as the same digits in upper case. -/
theorem to_hex_of_parse_hex
    {w : Line} {v : Nat} (h : parse_hex w = some v) :
    v < 2 ^ 32 ∧ to_hex (BitVec.ofNat 32 v) = upper w := by
  rw [parse_hex] at h
  split_ifs at h with hbad
  obtain ⟨hlen, hdigits⟩ := not_or.mp hbad
  rw [not_not] at hlen
  have hmem : ∀ c ∈ w, c ∈ "0123456789abcdefABCDEF".toList := by
    intro c hc
    by_contra hnot
    exact hdigits (List.any_eq_true.mpr ⟨c, hc, decide_eq_true hnot⟩)
  generalize hds : w.map (fun c => "0123456789ABCDEF".toList.idxOf c.toUpper) = ds
  have hread : ds.foldl (fun acc d => acc * 16 + d) 0 = v := by
    rw [← hds, List.foldl_map]
    exact Option.some.inj h
  have hds_lt : ∀ d ∈ ds, d < 16 := by
    intro d hd
    rw [← hds] at hd
    obtain ⟨c, hc, rfl⟩ := List.mem_map.mp hd
    exact (hexDigit_idxOf (hmem c hc)).1
  have hprinted : ds.map hexDigit = upper w := by
    rw [← hds, List.map_map]
    exact List.map_congr_left fun c hc => (hexDigit_idxOf (hmem c hc)).2
  have hlen' : ds.length = 8 := by
    rw [← hds, List.length_map, hlen]
  obtain ⟨hlt, hplaces⟩ := foldl_digits hds_lt
  rw [hread, hlen', show 16 ^ 8 = 2 ^ 32 from rfl] at hlt
  refine ⟨hlt, ?_⟩
  rw [← hprinted, to_hex, hex8, BitVec.toNat_ofNat, Nat.mod_eq_of_lt hlt]
  refine List.ext_getElem (by simp [hlen']) fun i hi _ => ?_
  have hi : i < 8 := hi
  have hindex : ∀ i : Fin 8, [7, 6, 5, 4, 3, 2, 1, 0].get i = 7 - i.val := by
    decide
  have hplace : [7, 6, 5, 4, 3, 2, 1, 0][i] = 7 - i := hindex ⟨i, hi⟩
  have hdigit := hplaces (7 - i) (by omega)
  have hback : 8 - 1 - (7 - i) = i := by omega
  rw [hread, List.getElem?_reverse (by omega), hlen', hback, List.getElem?_eq_getElem (by omega),
    Option.some_inj] at hdigit
  rw [List.getElem_map, List.getElem_map, hplace, hdigit]

theorem hexDigit_inj
    {d e : Nat} (hd : d < 16) (he : e < 16) (h : hexDigit d = hexDigit e) :
    d = e := by
  have hall : ∀ d < 16, ∀ e < 16, hexDigit d = hexDigit e → d = e := by
    decide
  exact hall d hd e he h

theorem eq_of_digits
    {n a b : Nat} (ha : a < 16 ^ n) (hb : b < 16 ^ n)
    (h : ∀ i < n, a / 16 ^ i % 16 = b / 16 ^ i % 16) :
    a = b := by
  induction n generalizing a b with
  | zero =>
      rw [Nat.pow_zero] at ha hb
      omega
  | succ n ih =>
      rw [Nat.pow_succ] at ha hb
      have hrest : a / 16 = b / 16 := by
        refine ih (by omega) (by omega) fun i hi => ?_
        have hdigit := h (i + 1) (by omega)
        rwa [Nat.pow_succ', ← Nat.div_div_eq_div_mul, ← Nat.div_div_eq_div_mul] at hdigit
      have hlast := h 0 (Nat.succ_pos n)
      rw [Nat.pow_zero, Nat.div_one, Nat.div_one] at hlast
      omega

theorem to_hex_inj
    {a b : BitVec 32} :
    to_hex a = to_hex b ↔ a = b := by
  refine ⟨fun h => ?_, fun h => h ▸ rfl⟩
  have hmap : [7, 6, 5, 4, 3, 2, 1, 0].map (fun i => hexDigit (a.toNat / 16 ^ i % 16)) =
      [7, 6, 5, 4, 3, 2, 1, 0].map (fun i => hexDigit (b.toNat / 16 ^ i % 16)) := h
  have hall : ∀ i < 8, i ∈ [7, 6, 5, 4, 3, 2, 1, 0] := by decide
  refine BitVec.toNat_inj.mp (eq_of_digits (n := 8) a.isLt b.isLt fun i hi => ?_)
  exact hexDigit_inj (Nat.mod_lt _ (by decide)) (Nat.mod_lt _ (by decide))
    (List.map_inj_left.mp hmap i (hall i hi))

theorem setWidth_inj
    {a b : BitVec 32} :
    a.setWidth 64 = b.setWidth 64 ↔ a = b := by
  refine ⟨fun h => ?_, fun h => h ▸ rfl⟩
  have hback := congrArg (BitVec.setWidth 32) h
  rwa [BitVec.setWidth_setWidth_of_le _ (by decide), BitVec.setWidth_setWidth_of_le _ (by decide),
    BitVec.setWidth_eq, BitVec.setWidth_eq] at hback

theorem hex8_setWidth (v : BitVec 32) :
    Hex8 (v.setWidth 64) = to_hex v := by
  rw [Hex8, BitVec.setWidth_setWidth_of_le _ (by decide), BitVec.setWidth_eq]
  rfl

theorem hexVal_eq
    {nums : Numbers} (hnums : ReadsNumbers nums) {w : Line} {v : Nat} (h : parse_hex w = some v) :
    HexVal nums w = (BitVec.ofNat 32 v).setWidth 64 := by
  have hv := (to_hex_of_parse_hex h).1
  have hmask : (0xFFFFFFFF#64).toNat = 2 ^ 32 - 1 := by decide
  rw [HexVal, hnums.hexadecimal w v h, BitVec.ofInt_natCast, ← BitVec.toNat_inj, BitVec.toNat_and,
    hmask, Nat.and_two_pow_sub_one_eq_mod, BitVec.toNat_setWidth, BitVec.toNat_ofNat,
    BitVec.toNat_ofNat]
  omega

theorem takeWhile_of_isdecimal
    {w : Line} (h : isdecimal w = true) :
    w.takeWhile Char.isDigit = w := by
  rw [isdecimal, Bool.and_eq_true, List.all_eq_true] at h
  exact List.takeWhile_eq_self_iff.mpr h.2

theorem digitVal_eq
    {c : Char} (hc : c ∈ "0123456789abcdefABCDEF".toList) :
    digitVal c = "0123456789ABCDEF".toList.idxOf c.toUpper := by
  have hall : ("0123456789abcdefABCDEF".toList.all fun c =>
      decide (digitVal c = "0123456789ABCDEF".toList.idxOf c.toUpper)) = true := by
    decide
  exact of_decide_eq_true (List.all_eq_true.mp hall c hc)

/-- A firmware that does so. -/
theorem readsNumbers_integers :
    ReadsNumbers integers := by
  constructor
  · intro w hw _
    have htake := takeWhile_of_isdecimal hw
    cases w with
    | nil => cases hw
    | cons c w =>
        rw [isdecimal, Bool.and_eq_true, List.all_cons, Bool.and_eq_true] at hw
        have hdigit := hw.2.1
        have hval : integers.Val (c :: w) = (int ((c :: w).takeWhile Char.isDigit) : Int) := by
          dsimp only [integers]
          split
          · rename_i heq
            cases heq
            cases hdigit
          · rename_i heq
            cases heq
            cases hdigit
          · rfl
        rw [hval, htake]
  · intro w v h
    rw [parse_hex] at h
    split_ifs at h with hbad
    have hmem : ∀ c ∈ w, c ∈ "0123456789abcdefABCDEF".toList := by
      intro c hc
      by_contra hnot
      exact hbad (Or.inr (List.any_eq_true.mpr ⟨c, hc, decide_eq_true hnot⟩))
    have hval : integers.Val ("&H".toList ++ w) =
        (w.foldl (fun v c => 16 * v + digitVal c) 0 : Nat) := rfl
    rw [hval, ← Option.some.inj h]
    refine congrArg Nat.cast (List.foldl_ext _ _ _ fun acc c hc => ?_)
    rw [digitVal_eq (hmem c hc), Nat.mul_comm]

end Numbers

section Text

theorem map_chr_encode
    {line : Line} (h : ∀ c ∈ line, c.toNat < 128) :
    (encodeAscii line).map Chr = line := by
  rw [encodeAscii, List.map_map]
  refine (List.map_congr_left fun c hc => ?_).trans (List.map_id _)
  change Char.ofNat (UInt8.ofNat c.toNat).toNat = c
  rw [toNat_encodeChar (h c hc), Char.ofNat_toNat]

/-- A short line stands in the buffer as it was sent. -/
theorem kept_encode
    {line : Line} (hascii : ∀ c ∈ line, c.toNat < 128) (hcr : '\r' ∉ line)
    (hshort : line.length ≤ 250) :
    kept (text (encodeAscii line)) = line := by
  have htext : text (encodeAscii line) = line := by
    rw [text, map_chr_encode hascii, List.filter_eq_self]
    intro c hc
    rw [decide_eq_true_eq]
    rintro rfl
    exact hcr hc
  rw [htext, kept_of_short hshort]

end Text

end Pcutp.Picocalc
