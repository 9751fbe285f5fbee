import Mathlib.Algebra.Group.Nat.Defs
import Mathlib.Data.Nat.Basic
import Pcutp.Lib.Words

/-!
# PCUTP control text

The Python side handles control lines as `str`.  A line is modelled by its list
of characters.  This module defines the string operations the protocol code
uses (`split`, `isdecimal`, `int`, `upper`, the f-string formats `{n}` and
`{v:08X}`) and shows that what the formats print is read back unchanged.

Lines read from the wire are decoded as ASCII with `errors="replace"`, so the
decimal digits that occur in them are `0` to `9`.
-/

namespace Pcutp

/-- A control line without its terminating LF. -/
abbrev Line := List Char

instance lawfulBEqLine : LawfulBEq Line := inferInstance

/-- `str.isspace` on one character: the separators of `str.split()`. -/
def isSpace (c : Char) : Bool :=
  let n := c.toNat
  (9 ≤ n && n ≤ 13) || (28 ≤ n && n ≤ 32) || n == 0x85 || n == 0xA0 || n == 0x1680 ||
    (0x2000 ≤ n && n ≤ 0x200A) || n == 0x2028 || n == 0x2029 || n == 0x202F ||
    n == 0x205F || n == 0x3000

/-- `line.split()`. -/
def split (line : Line) : List Line :=
  Words.words isSpace line

/-- `" ".join(parts)`. -/
def join (parts : List Line) : Line :=
  Words.unwords ' ' parts

/-- `w.isdecimal()`. -/
def isdecimal (w : Line) : Bool :=
  !w.isEmpty && w.all Char.isDigit

/-- `int(w)`, for a `w` that `isdecimal` accepts. -/
def int (w : Line) : Nat :=
  Nat.ofDigitChars 10 w 0

/-- The f-string format `{n}` of a non-negative integer. -/
def dec (n : Nat) : Line :=
  Nat.toDigits 10 n

/-- `w.upper()`. -/
def upper (w : Line) : Line :=
  w.map Char.toUpper

/-- One upper-case hexadecimal digit. -/
def hexDigit (d : Nat) : Char :=
  if d < 10 then Char.ofNat (48 + d) else Char.ofNat (55 + d)

/-- The f-string format `{v:08X}` of a 32-bit value. -/
def hex8 (v : BitVec 32) : Line :=
  [7, 6, 5, 4, 3, 2, 1, 0].map (fun i => hexDigit (v.toNat / 16 ^ i % 16))

/-- A word of a control line, as `split` returns it. -/
abbrev IsWord (w : Line) : Prop :=
  Words.IsWord isSpace w

/-- Words can be recognised by evaluation. -/
theorem isWord_of_check
    {w : Line}
    (h : (!w.isEmpty && w.all (fun c => !isSpace c)) = true) :
    IsWord w := by
  simp only [Bool.and_eq_true, Bool.not_eq_true', List.isEmpty_eq_false_iff, List.all_eq_true] at h
  exact h

/-- Splitting a joined line gives back its words. -/
theorem split_join
    {parts : List Line}
    (hparts : ∀ w ∈ parts, IsWord w) :
    split (join parts) = parts :=
  Words.words_unwords (by decide) hparts

/-- The first word of a joined line. -/
theorem split_join_first
    {w : Line} {ws : List Line} (hw : IsWord w) :
    (split (join (w :: ws))).take 1 = [w] := by
  cases ws with
  | nil =>
      have h : split (join [w]) = [w] := Words.words_single hw
      rw [h]
      rfl
  | cons v ws =>
      have h : split (join (w :: v :: ws)) = w :: split (join (v :: ws)) :=
        Words.words_cons (by decide) hw _
      rw [h]
      rfl

theorem isDigit_of_mem_dec
    {n : Nat} {c : Char}
    (hc : c ∈ dec n) :
    c.isDigit = true :=
  Nat.isDigit_of_mem_toDigits (by decide) (by decide) hc

theorem dec_ne_nil (n : Nat) :
    dec n ≠ [] :=
  Nat.toDigits_ne_nil

@[simp] theorem isdecimal_dec (n : Nat) :
    isdecimal (dec n) = true := by
  have hall : (dec n).all Char.isDigit = true :=
    List.all_eq_true.mpr (fun _ hc => isDigit_of_mem_dec hc)
  simp [isdecimal, hall, dec_ne_nil]

@[simp] theorem int_dec (n : Nat) :
    int (dec n) = n :=
  Nat.ofDigitChars_ten_toDigits

theorem dec_injective {m n : Nat} (h : dec m = dec n) :
    m = n := by
  simpa using congrArg int h

@[simp] theorem dec_inj {m n : Nat} :
    dec m = dec n ↔ m = n :=
  ⟨dec_injective, fun h => h ▸ rfl⟩

theorem isSpace_of_isDigit
    {c : Char}
    (hc : c.isDigit = true) :
    isSpace c = false := by
  have hrange : 48 ≤ c.toNat ∧ c.toNat ≤ 57 := by
    simpa [Char.isDigit, UInt32.le_iff_toNat_le] using hc
  simp only [isSpace, Bool.or_eq_false_iff, Bool.and_eq_false_iff, decide_eq_false_iff_not,
    beq_eq_false_iff_ne]
  omega

theorem isWord_dec (n : Nat) :
    IsWord (dec n) :=
  ⟨dec_ne_nil n, fun _ hc => isSpace_of_isDigit (isDigit_of_mem_dec hc)⟩

theorem hexDigit_cases
    {d : Nat} (hd : d < 16) :
    hexDigit d ∈ "0123456789ABCDEF".toList := by
  have hall : ∀ d < 16, hexDigit d ∈ "0123456789ABCDEF".toList := by
    decide
  exact hall d hd

@[simp] theorem length_hex8 (v : BitVec 32) :
    (hex8 v).length = 8 := by
  simp [hex8]

theorem mem_hex8
    {v : BitVec 32} {c : Char}
    (hc : c ∈ hex8 v) :
    c ∈ "0123456789ABCDEF".toList := by
  obtain ⟨i, _, rfl⟩ := List.mem_map.mp hc
  exact hexDigit_cases (Nat.mod_lt _ (by decide))

theorem isWord_hex8 (v : BitVec 32) :
    IsWord (hex8 v) := by
  have hdigits : ∀ c ∈ "0123456789ABCDEF".toList, isSpace c = false := by
    simp [isSpace]
  refine ⟨?_, fun c hc => hdigits c (mem_hex8 hc)⟩
  intro hnil
  simpa [hnil] using length_hex8 v

/-- A printed checksum is already upper case. -/
@[simp] theorem upper_hex8 (v : BitVec 32) :
    upper (hex8 v) = hex8 v := by
  have hdigits : ∀ c ∈ "0123456789ABCDEF".toList, c.toUpper = c := by
    simp
  calc
    upper (hex8 v) = (hex8 v).map id :=
      List.map_congr_left (fun c hc => hdigits c (mem_hex8 hc))
    _ = hex8 v := List.map_id _

end Pcutp
