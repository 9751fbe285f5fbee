import Mathlib.Data.List.TakeWhile
import Pcutp.Errors

/-!
# Save-name sanitisation

`sanitize_filename` keeps the last path component of a peer-supplied name and
accepts it when it is short and made of safe characters.

The source tests the characters with `re.match(r"^[A-Za-z0-9._-]+$", c)`.  In
Python `$` also matches just before a final newline, and the model keeps that.
-/

namespace Pcutp

/-- The character class `[A-Za-z0-9._-]`. -/
def isNameChar (c : Char) : Bool :=
  c.isAlphanum || c == '.' || c == '_' || c == '-'

/-- `_ALLOWED.match(candidate)`. -/
def allowedMatch (candidate : Line) : Bool :=
  let run := candidate.takeWhile isNameChar
  let rest := candidate.dropWhile isNameChar
  !run.isEmpty && (rest == [] || rest == ['\n'])

/-- `name.replace("\\", "/").split("/")[-1]`. -/
def lastComponent (name : Line) : Line :=
  ((name.map (fun c => if c = '\\' then '/' else c)).splitOn '/').getLastD []

/-- `sanitize_filename(name)`. -/
def sanitize_filename (name : Line) : Except PcutpError Line :=
  if name = [] then
    .error (FileError "empty filename")
  else
    let candidate := lastComponent name
    if candidate = [] ∨ candidate = ".".toList ∨ candidate = "..".toList then
      .error (FileError "unsafe filename")
    else if candidate.length > Const.MAX_FILENAME_LEN then
      .error (FileError "filename too long")
    else if !allowedMatch candidate then
      .error (FileError "illegal characters in filename")
    else
      .ok candidate

/-- A name of the grammar that `sanitize_filename` documents. -/
structure SafeName where
  text : Line
  chars : ∀ c ∈ text, isNameChar c = true
  nonempty : text ≠ []
  short : text.length ≤ Const.MAX_FILENAME_LEN
  notDot : text ≠ ".".toList
  notDotDot : text ≠ "..".toList

namespace SafeName

theorem isNameChar_ne
    {c : Char}
    (hc : isNameChar c = true) :
    c ≠ '/' ∧ c ≠ '\\' ∧ isSpace c = false := by
  have hrange :
      (48 ≤ c.toNat ∧ c.toNat ≤ 57) ∨ (65 ≤ c.toNat ∧ c.toNat ≤ 90) ∨
        (97 ≤ c.toNat ∧ c.toNat ≤ 122) ∨ c.toNat = 46 ∨ c.toNat = 95 ∨ c.toNat = 45 := by
    simp only [isNameChar, Char.isAlphanum] at hc
    delta Char.isAlpha Char.isUpper Char.isLower at hc
    simp only [Char.isDigit, Bool.or_eq_true, Bool.and_eq_true, decide_eq_true_eq, beq_iff_eq,
      UInt32.le_iff_toNat_le, ge_iff_le] at hc
    rcases hc with ((((h | h) | h) | rfl) | rfl) | rfl
    · exact Or.inr (Or.inl h)
    · exact Or.inr (Or.inr (Or.inl h))
    · exact Or.inl h
    · exact Or.inr (Or.inr (Or.inr (Or.inl rfl)))
    · exact Or.inr (Or.inr (Or.inr (Or.inr (Or.inl rfl))))
    · exact Or.inr (Or.inr (Or.inr (Or.inr (Or.inr rfl))))
  have hspace : isSpace c = false := by
    simp only [isSpace, Bool.or_eq_false_iff, Bool.and_eq_false_iff, decide_eq_false_iff_not,
      beq_eq_false_iff_ne]
    omega
  refine ⟨?_, ?_, hspace⟩
  · rintro rfl
    simp at hrange
  · rintro rfl
    simp at hrange

theorem isWord (f : SafeName) :
    IsWord f.text :=
  ⟨f.nonempty, fun c hc => (isNameChar_ne (f.chars c hc)).2.2⟩

theorem lastComponent_text (f : SafeName) :
    lastComponent f.text = f.text := by
  have hmap : f.text.map (fun c => if c = '\\' then '/' else c) = f.text := by
    calc
      f.text.map (fun c => if c = '\\' then '/' else c) = f.text.map id :=
        List.map_congr_left (fun c hc => by
          simp [(isNameChar_ne (f.chars c hc)).2.1])
      _ = f.text := List.map_id _
  have hsplit : f.text.splitOn '/' = [f.text] :=
    List.splitOnP_eq_singleton (fun c hc => by
      simpa using (isNameChar_ne (f.chars c hc)).1)
  simp [lastComponent, hmap, hsplit]

/-- A safe name is accepted as it is. -/
theorem sanitize_text (f : SafeName) :
    sanitize_filename f.text = .ok f.text := by
  have hmatch : allowedMatch f.text = true := by
    have hrun : f.text.takeWhile isNameChar = f.text :=
      List.takeWhile_eq_self_iff.mpr f.chars
    have hrest : f.text.dropWhile isNameChar = [] :=
      List.dropWhile_eq_nil_iff.mpr f.chars
    simp [allowedMatch, hrun, hrest, f.nonempty]
  have hshort : ¬ f.text.length > Const.MAX_FILENAME_LEN :=
    Nat.not_lt.mpr f.short
  simp only [sanitize_filename, f.lastComponent_text, f.nonempty, f.notDot, f.notDotDot,
    hshort, hmatch]
  simp

end SafeName

section Sanitized

/-- What `sanitize_filename` accepts of a word, with the facts that make it safe. -/
def SafeName.ofText (text : Line) : Option SafeName :=
  if h : text.all isNameChar = true ∧ text ≠ [] ∧ text.length ≤ Const.MAX_FILENAME_LEN ∧
      text ≠ ".".toList ∧ text ≠ "..".toList then
    some
      { text
        chars := List.all_eq_true.mp h.1
        nonempty := h.2.1
        short := h.2.2.1
        notDot := h.2.2.2.1
        notDotDot := h.2.2.2.2 }
  else
    none

end Sanitized

end Pcutp
