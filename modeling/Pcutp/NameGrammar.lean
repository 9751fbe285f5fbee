import Pcutp.Client

/-!
# The grammar of save names

`sanitize_filename` is meant to accept a name when the part after its last
separator is one to 64 characters of the class `[A-Za-z0-9._-]` and not a dot
name.  Python's `$` also matches before a final newline, so a component of the
class with one newline after it is returned as well, newline included.

What is returned is a single component in any case, and the paths that
`_receive` builds from it stay directly inside the download directory.
-/

namespace Pcutp

section Defs

/-- The characters that a save name is made of. -/
def InClass (x : Char) : Prop :=
  ('A' ≤ x ∧ x ≤ 'Z') ∨ ('a' ≤ x ∧ x ≤ 'z') ∨ ('0' ≤ x ∧ x ≤ '9') ∨ x = '.' ∨ x = '_' ∨ x = '-'

/-- The save names. -/
structure SaveName (c : Line) : Prop where
  nonempty : 1 ≤ c.length
  short : c.length ≤ 64
  chars : ∀ x ∈ c, InClass x
  notDot : c ≠ ".".toList
  notDotDot : c ≠ "..".toList

/-- Slash and backslash. -/
def IsSeparator (x : Char) : Prop :=
  x = '/' ∨ x = '\\'

/-- `c` is the part of `name` after the last separator. -/
def LastPart (name c : Line) : Prop :=
  (∀ x ∈ c, ¬ IsSeparator x) ∧
    (name = c ∨ ∃ before sep, IsSeparator sep ∧ name = before ++ sep :: c)

/-- A component of the class, with one newline after it. -/
def EndsInNewline (c : Line) : Prop :=
  ∃ run, run ≠ [] ∧ (∀ x ∈ run, InClass x) ∧ run.length < 64 ∧ c = run ++ ['\n']

/-- A `PurePosixPath`. -/
structure PurePath where
  absolute : Bool
  parts : List Line

namespace PurePath

/-- The parts that a path text has: empty ones and dots are dropped. -/
def parse (text : Line) : List Line :=
  (text.splitOn '/').filter fun p => p ≠ [] ∧ p ≠ ".".toList

/-- `path / text`. -/
def join (path : PurePath) (text : Line) : PurePath :=
  if text.head? = some '/' then { absolute := true, parts := parse text }
  else { path with parts := path.parts ++ parse text }

/-- `path.name`. -/
def name (path : PurePath) : Line :=
  path.parts.getLastD []

/-- `path.with_name(name)`; `none` for a `ValueError`. -/
def with_name (path : PurePath) (name : Line) : Option PurePath :=
  if path.name = [] ∨ name.head? = some '/' ∨ name.getLast? = some '/' ∨
      (parse name).length ≠ 1 then
    none
  else
    some { path with parts := path.parts.dropLast ++ [name] }

/-- The path names an entry of the directory itself. -/
def DirectlyIn (dir path : PurePath) : Prop :=
  path.absolute = dir.absolute ∧ ∃ c, path.parts = dir.parts ++ [c] ∧ c ≠ [] ∧
    c ≠ ".".toList ∧ c ≠ "..".toList ∧ '/' ∉ c

/-- The paths that `_receive` and `_write_rmb` build for a file name. -/
def used (dir : PurePath) (filename : Line) : List (Option PurePath) :=
  let final := dir.join filename
  let checkpoint := final.with_name (checkpointName filename)
  [some final, final.with_name (partName filename), checkpoint,
    checkpoint.bind fun path => path.with_name (path.name ++ ".TMP".toList)]

end PurePath

/-- What `sanitize_filename` is to do with a name. -/
structure Sanitizes (name : Line) : Prop where
  accepts : ∀ c, LastPart name c → SaveName c → sanitize_filename name = .ok c
  refuses : ∀ c, LastPart name c → ¬ SaveName c →
    ∃ exc, sanitize_filename name = .error exc ∧ exc.cls = .file
  single : ∀ f, sanitize_filename name = .ok f →
    f ≠ [] ∧ f ≠ ".".toList ∧ f ≠ "..".toList ∧ ∀ x ∈ f, ¬ IsSeparator x
  again : ∀ f, sanitize_filename name = .ok f → sanitize_filename f = .ok f
  inside : ∀ f, sanitize_filename name = .ok f → ∀ dir : PurePath, ∀ path ∈ dir.used f,
    ∃ p, path = some p ∧ dir.DirectlyIn p

end Defs

section Parts

variable {name c : Line}

theorem inClass_iff {x : Char} :
    InClass x ↔ isNameChar x = true := by
  simp only [InClass, isNameChar, Char.isAlphanum]
  delta Char.isAlpha Char.isUpper Char.isLower
  simp only [Char.isDigit, Bool.or_eq_true, Bool.and_eq_true, decide_eq_true_eq, beq_iff_eq,
    ge_iff_le, Char.le_def]
  have hA : 'A'.val = 65 := rfl
  have hZ : 'Z'.val = 90 := rfl
  have ha : 'a'.val = 97 := rfl
  have hz : 'z'.val = 122 := rfl
  have h0 : '0'.val = 48 := rfl
  have h9 : '9'.val = 57 := rfl
  rw [hA, hZ, ha, hz, h0, h9]
  tauto

theorem LastPart.suffix (h : LastPart name c) : c <:+ name := by
  obtain ⟨_, rfl | ⟨before, sep, _, rfl⟩⟩ := h
  · exact List.suffix_rfl
  · exact ⟨before ++ [sep], by rw [List.append_assoc, List.singleton_append]⟩

/-- Every name has a last part. -/
theorem exists_lastPart (name : Line) :
    ∃ c, LastPart name c := by
  induction name with
  | nil => exact ⟨[], fun _ hx => absurd hx List.not_mem_nil, Or.inl rfl⟩
  | cons x xs ih =>
      obtain ⟨c, hfree, rfl | ⟨before, sep, hsep, rfl⟩⟩ := ih
      · by_cases hx : IsSeparator x
        · exact ⟨xs, hfree, Or.inr ⟨[], x, hx, rfl⟩⟩
        · refine ⟨x :: xs, fun y hy => ?_, Or.inl rfl⟩
          rcases List.mem_cons.mp hy with rfl | hy
          · exact hx
          · exact hfree y hy
      · exact ⟨c, hfree, Or.inr ⟨x :: before, sep, hsep, rfl⟩⟩

/-- A component is one piece of a split. -/
theorem splitOn_component
    (hfree : ∀ x ∈ c, ¬ IsSeparator x) :
    c.splitOn '/' = [c] :=
  List.splitOn_eq_singleton fun hmem => hfree '/' hmem (Or.inl rfl)

theorem lastComponent_eq
    (h : LastPart name c) :
    lastComponent name = c := by
  obtain ⟨hfree, hname⟩ := h
  have hmap : c.map (fun x => if x = '\\' then '/' else x) = c := by
    refine (List.map_congr_left fun x hx => ?_).trans (List.map_id _)
    exact if_neg fun heq => hfree x hx (Or.inr heq)
  rcases hname with rfl | ⟨before, sep, hsep, rfl⟩
  · rw [lastComponent, hmap, splitOn_component hfree]
    rfl
  · have hslash : (if sep = '\\' then '/' else sep) = '/' := by
      rcases hsep with rfl | rfl
      · rfl
      · rfl
    rw [lastComponent, List.map_append, List.map_cons, hmap, hslash,
      List.splitOn_append_cons_self, splitOn_component hfree]
    simp

/-- What `re.match` accepts: characters of the class, and perhaps one newline after them. -/
theorem allowedMatch_iff :
    allowedMatch c = true ↔
      c ≠ [] ∧ (∀ x ∈ c, InClass x) ∨
        ∃ run, run ≠ [] ∧ (∀ x ∈ run, InClass x) ∧ c = run ++ ['\n'] := by
  simp only [inClass_iff]
  have hparts := List.takeWhile_append_dropWhile (p := isNameChar) (l := c)
  have hrun : ∀ x ∈ c.takeWhile isNameChar, isNameChar x = true := fun x hx =>
    List.mem_takeWhile_imp hx
  simp only [allowedMatch, Bool.and_eq_true, Bool.not_eq_true', Bool.or_eq_true, beq_iff_eq]
  constructor
  · rintro ⟨hne, hrest⟩
    rw [List.isEmpty_eq_false_iff] at hne
    rcases hrest with hrest | hrest
    · rw [hrest, List.append_nil] at hparts
      rw [hparts] at hne hrun
      exact Or.inl ⟨hne, hrun⟩
    · rw [hrest] at hparts
      exact Or.inr ⟨_, hne, hrun, hparts.symm⟩
  · rintro (⟨hne, hall⟩ | ⟨run, hne, hall, rfl⟩)
    · rw [List.takeWhile_eq_self_iff.mpr hall, List.dropWhile_eq_nil_iff.mpr hall]
      exact ⟨List.isEmpty_eq_false_iff.mpr hne, Or.inl rfl⟩
    · rw [List.takeWhile_append_of_pos hall, List.dropWhile_append_of_pos hall]
      refine ⟨List.isEmpty_eq_false_iff.mpr ?_, Or.inr (by decide)⟩
      exact fun hnil => hne (List.append_eq_nil_iff.mp hnil).1

/-- What `sanitize_filename` returns. -/
theorem sanitize_ok_iff
    (h : LastPart name c) {f : Line} :
    sanitize_filename name = .ok f ↔
      f = c ∧ c ≠ [] ∧ c ≠ ".".toList ∧ c ≠ "..".toList ∧ c.length ≤ 64 ∧
        allowedMatch c = true := by
  unfold sanitize_filename
  rw [lastComponent_eq h]
  dsimp only
  split_ifs with hempty hdots hlong hmatch
  · have hnil : c = [] := by
      rw [← lastComponent_eq h, hempty]
      rfl
    simp [hnil]
  · simp only [false_iff]
    rintro ⟨_, hne, hdot, hdotdot, _⟩
    rcases hdots with hdots | hdots | hdots
    · exact hne hdots
    · exact hdot hdots
    · exact hdotdot hdots
  · simp only [false_iff]
    rintro ⟨_, _, _, _, hshort, _⟩
    exact absurd hshort (Nat.not_le.mpr hlong)
  · simp only [false_iff]
    rintro ⟨_, _, _, _, _, hallowed⟩
    rw [hallowed] at hmatch
    cases hmatch
  · simp only [not_or] at hdots
    rw [Except.ok.injEq]
    constructor
    · rintro rfl
      exact ⟨rfl, hdots.1, hdots.2.1, hdots.2.2, Nat.not_lt.mp hlong, by simpa using hmatch⟩
    · exact fun hf => hf.1.symm

/-- What `sanitize_filename` returns of a word is a safe name: the newline that its test lets
through is no part of a word. -/
theorem ofText_isSome
    {f : Line} (hword : IsWord name) (h : sanitize_filename name = .ok f) :
    (SafeName.ofText f).isSome = true := by
  obtain ⟨c, hlast⟩ := exists_lastPart name
  obtain ⟨rfl, hne, hdot, hdotdot, hshort, hallowed⟩ := (sanitize_ok_iff hlast).mp h
  rcases allowedMatch_iff.mp hallowed with ⟨_, hclass⟩ | ⟨run, _, _, rfl⟩
  · have hall : f.all isNameChar = true :=
      List.all_eq_true.mpr fun x hx => inClass_iff.mp (hclass x hx)
    rw [SafeName.ofText, dif_pos ⟨hall, hne, hshort, hdot, hdotdot⟩]
    rfl
  · have hmem : '\n' ∈ name :=
      hlast.suffix.subset (List.mem_append_right _ (List.mem_singleton_self _))
    exact absurd (hword.2 _ hmem) (by decide)

/-- Whatever is refused is refused with a FileError. -/
theorem cls_of_refused
    {exc : PcutpError} (h : sanitize_filename name = .error exc) :
    exc.cls = .file := by
  unfold sanitize_filename at h
  dsimp only at h
  split_ifs at h <;> cases h <;> rfl

end Parts

namespace PurePath

variable {dir path : PurePath} {f g : Line}

theorem parse_component
    (hne : f ≠ []) (hdot : f ≠ ".".toList) (hslash : '/' ∉ f) :
    parse f = [f] := by
  rw [parse, List.splitOn_eq_singleton hslash]
  exact List.filter_cons_of_pos (decide_eq_true ⟨hne, hdot⟩)

theorem join_component
    (hne : f ≠ []) (hdot : f ≠ ".".toList) (hslash : '/' ∉ f) :
    dir.join f = { dir with parts := dir.parts ++ [f] } := by
  rw [join, if_neg fun h => hslash (List.mem_of_head? h), parse_component hne hdot hslash]

theorem with_name_component
    (hname : path.name ≠ []) (hne : g ≠ []) (hdot : g ≠ ".".toList) (hslash : '/' ∉ g) :
    path.with_name g = some { path with parts := path.parts.dropLast ++ [g] } := by
  rw [with_name, if_neg]
  rintro (h | h | h | h)
  · exact hname h
  · exact hslash (List.mem_of_head? h)
  · exact hslash (List.mem_of_getLast? h)
  · rw [parse_component hne hdot hslash] at h
    exact h rfl

/-- A name with a suffix is no dot name. -/
theorem suffixed
    {suffix : Line} (hlong : 2 < suffix.length) (hslash : '/' ∉ f) (hsuffix : '/' ∉ suffix) :
    f ++ suffix ≠ [] ∧ f ++ suffix ≠ ".".toList ∧ f ++ suffix ≠ "..".toList ∧
      '/' ∉ f ++ suffix := by
  have hlength : 2 < (f ++ suffix).length := by
    rw [List.length_append]
    omega
  refine ⟨fun h => ?_, fun h => ?_, fun h => ?_, fun h => ?_⟩
  · rw [h] at hlength
    exact absurd hlength (by decide)
  · rw [h] at hlength
    exact absurd hlength (by decide)
  · rw [h] at hlength
    exact absurd hlength (by decide)
  · exact (List.mem_append.mp h).elim hslash hsuffix

/-- What a component names is directly inside, and so is what it is renamed to. -/
theorem used_inside
    (hne : f ≠ []) (hdot : f ≠ ".".toList) (hdotdot : f ≠ "..".toList) (hslash : '/' ∉ f) :
    ∀ path ∈ dir.used f, ∃ p, path = some p ∧ dir.DirectlyIn p := by
  have hpart : f ++ ".PART".toList ≠ [] ∧ f ++ ".PART".toList ≠ ".".toList ∧
      f ++ ".PART".toList ≠ "..".toList ∧ '/' ∉ f ++ ".PART".toList :=
    suffixed (by decide) hslash (by decide)
  have hcheckpoint : f ++ ".PCUTP".toList ≠ [] ∧ f ++ ".PCUTP".toList ≠ ".".toList ∧
      f ++ ".PCUTP".toList ≠ "..".toList ∧ '/' ∉ f ++ ".PCUTP".toList :=
    suffixed (by decide) hslash (by decide)
  have htemporary : (f ++ ".PCUTP".toList) ++ ".TMP".toList ≠ [] ∧
      (f ++ ".PCUTP".toList) ++ ".TMP".toList ≠ ".".toList ∧
      (f ++ ".PCUTP".toList) ++ ".TMP".toList ≠ "..".toList ∧
      '/' ∉ (f ++ ".PCUTP".toList) ++ ".TMP".toList :=
    suffixed (by decide) hcheckpoint.2.2.2 (by decide)
  have hname : ∀ g : Line, ({ dir with parts := dir.parts ++ [g] } : PurePath).name = g :=
    fun g => by simp [name]
  have hrename : ∀ {h g : Line}, h ≠ [] → g ≠ [] ∧ g ≠ ".".toList ∧ g ≠ "..".toList ∧ '/' ∉ g →
      ({ dir with parts := dir.parts ++ [h] } : PurePath).with_name g =
        some { dir with parts := dir.parts ++ [g] } := by
    intro h g hh hg
    rw [with_name_component (by rw [hname]; exact hh) hg.1 hg.2.1 hg.2.2.2]
    simp
  have hin : ∀ {g : Line}, g ≠ [] ∧ g ≠ ".".toList ∧ g ≠ "..".toList ∧ '/' ∉ g →
      dir.DirectlyIn { dir with parts := dir.parts ++ [g] } := fun {g} hg =>
    ⟨rfl, g, rfl, hg⟩
  intro path hpath
  simp only [used, join_component hne hdot hslash, List.mem_cons, List.not_mem_nil,
    or_false] at hpath
  rcases hpath with rfl | rfl | rfl | rfl
  · exact ⟨_, rfl, hin ⟨hne, hdot, hdotdot, hslash⟩⟩
  · exact ⟨_, hrename hne hpart, hin hpart⟩
  · exact ⟨_, hrename hne hcheckpoint, hin hcheckpoint⟩
  · refine ⟨_, ?_, hin htemporary⟩
    rw [checkpointName, hrename hne hcheckpoint, Option.bind_some, hname]
    exact hrename hcheckpoint.1 htemporary

end PurePath

section Result

theorem not_inClass_newline :
    ¬ InClass '\n' := by
  rw [inClass_iff]
  decide

/-- The grammar is met exactly when the last part does not end in a newline that follows a
name. -/
theorem sanitizes_iff (name : Line) :
    Sanitizes name ↔ ∀ c, LastPart name c → ¬ EndsInNewline c := by
  constructor
  · rintro h c hlast ⟨run, hne, hall, hshort, rfl⟩
    have hnot : ¬ SaveName (run ++ ['\n']) := fun hsave =>
      not_inClass_newline
        (hsave.chars '\n' (List.mem_append_right _ (List.mem_singleton_self _)))
    obtain ⟨exc, hrefused, _⟩ := h.refuses _ hlast hnot
    have hlength : (run ++ ['\n']).length = run.length + 1 := by
      simp
    have hlast' : ∀ d : Line, run ++ ['\n'] = d → d.getLast? = some '\n' := by
      rintro d rfl
      simp
    have hnil : run ++ ['\n'] ≠ [] := fun h => nomatch hlast' _ h
    have hdot : run ++ ['\n'] ≠ ".".toList := fun h => nomatch hlast' _ h
    have hdotdot : run ++ ['\n'] ≠ "..".toList := fun h => nomatch hlast' _ h
    have hok : sanitize_filename name = .ok (run ++ ['\n']) :=
      (sanitize_ok_iff hlast).mpr ⟨rfl, hnil, hdot, hdotdot, by omega,
        allowedMatch_iff.mpr (Or.inr ⟨run, hne, hall, rfl⟩)⟩
    cases hok.symm.trans hrefused
  · intro h
    obtain ⟨c, hlast⟩ := exists_lastPart name
    -- What is returned meets the grammar.
    have hreturned : ∀ f, sanitize_filename name = .ok f → f = c ∧ SaveName c := by
      intro f hf
      obtain ⟨rfl, hne, hdot, hdotdot, hshort, hallowed⟩ := (sanitize_ok_iff hlast).mp hf
      refine ⟨rfl, List.length_pos_iff.mpr hne, hshort, ?_, hdot, hdotdot⟩
      rcases allowedMatch_iff.mp hallowed with ⟨_, hall⟩ | ⟨run, hrun, hall, heq⟩
      · exact hall
      · refine absurd ⟨run, hrun, hall, ?_, heq⟩ (h _ hlast)
        have hlength := congrArg List.length heq
        rw [List.length_append, List.length_singleton] at hlength
        omega
    have haccept : ∀ {name' : Line}, LastPart name' c → SaveName c →
        sanitize_filename name' = .ok c := fun hlast' hsave =>
      (sanitize_ok_iff hlast').mpr ⟨rfl, List.length_pos_iff.mp hsave.nonempty, hsave.notDot,
        hsave.notDotDot, hsave.short,
        allowedMatch_iff.mpr (Or.inl ⟨List.length_pos_iff.mp hsave.nonempty, hsave.chars⟩)⟩
    have hsame : ∀ c', LastPart name c' → c' = c := fun c' hlast' =>
      (lastComponent_eq hlast').symm.trans (lastComponent_eq hlast)
    refine ⟨fun c' hlast' hsave => ?_, fun c' hlast' hnot => ?_, fun f hf => ?_, fun f hf => ?_,
      fun f hf dir => ?_⟩
    · obtain rfl := hsame c' hlast'
      exact haccept hlast hsave
    · obtain rfl := hsame c' hlast'
      cases hresult : sanitize_filename name with
      | ok f => exact absurd (hreturned f hresult).2 hnot
      | error exc => exact ⟨exc, rfl, cls_of_refused hresult⟩
    · obtain ⟨rfl, hsave⟩ := hreturned f hf
      exact ⟨List.length_pos_iff.mp hsave.nonempty, hsave.notDot, hsave.notDotDot, hlast.1⟩
    · obtain ⟨rfl, hsave⟩ := hreturned f hf
      exact haccept ⟨hlast.1, Or.inl rfl⟩ hsave
    · obtain ⟨rfl, hsave⟩ := hreturned f hf
      exact PurePath.used_inside (List.length_pos_iff.mp hsave.nonempty) hsave.notDot
        hsave.notDotDot fun hmem => hlast.1 '/' hmem (Or.inl rfl)

/-- The name of one letter and a newline is returned as it is. -/
theorem sanitize_keeps_newline :
    ¬ Sanitizes ['A', '\n'] := by
  intro h
  have hlast : LastPart ['A', '\n'] ['A', '\n'] := by
    refine ⟨fun x hx hsep => ?_, Or.inl rfl⟩
    simp only [List.mem_cons, List.not_mem_nil, or_false] at hx
    rcases hx with rfl | rfl <;> rcases hsep with hsep | hsep <;> cases hsep
  have hnot : ¬ SaveName ['A', '\n'] := fun hsave =>
    not_inClass_newline (hsave.chars '\n' (by simp))
  obtain ⟨exc, hrefused, _⟩ := h.refuses _ hlast hnot
  have hok : sanitize_filename ['A', '\n'] = .ok ['A', '\n'] := by
    decide +kernel
  cases hok.symm.trans hrefused

end Result

end Pcutp
