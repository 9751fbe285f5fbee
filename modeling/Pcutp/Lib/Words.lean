import Mathlib.Data.List.Basic
import Mathlib.Data.List.TakeWhile

/-!
# Words of a line

A line is a list of characters, some of which are separators.  `words` cuts a
line at its separators and drops the empty pieces; `unwords` joins words with
one separator.  The two are inverse on lists of proper words: non-empty, with
no separator inside.

Nothing here depends on the character type, so the same lemmas serve text and
byte strings.
-/

namespace Words

universe u

variable {α : Type u}

/-- The maximal separator-free non-empty pieces of a line, in order. -/
def words (sep : α → Bool) (line : List α) : List (List α) :=
  (line.splitOnP sep).filter (fun w => !w.isEmpty)

/-- Words joined by one separator character. -/
def unwords (c : α) : List (List α) → List α
  | [] => []
  | [w] => w
  | w :: v :: ws => w ++ c :: unwords c (v :: ws)

/-- A word is non-empty and contains no separator. -/
def IsWord (sep : α → Bool) (w : List α) : Prop :=
  w ≠ [] ∧ ∀ x ∈ w, sep x = false

theorem forall_mem_splitOnP
    {sep : α → Bool} {line w : List α} (hw : w ∈ line.splitOnP sep) :
    ∀ x ∈ w, sep x = false := by
  induction line generalizing w with
  | nil =>
      rw [List.splitOnP_nil, List.mem_singleton] at hw
      subst hw
      exact fun x hx => absurd hx List.not_mem_nil
  | cons c line ih =>
      rw [List.splitOnP_cons_eq_if_modifyHead] at hw
      split_ifs at hw with hc
      · rcases List.mem_cons.mp hw with rfl | hw
        · exact fun x hx => absurd hx List.not_mem_nil
        · exact ih hw
      · obtain ⟨v, vs, hsplit⟩ := List.exists_cons_of_ne_nil (List.splitOnP_ne_nil sep line)
        rw [hsplit] at ih
        rw [hsplit, List.modifyHead_cons] at hw
        rcases List.mem_cons.mp hw with rfl | hw
        · intro x hx
          rcases List.mem_cons.mp hx with rfl | hx
          · simpa using hc
          · exact ih List.mem_cons_self x hx
        · exact ih (List.mem_cons_of_mem v hw)

/-- The pieces of a line are words. -/
theorem isWord_of_mem_words
    {sep : α → Bool} {line w : List α} (hw : w ∈ words sep line) :
    IsWord sep w := by
  obtain ⟨hmem, hne⟩ := List.mem_filter.mp hw
  exact ⟨by simpa using hne, forall_mem_splitOnP hmem⟩

theorem words_single
    {sep : α → Bool} {w : List α}
    (hw : IsWord sep w) :
    words sep w = [w] := by
  have hsplit : w.splitOnP sep = [w] :=
    List.splitOnP_eq_singleton (fun x hx => by simp [hw.2 x hx])
  rw [words, hsplit]
  simp [hw.1]

theorem words_cons
    {sep : α → Bool} {c : α} (hc : sep c = true)
    {w : List α} (hw : IsWord sep w)
    (line : List α) :
    words sep (w ++ c :: line) = w :: words sep line := by
  have hsplit :
      (w ++ c :: line).splitOnP sep = w :: line.splitOnP sep :=
    List.splitOnP_append_cons_of_forall_mem
      (fun x hx => by simp [hw.2 x hx]) c hc line
  rw [words, hsplit]
  simp [words, hw.1]

/-- What follows a word up to the next separator belongs to it. -/
theorem words_append
    {sep : α → Bool} {w : List α} (hw : IsWord sep w) (rest : List α) :
    ∃ others, words sep (w ++ rest) = (w ++ rest.takeWhile fun x => !sep x) :: others := by
  have hword : IsWord sep (w ++ rest.takeWhile fun x => !sep x) := by
    refine ⟨by simp [hw.1], fun x hx => ?_⟩
    rcases List.mem_append.mp hx with hx | hx
    · exact hw.2 x hx
    · simpa using List.mem_takeWhile_imp hx
  have hparts : w ++ rest =
      (w ++ rest.takeWhile fun x => !sep x) ++ rest.dropWhile fun x => !sep x := by
    rw [List.append_assoc, List.takeWhile_append_dropWhile]
  rw [hparts]
  cases hdrop : rest.dropWhile fun x => !sep x with
  | nil => exact ⟨[], by rw [List.append_nil, words_single hword]⟩
  | cons c after =>
      have hc : sep c = true := by
        have hhead := List.head?_dropWhile_not (fun x => !sep x) rest
        rw [hdrop] at hhead
        simpa using hhead
      exact ⟨_, words_cons hc hword after⟩

/-- Cutting a joined line gives back the words it was joined from. -/
theorem words_unwords
    {sep : α → Bool} {c : α} (hc : sep c = true) :
    ∀ {ws : List (List α)},
      (∀ w ∈ ws, IsWord sep w) →
      words sep (unwords c ws) = ws
  | [], _ => by simp [unwords, words]
  | [w], hws => by
      simpa [unwords] using words_single (hws w (by simp))
  | w :: v :: ws, hws => by
      have htail : ∀ x ∈ v :: ws, IsWord sep x :=
        fun x hx => hws x (List.mem_cons_of_mem _ hx)
      rw [unwords, words_cons hc (hws w (by simp)), words_unwords hc htail]

/-- A joined line begins with its first words joined. -/
theorem unwords_begins (c : α) :
    ∀ (ws vs : List (List α)), unwords c ws <+: unwords c (ws ++ vs)
  | [], _ => List.nil_prefix
  | [_], [] => List.prefix_rfl
  | [_], _ :: _ => List.prefix_append _ _
  | w :: v :: ws, vs => by
      have htail : c :: unwords c (v :: ws) <+: c :: unwords c (v :: ws ++ vs) :=
        List.cons_prefix_cons.mpr ⟨rfl, unwords_begins c (v :: ws) vs⟩
      exact (List.prefix_append_right_inj w).mpr htail

/-- A joined line contains only characters of its words and the separator. -/
theorem mem_unwords
    {c x : α} :
    ∀ {ws : List (List α)},
      x ∈ unwords c ws → x = c ∨ ∃ w ∈ ws, x ∈ w
  | [], hx => by simp [unwords] at hx
  | [w], hx => Or.inr ⟨w, by simp, hx⟩
  | w :: v :: ws, hx => by
      rw [unwords, List.mem_append, List.mem_cons] at hx
      rcases hx with hx | rfl | hx
      · exact Or.inr ⟨w, by simp, hx⟩
      · exact Or.inl rfl
      · rcases mem_unwords hx with rfl | ⟨w', hw', hx'⟩
        · exact Or.inl rfl
        · exact Or.inr ⟨w', List.mem_cons_of_mem _ hw', hx'⟩

end Words
