import Mathlib.Data.List.Induction
import Mathlib.Order.Nat

/-!
# Times that keep a distance

Something that happens no sooner than `gap` after it last happened, and only at
some given times, happens most often when it never waits.  `taken` chooses from
a list of times in that way, and `Spaced.length_le` says that no other choice
takes more of them.
-/

namespace Spacing

variable {gap due now : Nat} {times chosen : List Nat}

/-- Times of which the first is due, and each other `gap` after the one before it. -/
def Spaced (gap : Nat) : Nat → List Nat → Prop
  | _, [] => True
  | due, t :: times => due ≤ t ∧ Spaced gap (t + gap) times

instance decidableSpaced (gap : Nat) : ∀ due times, Decidable (Spaced gap due times)
  | _, [] => .isTrue trivial
  | due, t :: times =>
      have := decidableSpaced gap (t + gap) times
      inferInstanceAs (Decidable (due ≤ t ∧ Spaced gap (t + gap) times))

/-- The times that are taken when each that is due is. -/
def taken (gap : Nat) : Nat → List Nat → List Nat
  | _, [] => []
  | due, t :: times => if due ≤ t then t :: taken gap (t + gap) times else taken gap due times

/-- When the next one is due after them. -/
def nextDue (gap : Nat) : Nat → List Nat → Nat
  | due, [] => due
  | due, t :: times => if due ≤ t then nextDue gap (t + gap) times else nextDue gap due times

theorem Spaced.mono
    {due' : Nat} (h : Spaced gap due chosen) (hle : due' ≤ due) :
    Spaced gap due' chosen := by
  cases chosen with
  | nil => trivial
  | cons t chosen => exact ⟨hle.trans h.1, h.2⟩

theorem spaced_taken (gap due : Nat) (times : List Nat) :
    Spaced gap due (taken gap due times) := by
  induction times generalizing due with
  | nil => trivial
  | cons t times ih =>
      rw [taken]
      split
      · rename_i hdue
        exact ⟨hdue, ih (t + gap)⟩
      · exact ih due

theorem taken_sublist (gap due : Nat) (times : List Nat) :
    (taken gap due times).Sublist times := by
  induction times generalizing due with
  | nil => exact List.Sublist.refl _
  | cons t times ih =>
      rw [taken]
      split
      · exact (ih (t + gap)).cons_cons t
      · exact (ih due).cons t

/-- No choice takes more. -/
theorem Spaced.length_le
    (h : Spaced gap due chosen) (hsub : chosen.Sublist times)
    (hsorted : times.Pairwise (· ≤ ·)) :
    chosen.length ≤ (taken gap due times).length := by
  induction times generalizing due chosen with
  | nil =>
      rw [List.sublist_nil.mp hsub]
      exact Nat.zero_le _
  | cons t times ih =>
      obtain ⟨hfirst, hsorted⟩ := List.pairwise_cons.mp hsorted
      cases chosen with
      | nil => exact Nat.zero_le _
      | cons x chosen =>
          obtain ⟨hx, hrest⟩ := h
          have htail : chosen.Sublist times := by
            cases hsub with
            | cons _ hsub => exact (List.sublist_cons_self x chosen).trans hsub
            | cons_cons _ hsub => exact hsub
          rw [taken]
          split
          · have hlater : t ≤ x := by
              rcases List.mem_cons.mp (hsub.subset List.mem_cons_self) with rfl | hmem
              · exact Nat.le_refl x
              · exact hfirst x hmem
            rw [List.length_cons, List.length_cons]
            exact Nat.succ_le_succ (ih (hrest.mono (Nat.add_le_add_right hlater gap)) htail hsorted)
          · -- The first of them is not the one that is passed over.
            rename_i hearly
            cases hsub with
            | cons _ hsub => exact ih ⟨hx, hrest⟩ hsub hsorted
            | cons_cons _ hsub => exact absurd hx hearly

theorem taken_concat (gap due : Nat) (times : List Nat) (now : Nat) :
    taken gap due (times ++ [now]) =
      taken gap due times ++ if nextDue gap due times ≤ now then [now] else [] := by
  induction times generalizing due with
  | nil => rfl
  | cons t times ih =>
      rw [List.cons_append, taken, taken, nextDue]
      split
      · rw [ih, List.cons_append]
      · exact ih due

theorem nextDue_concat (gap due : Nat) (times : List Nat) (now : Nat) :
    nextDue gap due (times ++ [now]) =
      if nextDue gap due times ≤ now then now + gap else nextDue gap due times := by
  induction times generalizing due with
  | nil => rfl
  | cons t times ih =>
      rw [List.cons_append, nextDue, nextDue]
      split
      · exact ih (t + gap)
      · exact ih due

/-- Something that was taken is one `gap` before the next. -/
theorem nextDue_of_taken
    (h : taken gap due times ≠ []) :
    ∃ t ∈ times, nextDue gap due times = t + gap := by
  induction times using List.reverseRecOn with
  | nil => exact absurd rfl h
  | append_singleton times now ih =>
      rw [nextDue_concat]
      rw [taken_concat] at h
      split
      · exact ⟨now, by simp, rfl⟩
      · rename_i hearly
        rw [if_neg hearly, List.append_nil] at h
        obtain ⟨t, hmem, hnext⟩ := ih h
        exact ⟨t, List.mem_append_left _ hmem, hnext⟩

end Spacing
