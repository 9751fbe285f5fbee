import Pcutp.Picocalc.Between

/-!
# The fields of a line

`Split` writes one field after another to an array of nine.  A line of the
protocol has at most nine fields, but the reader lets any line of at most 250
characters through.  The program stops with an index error exactly when a line
that is passed to `Split` has more than eight spaces.
-/

namespace Pcutp.Picocalc

open Machine (Always)

section Split

/-- `Split` stays in the array as long as the spaces do. -/
theorem splitLoop_isSome_iff
    (line : Line) (k : Nat) (cur : Line) (parts : Vector Line 9) :
    (splitLoop line k cur parts).isSome = true ↔ k + line.count ' ' ≤ 8 := by
  induction line generalizing k cur parts with
  | nil =>
      rw [splitLoop, List.count_nil, Nat.add_zero]
      split_ifs with hk
      · exact iff_of_true rfl (by omega)
      · exact iff_of_false (by simp) (by omega)
  | cons c line ih =>
      rw [splitLoop]
      by_cases hc : c = ' '
      · subst hc
        rw [if_pos rfl, List.count_cons_self]
        split_ifs with hk
        · rw [ih]
          omega
        · exact iff_of_false (by simp) (by omega)
      · rw [if_neg hc, List.count_cons_of_ne hc, ih]

/-- A line of nine fields at most is split. -/
theorem split_eq_none_iff
    (line : Line) (parts : Vector Line 9) :
    Split line parts = none ↔ 8 < line.count ' ' := by
  rw [← Option.not_isSome_iff_eq_none, Split, splitLoop_isSome_iff, Nat.zero_add, Nat.not_le]

end Split

section Sites

variable (nums : Numbers)

/-- No line of more than eight spaces is passed to `Split` at this tick. -/
def Fits (st : State) (tick : Tick) : Prop :=
  ∀ wait s, Returns nums st tick wait s → isSplit wait s = true → s.count ' ' ≤ 8

/-- A proposal starts with HELLO or OHRU. -/
theorem not_err_of_isProposal
    {s : Line} (h : isProposal s = true) :
    begins "ERR" s = false := by
  rw [isProposal, Bool.or_eq_true] at h
  rcases h with h | h
  · obtain ⟨rest, rfl⟩ := List.isPrefixOf_iff_prefix.mp h
    rfl
  · obtain ⟨rest, rfl⟩ := List.isPrefixOf_iff_prefix.mp h
    rfl

/-- A line that `Split` has no room for stops the program. -/
theorem afterLine_of_long
    {s : Line} {wait : Wait} (hsplit : isSplit wait s = true) (hlong : 8 < s.count ' ')
    (g : Globals) (now : Nat) :
    (afterLine nums g now s wait).place = .stopped .indexError := by
  have hnone := (split_eq_none_iff s g.parts).mpr hlong
  cases wait with
  | dial helloTry =>
      have hproposal : isProposal s = true := hsplit
      have herr : ¬ begins "ERR" s = true := Bool.eq_false_iff.mp (not_err_of_isProposal hproposal)
      rw [afterLine, afterDial, if_pos hproposal, answered, if_neg herr, if_pos hproposal, hnone]
      rfl
  | who => cases hsplit
  | answer =>
      rw [isSplit, Bool.and_eq_true, Bool.not_eq_true', decide_eq_true_eq] at hsplit
      rw [afterLine, afterAnswer, if_neg (Bool.eq_false_iff.mp hsplit.1), if_neg hsplit.2,
        afterMeta, hnone]
      rfl
  | fetched =>
      rw [isSplit, Bool.not_eq_true'] at hsplit
      dsimp only [afterLine, afterFetched]
      rw [if_neg (Bool.eq_false_iff.mp hsplit), afterMeta, hnone]
      rfl
  | data =>
      rw [isSplit, Bool.and_eq_true, Bool.not_eq_true', decide_eq_true_eq] at hsplit
      rw [afterLine, afterData, if_neg (Bool.eq_false_iff.mp hsplit.1), if_neg hsplit.2, hnone]
      rfl
  | bye k => cases hsplit
  | close t0 => cases hsplit
  | linger t0 => cases hsplit

/-- The program stops with an index error exactly at a line that does not fit. -/
theorem no_indexError_iff
    {st st' : State} {tick : Tick} {out : List Effect} (h : step nums st tick = some (st', out)) :
    st'.place ≠ .stopped .indexError ↔ Fits nums st tick := by
  constructor
  · intro hplace wait s hreturns hsplit
    by_contra hlong
    obtain ⟨l, queue', hwait, hturn⟩ := recvTurn_of_returns nums hreturns
    unfold step at h
    rw [hwait] at h
    dsimp only at h
    rw [hturn] at h
    cases h
    exact hplace (afterLine_of_long nums hsplit (Nat.not_le.mp hlong) _ tick.now)
  · intro hfits
    cases stepped_of_step nums h with
    | stays hplace hsame => exact hplace.ne_stopped
    | @line g' wait l s queue' hplace hsame hs =>
        have hnext : Follows True False g' (afterLine nums g' tick.now s wait) := by
          refine follows_afterLine nums tick.now l False.elim s (fun _ hsplit hnone => ?_)
            False.elim
          have hlong := (split_eq_none_iff s g'.parts).mp hnone
          rcases hs with rfl | hs
          · cases hlong
          · exact absurd (hfits wait s hs hsplit) (Nat.not_le.mpr hlong)
        exact hnext.noError trivial
    | @prompt g' p l txt queue' hplace hsame =>
        have hnext : Follows True False g' (afterPrompt g' tick.now txt p) :=
          follows_afterPrompt tick.now False.elim txt p
        exact hnext.noError trivial
    | @block g' frame l queue' hplace hsame =>
        have hnext : Follows True False g' (afterRaw g' tick.now frame) :=
          follows_afterRaw tick.now False.elim frame
        exact hnext.noError trivial
    | @late g' frame l queue' hplace hsame =>
        have hnext : Follows True False g' (rawTimedOut g' tick.now) :=
          follows_rawTimedOut tick.now False.elim
        exact hnext.noError trivial
    | stopped hhow => exact fun hplace => hhow (Place.stopped.inj hplace)

/-- No run stops with an index error exactly when every line that is passed to `Split` has at
most eight spaces. -/
theorem no_indexError_run_iff (now : Nat) (ticks : List Tick) :
    Always (step nums) (fun _ _ st' _ => st'.place ≠ .stopped .indexError) (start now).1 ticks ↔
      Always (step nums) (fun st tick _ _ => Fits nums st tick) (start now).1 ticks := by
  refine Machine.always_iff_of_inv (fun _ => True) (fun st tick st' out _ h => ?_)
    (fun _ _ _ _ _ _ _ => trivial) trivial
  exact no_indexError_iff nums h

/-- A session in which noise of ten fields comes where DATA is expected. -/
def noisySession : List Tick :=
  bytesIn 0 "HELLO PCUTP/2 HRU? MAXBLK=4096" ++ keysIn 0 "http://a" ++ keysIn 0 "f" ++
    bytesIn 0 "META f 1 1 1 D3D99E8B" ++ bytesIn 0 "0 1 2 3 4 5 6 7 8 9"

/-- It stops with an index error. -/
theorem not_fits_noisySession :
    ¬ Always (step integers) (fun _ _ st' _ => st'.place ≠ .stopped .indexError)
      (start 0).1 noisySession := by
  decide +kernel

end Sites

end Pcutp.Picocalc
