import Pcutp.Picocalc.Between

/-!
# The state of an idle PicoCalc

HERE and RMB report `seq` and `rmbState$`.  Every way back to a prompt leaves
`seq` at 0 and `rmbState$` at NONE or DONE, but one: a file that is answered
with FAIL FILECRC keeps the state of its transfer, with `seq` at the number of
its blocks.
-/

namespace Pcutp.Picocalc

open Machine (Always)

section Defs

/-- The program is in `InputAlive$`. -/
def atPrompt : Place → Bool
  | .prompt _ _ => true
  | _ => false

instance (g : Globals) : Decidable (Idle g) :=
  decidable_of_iff (g.seq = 0 ∧ (g.rmbState = .none ∨ g.rmbState = .done))
    ⟨fun h => ⟨h.1, h.2⟩, fun h => ⟨h.1, h.2⟩⟩

end Defs

section Rejected

variable (nums : Numbers)

/-- FAIL FILECRC leads back to the prompt, with `seq` as it was. -/
theorem afterData_of_rejects
    {g : Globals} {s : Line} (h : Rejects nums g s) (now : Nat) :
    atPrompt (afterData nums g now s).place = true ∧ (afterData nums g now s).g.seq = g.seq := by
  obtain ⟨herr, hclose, parts, hparts, hfirst, hseq, hmismatch⟩ := h
  have hdone : parts[0] = "DONE".toList := hfirst
  have hrst : ¬ (parts[0] = "RST".toList ∧ parts[1] = "0".toList ∧ parts[2] ≠ []) := by
    rw [hdone]
    exact fun hrst => absurd hrst.1 (by decide)
  unfold afterData
  rw [if_neg (Bool.eq_false_iff.mp herr), if_neg hclose, hparts]
  dsimp only
  rw [if_neg hrst, if_pos hdone, if_neg (not_not.mpr hseq)]
  dsimp only [finalCrc]
  have hwrong : g.running ≠ g.fcrc ∨ g.running ≠ HexVal nums parts[1] ∨ g.rcvd ≠ g.size :=
    hmismatch
  rw [if_pos hwrong]
  exact ⟨rfl, rfl⟩

/-- A file that is rejected leaves the prompt with the number of its blocks. -/
theorem not_idle_of_rejects
    {st st' : State} {tick : Tick} {out : List Effect} (hgood : Good st.g st.place)
    (h : step nums st tick = some (st', out)) (hrejects : RejectsFile nums st tick) :
    atPrompt st'.place = true ∧ ¬ Idle st'.g := by
  obtain ⟨s, hreturns, hs⟩ := hrejects
  obtain ⟨l, queue', hplace, hturn⟩ := recvTurn_of_returns nums hreturns
  have hs' : Rejects nums { st.g with lastRx := tick.now } s := hs
  obtain ⟨hprompt, hseq⟩ := afterData_of_rejects nums hs' tick.now
  rw [hplace] at hgood
  unfold step at h
  rw [hplace] at h
  dsimp only at h
  rw [hturn] at h
  cases h
  refine ⟨hprompt, fun hidle => ?_⟩
  obtain ⟨_, _, parts, _, _, hblocks, _⟩ := hs
  have hone : 1 ≤ st.g.seq := le_of_le_of_eq hgood hblocks.symm
  have hzero : st.g.seq = 0 := hseq.symm.trans hidle.seq
  omega

end Rejected

section Result

variable (nums : Numbers)

/-- The program starts to dial with the variables as dialing needs them. -/
theorem good_start (now : Nat) :
    Good (start now).1.g (start now).1.place :=
  ⟨rfl, Or.inl rfl⟩

/-- The prompts show an idle state exactly as long as no file is rejected. -/
theorem idle_iff (now : Nat) (ticks : List Tick) :
    Always (step nums) (fun _ _ st' _ => atPrompt st'.place = true → Idle st'.g)
        (start now).1 ticks ↔
      Always (step nums) (fun st tick _ _ => ¬ RejectsFile nums st tick) (start now).1 ticks := by
  refine Machine.always_iff_of_inv (fun st => Good st.g st.place)
    (fun st tick st' out hgood h => ?_)
    (fun st tick st' out hgood h haccepted => good_step nums hgood h haccepted) (good_start now)
  constructor
  · intro hidle hrejects
    obtain ⟨hprompt, hnot⟩ := not_idle_of_rejects nums hgood h hrejects
    exact hnot (hidle hprompt)
  · intro haccepted hprompt
    have hgood' := good_step nums hgood h haccepted
    cases hplace : st'.place with
    | prompt p l =>
        rw [hplace] at hgood'
        exact hgood'
    | _ =>
        rw [hplace] at hprompt
        cases hprompt

/-- A session in which the one byte of a file does not have the checksum that META and DONE
give. -/
def rejectedSession : List Tick :=
  bytesIn 0 "HELLO PCUTP/2 HRU? MAXBLK=4096" ++ keysIn 0 "http://a" ++ keysIn 0 "f" ++
    bytesIn 0 "META f 1 1 1 00000000" ++ bytesIn 0 "DATA 0 1 D3D99E8B" ++
    [{ now := 0, arrived := [65], key := none }] ++ bytesIn 0 "DONE 00000000"

/-- The prompt after it shows a transfer that is under way. -/
theorem not_idle_rejectedSession :
    ¬ Always (step integers) (fun _ _ st' _ => atPrompt st'.place = true → Idle st'.g)
      (start 0).1 rejectedSession := by
  decide +kernel

end Result

end Pcutp.Picocalc
