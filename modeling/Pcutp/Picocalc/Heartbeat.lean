import Pcutp.Picocalc.IdleState

/-!
# The heartbeat of an idle PicoCalc

`InputAlive$` sends BEACON P when no earlier one is waiting for its MARK and
four seconds have passed since.  Only `MarkerU` ends that waiting, on a MARK U P
with the same bit; the time in `beaconMarkAt` is not looked at.  So the program
can send a beacon at a prompt exactly when each beacon of the session so far has
been marked: one lost MARK silences the heartbeat for the rest of the session.
-/

namespace Pcutp.Picocalc

section Defs

variable (nums : Numbers)

/-- The bit of the MARK U P that a reader completes at a tick, if one does. -/
def heardMark (st : State) (tick : Tick) : Option Int :=
  match st.place with
  | .line _ l => markHeard nums (st.queue ++ tick.arrived) l.s
  | .prompt _ l => markHeard nums (st.queue ++ tick.arrived) l.u
  | _ => none

/-- `beaconPending` once the byte of a tick is read. -/
def pendingAfter (st : State) (tick : Tick) : Int :=
  if heardMark nums st tick = some st.g.beaconPending then -1 else st.g.beaconPending

/-- The bit of the BEACON P that an effect sends. -/
def beaconBit? : Effect → Option Int
  | .send line =>
      if line = "BEACON P 0".toList then some 0
      else if line = "BEACON P 1".toList then some 1
      else none
  | _ => none

/-- The state after some ticks. -/
def reach : State → List Tick → State
  | st, [] => st
  | st, tick :: ticks =>
      match step nums st tick with
      | some (st', _) => reach st' ticks
      | none => st

/-- The beacon that has been sent in the course of some ticks and not been marked since, where
`b` was the one before them. -/
def unmarked (b : Option Int) : State → List Tick → Option Int
  | _, [] => b
  | st, tick :: ticks =>
      match step nums st tick with
      | some (st', out) =>
          unmarked
            ((out.findSome? beaconBit?).or (if heardMark nums st tick = b then none else b))
            st' ticks
      | none => b

/-- At a prompt there is always a time to come at which the next turn of the loop sends a
beacon. -/
def Beats (st : State) : Prop :=
  atPrompt st.place = true → ∀ since, ∃ now st' out b, since ≤ now ∧
    step nums st { now, arrived := [], key := none } = some (st', out) ∧
      .send ("BEACON P ".toList ++ Str b) ∈ out

/-- The byte that is next at COM2 completes CLOSE. -/
def hearsClose (st : State) : Prop :=
  ∃ p l, st.place = .prompt p l ∧ st.queue.head? = some 10 ∧ inputHears nums l.u = .returned

end Defs

section Pulses

variable (nums : Numbers)

/-- What a turn does to the beacons: nothing but what a MARK does, or it sends one. -/
inductive Pulse (st : State) (tick : Tick) (g' : Globals) (out : List Effect) : Prop
  | quietly (hquiet : quiet out = true) (hbit : g'.beaconBit = st.g.beaconBit)
      (hpending : g'.beaconPending = pendingAfter nums st tick)
  | sends (before after : List Effect)
      (hout : out = before ++ .send ("BEACON P ".toList ++ Str st.g.beaconBit) :: after)
      (hbefore : quiet before = true) (hafter : quiet after = true)
      (hnone : pendingAfter nums st tick < 0) (hbit : g'.beaconBit = 1 - st.g.beaconBit)
      (hpending : g'.beaconPending = st.g.beaconBit)

theorem quiet_append
    {out out' : List Effect} (h : quiet out = true) (h' : quiet out' = true) :
    quiet (out ++ out') = true := by
  rw [quiet, List.all_append, Bool.and_eq_true]
  exact ⟨h, h'⟩

variable {nums} {st : State} {tick : Tick} {g' : Globals} {out : List Effect}

/-- What follows a read adds nothing to it. -/
theorem Pulse.follows
    {next : Next} (h : Pulse nums st tick g' out) (hnext : Follows False False g' next) :
    Pulse nums st tick next.g (out ++ next.out) := by
  cases h with
  | quietly hquiet hbit hpending =>
      exact .quietly (quiet_append hquiet hnext.quiet) (hnext.beacons.beaconBit.trans hbit)
        (hnext.beacons.beaconPending.trans hpending)
  | sends before after hout hbefore hafter hnone hbit hpending =>
      refine .sends before (after ++ next.out) ?_ hbefore (quiet_append hafter hnext.quiet) hnone
        (hnext.beacons.beaconBit.trans hbit) (hnext.beacons.beaconPending.trans hpending)
      rw [hout, List.append_assoc, List.cons_append]

/-- Reading a line is quiet. -/
theorem pulse_of_heeds
    {s : Line} (h : Heeds nums st.g (st.queue ++ tick.arrived) s g' out)
    (hmark : heardMark nums st tick = markHeard nums (st.queue ++ tick.arrived) s) :
    Pulse nums st tick g' out := by
  refine .quietly h.quiet h.beaconBit ?_
  rw [pendingAfter, hmark]
  exact h.beaconPending

/-- The beacon of `InputAlive$`. -/
theorem pulse_of_beacon
    {s : Line} {g₁ : Globals} (h : Heeds nums st.g (st.queue ++ tick.arrived) s g₁ out)
    (hmark : heardMark nums st tick = markHeard nums (st.queue ++ tick.arrived) s) (now : Nat) :
    Pulse nums st tick (beacon g₁ now).1 (out ++ (beacon g₁ now).2) := by
  have hpending : g₁.beaconPending = pendingAfter nums st tick := by
    rw [pendingAfter, hmark]
    exact h.beaconPending
  rw [beacon]
  split_ifs with hdue
  · exact .sends out [] (by rw [h.beaconBit]) h.quiet rfl (hpending ▸ hdue.1)
      (congrArg (1 - ·) h.beaconBit) h.beaconBit
  · rw [List.append_nil]
    exact .quietly h.quiet h.beaconBit hpending

/-- Reading a block leaves the beacons alone. -/
theorem pulse_of_same
    (hmark : heardMark nums st tick = none) (h : SameBeacons st.g g') :
    Pulse nums st tick g' [] := by
  refine .quietly rfl h.beaconBit ?_
  rw [pendingAfter, hmark]
  exact h.beaconPending

theorem pulse_of_step
    {st' : State} (h : step nums st tick = some (st', out)) :
    Pulse nums st tick st'.g out := by
  unfold step at h
  dsimp only at h
  cases hplace : st.place with
  | stopped how =>
      rw [hplace] at h
      cases h
  | line wait l =>
      rw [hplace] at h
      dsimp only at h
      have hmark : heardMark nums st tick = markHeard nums (st.queue ++ tick.arrived) l.s := by
        rw [heardMark, hplace]
      have hspec := recvTurn_spec nums st.g (st.queue ++ tick.arrived) tick.now wait.tmo l
      cases hturn : recvTurn nums st.g (st.queue ++ tick.arrived) tick.now wait.tmo l with
      | again g' queue' l' out' =>
          rw [hturn] at h hspec
          cases h
          exact pulse_of_heeds hspec hmark
      | returned g' queue' s out' =>
          rw [hturn] at h hspec
          cases h
          refine (pulse_of_heeds hspec.1 hmark).follows ?_
          exact follows_afterLine nums tick.now l False.elim s False.elim False.elim
      | lost g' out' =>
          rw [hturn] at h hspec
          cases h
          exact pulse_of_heeds hspec hmark
  | prompt p l =>
      rw [hplace] at h
      dsimp only at h
      have hmark : heardMark nums st tick = markHeard nums (st.queue ++ tick.arrived) l.u := by
        rw [heardMark, hplace]
      obtain ⟨g₁, out₁, hheeds, hspec⟩ :=
        inputTurn_spec nums st.g (st.queue ++ tick.arrived) tick.now tick.key l
      have hpulse := pulse_of_beacon hheeds hmark tick.now
      cases hturn : inputTurn nums st.g (st.queue ++ tick.arrived) tick.now tick.key l with
      | again g' queue' l' out' =>
          rw [hturn] at h hspec
          cases h
          obtain ⟨rfl, rfl⟩ := hspec
          exact hpulse
      | returned g' queue' txt out' =>
          rw [hturn] at h hspec
          cases h
          have hread : Pulse nums st tick g' out' := by
            rcases hspec with ⟨rfl, rfl⟩ | ⟨_, _, _, rfl, rfl⟩
            · exact hpulse
            · refine .quietly rfl hheeds.beaconBit ?_
              rw [pendingAfter, hmark]
              exact hheeds.beaconPending
          exact hread.follows (follows_afterPrompt tick.now False.elim txt p)
      | lost g' out' =>
          rw [hturn] at h hspec
          cases h
          obtain ⟨rfl, rfl⟩ := hspec
          exact hpulse
  | raw frame l =>
      rw [hplace] at h
      dsimp only at h
      have hmark : heardMark nums st tick = none := by
        rw [heardMark, hplace]
      cases hturn : rawTurn st.g (st.queue ++ tick.arrived) tick.now frame.ln.toNat
          Const.DATTMO l with
      | none =>
          rw [hturn] at h
          cases h
          exact pulse_of_same hmark ⟨rfl, rfl, rfl⟩
      | some round =>
          have hspec := rawTurn_spec st.g (st.queue ++ tick.arrived) tick.now hturn
          rw [hturn] at h
          cases round with
          | again g' queue' l' out' =>
              cases h
              obtain ⟨_, hbeacons, rfl⟩ := hspec
              exact pulse_of_same hmark hbeacons
          | returned g' queue' ok out' =>
              cases h
              obtain ⟨_, hbeacons, rfl⟩ := hspec
              refine (pulse_of_same hmark hbeacons).follows ?_
              cases ok with
              | true => exact follows_afterRaw tick.now False.elim frame
              | false => exact follows_rawTimedOut tick.now False.elim
          | lost g' out' =>
              cases h
              obtain ⟨_, hbeacons, rfl⟩ := hspec
              exact pulse_of_same hmark hbeacons

end Pulses

section Ledger

variable (nums : Numbers)

theorem beaconBit_beacon
    {bit : Int} (hbit : bit = 0 ∨ bit = 1) :
    beaconBit? (.send ("BEACON P ".toList ++ Str bit)) = some bit := by
  rcases hbit with rfl | rfl
  · decide
  · decide

theorem beaconBit_of_quiet
    {out : List Effect} (h : quiet out = true) :
    out.findSome? beaconBit? = none := by
  rw [List.findSome?_eq_none_iff]
  intro effect hmem
  have hquiet := List.all_eq_true.mp h effect hmem
  cases effect with
  | send line =>
      have hzero : line ≠ "BEACON P 0".toList := by
        rintro rfl
        exact absurd hquiet (by decide)
      have hone : line ≠ "BEACON P 1".toList := by
        rintro rfl
        exact absurd hquiet (by decide)
      rw [beaconBit?, if_neg hzero, if_neg hone]
  | _ => rfl

/-- A MARK is for one of the two bits. -/
theorem markHeard_bit
    {queue : Bytes} {s : Line} {bit : Int} (h : markHeard nums queue s = some bit) :
    bit = 0 ∨ bit = 1 := by
  rw [markHeard] at h
  split_ifs at h
  dsimp only [bit?] at h
  split_ifs at h with hout
  cases h
  omega

theorem heardMark_bit
    {st : State} {tick : Tick} {bit : Int} (h : heardMark nums st tick = some bit) :
    bit = 0 ∨ bit = 1 := by
  unfold heardMark at h
  split at h
  · exact markHeard_bit nums h
  · exact markHeard_bit nums h
  · cases h

/-- `beaconPending` is the beacon that has not been marked. -/
structure Ledger (st : State) (b : Option Int) : Prop where
  beaconBit : st.g.beaconBit = 0 ∨ st.g.beaconBit = 1
  beaconPending : st.g.beaconPending = b.getD (-1)
  bit : ∀ bit, b = some bit → bit = 0 ∨ bit = 1

variable {nums} {st st' : State} {tick : Tick} {b : Option Int} {out : List Effect}

theorem Ledger.pendingAfter
    (h : Ledger st b) :
    pendingAfter nums st tick = (if heardMark nums st tick = b then none else b).getD (-1) := by
  rw [Picocalc.pendingAfter, h.beaconPending]
  cases b with
  | none =>
      have hother : heardMark nums st tick ≠ some (-1) := by
        intro hmark
        have := heardMark_bit nums hmark
        omega
      rw [ite_self]
      exact if_neg hother
  | some bit =>
      rw [Option.getD_some]
      split_ifs <;> rfl

/-- Nothing waits for a MARK just when `beaconPending` is negative. -/
theorem Ledger.pendingAfter_neg
    (h : Ledger st b) :
    Picocalc.pendingAfter nums st tick < 0 ↔ b = none ∨ heardMark nums st tick = b := by
  rw [h.pendingAfter]
  by_cases hmark : heardMark nums st tick = b
  · rw [if_pos hmark]
    exact iff_of_true (by decide) (Or.inr hmark)
  · rw [if_neg hmark]
    cases b with
    | none => exact iff_of_true (by decide) (Or.inl rfl)
    | some bit =>
        have hbit := h.bit bit rfl
        rw [Option.getD_some]
        refine iff_of_false (by omega) ?_
        rintro (hnone | hsome)
        · cases hnone
        · exact hmark hsome

theorem ledger_step
    (h : Ledger st b) (hstep : step nums st tick = some (st', out)) :
    Ledger st'
      ((out.findSome? beaconBit?).or (if heardMark nums st tick = b then none else b)) := by
  cases pulse_of_step hstep with
  | quietly hquiet hbit hpending =>
      rw [beaconBit_of_quiet hquiet, Option.none_or]
      refine ⟨hbit ▸ h.beaconBit, hpending.trans h.pendingAfter, fun bit hmem => ?_⟩
      split_ifs at hmem
      exact h.bit bit hmem
  | sends before after hout hbefore hafter _ hbit hpending =>
      have hsent : out.findSome? beaconBit? = some st.g.beaconBit := by
        rw [hout, List.findSome?_append, beaconBit_of_quiet hbefore, Option.none_or,
          List.findSome?_cons, beaconBit_beacon h.beaconBit]
      rw [hsent, Option.some_or]
      refine ⟨?_, hpending, ?_⟩
      · have := h.beaconBit
        omega
      · rintro bit ⟨⟩
        exact h.beaconBit

/-- The invariant of a whole run. -/
theorem ledger_reach
    (h : Ledger st b) (ticks : List Tick) :
    Ledger (reach nums st ticks) (unmarked nums b st ticks) := by
  induction ticks generalizing st b with
  | nil => exact h
  | cons tick ticks ih =>
      rw [reach, unmarked]
      cases hstep : step nums st tick with
      | none => exact h
      | some next => exact ih (ledger_step h hstep)

theorem ledger_start (now : Nat) :
    Ledger (start now).1 none :=
  ⟨Or.inl rfl, rfl, fun _ h => absurd h (Option.some_ne_none _).symm⟩

end Ledger

section Result

variable (nums : Numbers) {st st' : State} {out : List Effect}

/-- A turn at a prompt comes to the beacon, unless it reads CLOSE. -/
theorem step_beacon
    {p : Prompt} {l : InputAlive} (hplace : st.place = .prompt p l)
    (hclose : ¬ hearsClose nums st) (now : Nat) :
    ∃ g₁ out₁ st' after, Heeds nums st.g st.queue l.u g₁ out₁ ∧
      step nums st { now, arrived := [], key := none } =
        some (st', out₁ ++ (beacon g₁ now).2 ++ after) := by
  obtain ⟨g₁, out₁, hheeds, hspec⟩ := inputTurn_spec nums st.g st.queue now none l
  unfold step
  rw [hplace, List.append_nil]
  dsimp only
  cases hturn : inputTurn nums st.g st.queue now none l with
  | again g' queue' l' out' =>
      rw [hturn] at hspec
      exact ⟨g₁, out₁, _, [], hheeds, by rw [hspec.2, List.append_nil]⟩
  | returned g' queue' txt out' =>
      rw [hturn] at hspec
      rcases hspec with ⟨_, hout⟩ | ⟨hhead, hheard, _⟩
      · exact ⟨g₁, out₁, _, _, hheeds, by rw [hout]⟩
      · exact absurd ⟨p, l, hplace, hhead, hheard⟩ hclose
  | lost g' out' =>
      rw [hturn] at hspec
      exact ⟨g₁, out₁, _, [], hheeds, by rw [hspec.2, List.append_nil]⟩

theorem quiet_afterPrompt (g : Globals) (now : Nat) (txt : Line) (p : Prompt) :
    quiet (afterPrompt g now txt p).out = true := by
  have hnext : Follows False False g (afterPrompt g now txt p) :=
    follows_afterPrompt now False.elim txt p
  exact hnext.quiet

/-- A turn that reads CLOSE sends no beacon. -/
theorem quiet_of_hearsClose
    {now : Nat} (hclose : hearsClose nums st)
    (hstep : step nums st { now, arrived := [], key := none } = some (st', out)) :
    quiet out = true := by
  obtain ⟨p, l, hplace, hhead, hheard⟩ := hclose
  cases hqueue : st.queue with
  | nil =>
      rw [hqueue] at hhead
      cases hhead
  | cons b queue =>
      rw [hqueue] at hhead
      cases hhead
      unfold step at hstep
      rw [hplace, List.append_nil, hqueue] at hstep
      dsimp only at hstep
      rw [inputTurn, if_pos rfl, hheard] at hstep
      cases hstep
      exact quiet_append rfl (quiet_afterPrompt _ now [] p)

/-- A turn that is quiet sends no beacon. -/
theorem not_mem_of_quiet
    (hquiet : quiet out = true) (bit : Int) :
    Effect.send ("BEACON P ".toList ++ Str bit) ∉ out := by
  intro hmem
  have hbegins : (!begins "BEACON P " ("BEACON P ".toList ++ Str bit)) = true :=
    List.all_eq_true.mp hquiet _ hmem
  rw [begins, List.isPrefixOf_iff_prefix.mpr (List.prefix_append _ _)] at hbegins
  cases hbegins

/-- There is a time to beat just when nothing waits for its MARK. -/
theorem beats_prompt
    {p : Prompt} {l : InputAlive} (hplace : st.place = .prompt p l) :
    Beats nums st ↔
      pendingAfter nums st { now := 0, arrived := [], key := none } < 0 ∧
        ¬ hearsClose nums st := by
  have hprompt : atPrompt st.place = true := by
    rw [hplace]
    rfl
  constructor
  · intro hbeats
    obtain ⟨now, st', out, bit, _, hstep, hmem⟩ := hbeats hprompt 0
    refine ⟨?_, fun hclose => not_mem_of_quiet (quiet_of_hearsClose nums hclose hstep) bit hmem⟩
    cases pulse_of_step hstep with
    | quietly hquiet _ _ => exact absurd hmem (not_mem_of_quiet hquiet bit)
    | sends before after _ _ _ hnone _ _ => exact hnone
  · rintro ⟨hnone, hclose⟩ _ since
    obtain ⟨g₁, out₁, st', after, hheeds, hstep⟩ :=
      step_beacon nums hplace hclose (since + st.g.beaconAt + Const.BEACONMS + 1)
    have hpending : g₁.beaconPending < 0 := by
      rw [hheeds.beaconPending]
      rw [pendingAfter, heardMark, hplace] at hnone
      simpa only [List.append_nil] using hnone
    have hdue : g₁.beaconPending < 0 ∧
        since + st.g.beaconAt + Const.BEACONMS + 1 - g₁.beaconAt > Const.BEACONMS := by
      rw [hheeds.beaconAt]
      omega
    refine ⟨_, st', _, g₁.beaconBit, by omega, hstep, ?_⟩
    rw [beacon, if_pos hdue]
    simp

/-- A prompt can send a beacon exactly when every beacon of the session has been marked, where the
next byte may complete the last MARK, but not CLOSE. -/
theorem beats_iff (now : Nat) (ticks : List Tick) :
    Beats nums (reach nums (start now).1 ticks) ↔
      (atPrompt (reach nums (start now).1 ticks).place = true →
        (unmarked nums none (start now).1 ticks = none ∨
          heardMark nums (reach nums (start now).1 ticks) { now := 0, arrived := [], key := none } =
            unmarked nums none (start now).1 ticks) ∧
          ¬ hearsClose nums (reach nums (start now).1 ticks)) := by
  have hledger : Ledger (reach nums (start now).1 ticks) (unmarked nums none (start now).1 ticks) :=
    ledger_reach (ledger_start now) ticks
  cases hplace : (reach nums (start now).1 ticks).place with
  | prompt p l =>
      rw [beats_prompt nums hplace, hledger.pendingAfter_neg, atPrompt, imp_iff_right rfl]
  | _ =>
      refine iff_of_true (fun hprompt => ?_) fun hprompt => ?_
      · rw [hplace] at hprompt
        cases hprompt
      · cases hprompt

/-- A session in which the MARK of the first beacon does not come. -/
def silencedSession : List Tick :=
  bytesIn 0 "HELLO PCUTP/2 HRU? MAXBLK=4096" ++ [{ now := 5000, arrived := [], key := none }]

/-- No beacon is sent after it, however long the program waits. -/
theorem not_beats_silencedSession :
    ¬ Beats integers (reach integers (start 0).1 silencedSession) := by
  have hplace : (reach integers (start 0).1 silencedSession).place =
      .prompt .url { u := [], txt := [] } := by
    decide +kernel
  have hpending : 0 ≤ pendingAfter integers (reach integers (start 0).1 silencedSession)
      { now := 0, arrived := [], key := none } := by
    decide +kernel
  rw [beats_prompt integers hplace]
  exact fun h => absurd h.1 (not_lt.mpr hpending)

end Result

end Pcutp.Picocalc
