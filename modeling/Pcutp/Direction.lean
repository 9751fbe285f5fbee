import Mathlib.Data.List.Sublists
import Pcutp.Diagnosis
import Pcutp.Lib.Spacing

/-!
# Which path is declared lost

A beacon that is not confirmed is diagnosed: `retries + 1` probes are sent, each
`interval` seconds after the last, and when they are used up the transmit path
is declared lost, whether the peer was heard or not.  While the diagnosis is in
charge the receive-path check is never reached.

So the direction is right exactly where silence does not last that long: no
`retries + 2` polls of it keep `interval` seconds between them, and none comes
at or after the deadline of the read.
-/

namespace Pcutp

open Spacing Observed

/-- The transmit path is declared lost only when the peer was heard since the last beacon, and a
read that ends with no line since its unconfirmed beacon ends with the loss of the receive path. -/
structure DiagnosesDirection (s : Observed) (_now : Nat) (w' : Watch) (sent : List Signal) :
    Prop where
  transmit : (∃ bit, w'.ending = some (.lostTx bit)) → s.ledger.heard = true
  receive : w'.ending.isSome = true → w'.beacon_waiting.isSome = true →
    s.ledger.silent = true ∨ Ledger.beacons sent = true → w'.ending = some .lostRx

/-- The transmit path was declared lost. -/
def WatchEnding.isLostTx : WatchEnding → Bool
  | .lostTx _ => true
  | _ => false

instance (s : Observed) (now : Nat) (w' : Watch) (sent : List Signal) :
    Decidable (DiagnosesDirection s now w' sent) :=
  decidable_of_iff
    ((w'.ending.any WatchEnding.isLostTx = true → s.ledger.heard = true) ∧
      (w'.ending.isSome = true → w'.beacon_waiting.isSome = true →
        s.ledger.silent = true ∨ Ledger.beacons sent = true → w'.ending = some .lostRx))
    (by
      have hlost : w'.ending.any WatchEnding.isLostTx = true ↔
          ∃ bit, w'.ending = some (.lostTx bit) := by
        rcases w'.ending with _ | ending
        · simp
        · cases ending <;> simp [WatchEnding.isLostTx]
      rw [hlost]
      exact ⟨fun h => ⟨h.1, h.2⟩, fun h => ⟨h.transmit, h.receive⟩⟩)

/-- The peer is heard in time: of the polls since an unconfirmed beacon without evidence no
`retries + 2` keep `interval` seconds between them, and none that comes at the deadline or later
finds such a beacon with no line since. -/
structure HeardInTime (ka : KeepAlive) (s : Observed) (now : Nat) : Prop where
  spaced : s.watch.beacon_waiting.isSome = true → s.ledger.heard = false →
    ∀ times, times.Sublist (s.ledger.polls ++ [now]) →
      Spaced ka.interval s.ledger.due_at times → times.length ≤ ka.retries + 1
  deadline : s.watch.deadline ≤ now → (s.watch.beaconed ka now).beacon_waiting.isSome = true →
    ¬ (s.ledger.silent = true ∨ s.watch.beaconDue ka now = true)

instance (ka : KeepAlive) (s : Observed) (now : Nat) : Decidable (HeardInTime ka s now) :=
  decidable_of_iff
    ((s.watch.beacon_waiting.isSome = true → s.ledger.heard = false →
      (s.ledger.polls ++ [now]).sublists'.all (fun times => decide
        (Spaced ka.interval s.ledger.due_at times → times.length ≤ ka.retries + 1)) = true) ∧
      (s.watch.deadline ≤ now → (s.watch.beaconed ka now).beacon_waiting.isSome = true →
        ¬ (s.ledger.silent = true ∨ s.watch.beaconDue ka now = true)))
    (by
      simp only [List.all_eq_true, List.mem_sublists', decide_eq_true_eq]
      exact ⟨fun h => ⟨h.1, h.2⟩, fun h => ⟨h.spaced, h.deadline⟩⟩)

/-- Both readings of the clock for a line agree, and those before the loop. -/
def Instant (o : Opening) (turns : List Turn) : Prop :=
  o.at_rx = o.at_mark ∧ ∀ text t₁ t₂, .line text t₁ t₂ ∈ turns → t₁ = t₂

namespace Watch

section Polls

variable {ka : KeepAlive} {w w' : Watch} {now : Nat} {sent : List Signal}

/-- How a poll ends the read. -/
theorem PollKind.ending_cases
    (hlive : w.ending = none) (h : PollKind ka w now w' sent) {e : WatchEnding}
    (he : w'.ending = some e) :
    (∃ bit, e = .lostTx bit) ∨ e = .lostRx ∨ e = .timeout ∧ w.deadline ≤ now := by
  have hlive₁ : (w.beaconed ka now).ending = none := beaconed_ending.trans hlive
  have hexpire : ∀ {v : Watch}, (v.expire now).1.ending = some e → v.ending = none →
      v.deadline = w.deadline → e = .timeout ∧ w.deadline ≤ now := by
    intro v hend hv hdeadline
    refine ⟨expire_ending hend hv, ?_⟩
    by_contra hbefore
    rw [expire_of_lt (by omega), hv] at hend
    cases hend
  cases h with
  | lostTx => exact Or.inl ⟨_, (Option.some.inj he).symm⟩
  | lostRx => exact Or.inr (Or.inl (Option.some.inj he).symm)
  | ping | ayt | idle | quiet =>
      exact Or.inr (Or.inr (hexpire he hlive₁ beaconed_deadline))

/-- At the deadline a poll ends the read. -/
theorem PollKind.ending_isSome
    (h : PollKind ka w now w' sent) (hdeadline : w.deadline ≤ now) :
    w'.ending.isSome = true := by
  have hexpire : ∀ {v : Watch}, v.deadline = w.deadline → (v.expire now).1.ending.isSome = true := by
    intro v hv
    rw [expire, if_pos (hv ▸ hdeadline)]
    rfl
  cases h with
  | lostTx | lostRx => rfl
  | ping | ayt | idle | quiet => exact hexpire beaconed_deadline

/-- After its beacon a poll leaves the waiting beacon alone. -/
theorem PollKind.beacon_waiting
    (h : PollKind ka w now w' sent) :
    w'.beacon_waiting = (w.beaconed ka now).beacon_waiting := by
  rcases h.summary with ⟨_, rfl, _⟩ | ⟨_, _, _, _, _, _, _, _, rfl⟩ |
    ⟨_, _, _, _, _, _, _, _, _, _, rfl⟩ <;> rfl

/-- A probe of the diagnosis is sent while some are left. -/
theorem PollKind.marker_probes
    (h : PollKind ka w now w' sent) :
    w'.marker_probes = w.marker_probes ∨
      w.marker_probes ≤ ka.retries ∧ w'.marker_probes = w.marker_probes + 1 := by
  have hexpire : ∀ v : Watch, (v.expire now).1.marker_probes = v.marker_probes := by
    intro v
    unfold expire
    split <;> rfl
  cases h with
  | lostTx | lostRx => exact Or.inl beaconed_marker_probes
  | idle | quiet => exact Or.inl ((hexpire _).trans beaconed_marker_probes)
  | ping _ hleft | ayt _ hleft => exact Or.inr ⟨hleft, hexpire _⟩

/-- Whether a poll sends a beacon is decided before anything else. -/
theorem PollKind.beacons
    (h : PollKind ka w now w' sent) :
    Ledger.beacons sent = w.beaconDue ka now := by
  have hbeacon : Ledger.beacons (w.beaconSent ka now) = w.beaconDue ka now := by
    unfold beaconSent sendBeacon
    split
    · rename_i hdue
      rw [hdue]
      rfl
    · rename_i hdue
      rw [Bool.not_eq_true] at hdue
      rw [hdue]
      rfl
  cases h with
  | lostTx | lostRx | quiet => exact hbeacon
  | ping | ayt | idle =>
      rw [Ledger.beacons, List.any_append, ← Ledger.beacons, hbeacon]
      exact Bool.or_false _

/-- A beacon that falls due waits, and no probe was sent for it. -/
theorem beaconDue_iff :
    w.beaconDue ka now = true ↔ w.marker_probes = 0 ∧ w.beacon_waiting = none ∧
      ka.beacon_interval ≤ now - w.last_beacon := by
  simp [beaconDue, and_assoc]

theorem beaconed_of_not_beaconDue
    (h : w.beaconDue ka now = false) :
    w.beaconed ka now = w := by
  unfold beaconed sendBeacon
  rw [if_neg (by simp [h])]

end Polls

end Watch

namespace Observed

variable {ka : KeepAlive} {o : Opening}

/-- No more probes were sent for a beacon than some polls have room for, and when as many were, the
next one is not due before the polls have room for it. -/
structure Counted (ka : KeepAlive) (w : Watch) (polls : List Nat) (due : Nat) : Prop where
  le : w.marker_probes ≤ (taken ka.interval due polls).length
  next : w.marker_probes = (taken ka.interval due polls).length →
    nextDue ka.interval due polls ≤ max w.last_beacon_mark w.last_ping + ka.interval

/-- Every probe takes a poll that has room for it. -/
theorem Counted.poll
    {w w' : Watch} {now due : Nat} {sent : List Signal} {polls : List Nat}
    (h : Counted ka (w.beaconed ka now) polls due) (hkind : Watch.PollKind ka w now w' sent)
    (hpolls : ∀ t ∈ polls, t ≤ now) (hping : w.last_ping ≤ now) :
    Counted ka w' (polls ++ [now]) due := by
  have hsame : (w.beaconed ka now).last_ping = w.last_ping := Watch.beaconed_last_ping
  have hmark : (w.beaconed ka now).last_beacon_mark = w.last_beacon_mark :=
    Watch.beaconed_last_beacon_mark
  have hprobes : (w.beaconed ka now).marker_probes = w.marker_probes :=
    Watch.beaconed_marker_probes
  obtain ⟨hle, hnext⟩ := h
  rw [hprobes] at hle hnext
  rw [hsame, hmark] at hnext
  -- A poll that sends no probe for the beacon.
  have hquiet : ∀ v : Watch, v.marker_probes = w.marker_probes →
      v.last_beacon_mark = w.last_beacon_mark → w.last_ping ≤ v.last_ping →
        Counted ka v (polls ++ [now]) due := by
    intro v hv hvmark hvping
    constructor
    · rw [taken_concat, List.length_append, hv]
      exact hle.trans (Nat.le_add_right _ _)
    · rw [taken_concat, nextDue_concat, List.length_append, hv, hvmark]
      split
      · intro heq
        rw [List.length_singleton] at heq
        omega
      · intro heq
        have := hnext heq
        omega
  rcases hkind.summary with ⟨ending, rfl, _⟩ |
      ⟨p, id, _, _, ending, hdiagnosing, _, _, rfl⟩ |
      ⟨p, id, _, ending, _, _, _, _, _, _, rfl⟩
  · exact hquiet _ hprobes hmark hsame.ge
  · obtain ⟨_, hmarked, hdue⟩ := Watch.diagnosing_iff.mp hdiagnosing
    have hinterval := ka.interval_pos
    constructor
    · rw [taken_concat, List.length_append]
      split
      · rw [List.length_singleton]
        exact Nat.succ_le_succ hle
      · rename_i hearly
        have hroom : w.marker_probes ≠ (taken ka.interval due polls).length := fun heq =>
          hearly ((hnext heq).trans (by omega))
        rw [List.length_nil]
        dsimp only
        omega
    · rw [taken_concat, nextDue_concat, List.length_append]
      dsimp only
      split
      · exact fun _ => Nat.add_le_add_right (Nat.le_max_right _ _) _
      · intro heq
        rw [List.length_nil, Nat.add_zero] at heq
        obtain ⟨t, ht, hnext⟩ := nextDue_of_taken (List.ne_nil_of_length_eq_add_one heq.symm)
        rw [hnext]
        exact Nat.add_le_add_right ((hpolls t ht).trans (Nat.le_max_right _ _)) _
  · exact hquiet _ hprobes hmark hping

/-- What the observer of a beacon knows about its diagnosis. -/
structure Probing (ka : KeepAlive) (s : Observed) : Prop where
  quiet : s.watch.beacon_waiting = none → s.watch.marker_probes = 0
  silent : s.ledger.silent = true → s.ledger.heard = false
  counted : s.watch.beacon_waiting.isSome = true → s.ledger.heard = false →
    Counted ka s.watch s.ledger.polls s.ledger.due_at
  polls : ∀ t ∈ s.ledger.polls, t ≤ s.watch.clock
  ping : s.watch.last_ping ≤ s.watch.clock

theorem probing_start : Probing ka (start o) where
  quiet := fun _ => rfl
  silent := fun _ => rfl
  counted := fun hwaiting => by cases hwaiting
  polls := fun _ ht => absurd ht List.not_mem_nil
  ping := o.ordered.2.2.1.trans o.ordered.2.2.2

theorem Probing.line
    {s s' : Observed} {text : Line} {t₁ t₂ : Nat} {sent : List Signal}
    (h : Probing ka s) (hstep : s.step ka (.line text t₁ t₂) = some (s', sent)) :
    Probing ka s' := by
  obtain ⟨hwatch, hledger⟩ := step_eq_some hstep
  obtain ⟨_, hclock, hordered, hw, _⟩ := Watch.step_line hwatch
  have hkind : Watch.LineKind ka s.watch text t₁ t₂ _ _ := Watch.line_cases
  have hlater : s.watch.clock ≤ s'.watch.clock := by
    rw [hw]
    exact hclock.trans hordered
  have hpolls : s'.ledger.polls = s.ledger.polls := by
    rw [hledger, Ledger.after]
    split <;> rfl
  have hping : s'.watch.last_ping = s.watch.last_ping := by
    rw [hw]
    exact hkind.last_ping
  refine ⟨fun hnone => ?_, fun hsilent => ?_, fun hwaiting hunheard => ?_,
    fun t ht => (h.polls t (hpolls ▸ ht)).trans hlater, hping ▸ h.ping.trans hlater⟩
  · rw [hw] at hnone ⊢
    generalize s.watch.onLine ka text t₁ t₂ = r at hkind hnone ⊢
    obtain ⟨w', out⟩ := r
    cases hkind with
    | beacon | marker | ping | ignored | returned => exact h.quiet hnone
    | marked | pong | here => rfl
  · rw [hledger] at hsilent
    cases hsilent
  · rcases hkind.evidence with ⟨hev, _⟩ | ⟨hnone, ending, heq⟩
    · rw [hledger, Ledger.after, if_pos hev] at hunheard
      cases hunheard
    · rw [hledger, Ledger.after, if_neg hnone] at hunheard ⊢
      rw [hw, heq] at hwaiting ⊢
      obtain ⟨hle, hnext⟩ := h.counted hwaiting hunheard
      exact ⟨hle, hnext⟩

/-- What a poll starts from when it has sent its beacon. -/
theorem Probing.beaconed
    {s : Observed} {now : Nat} (h : Probing ka s)
    (hwaiting : (s.watch.beaconed ka now).beacon_waiting.isSome = true)
    (hunheard : (s.ledger.heard && !s.watch.beaconDue ka now) = false) :
    Counted ka (s.watch.beaconed ka now) (if s.watch.beaconDue ka now then [] else s.ledger.polls)
      (if s.watch.beaconDue ka now then
        max s.watch.last_beacon_mark s.watch.last_ping + ka.interval else s.ledger.due_at) := by
  cases hdue : s.watch.beaconDue ka now with
  | true =>
      have hzero := (Watch.beaconDue_iff.mp hdue).1
      constructor
      · rw [Watch.beaconed_marker_probes, hzero]
        exact Nat.zero_le _
      · rw [Watch.beaconed_last_beacon_mark, Watch.beaconed_last_ping]
        exact fun _ => Nat.le_refl _
  | false =>
      rw [hdue, Bool.not_false, Bool.and_true] at hunheard
      rw [Watch.beaconed_of_not_beaconDue hdue] at hwaiting ⊢
      exact h.counted hwaiting hunheard

theorem Probing.poll
    {s s' : Observed} {now : Nat} {sent : List Signal}
    (h : Probing ka s) (hstep : s.step ka (.poll now) = some (s', sent)) :
    Probing ka s' := by
  obtain ⟨hwatch, hledger⟩ := step_eq_some hstep
  obtain ⟨hlive, hclock, hw, hsent⟩ := Watch.step_poll hwatch
  have hkind : Watch.PollKind ka s.watch now _ _ := Watch.poll_cases hlive
  rw [Ledger.after, hsent, hkind.beacons, ← hsent] at hledger
  have hwaits : s'.watch.beacon_waiting = (s.watch.beaconed ka now).beacon_waiting := by
    rw [hw]
    exact hkind.beacon_waiting
  have hbefore : ∀ t ∈ (if s.watch.beaconDue ka now then [] else s.ledger.polls), t ≤ now := by
    intro t ht
    split at ht
    · exact absurd ht List.not_mem_nil
    · exact (h.polls t ht).trans hclock
  refine ⟨fun hnone => ?_, fun hsilent => ?_, fun hwaiting hunheard => ?_, fun t ht => ?_, ?_⟩
  · rw [hwaits] at hnone
    have hsame := Watch.beaconed_of_none hnone
    rw [hsame] at hnone
    rw [hw]
    rcases hkind.summary with ⟨ending, heq, _⟩ |
        ⟨p, id, _, _, ending, hdiagnosing, _, _, heq⟩ |
        ⟨p, id, _, ending, _, _, _, _, _, _, heq⟩
    · rw [heq, hsame]
      exact h.quiet hnone
    · rw [← hsame] at hnone
      exact absurd (Watch.diagnosing_iff.mp hdiagnosing).1 (by rw [hnone]; simp)
    · rw [heq, hsame]
      exact h.quiet hnone
  · rw [hledger] at hsilent ⊢
    dsimp only at hsilent ⊢
    cases hdue : s.watch.beaconDue ka now with
    | true => exact Bool.and_false _
    | false =>
        rw [hdue, Bool.or_false] at hsilent
        rw [h.silent hsilent]
        rfl
  · rw [hledger] at hunheard ⊢
    rw [hwaits] at hwaiting
    obtain ⟨hle, hnext⟩ := (h.beaconed hwaiting hunheard).poll hkind hbefore (h.ping.trans hclock)
    rw [hw]
    exact ⟨hle, hnext⟩
  · rw [hledger] at ht
    rw [hw]
    rcases List.mem_append.mp ht with ht | ht
    · exact hbefore t ht
    · exact (List.mem_singleton.mp ht).le
  · have hping : (s.watch.beaconed ka now).last_ping ≤ now := by
      rw [Watch.beaconed_last_ping]
      exact h.ping.trans hclock
    rw [hw]
    rcases hkind.summary with ⟨_, heq, _⟩ | ⟨_, _, _, _, _, _, _, _, heq⟩ |
      ⟨_, _, _, _, _, _, _, _, _, _, heq⟩ <;> rw [heq]
    exact hping

/-- What a poll names is right when the peer was heard in time. -/
theorem Probing.diagnoses
    {s s' : Observed} {now : Nat} {sent : List Signal}
    (h : Probing ka s) (hstep : s.step ka (.poll now) = some (s', sent))
    (hheard : HeardInTime ka s now) :
    DiagnosesDirection s now s'.watch sent := by
  obtain ⟨hlive, hclock, hw, hsent⟩ := Watch.step_poll (step_eq_some hstep).1
  have hkind : Watch.PollKind ka s.watch now _ _ := Watch.poll_cases hlive
  have hend : s'.watch.ending = (s.watch.onPoll ka now).1.ending := by
    rw [hw]
  have htransmit : (∃ bit, s'.watch.ending = some (.lostTx bit)) →
      s.ledger.heard = true ∧ s.watch.beaconDue ka now = false := by
    rw [hend, hkind.lostTx_iff hlive]
    rintro ⟨hdiagnosing, hspent⟩
    have hdue : s.watch.beaconDue ka now = false := by
      rw [← Bool.not_eq_true, Watch.beaconDue_iff]
      omega
    refine ⟨?_, hdue⟩
    by_contra hunheard
    rw [Bool.not_eq_true] at hunheard
    -- With this poll the probes of the diagnosis make one poll too many.
    obtain ⟨hwaiting, hmark, hlate⟩ := Watch.diagnosing_iff.mp hdiagnosing
    rw [Watch.beaconed_of_not_beaconDue hdue] at hwaiting
    obtain ⟨hle, hnext⟩ := h.counted hwaiting hunheard
    have hfew := hheard.spaced hwaiting hunheard _ (taken_sublist _ _ _)
      (spaced_taken ka.interval s.ledger.due_at (s.ledger.polls ++ [now]))
    rw [taken_concat, List.length_append] at hfew
    have hinterval := ka.interval_pos
    have hequal : s.watch.marker_probes =
        (taken ka.interval s.ledger.due_at s.ledger.polls).length := by omega
    rw [if_pos ((hnext hequal).trans (by omega)), List.length_singleton] at hfew
    omega
  refine ⟨fun htx => (htransmit htx).1, fun hended hwaiting hquiet => ?_⟩
  obtain ⟨e, he⟩ := Option.isSome_iff_exists.mp hended
  have hwaits : (s.watch.beaconed ka now).beacon_waiting.isSome = true := by
    rw [← hkind.beacon_waiting]
    rw [hw] at hwaiting
    exact hwaiting
  rw [hsent, hkind.beacons] at hquiet
  rcases hkind.ending_cases hlive (hend ▸ he) with ⟨bit, rfl⟩ | rfl | ⟨rfl, hdeadline⟩
  · obtain ⟨hheard, hdue⟩ := htransmit ⟨bit, he⟩
    rcases hquiet with hsilent | hdue'
    · rw [h.silent hsilent] at hheard
      cases hheard
    · rw [hdue] at hdue'
      cases hdue'
  · exact he
  · exact absurd hquiet (hheard.deadline hdeadline hwaits)

/-- As many probes were sent for a beacon as some polls have room for. -/
structure Filled (ka : KeepAlive) (w : Watch) (polls : List Nat) (due : Nat) : Prop where
  eq : w.marker_probes = (taken ka.interval due polls).length
  next : nextDue ka.interval due polls = max w.last_beacon_mark w.last_ping + ka.interval

/-- Every poll that has room for a probe gets one, where no idle PING comes between. -/
theorem Filled.poll
    {w w' : Watch} {now due : Nat} {sent : List Signal} {polls : List Nat}
    (h : Filled ka (w.beaconed ka now) polls due) (hkind : Watch.PollKind ka w now w' sent)
    (hlive : w'.ending = none) (hwaiting : (w.beaconed ka now).beacon_waiting.isSome = true)
    (hmark : w.last_beacon_mark ≤ w.last_rx) (hrx : w.last_rx ≤ now) :
    Filled ka w' (polls ++ [now]) due := by
  have hping : (w.beaconed ka now).last_ping = w.last_ping := Watch.beaconed_last_ping
  have hmarked : (w.beaconed ka now).last_beacon_mark = w.last_beacon_mark :=
    Watch.beaconed_last_beacon_mark
  have hprobes : (w.beaconed ka now).marker_probes = w.marker_probes :=
    Watch.beaconed_marker_probes
  have hinterval := ka.interval_pos
  obtain ⟨heq, hnext⟩ := h
  rw [hprobes] at heq
  rw [hping, hmarked] at hnext
  have hcharge : w.diagnosing ka now = true ↔ nextDue ka.interval due polls ≤ now := by
    rw [Watch.diagnosing_iff, hnext]
    constructor
    · rintro ⟨_, hold, hlate⟩
      omega
    · intro hroom
      exact ⟨hwaiting, by omega, by omega⟩
  have hprobe : ∀ v : Watch, w.diagnosing ka now = true →
      v.marker_probes = w.marker_probes + 1 → v.last_beacon_mark = w.last_beacon_mark →
      v.last_ping = now → Filled ka v (polls ++ [now]) due := by
    intro v hdiagnosing hv hvmark hvping
    have hroom := hcharge.mp hdiagnosing
    constructor
    · rw [taken_concat, if_pos hroom, List.length_append, hv, heq]
      rfl
    · rw [nextDue_concat, if_pos hroom, hvmark, hvping]
      omega
  cases hkind with
  | lostTx | lostRx => cases hlive
  | ping hdiagnosing | ayt hdiagnosing =>
      obtain ⟨ending, hexpire⟩ := Watch.expire_eq _ now
      rw [hexpire]
      exact hprobe _ hdiagnosing rfl hmarked rfl
  | idle hdiagnosing hdue _ hidle =>
      have hlate : ka.interval ≤ now - w.last_ping := by
        simpa [Watch.probeDue] using hdue
      rw [Watch.diagnosing_iff.mpr ⟨hwaiting, by omega, hlate⟩] at hdiagnosing
      cases hdiagnosing
  | quiet hdiagnosing =>
      have hfull : ¬ nextDue ka.interval due polls ≤ now := fun hroom => by
        rw [hcharge.mpr hroom] at hdiagnosing
        cases hdiagnosing
      obtain ⟨ending, hexpire⟩ := Watch.expire_eq (w.beaconed ka now) now
      rw [hexpire]
      constructor
      · rw [taken_concat, if_neg hfull, List.append_nil]
        exact hprobes.trans heq
      · rw [nextDue_concat, if_neg hfull, hnext]
        exact (congrArg₂ (fun a b => max a b + ka.interval) hmarked hping).symm

/-- What the observer knows besides when no time passes between two readings of the clock. -/
structure Unskewed (ka : KeepAlive) (s : Observed) : Prop where
  mark : s.watch.last_beacon_mark ≤ s.watch.last_rx
  rx : s.watch.last_rx ≤ s.watch.clock
  budget : s.watch.ending = none → s.watch.marker_probes ≤ ka.retries + 1
  filled : s.watch.ending = none → s.watch.beacon_waiting.isSome = true →
    s.ledger.heard = false → Filled ka s.watch s.ledger.polls s.ledger.due_at
  sorted : s.ledger.polls.Pairwise (· ≤ ·)

theorem unskewed_start (ho : o.at_rx = o.at_mark) :
    Unskewed ka (start o) where
  mark := ho.ge
  rx := ho.le
  budget := fun _ => Nat.zero_le _
  filled := fun _ hwaiting => by cases hwaiting
  sorted := List.Pairwise.nil

theorem Unskewed.line
    {s s' : Observed} {text : Line} {t : Nat} {sent : List Signal}
    (h : Unskewed ka s) (hstep : s.step ka (.line text t t) = some (s', sent)) :
    Unskewed ka s' := by
  obtain ⟨hwatch, hledger⟩ := step_eq_some hstep
  obtain ⟨hlive, hclock, _, hw, _⟩ := Watch.step_line hwatch
  have hkind : Watch.LineKind ka s.watch text t t _ _ := Watch.line_cases
  have hpolls : s'.ledger.polls = s.ledger.polls := by
    rw [hledger, Ledger.after]
    split <;> rfl
  have hmark := h.mark
  have hrx := h.rx
  have hbudget := h.budget hlive
  refine ⟨?_, ?_, fun _ => ?_, fun hlive' hwaiting hunheard => ?_, hpolls ▸ h.sorted⟩
  · rw [hw]
    generalize s.watch.onLine ka text t t = r at hkind
    obtain ⟨w', out⟩ := r
    cases hkind with
    | beacon | marker | ping => exact (hmark.trans hrx).trans hclock
    | marked | pong | here => exact Nat.le_refl t
    | ignored | returned => exact hmark
  · rw [hw]
    generalize s.watch.onLine ka text t t = r at hkind
    obtain ⟨w', out⟩ := r
    cases hkind with
    | beacon | marker | ping | marked | pong | here => exact Nat.le_refl t
    | ignored | returned => exact hrx.trans hclock
  · rw [hw]
    generalize s.watch.onLine ka text t t = r at hkind
    obtain ⟨w', out⟩ := r
    cases hkind with
    | beacon | marker | ping | ignored | returned => exact hbudget
    | marked | pong | here => exact Nat.zero_le _
  · rcases hkind.evidence with ⟨hev, _⟩ | ⟨hnone, ending, heq⟩
    · rw [hledger, Ledger.after, if_pos hev] at hunheard
      cases hunheard
    · rw [hledger, Ledger.after, if_neg hnone] at hunheard ⊢
      rw [hw, heq] at hwaiting ⊢
      obtain ⟨hsent, hnext⟩ := h.filled hlive hwaiting hunheard
      exact ⟨hsent, hnext⟩

theorem Unskewed.poll
    {s s' : Observed} {now : Nat} {sent : List Signal}
    (h : Unskewed ka s) (hprobing : Probing ka s)
    (hstep : s.step ka (.poll now) = some (s', sent)) :
    Unskewed ka s' := by
  obtain ⟨hwatch, hledger⟩ := step_eq_some hstep
  obtain ⟨hlive, hclock, hw, hsent⟩ := Watch.step_poll hwatch
  have hkind : Watch.PollKind ka s.watch now _ _ := Watch.poll_cases hlive
  rw [Ledger.after, hsent, hkind.beacons, ← hsent] at hledger
  have hrx : (s.watch.beaconed ka now).last_rx = s.watch.last_rx := Watch.beaconed_last_rx
  have hmark : (s.watch.beaconed ka now).last_beacon_mark = s.watch.last_beacon_mark :=
    Watch.beaconed_last_beacon_mark
  have hprobes : (s.watch.beaconed ka now).marker_probes = s.watch.marker_probes :=
    Watch.beaconed_marker_probes
  have hbudget := h.budget hlive
  refine ⟨?_, ?_, fun _ => ?_, fun hlive' hwaiting hunheard => ?_, ?_⟩
  · rw [hw]
    rcases hkind.summary with ⟨_, heq, _⟩ | ⟨_, _, _, _, _, _, _, _, heq⟩ |
      ⟨_, _, _, _, _, _, _, _, _, _, heq⟩ <;> rw [heq] <;>
        exact (hmark.le.trans h.mark).trans hrx.ge
  · rw [hw]
    rcases hkind.summary with ⟨_, heq, _⟩ | ⟨_, _, _, _, _, _, _, _, heq⟩ |
      ⟨_, _, _, _, _, _, _, _, _, _, heq⟩ <;> rw [heq] <;>
        exact (hrx.le.trans h.rx).trans hclock
  · have hmarker : s'.watch.marker_probes = (s.watch.onPoll ka now).1.marker_probes := by
      rw [hw]
    rcases hkind.marker_probes with hsame | ⟨hleft, hone⟩ <;> omega
  · rw [hw] at hlive' hwaiting
    rw [hledger] at hunheard ⊢
    rw [hkind.beacon_waiting] at hwaiting
    have hfilled : Filled ka (s.watch.beaconed ka now)
        (if s.watch.beaconDue ka now then [] else s.ledger.polls)
        (if s.watch.beaconDue ka now then
          max s.watch.last_beacon_mark s.watch.last_ping + ka.interval else s.ledger.due_at) := by
      cases hdue : s.watch.beaconDue ka now with
      | true =>
          have hzero := (Watch.beaconDue_iff.mp hdue).1
          constructor
          · rw [hprobes, hzero]
            rfl
          · rw [hmark, Watch.beaconed_last_ping]
            rfl
      | false =>
          dsimp only at hunheard
          rw [hdue, Bool.not_false, Bool.and_true] at hunheard
          rw [Watch.beaconed_of_not_beaconDue hdue] at hwaiting ⊢
          exact h.filled hlive hwaiting hunheard
    obtain ⟨heq, hnext⟩ := hfilled.poll hkind hlive' hwaiting h.mark (h.rx.trans hclock)
    rw [hw]
    exact ⟨heq, hnext⟩
  · rw [hledger]
    refine List.pairwise_append.mpr ⟨?_, List.pairwise_singleton _ _, fun t ht u hu => ?_⟩
    · split
      · exact List.Pairwise.nil
      · exact h.sorted
    · rw [List.mem_singleton.mp hu]
      split at ht
      · exact absurd ht List.not_mem_nil
      · exact (hprobing.polls t ht).trans hclock

/-- Where a poll names the right direction the peer was heard in time. -/
theorem Unskewed.heard
    {s s' : Observed} {now : Nat} {sent : List Signal}
    (h : Unskewed ka s) (hprobing : Probing ka s)
    (hstep : s.step ka (.poll now) = some (s', sent)) (htimeout : ka.interval ≤ ka.timeout)
    (hdirection : DiagnosesDirection s now s'.watch sent) :
    HeardInTime ka s now := by
  obtain ⟨hlive, hclock, hw, hsent⟩ := Watch.step_poll (step_eq_some hstep).1
  have hkind : Watch.PollKind ka s.watch now _ _ := Watch.poll_cases hlive
  have hend : s'.watch.ending = (s.watch.onPoll ka now).1.ending := by
    rw [hw]
  have hmark := h.mark
  have hinterval := ka.interval_pos
  refine ⟨fun hwaiting hunheard times hsub hspaced => ?_, fun hdeadline hwaiting hquiet => ?_⟩
  · by_contra hmany
    obtain ⟨heq, hnext⟩ := h.filled hlive hwaiting hunheard
    have hlength := hspaced.length_le hsub (List.pairwise_append.mpr
      ⟨h.sorted, List.pairwise_singleton _ _, fun t ht u hu =>
        List.mem_singleton.mp hu ▸ (hprobing.polls t ht).trans hclock⟩)
    rw [taken_concat, List.length_append, ← heq] at hlength
    have hbudget := h.budget hlive
    split at hlength
    · rename_i hroom
      rw [List.length_singleton] at hlength
      have hdiagnosing : s.watch.diagnosing ka now = true :=
        Watch.diagnosing_iff.mpr ⟨Watch.beaconed_isSome hwaiting, by omega, by omega⟩
      have htx := (hkind.lostTx_iff hlive).mpr ⟨hdiagnosing, by omega⟩
      rw [← hend] at htx
      rw [hdirection.transmit htx] at hunheard
      cases hunheard
    · rw [List.length_nil] at hlength
      omega
  · -- The deadline ends the read, and the receive-path check has not been reached.
    have hlost : s'.watch.ending = some .lostRx := by
      refine hdirection.receive (hend ▸ hkind.ending_isSome hdeadline) ?_ ?_
      · rw [hw]
        exact (congrArg Option.isSome hkind.beacon_waiting).trans hwaiting
      · rwa [hsent, hkind.beacons]
    obtain ⟨hdiagnosing, hdue, _, hidle⟩ := (hkind.lostRx_iff hlive).mp (hend ▸ hlost)
    have hlate : ka.interval ≤ now - s.watch.last_ping := by
      simpa [Watch.probeDue] using hdue
    rw [Watch.diagnosing_iff.mpr ⟨hwaiting, by omega, hlate⟩] at hdiagnosing
    cases hdiagnosing

end Observed

/-- A run names the right path at every loss when the peer is heard in time; and only then, where
the timeout is not shorter than the interval and no time passes between two readings of the
clock. -/
theorem diagnoses_direction_iff
    (ka : KeepAlive) (o : Opening) (turns : List Turn) :
    (EachPoll ka o turns (fun s now _ _ => HeardInTime ka s now) →
      EachPoll ka o turns DiagnosesDirection) ∧
    (ka.interval ≤ ka.timeout → Instant o turns →
      (EachPoll ka o turns DiagnosesDirection ↔
        EachPoll ka o turns (fun s now _ _ => HeardInTime ka s now))) := by
  have hheard : EachPoll ka o turns (fun s now _ _ => HeardInTime ka s now) →
      EachPoll ka o turns DiagnosesDirection := by
    refine Machine.always_of_inv (Probing ka) ?_ probing_start
    rintro s (⟨text, t₁, t₂⟩ | ⟨now⟩) s' sent h hstep hturn
    · exact ⟨trivial, h.line hstep⟩
    · exact ⟨h.diagnoses hstep hturn, h.poll hstep⟩
  refine ⟨hheard, fun htimeout hinstant => ⟨fun h => ?_, hheard⟩⟩
  have hboth : Machine.Always (step ka)
      (fun _ turn _ _ => ∀ text t₁ t₂, turn = .line text t₁ t₂ → t₁ = t₂) (start o) turns :=
    Machine.always_of_mem (start o) turns
      fun turn hturn text t₁ t₂ heq => hinstant.2 text t₁ t₂ (heq ▸ hturn)
  refine (Machine.always_iff_of_always (fun s => Probing ka s ∧ Unskewed ka s) ?_
    ⟨probing_start, unskewed_start hinstant.1⟩ hboth).mp h
  rintro s (⟨text, t₁, t₂⟩ | ⟨now⟩) s' sent ⟨hprobing, hunskewed⟩ hstep hsame
  · obtain rfl := hsame text t₁ t₂ rfl
    exact ⟨Iff.rfl, hprobing.line hstep, hunskewed.line hstep⟩
  · exact ⟨⟨hunskewed.heard hprobing hstep htimeout, hprobing.diagnoses hstep⟩,
      hprobing.poll hstep, hunskewed.poll hprobing hstep⟩

/-- The first beacon is marked, the second never, while the beacons of the peer arrive. -/
def heardOnly : List Turn :=
  [.poll 4, .line "MARK P U 0".toList 5 5, .poll 9, .poll 10, .line "BEACON P 0".toList 12 12,
    .poll 15, .poll 20, .poll 25, .poll 30]

theorem diagnoses_direction_heard_only :
    (∃ s out, run defaultKeepAlive hourOpening heardOnly = some (s, out) ∧
      s.watch.ending = some (.lostTx (some true))) ∧
    EachPoll defaultKeepAlive hourOpening heardOnly DiagnosesDirection := by
  have hrun : (run defaultKeepAlive hourOpening heardOnly).any
      (fun r => decide (r.1.watch.ending = some (.lostTx (some true)))) = true := by
    decide +kernel
  rw [Option.any_eq_true] at hrun
  obtain ⟨⟨s, out⟩, hrun, hlost⟩ := hrun
  exact ⟨⟨s, out, hrun, of_decide_eq_true hlost⟩,
    (diagnoses_direction_iff defaultKeepAlive hourOpening heardOnly).1 (by decide +kernel)⟩

/-- By default the loss of a silent link is put down to the transmit path, and a shorter read of it
ends with no loss at all. -/
theorem silence_diagnosed_as_transmit_path :
    ¬ EachPoll defaultKeepAlive hourOpening (silence [4, 5, 10, 15, 20, 25]) DiagnosesDirection ∧
      ¬ EachPoll defaultKeepAlive (readFor 22) (silence [4, 5, 10, 15, 20, 22])
        DiagnosesDirection := by
  constructor <;> decide +kernel

end Pcutp
