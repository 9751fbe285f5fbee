import Pcutp.KeepAlive

/-!
# When a link is declared lost

Two schemes send probes: the idle PINGs, counted by `probes_sent`, and the
diagnosis of an unconfirmed beacon, counted by `marker_probes`.  They share the
probe timer, and while a beacon waits the diagnosis is always first.

A `Ledger` notes what an observer of the line sees: when the peer last gave
evidence, when a probe was last sent, how many were sent since that evidence,
and what happened since the last beacon.  The results compare what a poll
declares with what the ledger says at that poll.
-/

namespace Pcutp

/-- What an observer of the line notes. -/
structure Ledger where
  /-- When the peer last gave evidence, or when the read began. -/
  evidence_at : Nat
  /-- When the last probe was sent, or when the read began. -/
  probe_at : Nat
  /-- The probes sent since the last evidence: none of them is answered. -/
  unanswered : Nat
  /-- The peer gave evidence since the last beacon was sent to it. -/
  heard : Bool
  /-- No line at all was read since the last beacon was sent. -/
  silent : Bool
  /-- The polls since the last beacon was sent, its own being the first. -/
  polls : List Nat
  /-- When the first probe for that beacon falls due: `interval` seconds after the last
  confirmation and the last probe before it. -/
  due_at : Nat

namespace Ledger

/-- Nothing was sent or heard. -/
def start (o : Opening) : Ledger where
  evidence_at := o.at_rx
  probe_at := o.at_ping
  unanswered := 0
  heard := false
  silent := true
  polls := []
  due_at := 0

/-- The probes among some signals. -/
def probes (sent : List Signal) : Nat :=
  sent.countP fun s => s.probe?.isSome

/-- Some signal is a beacon. -/
def beacons (sent : List Signal) : Bool :=
  sent.any fun s => match s with
    | .beacon _ _ => true
    | _ => false

/-- The ledger after a turn. -/
def after (ka : KeepAlive) (w : Watch) (l : Ledger) (sent : List Signal) : Turn → Ledger
  | .line text t₁ _ =>
      { (if Watch.Evidence ka w (split text) then
          { l with evidence_at := t₁, unanswered := 0, heard := true }
        else
          l) with
        silent := false }
  | .poll now =>
      { l with
        probe_at := if probes sent = 0 then l.probe_at else now
        unanswered := l.unanswered + probes sent
        heard := l.heard && !beacons sent
        silent := l.silent || beacons sent
        polls := (if beacons sent then [] else l.polls) ++ [now]
        due_at := if beacons sent then max w.last_beacon_mark w.last_ping + ka.interval
          else l.due_at }

end Ledger

/-- A watch and its observer. -/
structure Observed where
  watch : Watch
  ledger : Ledger

namespace Observed

/-- A turn that is watched. -/
def step (ka : KeepAlive) (s : Observed) (turn : Turn) : Option (Observed × List Signal) :=
  (s.watch.step ka turn).map fun r =>
    ({ watch := r.1, ledger := s.ledger.after ka s.watch r.2 turn }, r.2)

/-- The read begins. -/
def start (o : Opening) : Observed where
  watch := Watch.start o
  ledger := Ledger.start o

/-- A run that is watched. -/
def run (ka : KeepAlive) (o : Opening) (turns : List Turn) : Option (Observed × List Signal) :=
  Machine.run (step ka) (start o, []) turns

variable {ka : KeepAlive} {o : Opening}

theorem step_eq_some
    {s s' : Observed} {turn : Turn} {sent : List Signal}
    (h : s.step ka turn = some (s', sent)) :
    s.watch.step ka turn = some (s'.watch, sent) ∧
      s'.ledger = s.ledger.after ka s.watch sent turn := by
  rw [step, Option.map_eq_some_iff] at h
  obtain ⟨⟨w', sent'⟩, hstep, heq⟩ := h
  cases heq
  exact ⟨hstep, rfl⟩

/-- Every turn of the watch can be watched. -/
theorem exists_step
    {s : Observed} {turn : Turn} {w' : Watch} {sent : List Signal}
    (h : s.watch.step ka turn = some (w', sent)) :
    ∃ s' : Observed, s.step ka turn = some (s', sent) ∧ s'.watch = w' := by
  rw [step, h]
  exact ⟨_, rfl, rfl⟩

/-- A property of a poll: of the state before it, its time, and what it does. -/
def AtPoll (P : Observed → Nat → Watch → List Signal → Prop) (s : Observed) :
    Turn → Observed → List Signal → Prop
  | .poll now, s', sent => P s now s'.watch sent
  | .line _ _ _, _, _ => True

instance (P : Observed → Nat → Watch → List Signal → Prop)
    [∀ s now w' sent, Decidable (P s now w' sent)] (s : Observed) :
    ∀ turn s' sent, Decidable (AtPoll P s turn s' sent)
  | .poll now, s', sent => inferInstanceAs (Decidable (P s now s'.watch sent))
  | .line _ _ _, _, _ => inferInstanceAs (Decidable True)

/-- A property of every poll of a run. -/
def EachPoll (ka : KeepAlive) (o : Opening) (turns : List Turn)
    (P : Observed → Nat → Watch → List Signal → Prop) : Prop :=
  Machine.Always (step ka) (AtPoll P) (start o) turns

instance (ka : KeepAlive) (o : Opening) (turns : List Turn)
    (P : Observed → Nat → Watch → List Signal → Prop)
    [∀ s now w' sent, Decidable (P s now w' sent)] :
    Decidable (EachPoll ka o turns P) :=
  inferInstanceAs (Decidable (Machine.Always _ _ _ _))

section Sent

open Ledger

variable {w : Watch} {now : Nat}

theorem probes_beaconSent :
    probes (w.beaconSent ka now) = 0 := by
  unfold Watch.beaconSent Watch.sendBeacon
  split <;> rfl

theorem probes_concat
    (p : Signal) (h : p.probe?.isSome = true) :
    probes (w.beaconSent ka now ++ [p]) = 1 := by
  have hnone : (w.beaconSent ka now).countP (fun s => s.probe?.isSome) = 0 :=
    probes_beaconSent
  rw [probes, List.countP_append, hnone, List.countP_singleton, if_pos h]

end Sent

/-- The ledger agrees with the watch. -/
structure Noted (ka : KeepAlive) (s : Observed) : Prop where
  evidence : s.watch.last_rx = s.ledger.evidence_at
  probe : s.watch.last_ping = s.ledger.probe_at
  /-- Only the diagnosis sends probes that `probes_sent` does not count, and it goes on until
  the peer gives evidence. -/
  counted : s.ledger.unanswered ≤ s.watch.probes_sent ∨
    (s.watch.beacon_waiting.isSome = true ∧
      s.watch.last_beacon_mark + ka.interval ≤ s.watch.clock)

theorem noted_start : Noted ka (start o) where
  evidence := rfl
  probe := rfl
  counted := Or.inl (Nat.le_refl 0)

theorem Noted.line
    {s s' : Observed} {text : Line} {t₁ t₂ : Nat} {sent : List Signal}
    (h : Noted ka s) (hstep : s.step ka (.line text t₁ t₂) = some (s', sent)) :
    Noted ka s' := by
  obtain ⟨hwatch, hledger⟩ := step_eq_some hstep
  obtain ⟨_, hclock, hordered, hw, _⟩ := Watch.step_line hwatch
  have hkind : Watch.LineKind ka s.watch text t₁ t₂ _ _ := Watch.line_cases
  rw [Ledger.after] at hledger
  refine ⟨?_, ?_, ?_⟩
  · rcases hkind.evidence with ⟨hev, hrx⟩ | ⟨hev, ending, heq⟩
    · rw [hledger, if_pos hev, hw]
      exact hrx
    · rw [hledger, if_neg hev, hw, heq]
      exact h.evidence
  · have hprobe : s'.ledger.probe_at = s.ledger.probe_at := by
      rw [hledger]
      split <;> rfl
    rw [hprobe, hw]
    exact hkind.last_ping.trans h.probe
  · rcases hkind.evidence with ⟨hev, hrx⟩ | ⟨hev, ending, heq⟩
    · rw [hledger, if_pos hev]
      exact Or.inl (Nat.zero_le _)
    · rw [hledger, if_neg hev, hw, heq]
      rcases h.counted with hcounted | ⟨hwaiting, hmark⟩
      · exact Or.inl hcounted
      · refine Or.inr ⟨hwaiting, ?_⟩
        have : s.watch.last_beacon_mark + ka.interval ≤ t₂ := by omega
        exact this

theorem Noted.poll
    {s s' : Observed} {now : Nat} {sent : List Signal}
    (h : Noted ka s) (hstep : s.step ka (.poll now) = some (s', sent)) :
    Noted ka s' := by
  obtain ⟨hwatch, hledger⟩ := step_eq_some hstep
  obtain ⟨hlive, hclock, hw, hsent⟩ := Watch.step_poll hwatch
  rw [Ledger.after] at hledger
  have hkind : Watch.PollKind ka s.watch now _ _ := Watch.poll_cases hlive
  rw [← hsent] at hkind
  have hinterval := ka.interval_pos
  -- The mark is old enough for the next poll too.
  have hlater : s.watch.last_beacon_mark + ka.interval ≤ s.watch.clock →
      s.watch.last_beacon_mark + ka.interval ≤ now := fun hmark => hmark.trans hclock
  rcases hkind.summary with ⟨ending, heq, hsame⟩ |
      ⟨p, id, _, _, ending, hdiagnosing, hp, hprobe, heq⟩ |
      ⟨p, id, _, ending, _, _, _, _, hp, hprobe, heq⟩
  · have hnone : Ledger.probes sent = 0 := by
      rw [hsame, probes_beaconSent]
    rw [hnone] at hledger
    rw [heq] at hw
    refine ⟨?_, ?_, ?_⟩
    · rw [hw, hledger]
      exact Watch.beaconed_last_rx.trans h.evidence
    · rw [hw, hledger]
      exact Watch.beaconed_last_ping.trans h.probe
    · rw [hw, hledger]
      refine h.counted.imp (fun hcounted => ?_) (fun ⟨hwaiting, hmark⟩ => ?_)
      · exact hcounted.trans Watch.beaconed_probes_sent.ge
      · exact ⟨Watch.beaconed_isSome hwaiting,
          (Nat.add_le_add_right Watch.beaconed_last_beacon_mark.le _).trans (hlater hmark)⟩
  · have hone : Ledger.probes sent = 1 := by
      rw [hprobe, probes_concat p (by rw [hp]; rfl)]
    rw [hone] at hledger
    rw [heq] at hw
    refine ⟨?_, ?_, ?_⟩
    · rw [hw, hledger]
      exact Watch.beaconed_last_rx.trans h.evidence
    · rw [hw, hledger]
      rfl
    · rw [hw, hledger]
      obtain ⟨hwaiting, hmark, _⟩ := Watch.diagnosing_iff.mp hdiagnosing
      refine Or.inr ⟨hwaiting, ?_⟩
      have hold : (s.watch.beaconed ka now).last_beacon_mark = s.watch.last_beacon_mark :=
        Watch.beaconed_last_beacon_mark
      have : (s.watch.beaconed ka now).last_beacon_mark + ka.interval ≤ now := by omega
      exact this
  · have hone : Ledger.probes sent = 1 := by
      rw [hprobe, probes_concat p (by rw [hp]; rfl)]
    rw [hone] at hledger
    rw [heq] at hw
    refine ⟨?_, ?_, ?_⟩
    · rw [hw, hledger]
      exact Watch.beaconed_last_rx.trans h.evidence
    · rw [hw, hledger]
      rfl
    · rw [hw, hledger]
      refine h.counted.imp (fun hcounted => ?_) (fun ⟨hwaiting, hmark⟩ => ?_)
      · exact Nat.succ_le_succ hcounted
      · exact ⟨Watch.beaconed_isSome hwaiting,
          (Nat.add_le_add_right Watch.beaconed_last_beacon_mark.le _).trans (hlater hmark)⟩

/-- `timeout` seconds passed since the peer gave evidence, and `retries` probes sent since
are unanswered. -/
def Overdue (ka : KeepAlive) (l : Ledger) (now : Nat) : Prop :=
  ka.timeout ≤ now - l.evidence_at ∧ ka.retries ≤ l.unanswered

instance (l : Ledger) (now : Nat) : Decidable (Overdue ka l now) :=
  inferInstanceAs (Decidable (_ ∧ _))

/-- The link is declared lost when it is overdue and a probe could be sent, and not before. -/
def DeclaresOverdue (ka : KeepAlive) (s : Observed) (now : Nat) (w' : Watch)
    (sent : List Signal) : Prop :=
  (w'.ending = some .lostRx → Overdue ka s.ledger now) ∧
    (Overdue ka s.ledger now → ka.interval ≤ now - s.ledger.probe_at →
      w'.ending = some .lostRx ∧ Ledger.probes sent = 0)

instance (s : Observed) (now : Nat) (w' : Watch) (sent : List Signal) :
    Decidable (DeclaresOverdue ka s now w' sent) :=
  inferInstanceAs (Decidable ((_ → _) ∧ (_ → _ → _)))

/-- When a probe could be sent, the diagnosis of a beacon is not in charge of an overdue link. -/
def Unclaimed (ka : KeepAlive) (s : Observed) (now : Nat) : Prop :=
  ka.interval ≤ now - s.ledger.probe_at → s.watch.diagnosing ka now = true →
    ¬ Overdue ka s.ledger now

instance (s : Observed) (now : Nat) : Decidable (Unclaimed ka s now) :=
  inferInstanceAs (Decidable (_ → _ → _))

/-- The idle PINGs take as long as the timeout, or a beacon falls due before they are used up. -/
def Unhurried (ka : KeepAlive) (o : Opening) : Prop :=
  ka.timeout ≤ (ka.retries + 1) * ka.interval ∨
    o.at_beacon + ka.beacon_interval ≤ o.at_ping + (ka.retries + 1) * ka.interval

/-- A HERE is accepted only while no idle PING is counted. -/
def Afresh (s : Observed) : Turn → Observed → List Signal → Prop
  | .line text _ _, _, _ =>
      isHere (split text) = true → s.watch.outstanding = some (word (split text) 1) →
        s.watch.probes_sent = 0
  | .poll _, _, _ => True

instance (s : Observed) : ∀ turn s' sent, Decidable (s.Afresh turn s' sent)
  | .line _ _ _, _, _ => inferInstanceAs (Decidable (_ → _ → _))
  | .poll _, _, _ => inferInstanceAs (Decidable True)

/-- No HERE is accepted while idle PINGs are counted. -/
def CountsAfresh (ka : KeepAlive) (o : Opening) (turns : List Turn) : Prop :=
  Machine.Always (step ka) Afresh (start o) turns

instance (ka : KeepAlive) (o : Opening) (turns : List Turn) :
    Decidable (CountsAfresh ka o turns) :=
  inferInstanceAs (Decidable (Machine.Always _ _ _ _))

/-- Outside a diagnosis every unanswered probe is an idle PING. -/
theorem Noted.unanswered_le
    {s : Observed} {now : Nat} (h : Noted ka s) (hclock : s.watch.clock ≤ now)
    (hdue : ka.interval ≤ now - s.watch.last_ping)
    (hdiagnosing : s.watch.diagnosing ka now = false) :
    s.ledger.unanswered ≤ s.watch.probes_sent := by
  rcases h.counted with hcounted | ⟨hwaiting, hmark⟩
  · exact hcounted
  · have hcharge : s.watch.diagnosing ka now = true :=
      Watch.diagnosing_iff.mpr ⟨Watch.beaconed_isSome hwaiting, by omega, hdue⟩
    rw [hcharge] at hdiagnosing
    cases hdiagnosing

/-- What a poll declares, at one poll: outside a diagnosis the idle PINGs may not be used up
before the link is overdue. -/
theorem declaresOverdue_iff
    {s : Observed} {now : Nat} {w' : Watch} {sent : List Signal}
    (hnoted : Noted ka s) (hstep : s.watch.step ka (.poll now) = some (w', sent))
    (hspent : ka.interval ≤ now - s.ledger.probe_at → s.watch.diagnosing ka now = false →
      ka.retries ≤ s.watch.probes_sent → Overdue ka s.ledger now) :
    DeclaresOverdue ka s now w' sent ↔ Unclaimed ka s now := by
  obtain ⟨hlive, hclock, hw, hsent⟩ := Watch.step_poll hstep
  have hkind : Watch.PollKind ka s.watch now _ _ := Watch.poll_cases hlive
  have hend : w'.ending = (s.watch.onPoll ka now).1.ending := by
    rw [hw]
  have hlost := hkind.lostRx_iff hlive
  rw [← hend] at hlost
  have hprobeDue : s.watch.probeDue ka now = true ↔ ka.interval ≤ now - s.ledger.probe_at := by
    rw [Watch.probeDue, decide_eq_true_eq, hnoted.probe]
  rw [hprobeDue, hnoted.evidence] at hlost
  constructor
  · rintro ⟨_, hall⟩ hdue hdiagnosing hover
    have := (hlost.mp (hall hover hdue).1).1
    rw [hdiagnosing] at this
    cases this
  · intro hunclaimed
    refine ⟨fun hdeclared => ?_, fun hover hdue => ?_⟩
    · obtain ⟨hdiagnosing, hdue, hcount, _⟩ := hlost.mp hdeclared
      exact hspent hdue hdiagnosing hcount
    · have hdiagnosing : s.watch.diagnosing ka now = false := by
        rw [← Bool.not_eq_true]
        exact fun hcharge => hunclaimed hdue hcharge hover
      have hcount : ka.retries ≤ s.watch.probes_sent :=
        hover.2.trans (hnoted.unanswered_le hclock (hnoted.probe ▸ hdue) hdiagnosing)
      have hdeclared := hlost.mpr ⟨hdiagnosing, hdue, hcount, Or.inl hover.1⟩
      refine ⟨hdeclared, ?_⟩
      rw [hsent, hkind.sent_of_lostRx hlive (hend ▸ hdeclared), probes_beaconSent]

/-- The idle PINGs counted are all unanswered, and `interval` seconds apart. -/
structure Paced (ka : KeepAlive) (s : Observed) : Prop where
  counted : s.watch.probes_sent ≤ s.ledger.unanswered
  spaced : s.watch.probes_sent = 0 ∨
    s.watch.last_rx + s.watch.probes_sent * ka.interval ≤ s.watch.last_ping
  past : s.watch.last_ping ≤ s.watch.clock

theorem paced_start : Paced ka (start o) where
  counted := Nat.le_refl 0
  spaced := Or.inl rfl
  past := (o.ordered.2.2.1).trans o.ordered.2.2.2

/-- A line keeps the count, unless it is a HERE that the count survives. -/
theorem Paced.line
    {s s' : Observed} {text : Line} {t₁ t₂ : Nat} {sent : List Signal}
    (h : Paced ka s) (hstep : s.step ka (.line text t₁ t₂) = some (s', sent))
    (hhere : isHere (split text) = true →
      s.watch.outstanding = some (word (split text) 1) → s.watch.probes_sent = 0) :
    Paced ka s' := by
  obtain ⟨hwatch, hledger⟩ := step_eq_some hstep
  obtain ⟨_, hclock, hordered, hw, _⟩ := Watch.step_line hwatch
  have hkind : Watch.LineKind ka s.watch text t₁ t₂ _ _ := Watch.line_cases
  have hpast : s'.watch.last_ping ≤ s'.watch.clock := by
    have hping := hkind.last_ping
    have := h.past
    rw [hw]
    dsimp only
    omega
  rw [Ledger.after] at hledger
  rcases hkind.evidence with ⟨hev, _⟩ | ⟨hev, ending, heq⟩
  · have hzero : s'.watch.probes_sent = 0 := by
      rw [hw]
      dsimp only
      generalize s.watch.onLine ka text t₁ t₂ = r at hkind ⊢
      obtain ⟨w', out⟩ := r
      cases hkind with
      | beacon | marked | marker | ping | pong => rfl
      | here hline hout => exact hhere hline hout
      | ignored hnone => exact absurd hev hnone
      | returned hnone => exact absurd hev hnone
    exact ⟨hzero ▸ Nat.zero_le _, Or.inl hzero, hpast⟩
  · refine ⟨?_, ?_, hpast⟩
    · rw [hledger, if_neg hev, hw, heq]
      exact h.counted
    · rw [hw, heq]
      exact h.spaced

theorem Paced.poll
    {s s' : Observed} {now : Nat} {sent : List Signal}
    (h : Paced ka s) (hstep : s.step ka (.poll now) = some (s', sent)) :
    Paced ka s' := by
  obtain ⟨hwatch, hledger⟩ := step_eq_some hstep
  obtain ⟨hlive, hclock, hw, hsent⟩ := Watch.step_poll hwatch
  rw [Ledger.after] at hledger
  have hkind : Watch.PollKind ka s.watch now _ _ := Watch.poll_cases hlive
  rw [← hsent] at hkind
  have hpast := h.past
  have hrx : (s.watch.beaconed ka now).last_rx = s.watch.last_rx :=
    Watch.beaconed_last_rx
  have hping : (s.watch.beaconed ka now).last_ping = s.watch.last_ping :=
    Watch.beaconed_last_ping
  have hprobes : (s.watch.beaconed ka now).probes_sent = s.watch.probes_sent :=
    Watch.beaconed_probes_sent
  rcases hkind.summary with ⟨ending, heq, hsame⟩ |
      ⟨p, id, _, _, ending, _, hp, hprobe, heq⟩ |
      ⟨p, id, _, ending, _, hdue, _, hidle, hp, hprobe, heq⟩
  · rw [hsame, probes_beaconSent] at hledger
    refine ⟨?_, ?_, ?_⟩
    · rw [hw, heq, hledger]
      exact hprobes.trans_le h.counted
    · rw [hw, heq]
      dsimp only
      rw [hprobes, hrx, hping]
      exact h.spaced
    · rw [hw, heq]
      dsimp only
      omega
  · rw [hprobe, probes_concat p (by rw [hp]; rfl)] at hledger
    refine ⟨?_, ?_, ?_⟩
    · rw [hw, heq, hledger]
      exact hprobes.trans_le (h.counted.trans (Nat.le_succ _))
    · rw [hw, heq]
      dsimp only
      rw [hprobes, hrx]
      exact h.spaced.imp_right fun hspaced => hspaced.trans (hpast.trans hclock)
    · rw [hw, heq]
  · rw [hprobe, probes_concat p (by rw [hp]; rfl)] at hledger
    have hlate : ka.interval ≤ now - s.watch.last_ping := by
      simpa [Watch.probeDue] using hdue
    have hinterval := ka.interval_pos
    refine ⟨?_, Or.inr ?_, ?_⟩
    · rw [hw, heq, hledger]
      exact Nat.succ_le_succ h.counted
    · rw [hw, heq]
      dsimp only
      rw [hrx, Nat.succ_mul]
      rcases h.spaced with hzero | hspaced
      · rw [hzero]
        omega
      · omega
    · rw [hw, heq]

/-- When the idle PINGs are used up, `(retries + 1) * interval` seconds have passed. -/
theorem Paced.overdue
    {s : Observed} {now : Nat} (h : Paced ka s) (hnoted : Noted ka s)
    (htimeout : ka.timeout ≤ (ka.retries + 1) * ka.interval)
    (hdue : ka.interval ≤ now - s.ledger.probe_at)
    (hspent : ka.retries ≤ s.watch.probes_sent) :
    Overdue ka s.ledger now := by
  refine ⟨?_, hspent.trans h.counted⟩
  have hretries := ka.retries_pos
  have hinterval := ka.interval_pos
  rcases h.spaced with hzero | hspaced
  · omega
  · have hmul : ka.retries * ka.interval ≤ s.watch.probes_sent * ka.interval :=
      Nat.mul_le_mul_right _ hspent
    rw [hnoted.evidence, hnoted.probe] at hspaced
    rw [Nat.succ_mul] at htimeout
    omega

/-- What leads to a beacon before the idle PINGs are used up. -/
structure BeaconsAhead (ka : KeepAlive) (s : Observed) : Prop where
  quiet : s.watch.beacon_waiting = none → s.watch.marker_probes = 0
  recent : s.watch.beacon_waiting = none → s.watch.last_beacon ≤ s.watch.last_rx ∨
    s.watch.last_beacon + ka.beacon_interval ≤ s.watch.last_ping + (ka.retries + 1) * ka.interval
  counted : s.watch.beacon_waiting = none → s.watch.probes_sent = 0 ∨
    s.watch.last_beacon + s.watch.probes_sent * ka.interval + ka.beacon_interval ≤
      s.watch.last_ping + (ka.retries + 1) * ka.interval
  marked : s.watch.probes_sent = 0 ∨ s.watch.last_beacon_mark ≤ s.watch.last_ping
  past : s.watch.last_rx ≤ s.watch.clock ∧ s.watch.last_beacon ≤ s.watch.clock ∧
    s.watch.last_beacon_mark ≤ s.watch.clock

theorem beaconsAhead_start
    (hahead : o.at_beacon + ka.beacon_interval ≤ o.at_ping + (ka.retries + 1) * ka.interval) :
    BeaconsAhead ka (start o) where
  quiet := fun _ => rfl
  recent := fun _ => Or.inr hahead
  counted := fun _ => Or.inl rfl
  marked := Or.inl rfl
  past := by
    have := o.ordered
    simp only [start, Watch.start]
    omega

theorem BeaconsAhead.line
    {s s' : Observed} {text : Line} {t₁ t₂ : Nat} {sent : List Signal}
    (h : BeaconsAhead ka s) (hstep : s.step ka (.line text t₁ t₂) = some (s', sent))
    (hhere : isHere (split text) = true →
      s.watch.outstanding = some (word (split text) 1) → s.watch.probes_sent = 0) :
    BeaconsAhead ka s' := by
  obtain ⟨hclock, hordered, hw⟩ : s.watch.clock ≤ t₁ ∧ t₁ ≤ t₂ ∧ _ :=
    let hline := Watch.step_line (step_eq_some hstep).1
    ⟨hline.2.1, hline.2.2.1, hline.2.2.2.1⟩
  have hkind : Watch.LineKind ka s.watch text t₁ t₂ _ _ := Watch.line_cases
  obtain ⟨hquiet, hrecent, hcounted, hmarked, hpast⟩ := h
  generalize s.watch.onLine ka text t₁ t₂ = r at hkind hw
  obtain ⟨w', out⟩ := r
  -- A line that counts as evidence is younger than every beacon.
  have hyoung : s.watch.last_beacon ≤ t₁ := hpast.2.1.trans hclock
  cases hkind with
  | beacon | marker | ping =>
      refine ⟨?_, fun _ => ?_, fun _ => ?_, ?_, ?_⟩ <;> rw [hw]
      · exact hquiet
      · exact Or.inl hyoung
      · exact Or.inl rfl
      · exact Or.inl rfl
      · dsimp only
        omega
  | marked | pong =>
      refine ⟨fun _ => congrArg Watch.marker_probes hw, fun _ => ?_, fun _ => ?_, ?_, ?_⟩ <;> rw [hw]
      · exact Or.inl (by simp only [Watch.confirm]; omega)
      · exact Or.inl rfl
      · exact Or.inl rfl
      · simp only [Watch.confirm]
        omega
  | here hline hout =>
      have hzero := hhere hline hout
      refine ⟨fun _ => congrArg Watch.marker_probes hw, fun _ => ?_, fun _ => ?_, ?_, ?_⟩ <;> rw [hw]
      · exact Or.inl (Nat.le_refl t₁)
      · exact Or.inl hzero
      · exact Or.inl hzero
      · dsimp only
        omega
  | ignored | returned =>
      refine ⟨?_, ?_, ?_, ?_, ?_⟩ <;> rw [hw]
      · exact hquiet
      · exact hrecent
      · exact hcounted
      · exact hmarked
      · have hlater : s.watch.clock ≤ t₂ := hclock.trans hordered
        exact ⟨hpast.1.trans hlater, hpast.2.1.trans hlater, hpast.2.2.trans hlater⟩

theorem BeaconsAhead.poll
    {s s' : Observed} {now : Nat} {sent : List Signal} (h : BeaconsAhead ka s)
    (hbeacons : ka.beacon_interval ≤ (ka.retries + 1) * ka.interval)
    (hstep : s.step ka (.poll now) = some (s', sent)) :
    BeaconsAhead ka s' := by
  obtain ⟨hlive, hclock, hw, _⟩ := Watch.step_poll (step_eq_some hstep).1
  have hkind : Watch.PollKind ka s.watch now _ _ := Watch.poll_cases hlive
  obtain ⟨hquiet, hrecent, hcounted, hmarked, hpast⟩ := h
  have hrx : (s.watch.beaconed ka now).last_rx = s.watch.last_rx := Watch.beaconed_last_rx
  have hping : (s.watch.beaconed ka now).last_ping = s.watch.last_ping := Watch.beaconed_last_ping
  have hmark : (s.watch.beaconed ka now).last_beacon_mark = s.watch.last_beacon_mark :=
    Watch.beaconed_last_beacon_mark
  have hprobes : (s.watch.beaconed ka now).probes_sent = s.watch.probes_sent :=
    Watch.beaconed_probes_sent
  have hlast : (s.watch.beaconed ka now).last_beacon ≤ now :=
    Watch.beaconed_last_beacon_le (hpast.2.1.trans hclock)
  rcases hkind.summary with ⟨ending, heq, _⟩ |
      ⟨p, id, ping_bit, ayt_bit, ending, hdiagnosing, _, _, heq⟩ |
      ⟨p, id, ping_bit, ending, _, hdue, _, hidle, _, _, heq⟩ <;> rw [heq] at hw
  · refine ⟨fun hnone => ?_, fun hnone => ?_, fun hnone => ?_, ?_, ?_⟩ <;> rw [hw] at *
    · rw [Watch.beaconed_of_none hnone]
      exact hquiet (Watch.beaconed_of_none hnone ▸ hnone)
    · rw [Watch.beaconed_of_none hnone]
      exact hrecent (Watch.beaconed_of_none hnone ▸ hnone)
    · rw [Watch.beaconed_of_none hnone]
      exact hcounted (Watch.beaconed_of_none hnone ▸ hnone)
    · dsimp only
      rw [hprobes, hmark, hping]
      exact hmarked
    · dsimp only
      omega
  · -- The diagnosis has a beacon that waits.
    have hwaiting := (Watch.diagnosing_iff.mp hdiagnosing).1
    refine ⟨fun hnone => ?_, fun hnone => ?_, fun hnone => ?_, ?_, ?_⟩ <;> rw [hw] at *
    · exact absurd hnone (Option.isSome_iff_ne_none.mp hwaiting)
    · exact absurd hnone (Option.isSome_iff_ne_none.mp hwaiting)
    · exact absurd hnone (Option.isSome_iff_ne_none.mp hwaiting)
    · exact Or.inr (by dsimp only; omega)
    · dsimp only
      omega
  · have hlate : ka.interval ≤ now - s.watch.last_ping := by
      simpa [Watch.probeDue] using hdue
    have hinterval := ka.interval_pos
    refine ⟨fun hnone => ?_, fun hnone => ?_, fun hnone => ?_, ?_, ?_⟩ <;> rw [hw] at *
    · rw [Watch.beaconed_of_none hnone]
      exact hquiet (Watch.beaconed_of_none hnone ▸ hnone)
    · rw [Watch.beaconed_of_none hnone]
      rcases hrecent (Watch.beaconed_of_none hnone ▸ hnone) with hle | hle
      · exact Or.inl hle
      · exact Or.inr (by dsimp only; omega)
    · right
      dsimp only at hnone ⊢
      rw [Watch.beaconed_of_none hnone]
      have hnone' : s.watch.beacon_waiting = none := Watch.beaconed_of_none hnone ▸ hnone
      rw [Nat.succ_mul]
      rcases hcounted hnone' with hzero | hle
      · rw [hzero]
        rcases hrecent hnone' with hle | hle <;> omega
      · omega
    · exact Or.inr (by dsimp only; omega)
    · dsimp only
      omega

/-- When the idle PINGs are used up, the diagnosis of a beacon is in charge. -/
theorem BeaconsAhead.diagnosing
    {s : Observed} {now : Nat} (h : BeaconsAhead ka s)
    (hdue : ka.interval ≤ now - s.watch.last_ping) (hspent : ka.retries ≤ s.watch.probes_sent) :
    s.watch.diagnosing ka now = true := by
  have hretries := ka.retries_pos
  have hinterval := ka.interval_pos
  have hsent : s.watch.probes_sent ≠ 0 := by omega
  have hmark := h.marked.resolve_left hsent
  refine Watch.diagnosing_iff.mpr ⟨?_, by omega, hdue⟩
  cases hwaiting : s.watch.beacon_waiting with
  | some bit => exact Watch.beaconed_isSome (by rw [hwaiting]; rfl)
  | none =>
      have hcounted := (h.counted hwaiting).resolve_left hsent
      have hmul : ka.retries * ka.interval ≤ s.watch.probes_sent * ka.interval :=
        Nat.mul_le_mul_right _ hspent
      rw [Nat.succ_mul] at hcounted
      exact Watch.beaconed_of_due (h.quiet hwaiting) hwaiting (by omega)

end Observed

open Observed

/-- Where the idle PINGs are not used up too soon, a run declares the link lost exactly when it is
overdue, if and only if no diagnosis is in charge of an overdue link. -/
theorem declares_overdue_of_unhurried
    {ka : KeepAlive} {o : Opening} {turns : List Turn}
    (hunhurried : Unhurried ka o) (hafresh : CountsAfresh ka o turns) :
    EachPoll ka o turns (DeclaresOverdue ka) ↔
      EachPoll ka o turns (fun s now _ _ => Unclaimed ka s now) := by
  rcases hunhurried with htimeout | hahead
  · refine Machine.always_iff_of_always (fun s => Noted ka s ∧ Paced ka s) ?_
      ⟨noted_start, paced_start⟩ hafresh
    rintro s (⟨text, t₁, t₂⟩ | ⟨now⟩) s' sent ⟨hnoted, hpaced⟩ hstep hfresh
    · exact ⟨Iff.rfl, hnoted.line hstep, hpaced.line hstep hfresh⟩
    · exact ⟨declaresOverdue_iff hnoted (step_eq_some hstep).1
        (fun hdue _ hcount => hpaced.overdue hnoted htimeout hdue hcount),
        hnoted.poll hstep, hpaced.poll hstep⟩
  · have hordered := o.ordered
    refine Machine.always_iff_of_always (fun s => Noted ka s ∧ BeaconsAhead ka s) ?_
      ⟨noted_start, beaconsAhead_start hahead⟩ hafresh
    rintro s (⟨text, t₁, t₂⟩ | ⟨now⟩) s' sent ⟨hnoted, hbeacons⟩ hstep hfresh
    · exact ⟨Iff.rfl, hnoted.line hstep, hbeacons.line hstep hfresh⟩
    · refine ⟨declaresOverdue_iff hnoted (step_eq_some hstep).1 (fun hdue hdiagnosing hcount => ?_),
        hnoted.poll hstep, hbeacons.poll (by omega) hstep⟩
      rw [hbeacons.diagnosing (hnoted.probe ▸ hdue) hcount] at hdiagnosing
      cases hdiagnosing

/-- A run that is silent at these times. -/
def silence (times : List Nat) : List Turn :=
  times.map .poll

/-- A read of so many seconds that begins at time zero, with all bits at zero. -/
def readFor (timeout : Nat) : Opening :=
  { hourOpening with
    timeout
    ordered := hourOpening.ordered }

/-- `n` idle PINGs were sent, `interval` seconds apart, and nothing else happened. -/
structure Idling (ka : KeepAlive) (n : Nat) (s : Observed) : Prop where
  live : s.watch.ending = none
  rx : s.watch.last_rx = 0
  beacon : s.watch.last_beacon = 0
  waiting : s.watch.beacon_waiting = none
  ping : s.watch.last_ping = n * ka.interval
  clock : s.watch.clock = n * ka.interval
  counted : s.watch.probes_sent = n
  deadline : s.watch.deadline = (ka.retries + 2) * ka.interval

/-- No beacon is due, so that no diagnosis is in charge. -/
theorem Idling.not_diagnosing
    {ka : KeepAlive} {n now : Nat} {s : Observed} (h : Idling ka n s)
    (hrare : now < ka.beacon_interval) :
    s.watch.beaconed ka now = s.watch ∧ s.watch.diagnosing ka now = false := by
  have hnone : s.watch.beaconed ka now = s.watch :=
    Watch.beaconed_of_not_due (by rw [h.beacon]; omega)
  refine ⟨hnone, ?_⟩
  rw [← Bool.not_eq_true, Watch.diagnosing_iff, hnone, h.waiting]
  rintro ⟨hwaiting, _⟩
  cases hwaiting

/-- The next idle PING. -/
theorem Idling.next
    {ka : KeepAlive} {n : Nat} {s : Observed} (h : Idling ka n s)
    (hrare : (ka.retries + 1) * ka.interval < ka.beacon_interval) (hn : n < ka.retries) :
    ∃ s' sent, s.step ka (.poll ((n + 1) * ka.interval)) = some (s', sent) ∧
      Idling ka (n + 1) s' := by
  have hinterval := ka.interval_pos
  have hmul : (n + 1) * ka.interval ≤ ka.retries * ka.interval := Nat.mul_le_mul_right _ hn
  have hsucc : (n + 1) * ka.interval = n * ka.interval + ka.interval := Nat.succ_mul _ _
  have hlimit : (ka.retries + 1) * ka.interval = ka.retries * ka.interval + ka.interval :=
    Nat.succ_mul _ _
  have hend : (ka.retries + 2) * ka.interval = (ka.retries + 1) * ka.interval + ka.interval :=
    Nat.succ_mul _ _
  have hearly : (n + 1) * ka.interval < ka.beacon_interval := by omega
  obtain ⟨hsame, hquiet⟩ := h.not_diagnosing hearly
  have hdue : s.watch.probeDue ka ((n + 1) * ka.interval) = true := by
    rw [Watch.probeDue, decide_eq_true_eq, h.ping]
    omega
  have hidle : ka.interval ≤ (n + 1) * ka.interval - s.watch.last_rx := by
    rw [h.rx]
    omega
  have hstep : s.watch.step ka (.poll ((n + 1) * ka.interval)) = some _ :=
    Watch.step_poll_of h.live (by rw [h.clock]; omega)
  have hkind : Watch.PollKind ka s.watch ((n + 1) * ka.interval) _ _ := Watch.poll_cases h.live
  have hnext := hkind.idled hquiet hdue (h.counted.trans_lt hn) hidle (by rw [h.deadline]; omega)
  rw [hsame] at hnext
  rw [hnext] at hstep
  obtain ⟨s', hs', hw⟩ := exists_step hstep
  refine ⟨s', _, hs', ?_⟩
  constructor <;> rw [hw]
  · exact h.live
  · exact h.rx
  · exact h.beacon
  · exact h.waiting
  · rfl
  · exact congrArg (· + 1) h.counted
  · exact h.deadline

/-- The loss that follows the last of them. -/
theorem Idling.lost
    {ka : KeepAlive} {s : Observed} (h : Idling ka ka.retries s)
    (hrare : (ka.retries + 1) * ka.interval < ka.beacon_interval) :
    ∃ s' sent, s.step ka (.poll ((ka.retries + 1) * ka.interval)) = some (s', sent) ∧
      s'.watch.ending = some .lostRx := by
  have hsucc : (ka.retries + 1) * ka.interval = ka.retries * ka.interval + ka.interval :=
    Nat.succ_mul _ _
  obtain ⟨_, hquiet⟩ := h.not_diagnosing hrare
  have hstep : s.watch.step ka (.poll ((ka.retries + 1) * ka.interval)) = some _ :=
    Watch.step_poll_of h.live (by rw [h.clock]; omega)
  have hkind : Watch.PollKind ka s.watch ((ka.retries + 1) * ka.interval) _ _ :=
    Watch.poll_cases h.live
  obtain ⟨s', hs', hw⟩ := exists_step hstep
  refine ⟨s', _, hs', hw ▸ (hkind.lostRx_iff h.live).mpr ⟨hquiet, ?_, ?_, ?_⟩⟩
  · rw [Watch.probeDue, decide_eq_true_eq, h.ping]
    omega
  · exact h.counted.ge
  · rw [h.rx]
    omega

/-- A silent read whose idle PINGs are used up before the timeout, and before a beacon falls
due. -/
theorem Idling.silence
    {ka : KeepAlive} {n : Nat} {s : Observed} (h : Idling ka n s) (hn : n ≤ ka.retries)
    (htimeout : (ka.retries + 1) * ka.interval < ka.timeout)
    (hrare : (ka.retries + 1) * ka.interval < ka.beacon_interval) :
    ∃ times, (∀ t ∈ times, t ≤ (ka.retries + 1) * ka.interval) ∧
      ¬ Machine.Always (step ka) (AtPoll (DeclaresOverdue ka)) s (Pcutp.silence times) := by
  induction hleft : ka.retries - n generalizing n s with
  | zero =>
      obtain rfl : n = ka.retries := by omega
      obtain ⟨s', sent, hstep, hlost⟩ := h.lost hrare
      refine ⟨[(ka.retries + 1) * ka.interval], by simp, fun halways => ?_⟩
      obtain ⟨hdeclares, _⟩ := (Machine.always_cons_some hstep).mp halways
      have hover := (hdeclares.1 hlost).1
      omega
  | succ left ih =>
      obtain ⟨s', sent, hstep, hnext⟩ := h.next hrare (by omega)
      obtain ⟨times, htimes, hbroken⟩ := ih hnext (by omega) (by omega)
      have hmul : (n + 1) * ka.interval ≤ (ka.retries + 1) * ka.interval :=
        Nat.mul_le_mul_right _ (by omega)
      refine ⟨(n + 1) * ka.interval :: times, ?_, fun halways => hbroken ?_⟩
      · intro t ht
        rcases List.mem_cons.mp ht with rfl | ht
        · exact hmul
        · exact htimes t ht
      · exact ((Machine.always_cons_some hstep).mp halways).2

/-- Before the timeout no link is overdue, and a silent read accepts nothing. -/
theorem unclaimed_of_early
    {ka : KeepAlive} (o : Opening) {times : List Nat} (h : ∀ t ∈ times, t < ka.timeout) :
    CountsAfresh ka o (silence times) ∧
      EachPoll ka o (silence times) (fun s now _ _ => Unclaimed ka s now) := by
  unfold CountsAfresh EachPoll
  generalize start o = s
  induction times generalizing s with
  | nil => exact ⟨trivial, trivial⟩
  | cons t times ih =>
      obtain ⟨ht, htimes⟩ := List.forall_mem_cons.mp h
      cases hstep : s.step ka (.poll t) with
      | none => exact ⟨Machine.always_cons_none hstep, Machine.always_cons_none hstep⟩
      | some next =>
          obtain ⟨s', sent⟩ := next
          obtain ⟨hafresh, hunclaimed⟩ := ih htimes s'
          refine ⟨(Machine.always_cons_some hstep).mpr ⟨trivial, hafresh⟩,
            (Machine.always_cons_some hstep).mpr ⟨fun _ _ hover => ?_, hunclaimed⟩⟩
          have := hover.1
          omega

/-- A run declares the link lost exactly when it is overdue, if and only if no diagnosis is in
charge of an overdue link; this for a read whose idle PINGs last as long as the timeout or longer
than a beacon is away, and that accepts no HERE while they are counted.  With idle PINGs that are
used up sooner some silent read declares a loss too early. -/
theorem declares_overdue_iff
    (ka : KeepAlive) :
    (∀ o turns, Unhurried ka o → CountsAfresh ka o turns →
      (EachPoll ka o turns (DeclaresOverdue ka) ↔
        EachPoll ka o turns (fun s now _ _ => Unclaimed ka s now))) ∧
    ((ka.retries + 1) * ka.interval < ka.timeout →
      (ka.retries + 1) * ka.interval < ka.beacon_interval →
        ∃ o turns, CountsAfresh ka o turns ∧
          EachPoll ka o turns (fun s now _ _ => Unclaimed ka s now) ∧
          ¬ EachPoll ka o turns (DeclaresOverdue ka)) := by
  refine ⟨fun _ _ => declares_overdue_of_unhurried, fun htimeout hrare => ?_⟩
  have hstart : Idling ka 0 (start (readFor ((ka.retries + 2) * ka.interval))) :=
    { live := rfl
      rx := rfl
      beacon := rfl
      waiting := rfl
      ping := (Nat.zero_mul _).symm
      clock := (Nat.zero_mul _).symm
      counted := rfl
      deadline := Nat.zero_add _ }
  obtain ⟨times, htimes, hbroken⟩ := hstart.silence (Nat.zero_le _) htimeout hrare
  obtain ⟨hafresh, hunclaimed⟩ := unclaimed_of_early
    (readFor ((ka.retries + 2) * ka.interval)) fun t ht => (htimes t ht).trans_lt htimeout
  exact ⟨_, silence times, hafresh, hunclaimed, hbroken⟩

/-- The default parameters but for rare beacons. -/
def rareBeacons : KeepAlive :=
  { defaultKeepAlive with
    beacon_interval := 100
    beacon_interval_pos := by decide }

/-- One PING is answered, and then three are not. -/
def answeredOnce : List Turn :=
  [.poll 5, .line "PONG 0".toList 6 6, .poll 11, .poll 16, .poll 21, .poll 25, .poll 26]

theorem declares_overdue_answered_once :
    (∃ s out, run rareBeacons hourOpening answeredOnce = some (s, out) ∧
      s.watch.ending = some .lostRx) ∧
    EachPoll rareBeacons hourOpening answeredOnce (DeclaresOverdue rareBeacons) := by
  have hrun : (run rareBeacons hourOpening answeredOnce).any
      (fun r => decide (r.1.watch.ending = some .lostRx)) = true := by
    decide +kernel
  rw [Option.any_eq_true] at hrun
  obtain ⟨⟨s, out⟩, hrun, hlost⟩ := hrun
  exact ⟨⟨s, out, hrun, of_decide_eq_true hlost⟩,
    ((declares_overdue_iff rareBeacons).1 hourOpening answeredOnce (Or.inl (by decide))
      (by decide +kernel)).mpr (by decide +kernel)⟩

/-- The default parameters but for a timeout of a minute and rare beacons. -/
def patientKeepAlive : KeepAlive :=
  { defaultKeepAlive with
    timeout := 60
    beacon_interval := 100
    timeout_pos := by decide
    beacon_interval_pos := by decide }

/-- By default a silent link is probed again when it is overdue; with a longer timeout it is
declared lost when it is not. -/
theorem silence_declared_late_and_early :
    ¬ EachPoll defaultKeepAlive hourOpening (silence [4, 5, 10, 15, 20])
        (DeclaresOverdue defaultKeepAlive) ∧
      ¬ EachPoll patientKeepAlive hourOpening (silence [5, 10, 15, 20])
        (DeclaresOverdue patientKeepAlive) := by
  constructor <;> decide +kernel

end Pcutp
