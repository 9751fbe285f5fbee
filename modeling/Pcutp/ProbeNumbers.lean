import Pcutp.KeepAlive

/-!
# How the probes of a diagnosis are numbered

The alternating bits of PING and AYT? live in the link, across reads, while
what is outstanding and the timers live in one read.  A diagnosis begins with
the first probe that is sent while none is outstanding; it ends when a MARK, a
PONG or a HERE clears the outstanding probe.

A PONG and a HERE put both bits back to zero.  A MARK does not, so a diagnosis
starts at zero as long as no MARK ends one while a bit is set.
-/

namespace Pcutp

/-- A link that is read again and again: the read that runs or ran last, and the diagnosis. -/
structure Reads where
  ka : KeepAlive
  watch : Watch
  /-- The probes that were sent since none was outstanding. -/
  probes : List Signal
  /-- One of them is the PING of an idle link. -/
  idle : Bool

/-- What can happen to a link that is kept alive. -/
inductive ReadsEvent
  | turn (turn : Turn)
  /-- `recv_line` is called again; the bits of the opening are those of the link. -/
  | call (ka : KeepAlive) (o : Opening)
  /-- `reset_session`, between two reads. -/
  | reset_session

/-- The probes of the diagnosis of an unconfirmed beacon. -/
def diagnosisProbe : Nat → Signal
  | 0 => .ping false
  | 1 => .ping true
  | n + 2 => .ayt (n % 2 == 1)

/-- The bit of the next PING of a diagnosis that has sent `n` probes. -/
def pingBitAfter (n : Nat) : Bool :=
  n == 1

/-- The bit of its next AYT?. -/
def aytBitAfter (n : Nat) : Bool :=
  decide (2 ≤ n) && n % 2 == 1

theorem diagnosisProbe_ping
    {n : Nat} (h : n < 2) :
    diagnosisProbe n = .ping (pingBitAfter n) ∧ pingBitAfter (n + 1) = !pingBitAfter n ∧
      aytBitAfter (n + 1) = aytBitAfter n := by
  obtain rfl | rfl : n = 0 ∨ n = 1 := by omega
  · decide
  · decide

theorem diagnosisProbe_ayt
    {n : Nat} (h : 2 ≤ n) :
    diagnosisProbe n = .ayt (aytBitAfter n) ∧ pingBitAfter (n + 1) = pingBitAfter n ∧
      aytBitAfter (n + 1) = !aytBitAfter n := by
  obtain ⟨k, rfl⟩ := Nat.exists_eq_add_of_le' h
  have hparity := Nat.mod_two_eq_zero_or_one k
  refine ⟨?_, ?_, ?_⟩
  · simp [diagnosisProbe, aytBitAfter]
  · simp [pingBitAfter]
  · rcases hparity with hk | hk <;> simp [aytBitAfter, Nat.add_mod, hk]

/-- A MARK for the beacon that waits. -/
def Watch.marks (ka : KeepAlive) (w : Watch) (parts : List Line) : Bool :=
  isMarker parts && word parts 1 == ka.beacon_rx && word parts 2 == ka.beacon_tx &&
    w.beacon_waiting == some (bitOf (word parts 3))

/-- Both probe counters are at zero. -/
def Watch.AtZero (w : Watch) : Prop :=
  w.ping_bit = false ∧ w.ayt_bit = false

instance (w : Watch) : Decidable w.AtZero :=
  inferInstanceAs (Decidable (_ ∧ _))

namespace Reads

/-- The diagnosis after a turn that led to `w` and sent `sent`. -/
def after (s : Reads) (w : Watch) (sent : List Signal) : Reads :=
  if w.outstanding = none then
    { s with watch := w, probes := [], idle := false }
  else
    { s with
      watch := w
      probes := s.probes ++ sent.filter fun p => p.probe?.isSome
      idle := s.idle || decide (s.watch.probes_sent < w.probes_sent) }

/-- One event. -/
def step (s : Reads) : ReadsEvent → Option (Reads × List Signal)
  | .turn turn => (s.watch.step s.ka turn).map fun r => (s.after r.1 r.2, r.2)
  | .call ka o =>
      if s.watch.ending.isSome = true ∧ s.watch.clock ≤ o.at_deadline then
        some
          ({ ka
             watch := Watch.start
              { o with
                ping_bit := s.watch.ping_bit
                ayt_bit := s.watch.ayt_bit
                beacon_bit := s.watch.beacon_bit
                peer_beacon_bit := s.watch.peer_beacon_bit }
             probes := []
             idle := false }, [])
      else
        none
  | .reset_session =>
      if s.watch.ending.isSome = true then
        -- What was outstanding went with the variables of the read that ended.
        some
          ({ s with
              watch :=
                { s.watch with
                  outstanding := none
                  marker_probes := 0
                  ping_bit := false
                  ayt_bit := false
                  beacon_bit := false
                  peer_beacon_bit := false }
              probes := []
              idle := false }, [])
      else
        none

/-- The first read of a new link. -/
def start (ka : KeepAlive) (o : Opening) : Reads where
  ka
  watch := Watch.start
    { o with ping_bit := false, ayt_bit := false, beacon_bit := false, peer_beacon_bit := false }
  probes := []
  idle := false

/-- No read ends in the middle of a diagnosis. -/
def EvidenceEnds (s : Reads) (e : ReadsEvent) : Prop :=
  match e with
  | .call _ _ => s.watch.outstanding = none
  | _ => True

/-- A MARK confirms the waiting beacon only while both counters are at zero. -/
def MarksAtZero (s : Reads) (e : ReadsEvent) : Prop :=
  match e with
  | .turn (.line text _ _) => s.watch.marks s.ka (split text) = true → s.watch.AtZero
  | _ => True

/-- A probe that is sent while none is outstanding finds both counters at zero. -/
def StartsAtZero (s : Reads) (sent : List Signal) : Prop :=
  s.watch.outstanding = none → (sent.any fun p => p.probe?.isSome) = true → s.watch.AtZero

/-- The probes of a diagnosis are PING 0, PING 1, AYT? 0, AYT? 1 and so on, in that order; the
PING of an idle link is of the other scheme. -/
def InOrder (s : Reads) : Prop :=
  s.idle = false → s.probes = (List.range s.probes.length).map diagnosisProbe

instance (s : Reads) (e : ReadsEvent) : Decidable (EvidenceEnds s e) :=
  match e with
  | .turn _ => .isTrue trivial
  | .call _ _ => inferInstanceAs (Decidable (s.watch.outstanding = none))
  | .reset_session => .isTrue trivial

instance (s : Reads) (e : ReadsEvent) : Decidable (MarksAtZero s e) :=
  match e with
  | .turn (.line text _ _) =>
      inferInstanceAs (Decidable (s.watch.marks s.ka (split text) = true → s.watch.AtZero))
  | .turn (.poll _) => .isTrue trivial
  | .call _ _ => .isTrue trivial
  | .reset_session => .isTrue trivial

instance (s : Reads) (sent : List Signal) : Decidable (StartsAtZero s sent) :=
  inferInstanceAs (Decidable (_ → _ → _))

instance (s : Reads) : Decidable (InOrder s) :=
  inferInstanceAs (Decidable (_ → _))

end Reads

namespace Watch

variable {ka : KeepAlive} {w : Watch}

@[simp] theorem beaconed_ping_bit (now : Nat) :
    (w.beaconed ka now).ping_bit = w.ping_bit := by
  unfold beaconed sendBeacon
  split <;> rfl

@[simp] theorem beaconed_ayt_bit (now : Nat) :
    (w.beaconed ka now).ayt_bit = w.ayt_bit := by
  unfold beaconed sendBeacon
  split <;> rfl

/-- What a line does to the diagnosis. -/
inductive LineEffect (ka : KeepAlive) (w : Watch) (parts : List Line) (v : Watch) : Prop
  | none
      (houtstanding : v.outstanding = w.outstanding) (hping : v.ping_bit = w.ping_bit)
      (hayt : v.ayt_bit = w.ayt_bit) (hmarker : v.marker_probes = w.marker_probes)
      (hidle : v.probes_sent ≤ w.probes_sent)
  /-- A MARK ends it and leaves the counters. -/
  | marked
      (hmarks : w.marks ka parts = true) (houtstanding : v.outstanding = .none)
      (hping : v.ping_bit = w.ping_bit) (hayt : v.ayt_bit = w.ayt_bit)
      (hmarker : v.marker_probes = 0)
  /-- A PONG or a HERE ends it. -/
  | answered (houtstanding : v.outstanding = .none) (hzero : v.AtZero)
      (hmarker : v.marker_probes = 0)

/-- The last reading of the clock has no part in it. -/
theorem LineEffect.at_clock
    {parts : List Line} {v : Watch} (h : LineEffect ka w parts v) (now : Nat) :
    LineEffect ka w parts { v with clock := now } := by
  cases h with
  | none houtstanding hping hayt hmarker hidle =>
      exact .none houtstanding hping hayt hmarker hidle
  | marked hmarks houtstanding hping hayt hmarker =>
      exact .marked hmarks houtstanding hping hayt hmarker
  | answered houtstanding hzero hmarker => exact .answered houtstanding hzero hmarker

theorem onPeerBeacon_effect
    (parts : List Line) (t₁ t₂ : Nat) (hrx : word parts 1 = ka.beacon_rx) :
    LineEffect ka w parts (w.onPeerBeacon ka parts t₁ t₂).1 := by
  unfold onPeerBeacon
  dsimp only
  split_ifs with hmarker hmarked
  · refine .marked ?_ rfl rfl rfl rfl
    simp [marks, hmarker, hrx, hmarked.1, hmarked.2]
  · exact .none rfl rfl rfl rfl (Nat.zero_le _)
  · exact .none rfl rfl rfl rfl (Nat.zero_le _)
  · exact .none rfl rfl rfl rfl (Nat.zero_le _)

/-- Every line has one of the effects. -/
theorem line_effect (text : Line) (t₁ t₂ : Nat) :
    LineEffect ka w (split text) (w.onLine ka text t₁ t₂).1 := by
  unfold onLine
  dsimp only
  split_ifs with hbeacon hrx hping hout hpong hout' hhere hout''
  · exact onPeerBeacon_effect _ _ _ hrx
  · exact .none rfl rfl rfl rfl (Nat.le_refl _)
  · exact .none rfl rfl rfl rfl (Nat.zero_le _)
  · exact .none rfl rfl rfl rfl (Nat.le_refl _)
  · exact .answered rfl ⟨rfl, rfl⟩ rfl
  · exact .none rfl rfl rfl rfl (Nat.le_refl _)
  · exact .answered rfl ⟨rfl, rfl⟩ rfl
  · exact .none rfl rfl rfl rfl (Nat.le_refl _)
  · exact .none rfl rfl rfl rfl (Nat.le_refl _)

/-- The turn of a MARK for the beacon that waits. -/
theorem onLine_marks
    {text : Line} (h : w.marks ka (split text) = true) (t₁ t₂ : Nat) :
    w.onLine ka text t₁ t₂ =
      ({ w with
          last_rx := t₁
          probes_sent := 0
          beacon_waiting := none
          last_beacon_mark := t₂
          marker_probes := 0
          outstanding := none }, []) := by
  simp only [marks, Bool.and_eq_true, beq_iff_eq] at h
  obtain ⟨⟨⟨hmarker, hrx⟩, htx⟩, hwaiting⟩ := h
  unfold onLine
  dsimp only
  rw [if_pos (Or.inr hmarker), if_pos hrx]
  unfold onPeerBeacon
  dsimp only
  rw [if_pos hmarker, if_pos ⟨htx, hwaiting⟩]

/-- With no beacon waiting, a poll that is late enough sends one and begins a diagnosis. -/
theorem diagnosis_begins
    {now : Nat} (hlive : w.ending = none) (hwaiting : w.beacon_waiting = none)
    (hmarker : w.marker_probes = 0) (hbeacon : w.last_beacon + ka.beacon_interval ≤ now)
    (hmark : w.last_beacon_mark + ka.interval ≤ now) (hping : w.last_ping + ka.interval ≤ now) :
    .ping w.ping_bit ∈ (w.onPoll ka now).2 := by
  have hdue : w.beaconDue ka now = true := by
    simp only [beaconDue, hmarker, hwaiting, Option.isNone_none, beq_self_eq_true, Bool.and_self,
      Bool.true_and, decide_eq_true_eq]
    omega
  have hdiagnosing : w.diagnosing ka now = true := by
    rw [diagnosing_iff]
    refine ⟨?_, by omega, by omega⟩
    rw [beaconed, sendBeacon, if_pos hdue]
    rfl
  have hkind : PollKind ka w now _ _ := poll_cases hlive
  have := ka.retries_pos
  generalize w.onPoll ka now = r at hkind ⊢
  obtain ⟨v, sent⟩ := r
  cases hkind with
  | lostTx _ hspent => omega
  | ping =>
      rw [beaconed_ping_bit]
      exact List.mem_append_right _ List.mem_cons_self
  | ayt _ _ hlater => omega
  | lostRx hquiet | idle hquiet | quiet hquiet => simp [hdiagnosing] at hquiet

/-- No line is answered with a probe. -/
theorem onLine_sent (text : Line) (t₁ t₂ : Nat) :
    (w.onLine ka text t₁ t₂).2.filter (fun p => p.probe?.isSome) = [] := by
  have hkind : LineKind ka w text t₁ t₂ _ _ := line_cases
  generalize w.onLine ka text t₁ t₂ = r at hkind ⊢
  obtain ⟨v, sent⟩ := r
  cases hkind <;> rfl

/-- What a poll does to the diagnosis, and the probes that it sends. -/
inductive PollEffect (w : Watch) (v : Watch) : List Signal → Prop
  | none
      (houtstanding : v.outstanding = w.outstanding) (hping : v.ping_bit = w.ping_bit)
      (hayt : v.ayt_bit = w.ayt_bit) (hmarker : v.marker_probes = w.marker_probes)
      (hidle : v.probes_sent = w.probes_sent) :
      PollEffect w v []
  | ping
      (hfirst : w.marker_probes < 2) (houtstanding : v.outstanding ≠ .none)
      (hping : v.ping_bit = !w.ping_bit) (hayt : v.ayt_bit = w.ayt_bit)
      (hmarker : v.marker_probes = w.marker_probes + 1)
      (hidle : v.probes_sent = w.probes_sent) :
      PollEffect w v [.ping w.ping_bit]
  | ayt
      (hlater : 2 ≤ w.marker_probes) (houtstanding : v.outstanding ≠ .none)
      (hping : v.ping_bit = w.ping_bit) (hayt : v.ayt_bit = !w.ayt_bit)
      (hmarker : v.marker_probes = w.marker_probes + 1)
      (hidle : v.probes_sent = w.probes_sent) :
      PollEffect w v [.ayt w.ayt_bit]
  /-- The other scheme. -/
  | idle
      (houtstanding : v.outstanding ≠ .none) (hidle : w.probes_sent < v.probes_sent) :
      PollEffect w v [.ping w.ping_bit]

/-- Every poll has one of the effects. -/
theorem PollKind.effect
    {now : Nat} {w' : Watch} {sent : List Signal} (h : PollKind ka w now w' sent) :
    PollEffect w { w' with clock := now } (sent.filter fun p => p.probe?.isSome) := by
  cases h with
  | lostTx | lostRx =>
      rw [beaconSent_probes]
      exact .none beaconed_outstanding (beaconed_ping_bit now) (beaconed_ayt_bit now)
        beaconed_marker_probes beaconed_probes_sent
  | ping _ _ hfirst =>
      obtain ⟨ending, heq⟩ := expire_eq { (w.beaconed ka now).pinged now with
        marker_probes := w.marker_probes + 1 } now
      rw [heq, beaconSent_append now rfl, beaconed_ping_bit]
      exact .ping hfirst (Option.some_ne_none _) (congrArg Bool.not (beaconed_ping_bit now))
        (beaconed_ayt_bit now) rfl beaconed_probes_sent
  | ayt _ _ hlater =>
      obtain ⟨ending, heq⟩ := expire_eq { (w.beaconed ka now).asked now with
        marker_probes := w.marker_probes + 1 } now
      rw [heq, beaconSent_append now rfl, beaconed_ayt_bit]
      exact .ayt hlater (Option.some_ne_none _) (beaconed_ping_bit now)
        (congrArg Bool.not (beaconed_ayt_bit now)) rfl beaconed_probes_sent
  | idle =>
      obtain ⟨ending, heq⟩ := expire_eq { (w.beaconed ka now).pinged now with
        probes_sent := w.probes_sent + 1 } now
      rw [heq, beaconSent_append now rfl, beaconed_ping_bit]
      exact .idle (Option.some_ne_none _) (Nat.lt_succ_self _)
  | quiet =>
      obtain ⟨ending, heq⟩ := expire_eq (w.beaconed ka now) now
      rw [heq, beaconSent_probes]
      exact .none beaconed_outstanding (beaconed_ping_bit now) (beaconed_ayt_bit now)
        beaconed_marker_probes beaconed_probes_sent

end Watch

namespace Reads

section Order

/-- The counters and the probes of a diagnosis agree with the number of probes sent. -/
structure Counted (s : Reads) : Prop where
  rest : s.watch.outstanding = none → s.watch.AtZero ∧ s.watch.marker_probes = 0
  fresh : s.watch.outstanding = none → s.probes = [] ∧ s.idle = false
  probes : s.idle = false → s.probes = (List.range s.watch.marker_probes).map diagnosisProbe
  ping : s.idle = false → s.watch.ping_bit = pingBitAfter s.watch.marker_probes
  ayt : s.idle = false → s.watch.ayt_bit = aytBitAfter s.watch.marker_probes

/-- No diagnosis runs and both counters are at zero. -/
theorem counted_of_rest
    {s : Reads} (hzero : s.watch.AtZero) (hmarker : s.watch.marker_probes = 0)
    (hprobes : s.probes = []) (hidle : s.idle = false) :
    Counted s where
  rest := fun _ => ⟨hzero, hmarker⟩
  fresh := fun _ => ⟨hprobes, hidle⟩
  probes := fun _ => by rw [hprobes, hmarker]; rfl
  ping := fun _ => by rw [hzero.1, hmarker]; rfl
  ayt := fun _ => by rw [hzero.2, hmarker]; rfl

theorem counted_start (ka : KeepAlive) (o : Opening) : Counted (start ka o) :=
  counted_of_rest ⟨rfl, rfl⟩ rfl rfl rfl

/-- Once a line has ended the diagnosis, or left everything as it was. -/
theorem Counted.line
    {s s' : Reads} {text : Line} {t₁ t₂ : Nat} {sent : List Signal}
    (h : Counted s) (hstep : s.step (.turn (.line text t₁ t₂)) = some (s', sent))
    (hmarks : MarksAtZero s (.turn (.line text t₁ t₂))) :
    Counted s' := by
  simp only [step, Option.map_eq_some_iff] at hstep
  obtain ⟨⟨w', sent'⟩, hwatch, heq⟩ := hstep
  cases heq
  obtain ⟨_, _, _, hw, hsent⟩ := Watch.step_line hwatch
  have hnone : sent'.filter (fun p => p.probe?.isSome) = [] := by
    rw [hsent]
    exact Watch.onLine_sent text t₁ t₂
  have heffect : Watch.LineEffect s.ka s.watch (split text) w' := by
    rw [hw]
    exact (Watch.line_effect text t₁ t₂).at_clock t₂
  cases heffect with
  | none houtstanding hping hayt hmarker hidle =>
      have hcount : ¬ s.watch.probes_sent < w'.probes_sent := by omega
      unfold after
      split
      · rename_i hout
        have hrest := h.rest (houtstanding ▸ hout)
        exact counted_of_rest ⟨hping ▸ hrest.1.1, hayt ▸ hrest.1.2⟩ (hmarker ▸ hrest.2) rfl rfl
      · rename_i hout
        rw [hnone, List.append_nil, decide_eq_false hcount, Bool.or_false]
        exact
          { rest := fun hout' => absurd hout' hout
            fresh := fun hout' => absurd hout' hout
            probes := fun hi => by rw [hmarker]; exact h.probes hi
            ping := fun hi => by rw [hping, hmarker]; exact h.ping hi
            ayt := fun hi => by rw [hayt, hmarker]; exact h.ayt hi }
  | marked hmark houtstanding hping hayt hmarker =>
      have hzero := hmarks hmark
      rw [after, if_pos houtstanding]
      exact counted_of_rest ⟨hping ▸ hzero.1, hayt ▸ hzero.2⟩ hmarker rfl rfl
  | answered houtstanding hzero hmarker =>
      rw [after, if_pos houtstanding]
      exact counted_of_rest hzero hmarker rfl rfl

/-- A poll begins or continues a diagnosis in order, or leaves it as it was. -/
theorem Counted.poll
    {s s' : Reads} {now : Nat} {sent : List Signal}
    (h : Counted s) (hstep : s.step (.turn (.poll now)) = some (s', sent)) :
    Counted s' := by
  simp only [step, Option.map_eq_some_iff] at hstep
  obtain ⟨⟨w', sent'⟩, hwatch, heq⟩ := hstep
  cases heq
  obtain ⟨hlive, _, hw, hsent⟩ := Watch.step_poll hwatch
  have heffect : Watch.PollEffect s.watch w' (sent'.filter fun p => p.probe?.isSome) := by
    rw [hw, hsent]
    exact (Watch.poll_cases hlive).effect
  unfold after
  generalize sent'.filter (fun p => p.probe?.isSome) = probes at heffect ⊢
  cases heffect with
  | none houtstanding hping hayt hmarker hidle =>
      split
      · rename_i hout
        have hrest := h.rest (houtstanding ▸ hout)
        exact counted_of_rest ⟨hping ▸ hrest.1.1, hayt ▸ hrest.1.2⟩ (hmarker ▸ hrest.2) rfl rfl
      · rename_i hout
        rw [List.append_nil, hidle, decide_eq_false (Nat.lt_irrefl _), Bool.or_false]
        exact
          { rest := fun hout' => absurd hout' hout
            fresh := fun hout' => absurd hout' hout
            probes := fun hi => by rw [hmarker]; exact h.probes hi
            ping := fun hi => by rw [hping, hmarker]; exact h.ping hi
            ayt := fun hi => by rw [hayt, hmarker]; exact h.ayt hi }
  | ping hfirst houtstanding hping hayt hmarker hidle =>
      obtain ⟨hprobe, hpings, hayts⟩ := diagnosisProbe_ping hfirst
      rw [if_neg houtstanding, hidle, decide_eq_false (Nat.lt_irrefl _), Bool.or_false]
      exact
        { rest := fun hout' => absurd hout' houtstanding
          fresh := fun hout' => absurd hout' houtstanding
          probes := fun hi => by
            rw [h.probes hi, h.ping hi, hmarker, List.range_succ, List.map_append, ← hprobe]
            rfl
          ping := fun hi => by rw [hping, h.ping hi, hmarker, hpings]
          ayt := fun hi => by rw [hayt, h.ayt hi, hmarker, hayts] }
  | ayt hlater houtstanding hping hayt hmarker hidle =>
      obtain ⟨hprobe, hpings, hayts⟩ := diagnosisProbe_ayt hlater
      rw [if_neg houtstanding, hidle, decide_eq_false (Nat.lt_irrefl _), Bool.or_false]
      exact
        { rest := fun hout' => absurd hout' houtstanding
          fresh := fun hout' => absurd hout' houtstanding
          probes := fun hi => by
            rw [h.probes hi, h.ayt hi, hmarker, List.range_succ, List.map_append, ← hprobe]
            rfl
          ping := fun hi => by rw [hping, h.ping hi, hmarker, hpings]
          ayt := fun hi => by rw [hayt, h.ayt hi, hmarker, hayts] }
  | idle houtstanding hidle =>
      rw [if_neg houtstanding, decide_eq_true hidle, Bool.or_true]
      exact
        { rest := fun hout' => absurd hout' houtstanding
          fresh := fun hout' => absurd hout' houtstanding
          probes := nofun
          ping := nofun
          ayt := nofun }

/-- Every event keeps the counters in order, if reads and MARKs end diagnoses as they should. -/
theorem counted_step
    {s s' : Reads} {e : ReadsEvent} {sent : List Signal}
    (h : Counted s) (hstep : s.step e = some (s', sent))
    (hends : EvidenceEnds s e) (hmarks : MarksAtZero s e) :
    Counted s' := by
  cases e with
  | turn turn =>
      cases turn with
      | line text t₁ t₂ => exact h.line hstep hmarks
      | poll now => exact h.poll hstep
  | call ka o =>
      simp only [step] at hstep
      split_ifs at hstep
      cases hstep
      exact counted_of_rest (h.rest hends).1 rfl rfl rfl
  | reset_session =>
      simp only [step] at hstep
      split_ifs at hstep
      cases hstep
      exact counted_of_rest ⟨rfl, rfl⟩ rfl rfl rfl

/-- In order, as far as the diagnosis has come. -/
theorem Counted.inOrder
    {s : Reads} (h : Counted s) :
    InOrder s := by
  intro hidle
  have hprobes := h.probes hidle
  have hlength := congrArg List.length hprobes
  rw [List.length_map, List.length_range] at hlength
  rw [hlength]
  exact hprobes

end Order

/-- The turns of a link whose diagnoses end by evidence and whose MARKs come at zero. -/
def Kept (s : Reads) (e : ReadsEvent) (_ : Reads) (_ : List Signal) : Prop :=
  EvidenceEnds s e ∧ MarksAtZero s e

/-- A diagnosis that begins here begins at zero, and the one that runs is in order. -/
def Numbered (s : Reads) (_ : ReadsEvent) (s' : Reads) (sent : List Signal) : Prop :=
  StartsAtZero s sent ∧ InOrder s'

instance (s : Reads) (e : ReadsEvent) (s' : Reads) (sent : List Signal) :
    Decidable (Kept s e s' sent) :=
  inferInstanceAs (Decidable (_ ∧ _))

instance (s : Reads) (e : ReadsEvent) (s' : Reads) (sent : List Signal) :
    Decidable (Numbered s e s' sent) :=
  inferInstanceAs (Decidable (_ ∧ _))

/-- A silent poll, late enough, after a MARK that ended a diagnosis: the next one begins with a
PING that has the bit the last one left. -/
theorem probe_after_mark
    {s s' : Reads} {text : Line} {t₁ t₂ : Nat} {sent : List Signal}
    (hstep : s.step (.turn (.line text t₁ t₂)) = some (s', sent))
    (hmarks : s.watch.marks s.ka (split text) = true) (hzero : ¬ s.watch.AtZero) :
    ∃ now s'' out, s'.step (.turn (.poll now)) = some (s'', out) ∧ ¬ StartsAtZero s' out := by
  simp only [step, Option.map_eq_some_iff] at hstep
  obtain ⟨⟨w', sent'⟩, hwatch, heq⟩ := hstep
  cases heq
  obtain ⟨hlive, _, _, hw, _⟩ := Watch.step_line hwatch
  rw [Watch.onLine_marks hmarks] at hw
  have hlive' : w'.ending = none := by rw [hw]; exact hlive
  have hout : w'.outstanding = none := by rw [hw]
  have hwaiting : w'.beacon_waiting = none := by rw [hw]
  have hmarker : w'.marker_probes = 0 := by rw [hw]
  have hmark : w'.last_beacon_mark = t₂ := by rw [hw]
  have hclock : w'.clock = t₂ := by rw [hw]
  have hzero' : ¬ w'.AtZero := by rw [hw]; exact hzero
  obtain ⟨now, hnow⟩ : ∃ now,
      now = w'.last_beacon + w'.last_ping + t₂ + s.ka.interval + s.ka.beacon_interval := ⟨_, rfl⟩
  have hping : .ping w'.ping_bit ∈ (w'.onPoll s.ka now).2 :=
    Watch.diagnosis_begins hlive' hwaiting hmarker (by omega) (by omega) (by omega)
  have hafter : s.after w' sent' = { s with watch := w', probes := [], idle := false } := by
    rw [after, if_pos hout]
  have hpoll : w'.step s.ka (.poll now) = some _ :=
    Watch.step_poll_of hlive' (show w'.clock ≤ now by omega)
  dsimp only
  rw [hafter]
  refine ⟨now, _, _, congrArg (Option.map _) hpoll, fun hstart => hzero' ?_⟩
  exact hstart hout (List.any_eq_true.mpr ⟨_, hping, rfl⟩)

end Reads

open Reads

/-- In every run of reads of one link in which evidence ends each diagnosis and no MARK ends one
while a counter is up, every diagnosis starts at zero and sends its probes in order. -/
theorem diagnoses_start_at_zero
    (ka : KeepAlive) (o : Opening) (events : List ReadsEvent)
    (hkept : Machine.Always Reads.step Kept (Reads.start ka o) events) :
    Machine.Always Reads.step Numbered (Reads.start ka o) events := by
  refine Machine.always_of_inv Counted (fun s e s' sent h hstep hkept => ?_)
    (counted_start ka o) hkept
  have h' := counted_step h hstep hkept.1 hkept.2
  exact ⟨⟨fun hout _ => (h.rest hout).1, h'.inOrder⟩, h'⟩

/-- A read of an hour that begins at `t`. -/
def hourFrom (t : Nat) : Opening where
  timeout := 3600
  at_deadline := t
  at_rx := t
  at_ping := t
  at_beacon := t
  at_mark := t
  ordered := ⟨Nat.le_refl t, Nat.le_refl t, Nat.le_refl t, Nat.le_refl t⟩
  ping_bit := false
  ayt_bit := false
  beacon_bit := false
  peer_beacon_bit := false

/-- A diagnosis ended by a MARK after PING 0 and PING 1, one by a PONG, one by a HERE, a request,
and one more in the next read. -/
def answeredDiagnoses : List ReadsEvent :=
  [.turn (.poll 4), .turn (.poll 5), .turn (.poll 10), .turn (.line "MARK P U 0".toList 11 11),
    .turn (.poll 12), .turn (.poll 16), .turn (.line "PONG 0".toList 17 17), .turn (.poll 20),
    .turn (.poll 22), .turn (.poll 27), .turn (.poll 32), .turn (.line "HERE 0 0".toList 33 33),
    .turn (.line "GET A http://a/".toList 34 34), .call defaultKeepAlive (hourFrom 34),
    .turn (.poll 38), .turn (.poll 39)]

theorem diagnoses_start_at_zero_answered :
    Machine.Always Reads.step Numbered (Reads.start defaultKeepAlive hourOpening)
        answeredDiagnoses ∧
      ((Machine.run Reads.step (Reads.start defaultKeepAlive hourOpening, [])
        answeredDiagnoses).map fun x => x.2.filter fun p => p.probe?.isSome) =
        some [.ping false, .ping true, .ping false, .ping false, .ping true, .ayt false,
          .ping false] :=
  ⟨diagnoses_start_at_zero defaultKeepAlive hourOpening answeredDiagnoses (by decide +kernel),
    by decide +kernel⟩

/-- A MARK ends a diagnosis after its PING 0. -/
def markedDiagnosis : List ReadsEvent :=
  [.turn (.poll 4), .turn (.poll 5), .turn (.line "MARK P U 0".toList 6 6), .turn (.poll 8),
    .turn (.poll 11)]

/-- The next diagnosis begins with PING 1. -/
theorem diagnosis_starts_at_one :
    Machine.Always Reads.step (fun s e _ _ => EvidenceEnds s e)
        (Reads.start defaultKeepAlive hourOpening) markedDiagnosis ∧
      ¬ Machine.Always Reads.step Numbered (Reads.start defaultKeepAlive hourOpening)
        markedDiagnosis := by
  decide +kernel

end Pcutp
