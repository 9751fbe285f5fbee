import Pcutp.Link
import Pcutp.Lib.Machine

/-!
# The keep-alive mode of `recv_line`

While a link waits for a request it sends beacons, and probes when they stay
unconfirmed or when nothing is heard.  `Watch` holds the variables of the loop
and the four alternating bits of the link; a turn of the loop either handles a
line or, when the buffer holds none, polls: it sends what is due, and may end
with one of the two link-loss errors or with the timeout.

Time is counted in ticks of the monotonic clock.  Every turn carries the clock
values it reads, which never decrease.

`poll_cases` says once what a poll can do, and `line_cases` what a line can do.
-/

namespace Pcutp

/-- `KeepAlive`: liveness parameters that `__post_init__` accepts. -/
structure KeepAlive where
  interval : Nat
  timeout : Nat
  retries : Nat
  beacon_interval : Nat
  beacon_tx : Line
  beacon_rx : Line
  interval_pos : 0 < interval
  timeout_pos : 0 < timeout
  retries_pos : 1 ≤ retries
  beacon_interval_pos : 0 < beacon_interval
  tx_side : isSide beacon_tx = true
  rx_side : isSide beacon_rx = true
  sides_ne : beacon_tx ≠ beacon_rx

/-- The constructor, with the check of `__post_init__`. -/
def KeepAlive.check (interval timeout retries beacon_interval : Nat)
    (beacon_tx beacon_rx : Line) : Option KeepAlive :=
  if h : (0 < interval ∧ 0 < timeout ∧ 1 ≤ retries ∧ 0 < beacon_interval) ∧
      isSide beacon_tx = true ∧ isSide beacon_rx = true ∧ beacon_tx ≠ beacon_rx then
    some
      { interval, timeout, retries, beacon_interval, beacon_tx, beacon_rx
        interval_pos := h.1.1
        timeout_pos := h.1.2.1
        retries_pos := h.1.2.2.1
        beacon_interval_pos := h.1.2.2.2
        tx_side := h.2.1
        rx_side := h.2.2.1
        sides_ne := h.2.2.2 }
  else
    none

/-- The text of a one-bit id. -/
def bitLine (b : Bool) : Line :=
  if b then "1".toList else "0".toList

/-- `int(w)`, for a `w` in `{"0", "1"}`. -/
def bitOf (w : Line) : Bool :=
  w == "1".toList

/-- `is_here`. -/
def isHere (parts : List Line) : Bool :=
  parts.length == 3 && word parts 0 == "HERE".toList && isBit (word parts 1) &&
    isdecimal (word parts 2)

/-- What `recv_line` sends on its own. -/
inductive Signal
  | ping (bit : Bool)
  | pong (id : Line)
  | ayt (bit : Bool)
  | aytOk (id : Line)
  | beacon (side : Line) (bit : Bool)
  | mark (tx rx : Line) (bit : Bool)
  deriving DecidableEq

namespace Signal

/-- The words of a signal. -/
def words : Signal → List Line
  | ping bit => ["PING".toList, bitLine bit]
  | pong id => ["PONG".toList, id]
  | ayt bit => ["AYT?".toList, bitLine bit]
  | aytOk id => ["AYT-OK".toList, id]
  | beacon side bit => ["BEACON".toList, side, bitLine bit]
  | mark tx rx bit => ["MARK".toList, tx, rx, bitLine bit]

/-- The line of a signal, without its LF. -/
def line (s : Signal) : Line :=
  join s.words

/-- The id of a probe. -/
def probe? : Signal → Option Line
  | ping bit => some (bitLine bit)
  | ayt bit => some (bitLine bit)
  | _ => none

end Signal

/-- How `recv_line` ends. -/
inductive WatchEnding
  | returned (text : Line)
  /-- `LinkLostError("TX path failed: peer BEACONs arrived but no MARK/PONG/HERE for …")`. -/
  | lostTx (bit : Option Bool)
  /-- `LinkLostError("RX path failed or both paths failed: …")`. -/
  | lostRx
  /-- `TimeoutError_("timed out waiting for a control line")`. -/
  | timeout
  /-- `ProtocolError("control line too long")`. -/
  | tooLong
  deriving DecidableEq

/-- The variables of the loop, the bits of the link, and the last reading of the clock. -/
structure Watch where
  deadline : Nat
  last_rx : Nat
  last_ping : Nat
  last_beacon : Nat
  last_beacon_mark : Nat
  outstanding : Option Line
  probes_sent : Nat
  beacon_waiting : Option Bool
  marker_probes : Nat
  ping_bit : Bool
  ayt_bit : Bool
  beacon_bit : Bool
  peer_beacon_bit : Bool
  clock : Nat
  ending : Option WatchEnding
  deriving DecidableEq

/-- The readings of the clock before the loop, and the bits that earlier reads left. -/
structure Opening where
  timeout : Nat
  at_deadline : Nat
  at_rx : Nat
  at_ping : Nat
  at_beacon : Nat
  at_mark : Nat
  ordered : at_deadline ≤ at_rx ∧ at_rx ≤ at_ping ∧ at_ping ≤ at_beacon ∧ at_beacon ≤ at_mark
  ping_bit : Bool
  ayt_bit : Bool
  beacon_bit : Bool
  peer_beacon_bit : Bool

/-- A turn of the loop. -/
inductive Turn
  /-- A line is in the buffer; the clock is read when it counts as evidence, and a second
  time when it is a marker. -/
  | line (text : Line) (t₁ t₂ : Nat)
  /-- No line is in the buffer. -/
  | poll (now : Nat)
  deriving DecidableEq

namespace Watch

/-- The variables at the head of the loop. -/
def start (o : Opening) : Watch where
  deadline := o.at_deadline + o.timeout
  last_rx := o.at_rx
  last_ping := o.at_ping
  last_beacon := o.at_beacon
  last_beacon_mark := o.at_mark
  outstanding := none
  probes_sent := 0
  beacon_waiting := none
  marker_probes := 0
  ping_bit := o.ping_bit
  ayt_bit := o.ayt_bit
  beacon_bit := o.beacon_bit
  peer_beacon_bit := o.peer_beacon_bit
  clock := o.at_mark
  ending := none

variable (ka : KeepAlive)

/-- What a matching PONG and a matching HERE have in common. -/
def confirm (w : Watch) (now : Nat) : Watch :=
  { w with
    last_rx := now
    outstanding := none
    beacon_waiting := none
    last_beacon_mark := now
    marker_probes := 0
    ping_bit := false
    ayt_bit := false
    beacon_bit := false
    last_beacon := now }

/-- The turn of a beacon or a marker that names the peer's side. -/
def onPeerBeacon (w : Watch) (parts : List Line) (t₁ t₂ : Nat) : Watch × List Signal :=
  let w := { w with last_rx := t₁, probes_sent := 0 }
  if isMarker parts = true then
    if word parts 2 = ka.beacon_tx ∧ w.beacon_waiting = some (bitOf (word parts 3)) then
      ({ w with
          beacon_waiting := none
          last_beacon_mark := t₂
          marker_probes := 0
          outstanding := none }, [])
    else
      (w, [])
  else
    let bit := bitOf (word parts 2)
    let peer := if bit = w.peer_beacon_bit then !w.peer_beacon_bit else !bit
    ({ w with peer_beacon_bit := peer }, [.mark ka.beacon_tx ka.beacon_rx bit])

/-- The turn of a line. -/
def onLine (w : Watch) (text : Line) (t₁ t₂ : Nat) : Watch × List Signal :=
  let parts := split text
  if isBeacon parts = true ∨ isMarker parts = true then
    if word parts 1 = ka.beacon_rx then w.onPeerBeacon ka parts t₁ t₂ else (w, [])
  else if isPing parts = true then
    if w.outstanding ≠ some (word parts 1) then
      ({ w with last_rx := t₁, probes_sent := 0 }, [.pong (word parts 1)])
    else
      -- The local echo of the outstanding probe.
      (w, [])
  else if isPong parts = true then
    if w.outstanding = some (word parts 1) then
      ({ w.confirm t₁ with probes_sent := 0 }, [])
    else
      (w, [])
  else if isHere parts = true then
    if w.outstanding = some (word parts 1) then
      (w.confirm t₁, [.aytOk (word parts 1)])
    else
      (w, [])
  else
    ({ w with ending := some (.returned text) }, [])

/-- A beacon is due: the last one is confirmed and no diagnosis runs. -/
def beaconDue (w : Watch) (now : Nat) : Bool :=
  w.marker_probes == 0 && w.beacon_waiting.isNone &&
    decide (ka.beacon_interval ≤ now - w.last_beacon)

/-- The beacon of a poll. -/
def sendBeacon (w : Watch) (now : Nat) : Watch × List Signal :=
  if w.beaconDue ka now = true then
    ({ w with
        beacon_waiting := some w.beacon_bit
        beacon_bit := !w.beacon_bit
        last_beacon := now },
      [.beacon ka.beacon_tx w.beacon_bit])
  else
    (w, [])

/-- A probe may be sent: the last one is `interval` seconds old. -/
def probeDue (w : Watch) (now : Nat) : Bool :=
  decide (ka.interval ≤ now - w.last_ping)

/-- A beacon waits for its marker and `interval` seconds passed since one was confirmed. -/
def unmarked (w : Watch) (now : Nat) : Bool :=
  w.beacon_waiting.isSome && decide (ka.interval ≤ now - w.last_beacon_mark)

/-- The diagnosis of an unconfirmed beacon: two PINGs, then AYT?s. -/
def diagnose (w : Watch) (now : Nat) : Watch × List Signal :=
  if (w.unmarked ka now && w.probeDue ka now) = true then
    if ka.retries + 1 ≤ w.marker_probes then
      ({ w with ending := some (.lostTx w.beacon_waiting) }, [])
    else if w.marker_probes < 2 then
      ({ w with
          outstanding := some (bitLine w.ping_bit)
          ping_bit := !w.ping_bit
          marker_probes := w.marker_probes + 1
          last_ping := now }, [.ping w.ping_bit])
    else
      ({ w with
          outstanding := some (bitLine w.ayt_bit)
          ayt_bit := !w.ayt_bit
          marker_probes := w.marker_probes + 1
          last_ping := now }, [.ayt w.ayt_bit])
  else
    (w, [])

/-- The two receive-path checks, and the PING of an idle link. -/
def probe (w : Watch) (now : Nat) : Watch × List Signal :=
  let idle := now - w.last_rx
  if ka.timeout ≤ idle ∧ ka.retries ≤ w.probes_sent ∧ w.probeDue ka now = true then
    ({ w with ending := some .lostRx }, [])
  else if ka.interval ≤ idle ∧ w.probeDue ka now = true then
    if ka.retries ≤ w.probes_sent then
      ({ w with ending := some .lostRx }, [])
    else
      ({ w with
          outstanding := some (bitLine w.ping_bit)
          ping_bit := !w.ping_bit
          probes_sent := w.probes_sent + 1
          last_ping := now }, [.ping w.ping_bit])
  else
    (w, [])

/-- The deadline of the read. -/
def expire (w : Watch) (now : Nat) : Watch × List Signal :=
  (if w.deadline ≤ now then { w with ending := some .timeout } else w, [])

/-- A stage of a poll after what came before it; an exception ends the poll. -/
def andThen (r : Watch × List Signal) (stage : Watch → Watch × List Signal) :
    Watch × List Signal :=
  if r.1.ending.isSome then r else ((stage r.1).1, r.2 ++ (stage r.1).2)

/-- The turn of a poll. -/
def onPoll (w : Watch) (now : Nat) : Watch × List Signal :=
  andThen (andThen (andThen (w.sendBeacon ka now) (diagnose ka · now)) (probe ka · now))
    (expire · now)

/-- One turn of the loop; `none` when it has ended or the clock would run backwards. -/
def step (w : Watch) (turn : Turn) : Option (Watch × List Signal) :=
  if w.ending.isSome then
    none
  else
    match turn with
    | .line text t₁ t₂ =>
        if w.clock ≤ t₁ ∧ t₁ ≤ t₂ then
          let r := w.onLine ka text t₁ t₂
          some ({ r.1 with clock := t₂ }, r.2)
        else
          none
    | .poll now =>
        if w.clock ≤ now then
          let r := w.onPoll ka now
          some ({ r.1 with clock := now }, r.2)
        else
          none

/-- A run of `recv_line` with a keep-alive. -/
def run (o : Opening) (turns : List Turn) : Option (Watch × List Signal) :=
  Machine.run (step ka) (start o, []) turns

end Watch

namespace Watch

section Polls

variable {ka : KeepAlive} {w : Watch} {now : Nat}

/-- The state of a poll after its beacon. -/
def beaconed (ka : KeepAlive) (w : Watch) (now : Nat) : Watch :=
  (w.sendBeacon ka now).1

/-- The beacon that a poll sends, if one is due. -/
def beaconSent (ka : KeepAlive) (w : Watch) (now : Nat) : List Signal :=
  (w.sendBeacon ka now).2

/-- A beacon is no probe. -/
theorem beaconSent_probes (now : Nat) :
    (w.beaconSent ka now).filter (fun p => p.probe?.isSome) = [] := by
  unfold beaconSent sendBeacon
  split <;> rfl

theorem beaconSent_append
    (now : Nat) {p : Signal} (hp : p.probe?.isSome = true) :
    (w.beaconSent ka now ++ [p]).filter (fun p => p.probe?.isSome) = [p] := by
  rw [List.filter_append, beaconSent_probes, List.filter_cons_of_pos (by simpa using hp)]
  rfl

@[simp] theorem beaconed_deadline : (w.beaconed ka now).deadline = w.deadline := by
  unfold beaconed sendBeacon
  split <;> rfl

@[simp] theorem beaconed_last_rx : (w.beaconed ka now).last_rx = w.last_rx := by
  unfold beaconed sendBeacon
  split <;> rfl

@[simp] theorem beaconed_last_ping : (w.beaconed ka now).last_ping = w.last_ping := by
  unfold beaconed sendBeacon
  split <;> rfl

@[simp] theorem beaconed_last_beacon_mark :
    (w.beaconed ka now).last_beacon_mark = w.last_beacon_mark := by
  unfold beaconed sendBeacon
  split <;> rfl

@[simp] theorem beaconed_outstanding :
    (w.beaconed ka now).outstanding = w.outstanding := by
  unfold beaconed sendBeacon
  split <;> rfl

@[simp] theorem beaconed_probes_sent :
    (w.beaconed ka now).probes_sent = w.probes_sent := by
  unfold beaconed sendBeacon
  split <;> rfl

@[simp] theorem beaconed_marker_probes :
    (w.beaconed ka now).marker_probes = w.marker_probes := by
  unfold beaconed sendBeacon
  split <;> rfl

@[simp] theorem beaconed_ending : (w.beaconed ka now).ending = w.ending := by
  unfold beaconed sendBeacon
  split <;> rfl

@[simp] theorem beaconed_probeDue :
    (w.beaconed ka now).probeDue ka now = w.probeDue ka now := by
  simp only [probeDue, beaconed_last_ping]

/-- A waiting beacon stays the one that waits. -/
theorem beaconed_waiting
    (h : w.beacon_waiting.isSome = true) :
    (w.beaconed ka now).beacon_waiting = w.beacon_waiting := by
  unfold beaconed sendBeacon
  split
  · rename_i hdue
    simp only [beaconDue, Bool.and_eq_true, Option.isNone_iff_eq_none] at hdue
    rw [hdue.1.2] at h
    cases h
  · rfl

/-- The diagnosis of an unconfirmed beacon is in charge of a poll. -/
def diagnosing (ka : KeepAlive) (w : Watch) (now : Nat) : Bool :=
  (w.beaconed ka now).unmarked ka now && w.probeDue ka now

/-- The state after a probe of a diagnosis. -/
def pinged (w : Watch) (now : Nat) : Watch :=
  { w with
    outstanding := some (bitLine w.ping_bit)
    ping_bit := !w.ping_bit
    last_ping := now }

def asked (w : Watch) (now : Nat) : Watch :=
  { w with
    outstanding := some (bitLine w.ayt_bit)
    ayt_bit := !w.ayt_bit
    last_ping := now }

/-- What a poll can do after its beacon. -/
inductive PollKind (ka : KeepAlive) (w : Watch) (now : Nat) : Watch → List Signal → Prop
  /-- The diagnosis gives the transmit path up. -/
  | lostTx :
      w.diagnosing ka now = true → ka.retries + 1 ≤ w.marker_probes →
      PollKind ka w now
        { w.beaconed ka now with ending := some (.lostTx (w.beaconed ka now).beacon_waiting) }
        (w.beaconSent ka now)
  /-- The diagnosis sends one of its two PINGs. -/
  | ping :
      w.diagnosing ka now = true → w.marker_probes ≤ ka.retries → w.marker_probes < 2 →
      PollKind ka w now
        (expire { (w.beaconed ka now).pinged now with marker_probes := w.marker_probes + 1 }
          now).1
        (w.beaconSent ka now ++ [.ping (w.beaconed ka now).ping_bit])
  /-- The diagnosis sends an AYT?. -/
  | ayt :
      w.diagnosing ka now = true → w.marker_probes ≤ ka.retries → 2 ≤ w.marker_probes →
      PollKind ka w now
        (expire { (w.beaconed ka now).asked now with marker_probes := w.marker_probes + 1 }
          now).1
        (w.beaconSent ka now ++ [.ayt (w.beaconed ka now).ayt_bit])
  /-- The receive path is given up. -/
  | lostRx :
      w.diagnosing ka now = false → w.probeDue ka now = true → ka.retries ≤ w.probes_sent →
      ka.timeout ≤ now - w.last_rx ∨ ka.interval ≤ now - w.last_rx →
      PollKind ka w now { w.beaconed ka now with ending := some .lostRx }
        (w.beaconSent ka now)
  /-- An idle link sends a PING. -/
  | idle :
      w.diagnosing ka now = false → w.probeDue ka now = true → w.probes_sent < ka.retries →
      ka.interval ≤ now - w.last_rx →
      PollKind ka w now
        (expire { (w.beaconed ka now).pinged now with probes_sent := w.probes_sent + 1 } now).1
        (w.beaconSent ka now ++ [.ping (w.beaconed ka now).ping_bit])
  /-- No probe is due. -/
  | quiet :
      w.diagnosing ka now = false →
      ¬ (w.probeDue ka now = true ∧ ka.interval ≤ now - w.last_rx) →
      ¬ (w.probeDue ka now = true ∧ ka.retries ≤ w.probes_sent ∧
        ka.timeout ≤ now - w.last_rx) →
      PollKind ka w now (expire (w.beaconed ka now) now).1 (w.beaconSent ka now)

/-- A probe that was just sent leaves none due. -/
theorem probe_after
    {v : Watch} (h : v.last_ping = now) :
    v.probe ka now = (v, []) := by
  have hdue : v.probeDue ka now = false := by
    have := ka.interval_pos
    simp only [probeDue, h, decide_eq_false_iff_not]
    omega
  simp [probe, hdue]

theorem andThen_live
    (v : Watch) (sent : List Signal) (stage : Watch → Watch × List Signal)
    (h : v.ending = none) :
    andThen (v, sent) stage = ((stage v).1, sent ++ (stage v).2) := by
  simp [andThen, h]

theorem andThen_ended
    (v : Watch) (sent : List Signal) (stage : Watch → Watch × List Signal)
    (h : v.ending.isSome = true) :
    andThen (v, sent) stage = (v, sent) := by
  simp [andThen, h]

theorem andThen_expire
    (v : Watch) (sent : List Signal) (now : Nat)
    (h : v.ending = none) :
    andThen (v, sent) (expire · now) = ((v.expire now).1, sent) := by
  rw [andThen_live v sent _ h]
  simp only [expire, List.append_nil]

/-- The diagnosis follows the beacon. -/
theorem andThen_diagnose
    (hlive : w.ending = none) :
    andThen (w.sendBeacon ka now) (diagnose ka · now) =
      (((w.beaconed ka now).diagnose ka now).1,
        w.beaconSent ka now ++ ((w.beaconed ka now).diagnose ka now).2) :=
  andThen_live (w.beaconed ka now) (w.beaconSent ka now) _ (beaconed_ending.trans hlive)

/-- A diagnosis that probed leaves only the deadline to the rest of the poll. -/
theorem onPoll_of_diagnosed
    {v : Watch} {sent : List Signal}
    (hlive : w.ending = none)
    (hstage : (w.beaconed ka now).diagnose ka now = (v, sent))
    (hlive' : v.ending = none) (hping : v.last_ping = now) :
    w.onPoll ka now = ((v.expire now).1, w.beaconSent ka now ++ sent) := by
  unfold onPoll
  rw [andThen_diagnose hlive, hstage, andThen_live v _ _ hlive', probe_after hping,
    List.append_nil, andThen_expire v _ _ hlive']

/-- Outside a diagnosis a poll comes to the idle checks. -/
theorem onPoll_of_idle
    {v : Watch} {sent : List Signal}
    (hlive : w.ending = none)
    (hstage : (w.beaconed ka now).diagnose ka now = (w.beaconed ka now, []))
    (hprobe : (w.beaconed ka now).probe ka now = (v, sent)) :
    w.onPoll ka now = andThen (v, w.beaconSent ka now ++ sent) (expire · now) := by
  unfold onPoll
  rw [andThen_diagnose hlive, hstage, List.append_nil,
    andThen_live (w.beaconed ka now) _ _ (beaconed_ending.trans hlive), hprobe]

/-- Every poll is of one of the kinds. -/
theorem poll_cases
    (hlive : w.ending = none) :
    PollKind ka w now (w.onPoll ka now).1 (w.onPoll ka now).2 := by
  have hlive₁ : (w.beaconed ka now).ending = none := by
    rw [beaconed_ending, hlive]
  have hdiag : ((w.beaconed ka now).unmarked ka now && (w.beaconed ka now).probeDue ka now) =
      w.diagnosing ka now := by
    rw [beaconed_probeDue]
    rfl
  by_cases hdiagnosing : w.diagnosing ka now = true
  · by_cases hspent : ka.retries + 1 ≤ w.marker_probes
    · have hstage : (w.beaconed ka now).diagnose ka now =
          ({ w.beaconed ka now with
              ending := some (.lostTx (w.beaconed ka now).beacon_waiting) }, []) := by
        rw [diagnose, hdiag, if_pos hdiagnosing, if_pos (by simpa using hspent)]
      unfold onPoll
      rw [andThen_diagnose hlive, hstage, andThen_ended _ _ _ rfl, andThen_ended _ _ _ rfl,
        List.append_nil]
      exact .lostTx hdiagnosing hspent
    · by_cases hpings : w.marker_probes < 2
      · have hstage : (w.beaconed ka now).diagnose ka now =
            ({ (w.beaconed ka now).pinged now with marker_probes := w.marker_probes + 1 },
              [.ping (w.beaconed ka now).ping_bit]) := by
          rw [diagnose, hdiag, if_pos hdiagnosing, if_neg (by simpa using hspent),
            if_pos (by simpa using hpings)]
          simp only [pinged, beaconed_marker_probes]
        rw [onPoll_of_diagnosed hlive hstage hlive₁ rfl]
        exact .ping hdiagnosing (by omega) hpings
      · have hstage : (w.beaconed ka now).diagnose ka now =
            ({ (w.beaconed ka now).asked now with marker_probes := w.marker_probes + 1 },
              [.ayt (w.beaconed ka now).ayt_bit]) := by
          rw [diagnose, hdiag, if_pos hdiagnosing, if_neg (by simpa using hspent),
            if_neg (by simpa using hpings)]
          simp only [asked, beaconed_marker_probes]
        rw [onPoll_of_diagnosed hlive hstage hlive₁ rfl]
        exact .ayt hdiagnosing (by omega) (by omega)
  · have hquiet : w.diagnosing ka now = false := by
      simpa using hdiagnosing
    have hstage : (w.beaconed ka now).diagnose ka now = (w.beaconed ka now, []) := by
      rw [diagnose, hdiag, if_neg hdiagnosing]
    by_cases h₁ : ka.timeout ≤ now - w.last_rx ∧ ka.retries ≤ w.probes_sent ∧
        w.probeDue ka now = true
    · have hprobe : (w.beaconed ka now).probe ka now =
          ({ w.beaconed ka now with ending := some .lostRx }, []) := by
        rw [probe, if_pos (by simpa using h₁)]
      rw [onPoll_of_idle hlive hstage hprobe, andThen_ended _ _ _ rfl, List.append_nil]
      exact .lostRx hquiet h₁.2.2 h₁.2.1 (Or.inl h₁.1)
    · by_cases h₂ : ka.interval ≤ now - w.last_rx ∧ w.probeDue ka now = true
      · by_cases h₃ : ka.retries ≤ w.probes_sent
        · have hprobe : (w.beaconed ka now).probe ka now =
              ({ w.beaconed ka now with ending := some .lostRx }, []) := by
            rw [probe, if_neg (by simpa using h₁), if_pos (by simpa using h₂),
              if_pos (by simpa using h₃)]
          rw [onPoll_of_idle hlive hstage hprobe, andThen_ended _ _ _ rfl, List.append_nil]
          exact .lostRx hquiet h₂.2 h₃ (Or.inr h₂.1)
        · have hprobe : (w.beaconed ka now).probe ka now =
              ({ (w.beaconed ka now).pinged now with probes_sent := w.probes_sent + 1 },
                [.ping (w.beaconed ka now).ping_bit]) := by
            rw [probe, if_neg (by simpa using h₁), if_pos (by simpa using h₂),
              if_neg (by simpa using h₃)]
            simp only [pinged, beaconed_probes_sent]
          rw [onPoll_of_idle hlive hstage hprobe,
            andThen_expire { (w.beaconed ka now).pinged now with
              probes_sent := w.probes_sent + 1 } _ _ hlive₁]
          exact .idle hquiet h₂.2 (by omega) h₂.1
      · have hprobe : (w.beaconed ka now).probe ka now = (w.beaconed ka now, []) := by
          rw [probe, if_neg (by simpa using h₁), if_neg (by simpa using h₂)]
        rw [onPoll_of_idle hlive hstage hprobe, andThen_expire _ _ _ hlive₁, List.append_nil]
        exact .quiet hquiet (fun h => h₂ ⟨h.2, h.1⟩) (fun h => h₁ ⟨h.2.2, h.2.1, h.1⟩)

theorem expire_eq (v : Watch) (now : Nat) :
    ∃ ending, (v.expire now).1 = { v with ending } := by
  unfold expire
  split
  · exact ⟨_, rfl⟩
  · exact ⟨v.ending, rfl⟩

/-- What a poll sends and sets, by the scheme that probes. -/
theorem PollKind.summary
    {w' : Watch} {sent : List Signal} (h : PollKind ka w now w' sent) :
    (∃ ending, w' = { w.beaconed ka now with ending } ∧ sent = w.beaconSent ka now) ∨
    (∃ p id ping_bit ayt_bit ending, w.diagnosing ka now = true ∧ p.probe? = some id ∧
      sent = w.beaconSent ka now ++ [p] ∧
      w' = { w.beaconed ka now with
        outstanding := some id
        ping_bit
        ayt_bit
        last_ping := now
        marker_probes := w.marker_probes + 1
        ending }) ∨
    (∃ p id ping_bit ending, w.diagnosing ka now = false ∧ w.probeDue ka now = true ∧
      w.probes_sent < ka.retries ∧ ka.interval ≤ now - w.last_rx ∧ p.probe? = some id ∧
      sent = w.beaconSent ka now ++ [p] ∧
      w' = { w.beaconed ka now with
        outstanding := some id
        ping_bit
        last_ping := now
        probes_sent := w.probes_sent + 1
        ending }) := by
  cases h with
  | lostTx => exact Or.inl ⟨_, rfl, rfl⟩
  | ping hdiagnosing =>
      obtain ⟨ending, heq⟩ := expire_eq { (w.beaconed ka now).pinged now with
        marker_probes := w.marker_probes + 1 } now
      exact Or.inr (Or.inl ⟨_, _, _, _, ending, hdiagnosing, rfl, rfl, heq⟩)
  | ayt hdiagnosing =>
      obtain ⟨ending, heq⟩ := expire_eq { (w.beaconed ka now).asked now with
        marker_probes := w.marker_probes + 1 } now
      exact Or.inr (Or.inl ⟨_, _, _, _, ending, hdiagnosing, rfl, rfl, heq⟩)
  | lostRx => exact Or.inl ⟨_, rfl, rfl⟩
  | idle hdiagnosing hdue hbudget hidle =>
      obtain ⟨ending, heq⟩ := expire_eq { (w.beaconed ka now).pinged now with
        probes_sent := w.probes_sent + 1 } now
      exact Or.inr (Or.inr ⟨_, _, _, ending, hdiagnosing, hdue, hbudget, hidle, rfl, rfl, heq⟩)
  | quiet =>
      obtain ⟨ending, heq⟩ := expire_eq (w.beaconed ka now) now
      exact Or.inl ⟨ending, heq, rfl⟩

/-- The diagnosis is in charge while an unconfirmed beacon and the last probe are old enough. -/
theorem diagnosing_iff :
    w.diagnosing ka now = true ↔
      (w.beaconed ka now).beacon_waiting.isSome = true ∧
        ka.interval ≤ now - w.last_beacon_mark ∧ ka.interval ≤ now - w.last_ping := by
  simp [diagnosing, unmarked, probeDue, and_assoc]

theorem expire_of_lt
    {v : Watch} (h : now < v.deadline) :
    (v.expire now).1 = v := by
  rw [expire, if_neg (by omega)]

theorem expire_ending
    {v : Watch} {e : WatchEnding} (h : (v.expire now).1.ending = some e)
    (hlive : v.ending = none) :
    e = .timeout := by
  unfold expire at h
  split at h
  · exact (Option.some.inj h).symm
  · dsimp only at h
    rw [hlive] at h
    cases h

/-- When a poll gives the receive path up. -/
theorem PollKind.lostRx_iff
    {w' : Watch} {sent : List Signal} (hlive : w.ending = none)
    (h : PollKind ka w now w' sent) :
    w'.ending = some .lostRx ↔
      w.diagnosing ka now = false ∧ w.probeDue ka now = true ∧ ka.retries ≤ w.probes_sent ∧
        (ka.timeout ≤ now - w.last_rx ∨ ka.interval ≤ now - w.last_rx) := by
  have hlive₁ : (w.beaconed ka now).ending = none := beaconed_ending.trans hlive
  cases h with
  | lostTx hdiagnosing => simp [hdiagnosing]
  | ping hdiagnosing =>
      simp only [hdiagnosing, Bool.true_eq_false, false_and, iff_false]
      exact fun heq => by cases expire_ending heq hlive₁
  | ayt hdiagnosing =>
      simp only [hdiagnosing, Bool.true_eq_false, false_and, iff_false]
      exact fun heq => by cases expire_ending heq hlive₁
  | lostRx hdiagnosing hdue hspent hidle => simp [hdiagnosing, hdue, hspent, hidle]
  | idle hdiagnosing hdue hbudget =>
      have hnot : ¬ ka.retries ≤ w.probes_sent := by omega
      simp only [hnot, false_and, and_false, iff_false]
      exact fun heq => by cases expire_ending heq hlive₁
  | quiet hdiagnosing hping hlost =>
      refine iff_of_false (fun heq => by cases expire_ending heq hlive₁) ?_
      rintro ⟨_, hdue, hspent, htimeout | hinterval⟩
      · exact hlost ⟨hdue, hspent, htimeout⟩
      · exact hping ⟨hdue, hinterval⟩

/-- When a poll gives the transmit path up. -/
theorem PollKind.lostTx_iff
    {w' : Watch} {sent : List Signal} (hlive : w.ending = none)
    (h : PollKind ka w now w' sent) :
    (∃ bit, w'.ending = some (.lostTx bit)) ↔
      w.diagnosing ka now = true ∧ ka.retries + 1 ≤ w.marker_probes := by
  have hlive₁ : (w.beaconed ka now).ending = none := beaconed_ending.trans hlive
  cases h with
  | lostTx hdiagnosing hspent => simp [hdiagnosing, hspent]
  | ping hdiagnosing hbudget =>
      refine iff_of_false (fun ⟨bit, heq⟩ => ?_) (by omega)
      cases expire_ending heq hlive₁
  | ayt hdiagnosing hbudget =>
      refine iff_of_false (fun ⟨bit, heq⟩ => ?_) (by omega)
      cases expire_ending heq hlive₁
  | lostRx hdiagnosing => simp [hdiagnosing]
  | idle hdiagnosing =>
      refine iff_of_false (fun ⟨bit, heq⟩ => ?_) (by simp [hdiagnosing])
      cases expire_ending heq hlive₁
  | quiet hdiagnosing =>
      refine iff_of_false (fun ⟨bit, heq⟩ => ?_) (by simp [hdiagnosing])
      cases expire_ending heq hlive₁

/-- A poll that sends an idle PING, before the deadline. -/
theorem PollKind.idled
    {w' : Watch} {sent : List Signal} (h : PollKind ka w now w' sent)
    (hquiet : w.diagnosing ka now = false) (hdue : w.probeDue ka now = true)
    (hbudget : w.probes_sent < ka.retries) (hidle : ka.interval ≤ now - w.last_rx)
    (hdeadline : now < w.deadline) :
    w' = { (w.beaconed ka now).pinged now with probes_sent := w.probes_sent + 1 } := by
  have hdeadline₁ : now < (w.beaconed ka now).deadline := by
    rw [beaconed_deadline]
    exact hdeadline
  cases h with
  | lostTx hdiagnosing => simp [hquiet] at hdiagnosing
  | ping hdiagnosing => simp [hquiet] at hdiagnosing
  | ayt hdiagnosing => simp [hquiet] at hdiagnosing
  | lostRx _ _ hspent => omega
  | idle => exact expire_of_lt hdeadline₁
  | quiet _ hping => exact absurd ⟨hdue, hidle⟩ hping

/-- A poll that gives up sends no probe. -/
theorem PollKind.sent_of_lostRx
    {w' : Watch} {sent : List Signal} (hlive : w.ending = none)
    (h : PollKind ka w now w' sent) (hlost : w'.ending = some .lostRx) :
    sent = w.beaconSent ka now := by
  obtain ⟨hdiagnosing, hdue, hspent, _⟩ := (h.lostRx_iff hlive).mp hlost
  cases h with
  | lostTx => rfl
  | ping hdiagnosing' => simp [hdiagnosing] at hdiagnosing'
  | ayt hdiagnosing' => simp [hdiagnosing] at hdiagnosing'
  | lostRx => rfl
  | idle _ _ hbudget => omega
  | quiet => rfl

/-- Where no beacon waits after it, a poll has sent none. -/
theorem beaconed_of_none
    (h : (w.beaconed ka now).beacon_waiting = none) :
    w.beaconed ka now = w := by
  unfold beaconed sendBeacon at h ⊢
  split at h
  · cases h
  · rename_i hdue
    rw [if_neg hdue]

theorem beaconed_of_due
    (hquiet : w.marker_probes = 0) (hnone : w.beacon_waiting = none)
    (hdue : ka.beacon_interval ≤ now - w.last_beacon) :
    (w.beaconed ka now).beacon_waiting.isSome = true := by
  unfold beaconed sendBeacon
  rw [if_pos (by simp [beaconDue, hquiet, hnone, hdue])]
  rfl

theorem beaconed_of_not_due
    (h : now - w.last_beacon < ka.beacon_interval) :
    w.beaconed ka now = w := by
  unfold beaconed sendBeacon
  rw [if_neg (by simp [beaconDue, Nat.not_le.mpr h])]

theorem beaconed_last_beacon_le
    (h : w.last_beacon ≤ now) :
    (w.beaconed ka now).last_beacon ≤ now := by
  unfold beaconed sendBeacon
  split
  · exact Nat.le_refl now
  · exact h

theorem beaconed_isSome
    (h : w.beacon_waiting.isSome = true) :
    (w.beaconed ka now).beacon_waiting.isSome = true := by
  rw [beaconed_waiting h, h]

end Polls

section LineTurns

variable {ka : KeepAlive} {w : Watch} {text : Line} {t₁ t₂ : Nat}

/-- The lines that `recv_line` takes for evidence that the peer lives. -/
def Evidence (ka : KeepAlive) (w : Watch) (parts : List Line) : Prop :=
  ((isBeacon parts = true ∨ isMarker parts = true) ∧ word parts 1 = ka.beacon_rx) ∨
    (isPing parts = true ∧ w.outstanding ≠ some (word parts 1)) ∨
    ((isPong parts = true ∨ isHere parts = true) ∧ w.outstanding = some (word parts 1))

instance (parts : List Line) : Decidable (Evidence ka w parts) :=
  inferInstanceAs (Decidable (_ ∨ _ ∨ _))

/-- The lines that `recv_line` handles itself while it keeps a link alive. -/
def isIdleLine (parts : List Line) : Bool :=
  isTransparent parts || isHere parts

/-- What the turn of a line can do. -/
inductive LineKind (ka : KeepAlive) (w : Watch) (text : Line) (t₁ t₂ : Nat) :
    Watch → List Signal → Prop
  /-- A beacon of the peer is marked. -/
  | beacon (peer : Bool) :
      isBeacon (split text) = true → word (split text) 1 = ka.beacon_rx →
      LineKind ka w text t₁ t₂
        { w with last_rx := t₁, probes_sent := 0, peer_beacon_bit := peer }
        [.mark ka.beacon_tx ka.beacon_rx (bitOf (word (split text) 2))]
  /-- The waiting beacon is confirmed. -/
  | marked :
      isMarker (split text) = true → word (split text) 1 = ka.beacon_rx →
      w.beacon_waiting.isSome = true →
      LineKind ka w text t₁ t₂
        { w with
          last_rx := t₁
          probes_sent := 0
          beacon_waiting := none
          last_beacon_mark := t₂
          marker_probes := 0
          outstanding := none } []
  /-- A marker of the peer for another beacon. -/
  | marker :
      isMarker (split text) = true → word (split text) 1 = ka.beacon_rx →
      LineKind ka w text t₁ t₂ { w with last_rx := t₁, probes_sent := 0 } []
  | ping :
      isPing (split text) = true → w.outstanding ≠ some (word (split text) 1) →
      LineKind ka w text t₁ t₂ { w with last_rx := t₁, probes_sent := 0 }
        [.pong (word (split text) 1)]
  | pong :
      isPong (split text) = true → w.outstanding = some (word (split text) 1) →
      LineKind ka w text t₁ t₂ { w.confirm t₁ with probes_sent := 0 } []
  /-- Unlike a PONG, a HERE leaves `probes_sent` as it is. -/
  | here :
      isHere (split text) = true → w.outstanding = some (word (split text) 1) →
      LineKind ka w text t₁ t₂ (w.confirm t₁) [.aytOk (word (split text) 1)]
  | ignored :
      ¬ Evidence ka w (split text) → isIdleLine (split text) = true →
      LineKind ka w text t₁ t₂ w []
  | returned :
      ¬ Evidence ka w (split text) → isIdleLine (split text) = false →
      LineKind ka w text t₁ t₂ { w with ending := some (.returned text) } []

theorem isPing_word
    {parts : List Line} (h : isPing parts = true) :
    word parts 0 = "PING".toList := by
  simp only [isPing, Bool.and_eq_true, beq_iff_eq] at h
  exact h.1.2

theorem isPong_word
    {parts : List Line} (h : isPong parts = true) :
    word parts 0 = "PONG".toList := by
  simp only [isPong, Bool.and_eq_true, beq_iff_eq] at h
  exact h.1.2

theorem isHere_word
    {parts : List Line} (h : isHere parts = true) :
    word parts 0 = "HERE".toList := by
  simp only [isHere, Bool.and_eq_true, beq_iff_eq] at h
  exact h.1.1.2

theorem isBeacon_word
    {parts : List Line} (h : isBeacon parts = true) :
    word parts 0 = "BEACON".toList := by
  simp only [isBeacon, Bool.and_eq_true, beq_iff_eq] at h
  exact h.1.1.2

theorem isMarker_word
    {parts : List Line} (h : isMarker parts = true) :
    word parts 0 = "MARK".toList := by
  simp only [isMarker, Bool.and_eq_true, beq_iff_eq] at h
  exact h.1.1.1.2

/-- A line whose first word is neither is no beacon and no marker. -/
theorem not_beacon_of_word
    {parts : List Line} {w : Line}
    (h : word parts 0 = w) (hb : w ≠ "BEACON".toList) (hm : w ≠ "MARK".toList) :
    ¬ (isBeacon parts = true ∨ isMarker parts = true) := by
  rintro (hbeacon | hmarker)
  · exact hb (h.symm.trans (isBeacon_word hbeacon))
  · exact hm (h.symm.trans (isMarker_word hmarker))

/-- Every line turn is of one of the kinds. -/
theorem line_cases :
    LineKind ka w text t₁ t₂ (w.onLine ka text t₁ t₂).1 (w.onLine ka text t₁ t₂).2 := by
  have hword : ∀ {v v' : Line}, word (split text) 0 = v → word (split text) 0 = v' → v ≠ v' →
      False := fun h h' hne => hne (h.symm.trans h')
  unfold onLine
  dsimp only
  split_ifs with hbeacon hrx hping hout hpong hout' hhere hout''
  · unfold onPeerBeacon
    dsimp only
    split_ifs with hmarker hmarked
    · exact .marked hmarker hrx (by rw [hmarked.2]; rfl)
    · exact .marker hmarker hrx
    · exact .beacon _ (hbeacon.resolve_right hmarker) hrx
    · exact .beacon _ (hbeacon.resolve_right hmarker) hrx
  · -- A beacon or a marker of this side.
    refine .ignored ?_ ?_
    · rintro (⟨_, hside⟩ | ⟨hping, _⟩ | ⟨hpong | hhere, _⟩)
      · exact hrx hside
      · exact not_beacon_of_word (isPing_word hping) (by decide) (by decide) hbeacon
      · exact not_beacon_of_word (isPong_word hpong) (by decide) (by decide) hbeacon
      · exact not_beacon_of_word (isHere_word hhere) (by decide) (by decide) hbeacon
    · rcases hbeacon with h | h <;> simp [isIdleLine, isTransparent, h]
  · exact .ping hping hout
  · refine .ignored ?_ (by simp [isIdleLine, isTransparent, hping])
    rw [not_not] at hout
    rintro (⟨h, _⟩ | ⟨_, hne⟩ | ⟨hpong | hhere, _⟩)
    · exact hbeacon h
    · exact hne hout
    · exact hword (isPing_word hping) (isPong_word hpong) (by decide)
    · exact hword (isPing_word hping) (isHere_word hhere) (by decide)
  · exact .pong hpong hout'
  · refine .ignored ?_ (by simp [isIdleLine, isTransparent, hpong])
    rintro (⟨h, _⟩ | ⟨h, _⟩ | ⟨_, heq⟩)
    · exact hbeacon h
    · exact hping h
    · exact hout' heq
  · exact .here hhere hout''
  · refine .ignored ?_ (by simp [isIdleLine, hhere])
    rintro (⟨h, _⟩ | ⟨h, _⟩ | ⟨_, heq⟩)
    · exact hbeacon h
    · exact hping h
    · exact hout'' heq
  · refine .returned ?_ ?_
    · rintro (⟨h, _⟩ | ⟨h, _⟩ | ⟨h | h, _⟩)
      · exact hbeacon h
      · exact hping h
      · exact hpong h
      · exact hhere h
    · rw [not_or] at hbeacon
      simp [isIdleLine, isTransparent, hbeacon, hping, hpong, hhere]

/-- Evidence is what moves `last_rx`, to the reading of that turn. -/
theorem LineKind.evidence
    {w' : Watch} {out : List Signal} (h : LineKind ka w text t₁ t₂ w' out) :
    (Evidence ka w (split text) ∧ w'.last_rx = t₁) ∨
      (¬ Evidence ka w (split text) ∧ ∃ ending, w' = { w with ending }) := by
  cases h with
  | beacon peer hbeacon hside => exact Or.inl ⟨Or.inl ⟨Or.inl hbeacon, hside⟩, rfl⟩
  | marked hmarker hside => exact Or.inl ⟨Or.inl ⟨Or.inr hmarker, hside⟩, rfl⟩
  | marker hmarker hside => exact Or.inl ⟨Or.inl ⟨Or.inr hmarker, hside⟩, rfl⟩
  | ping hping hout => exact Or.inl ⟨Or.inr (Or.inl ⟨hping, hout⟩), rfl⟩
  | pong hpong hout => exact Or.inl ⟨Or.inr (Or.inr ⟨Or.inl hpong, hout⟩), rfl⟩
  | here hhere hout => exact Or.inl ⟨Or.inr (Or.inr ⟨Or.inr hhere, hout⟩), rfl⟩
  | ignored hnone => exact Or.inr ⟨hnone, w.ending, rfl⟩
  | returned hnone => exact Or.inr ⟨hnone, _, rfl⟩

/-- A line never touches the time of the last probe. -/
theorem LineKind.last_ping
    {w' : Watch} {out : List Signal} (h : LineKind ka w text t₁ t₂ w' out) :
    w'.last_ping = w.last_ping := by
  cases h <;> rfl

end LineTurns

section Steps

variable {ka : KeepAlive} {w w' : Watch} {out : List Signal}

theorem step_line
    {text : Line} {t₁ t₂ : Nat}
    (h : w.step ka (.line text t₁ t₂) = some (w', out)) :
    w.ending = none ∧ w.clock ≤ t₁ ∧ t₁ ≤ t₂ ∧
      w' = { (w.onLine ka text t₁ t₂).1 with clock := t₂ } ∧
      out = (w.onLine ka text t₁ t₂).2 := by
  unfold step at h
  split_ifs at h with hended
  simp only at h
  split_ifs at h with hclock
  cases h
  exact ⟨by simpa using hended, hclock.1, hclock.2, rfl, rfl⟩

theorem step_poll_of
    {now : Nat} (hlive : w.ending = none) (hclock : w.clock ≤ now) :
    w.step ka (.poll now) =
      some ({ (w.onPoll ka now).1 with clock := now }, (w.onPoll ka now).2) := by
  simp [step, hlive, hclock]

theorem step_poll
    {now : Nat}
    (h : w.step ka (.poll now) = some (w', out)) :
    w.ending = none ∧ w.clock ≤ now ∧
      w' = { (w.onPoll ka now).1 with clock := now } ∧ out = (w.onPoll ka now).2 := by
  unfold step at h
  split_ifs at h with hended
  simp only at h
  split_ifs at h with hclock
  cases h
  exact ⟨by simpa using hended, hclock, rfl, rfl⟩

end Steps

end Watch

/-- The parameters of `serve` by default, in seconds. -/
def defaultKeepAlive : KeepAlive where
  interval := 5
  timeout := 20
  retries := 3
  beacon_interval := 4
  beacon_tx := "U".toList
  beacon_rx := "P".toList
  interval_pos := by decide
  timeout_pos := by decide
  retries_pos := by decide
  beacon_interval_pos := by decide
  tx_side := by decide
  rx_side := by decide
  sides_ne := by decide

/-- A read of an hour that begins at time zero, with all bits at zero. -/
def hourOpening : Opening where
  timeout := 3600
  at_deadline := 0
  at_rx := 0
  at_ping := 0
  at_beacon := 0
  at_mark := 0
  ordered := by decide
  ping_bit := false
  ayt_bit := false
  beacon_bit := false
  peer_beacon_bit := false

end Pcutp
