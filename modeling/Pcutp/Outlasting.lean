import Pcutp.Lib.Timed
import Pcutp.SendWindow
import Pcutp.Transfer

/-!
# The receiver outlasts the sender's recovery

A FLOW transfer with both clocks, in seconds.  The receiver's lines arrive at
once; the sender's lines and frames are lost in any pattern, or take less than
`ACK_TIMEOUT`.

Every line that the receiver reads starts its wait for the next header again,
and the sender hears of it at once.  `Outlasts` bounds by this wait the moment
at which the sender writes the last retry of its recovery.  AYT? and RST are
done with time to spare.  The sixth BARRIER is written just when the wait of a
receiver that has heard none of the other five is over.
-/

namespace Pcutp

open Timed (World Wire Seat)

namespace Const

def RECOVERY_TIMEOUT : Nat := 60

end Const

section Defs

/-- What is on the line: a command of the sender, or a reply. -/
abbrev Message := Command ⊕ Reply

/-- The time that a wait of `send_file` is given; none for what needs no read. -/
def SendPhase.allowance : SendPhase → Nat
  | ready => sourcePatience.ack_timeout
  | block _ _ => sourcePatience.ack_timeout
  | final => sourcePatience.ack_timeout
  | phase => phase.patience sourcePatience

/-- Whether the sender has a retry left to send. -/
def SendPhase.retriesLeft : SendPhase → Bool
  | fill => true
  | reply => true
  | guard _ => true
  | ayt _ => true
  | rst left => decide (0 < left)
  | barrier _ left => decide (0 < left)
  | _ => false

/-- How many more BARRIERs of the current recovery there may be. -/
def SendPhase.barriersLeft : SendPhase → Option Nat
  | barrier _ left => some left
  | _ => none

/-- `send_file` goes on. -/
def Sender.Going (s : Sender) : Prop :=
  s.phase = .fill ∨ s.reads = true

instance (s : Sender) : Decidable s.Going :=
  inferInstanceAs (Decidable (_ ∨ _))

/-- The deadline of the wait that the sender is in: a new wait gets a deadline of its own. -/
def Sender.rearm (s : Sender) (old : Sender × Nat) (now : Nat) : Sender × Nat :=
  (s, if s.phase = old.1.phase then old.2 else now + s.phase.allowance)

/-- The sender has taken a step, if it could. -/
def Sender.after (old : Sender × Nat) (now : Nat) :
    Option (Sender × List Command) → (Sender × Nat) × List Message
  | some (s, out) => (s.rearm old now, out.map .inl)
  | none => (old, [])

/-- `send_file` with the deadline of its wait. -/
def Sender.party (job : Job) : Timed.Party (Sender × Nat) Message where
  listens s := s.1.reads
  deadline s := if s.1.Going then some s.2 else none
  read now s message :=
    match message with
    | .inl _ => (s, [])
    | .inr reply => Sender.after s now (s.1.step job (.line reply.line (decide (s.2 ≤ now))))
  expire now s :=
    Sender.after s now (s.1.step job (if s.1.phase = .fill then .run else .timeout))

/-- Whether `_receive` waits for a header. -/
def RecvPhase.isHeader : RecvPhase → Bool
  | header => true
  | _ => false

/-- Whether `_receive` is about to rename the file. -/
def RecvPhase.isCommit : RecvPhase → Bool
  | commit => true
  | _ => false

/-- The timeout of a header read in `_receive`. -/
def ClientConfig.headerWait (cfg : ClientConfig) : Nat :=
  if cfg.flow = true then Const.RECOVERY_TIMEOUT else sourcePatience.ack_timeout * 2

/-- One turn of `_receive` on what its read delivers. -/
def Recv.turn {cfg : ClientConfig} (m : AcceptedMeta cfg) (r : Recv) :
    Message → Recv × List Effect
  | .inl c => (r.read m c).getD (r, [])
  | .inr _ => (r, [])

/-- `_receive` with the deadline of its header wait, which every turn starts again. -/
def Recv.party {cfg : ClientConfig} (m : AcceptedMeta cfg) : Timed.Party (Recv × Nat) Message where
  listens r := r.1.phase.isHeader
  deadline r := if r.1.phase.isHeader = true ∨ r.1.phase.isCommit = true then some r.2 else none
  read now r message :=
    let next := r.1.turn m message
    ((next.1, if next.1.phase.isHeader = true then now + cfg.headerWait else now),
      (sends next.2).map .inr)
  expire now r :=
    match r.1.step m (if r.1.phase.isCommit = true then .commit true else .timeout) with
    | some (r', effects) => ((r', now), (sends effects).map .inr)
    | none => (r, [])

/-- The two ends, when the receiver's lines arrive at once. -/
def flowLine {cfg : ClientConfig} (job : Job) (m : AcceptedMeta cfg)
    (toReceiver : Timed.Route Message) : Timed.System (Sender × Nat) (Recv × Nat) Message where
  left := Sender.party job
  right := Recv.party m
  toLeft := { delay := fun _ => 0, lost := fun _ _ => false }
  toRight := toReceiver

/-- Both ends of a transfer, with their clocks. -/
abbrev FlowWorld := World (Sender × Nat) (Recv × Nat) Message

/-- The receiver has read META and has written READY. -/
def flowStart {cfg : ClientConfig} (job : Job) (m : AcceptedMeta cfg)
    (toReceiver : Timed.Route Message) (barrier_id : Nat) (reset_token : Option Line) :
    FlowWorld where
  now := 0
  left :=
    { state := (Sender.start barrier_id reset_token, SendPhase.ready.allowance)
      inbox := Wire.empty.puts (flowLine job m toReceiver).toLeft 0 [.inr .ready] }
  right := { state := (Recv.start, cfg.headerWait), inbox := .empty }

/-- The receiver's header wait is over, and the sender has a retry left to send. -/
def Overtaken (w : FlowWorld) : Prop :=
  w.right.state.1.phase.isHeader = true ∧ w.right.state.2 ≤ w.now ∧
    w.left.state.1.phase.retriesLeft = true

instance (w : FlowWorld) : Decidable (Overtaken w) :=
  inferInstanceAs (Decidable (_ ∧ _))

/-- A step begins the wait with one BARRIER left to send, while nothing is on the line to the
receiver and its header wait is over no later than that wait. -/
def Unheard (w w' : FlowWorld) : Prop :=
  w'.left.state.1.phase.barriersLeft = some 1 ∧ w'.left.state.1.phase ≠ w.left.state.1.phase ∧
    w'.right.inbox.queue.isEmpty = true ∧ w'.right.state.1.phase.isHeader = true ∧
      w'.right.state.2 ≤ w'.left.state.2

instance (w w' : FlowWorld) : Decidable (Unheard w w') :=
  inferInstanceAs (Decidable (_ ∧ _))

/-- An event after which the sender waits with one BARRIER left, and nothing that it wrote
in this recovery has reached the receiver or is on its way. -/
def losesFifth {cfg : ClientConfig} (job : Job) (m : AcceptedMeta cfg)
    (toReceiver : Timed.Route Message) (w : FlowWorld) (e : Timed.Event) : Bool :=
  match w.step (flowLine job m toReceiver) e with
  | some w' => decide (Unheard w w')
  | none => false

/-- The retries that a phase may have left. -/
def SendPhase.Within : SendPhase → Prop
  | ayt left => left < Const.PROBE_RETRIES
  | rst left => left < Const.RST_RETRIES
  | barrier _ left => left ≤ Const.MAX_RETRIES
  | _ => True

/-- From a wait with this deadline on, the last retry of the sender is written before the
receiver's wait is over; the last BARRIER at the same time at the latest. -/
def SendPhase.Outlasts (deadline wait : Nat) : SendPhase → Prop
  | fill => deadline + 50 < wait
  | reply => deadline + 38 < wait
  | guard _ => deadline + 37 < wait
  | ayt left => deadline + 3 * left + 6 < wait
  | rst left => deadline + 3 * left < wait + 3
  | barrier _ left => deadline + 12 * left ≤ wait + 12
  | _ => True

end Defs

namespace SendPhase

variable {phase : SendPhase} {now deadline wait : Nat}

theorem allowance_le (phase : SendPhase) :
    phase.allowance ≤ sourcePatience.ack_timeout := by
  cases phase <;> simp [allowance, patience, sourcePatience]

theorem Outlasts.mono
    {wait' : Nat} (h : phase.Outlasts deadline wait) (hle : wait ≤ wait') :
    phase.Outlasts deadline wait' := by
  cases phase <;> simp only [Outlasts] at h ⊢ <;> omega

/-- A wait that begins when the receiver has just read something. -/
theorem outlasts_fresh
    (hwithin : phase.Within) (hheard : now + Const.RECOVERY_TIMEOUT ≤ wait) :
    phase.Outlasts (now + phase.allowance) wait := by
  have hsixty : now + 60 ≤ wait := hheard
  cases phase with
  | ready => trivial
  | fill =>
      change now + 0 + 50 < wait
      omega
  | reply =>
      change now + 12 + 38 < wait
      omega
  | guard again =>
      change now + 1 + 37 < wait
      omega
  | ayt left =>
      change left < 10 at hwithin
      change now + 3 + 3 * left + 6 < wait
      omega
  | rst left =>
      change left < 3 at hwithin
      change now + 3 + 3 * left < wait + 3
      omega
  | barrier reset left =>
      change left ≤ 5 at hwithin
      change now + 12 + 12 * left ≤ wait + 12
      omega
  | block attempt timeouts => trivial
  | final => trivial
  | returned result => trivial
  | raised exc => trivial

/-- A retry that is left when the receiver's wait is over is the last BARRIER. -/
theorem Outlasts.last
    (h : phase.Outlasts deadline wait) (hfill : phase = .fill → deadline = now)
    (hnow : now ≤ deadline) (hover : wait ≤ now) (hleft : phase.retriesLeft = true) :
    (∃ reset, phase = .barrier reset 1) ∧ deadline = now ∧ wait = now := by
  cases phase with
  | fill =>
      have hdeadline := hfill rfl
      simp only [Outlasts] at h
      omega
  | reply =>
      simp only [Outlasts] at h
      omega
  | guard again =>
      simp only [Outlasts] at h
      omega
  | ayt left =>
      simp only [Outlasts] at h
      omega
  | rst left =>
      simp only [Outlasts] at h
      have hpos : 0 < left := of_decide_eq_true hleft
      omega
  | barrier reset left =>
      simp only [Outlasts] at h
      have hpos : 0 < left := of_decide_eq_true hleft
      obtain rfl : left = 1 := by omega
      exact ⟨⟨reset, rfl⟩, by omega, by omega⟩
  | ready => cases hleft
  | block attempt timeouts => cases hleft
  | final => cases hleft
  | returned result => cases hleft
  | raised exc => cases hleft

theorem barriersLeft_eq
    {left : Nat} (h : phase.barriersLeft = some left) :
    ∃ reset, phase = .barrier reset left := by
  cases phase with
  | barrier reset left' => exact ⟨reset, by rw [Option.some.inj h]⟩
  | _ => cases h

end SendPhase

namespace Sender

theorem going_of_barrier
    {s : Sender} {left : Nat} (h : s.phase.barriersLeft = some left) :
    s.Going := by
  obtain ⟨reset, hphase⟩ := SendPhase.barriersLeft_eq h
  exact Or.inr (by rw [reads, hphase])

theorem going_of_retries
    {s : Sender} (h : s.phase.retriesLeft = true) :
    s.Going := by
  unfold Going reads
  cases hphase : s.phase <;> simp_all [SendPhase.retriesLeft]

variable {job : Job} {s : Sender} {late : Bool}

section Within

theorem within_ask
    {left : Nat} (h : left ≤ Const.PROBE_RETRIES) :
    (s.ask left).1.phase.Within := by
  cases left with
  | zero => exact (by decide : Const.RST_RETRIES - 1 < Const.RST_RETRIES)
  | succ left => exact h

theorem within_askReset
    {left : Nat} (h : left < Const.RST_RETRIES) :
    (s.askReset left).1.phase.Within := by
  cases left with
  | zero => trivial
  | succ left => exact Nat.lt_of_succ_lt h

theorem within_askBarrier
    {reset : Bool} {left : Nat} (h : left ≤ Const.MAX_RETRIES) :
    (s.askBarrier reset left).1.phase.Within := by
  cases left with
  | zero => trivial
  | succ left => exact Nat.le_of_succ_le h

theorem within_resume (reset : Bool) (seq : Nat) :
    (s.resume job reset seq).1.phase.Within := by
  unfold resume
  dsimp only
  split_ifs <;> trivial

theorem within_dispatch
    (hretries : job.session.config.max_retries ≤ Const.MAX_RETRIES) {parts : List Line} :
    (s.dispatch job parts late).1.phase.Within := by
  unfold dispatch
  dsimp only
  split_ifs
  · trivial
  · trivial
  · trivial
  · trivial
  · trivial
  · exact hretries
  · exact hretries
  · trivial
  · trivial

theorem within_onBarrier
    {reset : Bool} {left : Nat} {parts : List Line} (hphase : s.phase = .barrier reset left)
    (h : s.phase.Within) :
    (s.onBarrier job reset left parts late).1.phase.Within := by
  have hleft : left ≤ Const.MAX_RETRIES := by
    rw [hphase] at h
    exact h
  rw [onBarrier]
  generalize (if reset = true then 0 else s.base) = lo
  split_ifs
  · exact within_resume _ _
  · trivial
  · exact within_askBarrier hleft
  · exact h
  · trivial

variable (hretries : job.session.config.max_retries ≤ Const.MAX_RETRIES)
  (hprobes : job.session.config.probe_retries ≤ Const.PROBE_RETRIES)

include hretries

theorem within_onReply
    {parts : List Line} (h : s.phase.Within) :
    (s.onReply job parts late).1.phase.Within := by
  unfold onReply
  split_ifs
  · trivial
  · exact h
  · exact within_dispatch hretries

theorem within_onProbe
    {left : Nat} {parts : List Line} (hphase : s.phase = .ayt left) (h : s.phase.Within) :
    (s.onProbe job left parts late).1.phase.Within := by
  have hleft : left < Const.PROBE_RETRIES := by
    rw [hphase] at h
    exact h
  unfold onProbe
  split_ifs
  · exact within_dispatch hretries
  · exact within_dispatch hretries
  · exact within_ask hleft.le
  · exact h

theorem within_onReset
    {left : Nat} {parts : List Line} (hphase : s.phase = .rst left) (h : s.phase.Within) :
    (s.onReset job left parts late).1.phase.Within := by
  have hleft : left < Const.RST_RETRIES := by
    rw [hphase] at h
    exact h
  unfold onReset
  split_ifs
  · exact within_dispatch hretries
  · exact within_askReset hleft
  · exact h
  · trivial

include hprobes

theorem within_onGuard {again : Bool} {text : Line} :
    (s.onGuard job again text).1.phase.Within := by
  unfold onGuard
  split_ifs
  · exact within_ask hprobes
  · trivial
  · exact within_dispatch hretries

omit hretries in
/-- A read that times out. -/
theorem within_onTimeout
    {exc : PcutpError} {next : Sender × List Command} (h : s.phase.Within)
    (hnext : s.onTimeout job exc = some next) :
    next.1.phase.Within := by
  rw [onTimeout] at hnext
  split at hnext <;> rename_i hphase
  · cases hnext
    trivial
  · cases hnext
    trivial
  · cases hnext
    exact within_ask hprobes
  · cases hnext
    rw [hphase] at h
    exact within_ask (Nat.le_of_lt h)
  · cases hnext
    rw [hphase] at h
    exact within_askReset h
  · cases hnext
    rw [hphase] at h
    exact within_askBarrier h
  · cases hnext
    unfold onBlockTimeout sendAgain
    split_ifs <;> trivial
  · cases hnext
    trivial
  · cases hnext

/-- A read that delivers a line, whatever the line is. -/
theorem within_line
    {text : Line} {next : Sender × List Command} (h : s.phase.Within)
    (hnext : s.step job (.line text late) = some next) :
    next.1.phase.Within := by
  rw [step] at hnext
  split_ifs at hnext with hrmb hreads hlate
  · -- `_recv_line` answers, and its time is over.
    obtain ⟨p, hp, rfl⟩ := Option.map_eq_some_iff.mp hnext
    have hwithin := within_onTimeout hprobes h hp
    exact hwithin
  · cases hnext
    exact h
  · rw [onLine] at hnext
    split at hnext <;> rename_i hphase
    · split at hnext <;> cases hnext <;> trivial
    · cases hnext
      exact within_onReply hretries h
    · cases hnext
      exact within_onGuard hretries hprobes
    · cases hnext
      exact within_onProbe hretries hphase h
    · cases hnext
      exact within_onReset hretries hphase h
    · cases hnext
      exact within_onBarrier hphase h
    · cases hnext
      unfold onBlock sendAgain
      split_ifs <;> trivial
    · cases hnext
      unfold onFinal
      split_ifs
      · trivial
      · exact h
      · trivial
    · cases hnext

end Within

section Waits

variable {wait deadline : Nat} {next : Sender × List Command}

/-- The wait after a timeout. -/
theorem outlasts_onTimeout
    (hprobes : job.session.config.probe_retries ≤ Const.PROBE_RETRIES) {exc : PcutpError}
    (h : s.phase.Outlasts deadline wait) (hnext : s.onTimeout job exc = some next) :
    next.1.phase.Outlasts (deadline + next.1.phase.allowance) wait := by
  have hask : ∀ left, deadline + 3 * left + 6 < wait →
      (s.ask left).1.phase.Outlasts (deadline + (s.ask left).1.phase.allowance) wait := by
    intro left hlt
    cases left with
    | zero =>
        change deadline + 3 + 3 * (Const.RST_RETRIES - 1) < wait + 3
        simp only [Const.RST_RETRIES]
        omega
    | succ left =>
        change deadline + 3 + 3 * left + 6 < wait
        omega
  rw [onTimeout] at hnext
  split at hnext <;> rename_i hphase
  · cases hnext
    trivial
  · cases hnext
    rw [hphase] at h
    simp only [SendPhase.Outlasts] at h
    change deadline + 1 + 37 < wait
    omega
  · cases hnext
    rw [hphase] at h
    simp only [SendPhase.Outlasts] at h
    have hten : job.session.config.probe_retries ≤ 10 := hprobes
    exact hask _ (by omega)
  · cases hnext
    rw [hphase] at h
    exact hask _ h
  · rename_i left
    cases hnext
    rw [hphase] at h
    simp only [SendPhase.Outlasts] at h
    cases left with
    | zero => trivial
    | succ left =>
        change deadline + 3 + 3 * left < wait + 3
        omega
  · rename_i reset left
    cases hnext
    rw [hphase] at h
    simp only [SendPhase.Outlasts] at h
    cases left with
    | zero => trivial
    | succ left =>
        change deadline + 12 + 12 * left ≤ wait + 12
        omega
  · cases hnext
    unfold onBlockTimeout sendAgain
    split_ifs <;> trivial
  · cases hnext
    trivial
  · cases hnext

/-- The wait after a step that needs no read. -/
theorem outlasts_run
    (h : s.phase.Outlasts deadline wait) (hphase : s.phase = .fill)
    (hnext : s.step job .run = some next) :
    next.1.phase.Outlasts (deadline + next.1.phase.allowance) wait := by
  rw [hphase] at h
  simp only [SendPhase.Outlasts] at h
  have hfill : (deadline + SendPhase.fill.allowance) + 50 < wait := h
  rw [step, if_pos hphase] at hnext
  split_ifs at hnext <;> cases hnext
  · unfold fillWindow
    split_ifs
    · trivial
    · change s.phase.Outlasts (deadline + s.phase.allowance) wait
      rw [hphase]
      exact hfill
    · change deadline + 12 + 38 < wait
      omega
    · trivial
  · unfold fillBlock
    split_ifs <;> trivial

theorem within_run
    (h : s.phase.Within) (hnext : s.step job .run = some next) :
    next.1.phase.Within := by
  rw [step] at hnext
  split_ifs at hnext <;> cases hnext
  · unfold fillWindow
    split_ifs
    · trivial
    · exact h
    · trivial
    · trivial
  · unfold fillBlock
    split_ifs <;> trivial

end Waits

theorem deadline_some
    {t : Sender × Nat} {d : Nat} (h : (Sender.party job).deadline t = some d) :
    t.1.Going ∧ t.2 = d := by
  simp only [party] at h
  split_ifs at h with hgoing
  exact ⟨hgoing, Option.some.inj h⟩

/-- A step keeps the deadline with the phase. -/
theorem after_deadline
    (old : Sender × Nat) (now : Nat) (next : Option (Sender × List Command)) :
    (after old now next).1.2 =
      if (after old now next).1.1.phase = old.1.phase then old.2
      else now + (after old now next).1.1.phase.allowance := by
  cases next with
  | none => exact (if_pos rfl).symm
  | some p => rfl

theorem act_deadline
    {now : Nat} {a : Timed.Act} {seat left : Seat (Sender × Nat) Message} {out : List Message}
    (hact : seat.act (Sender.party job) now a = some (left, out)) :
    left.state.2 = if left.state.1.phase = seat.state.1.phase then seat.state.2
      else now + left.state.1.phase.allowance := by
  cases a with
  | read =>
      obtain ⟨_, message, _, _, _, _, rfl, _⟩ := Seat.act_read hact
      cases message with
      | inl c => exact (if_pos rfl).symm
      | inr reply => exact after_deadline _ _ _
  | expire =>
      obtain ⟨_, _, _, rfl, _⟩ := Seat.act_expire hact
      exact after_deadline _ _ _

/-- How the sender's wait stands to the receiver's while both go on. -/
structure Poised (now wait : Nat) (s : Sender × Nat) : Prop where
  ahead : now ≤ s.2
  soon : s.2 ≤ now + sourcePatience.ack_timeout
  fill : s.1.phase = .fill → s.2 = now
  within : s.1.phase.Within
  outlasts : s.1.phase.Outlasts s.2 wait

namespace Poised

variable {now wait : Nat} {s : Sender × Nat}

theorem mono
    {wait' : Nat} (h : Poised now wait s) (hle : wait ≤ wait') :
    Poised now wait' s :=
  { h with outlasts := h.outlasts.mono hle }

theorem tick (h : Poised now wait s) (hlt : now < s.2) :
    Poised (now + 1) wait s where
  ahead := hlt
  soon := h.soon.trans (by omega)
  fill hphase := absurd (h.fill hphase) (by omega)
  within := h.within
  outlasts := h.outlasts

/-- Another wait begins, or the same one goes on. -/
theorem rearm
    {s' : Sender} (h : Poised now wait s) (hwithin : s'.phase.Within)
    (houtlasts : s'.phase.Outlasts (now + s'.phase.allowance) wait) :
    Poised now wait (s'.rearm s now) := by
  unfold Sender.rearm
  by_cases hsame : s'.phase = s.1.phase
  · rw [if_pos hsame]
    exact ⟨h.ahead, h.soon, fun hphase => h.fill (hsame.symm.trans hphase), hwithin,
      hsame ▸ h.outlasts⟩
  · rw [if_neg hsame]
    refine ⟨Nat.le_add_right _ _, Nat.add_le_add_left (SendPhase.allowance_le _) _,
      fun hphase => ?_, hwithin, houtlasts⟩
    change s'.phase = .fill at hphase
    rw [hphase]
    rfl

/-- A step that keeps within the retries and in time. -/
theorem after
    {next : Option (Sender × List Command)} (h : Poised now wait s)
    (hnext : ∀ p, next = some p → p.1.phase.Within ∧
      p.1.phase.Outlasts (now + p.1.phase.allowance) wait) :
    Poised now wait (Sender.after s now next).1 := by
  cases next with
  | none => exact h
  | some p => exact h.rearm (hnext p rfl).1 (hnext p rfl).2

theorem read
    (hretries : job.session.config.max_retries ≤ Const.MAX_RETRIES)
    (hprobes : job.session.config.probe_retries ≤ Const.PROBE_RETRIES)
    (h : Poised now wait s) (hheard : now + Const.RECOVERY_TIMEOUT ≤ wait) (message : Message) :
    Poised now wait ((Sender.party job).read now s message).1 := by
  cases message with
  | inl c => exact h
  | inr reply =>
      refine h.after fun p hp => ?_
      have hwithin := within_line hretries hprobes h.within hp
      exact ⟨hwithin, SendPhase.outlasts_fresh hwithin hheard⟩

theorem expire
    (hprobes : job.session.config.probe_retries ≤ Const.PROBE_RETRIES)
    (h : Poised now wait s) (hdue : s.2 ≤ now) :
    Poised now wait ((Sender.party job).expire now s).1 := by
  have hnow : s.2 = now := Nat.le_antisymm hdue h.ahead
  have houtlasts := h.outlasts
  rw [hnow] at houtlasts
  refine h.after fun p hp => ?_
  by_cases hphase : s.1.phase = .fill
  · rw [if_pos hphase] at hp
    exact ⟨within_run h.within hp, outlasts_run houtlasts hphase hp⟩
  · rw [if_neg hphase] at hp
    exact ⟨within_onTimeout hprobes h.within hp, outlasts_onTimeout hprobes houtlasts hp⟩

end Poised

end Sender

namespace Recv

variable {cfg : ClientConfig} {m : AcceptedMeta cfg}

/-- When its time is over, the receiver waits no more. -/
theorem expire_ends
    (now : Nat) {r : Recv × Nat} (hd : (Recv.party m).deadline r ≠ none) :
    ((Recv.party m).expire now r).1.1.phase.isHeader = false ∧
      ((Recv.party m).expire now r).1.1.phase.isCommit = false := by
  cases hphase : r.1.phase with
  | header => simp [party, step, hphase, RecvPhase.isCommit, Recv.raise, RecvPhase.isHeader]
  | commit => simp [party, step, hphase, RecvPhase.isCommit, RecvPhase.isHeader]
  | payload h => exact absurd (by simp [party, hphase, RecvPhase.isCommit, RecvPhase.isHeader]) hd
  | returned ok => exact absurd (by simp [party, hphase, RecvPhase.isCommit, RecvPhase.isHeader]) hd
  | raised exc => exact absurd (by simp [party, hphase, RecvPhase.isCommit, RecvPhase.isHeader]) hd

/-- Where nothing is waited for, nothing is over. -/
theorem expire_idle
    (now : Nat) {r : Recv × Nat} (hd : (Recv.party m).deadline r = none) :
    ((Recv.party m).expire now r).1 = r := by
  cases hphase : r.1.phase with
  | header => simp [party, hphase, RecvPhase.isHeader] at hd
  | commit => simp [party, hphase, RecvPhase.isCommit] at hd
  | payload h => simp [party, step, hphase, RecvPhase.isCommit]
  | returned ok => simp [party, step, hphase, RecvPhase.isCommit]
  | raised exc => simp [party, step, hphase, RecvPhase.isCommit]

/-- The receiver's waits are no longer than a header wait. -/
theorem steady : (Recv.party m).Steady cfg.headerWait where
  hears now r hlistens := by
    cases hd : (Recv.party m).deadline r with
    | none => rwa [expire_idle now hd] at hlistens
    | some d =>
        have hends := (expire_ends (m := m) now (r := r) (by simp [hd])).1
        exact absurd (hends.symm.trans hlistens) Bool.false_ne_true
  read now r message d hd := by
    simp only [party] at hd
    split_ifs at hd <;> cases hd <;> exact Or.inr ⟨by omega, by omega⟩
  expire now r d hd := by
    cases hold : (Recv.party m).deadline r with
    | none =>
        rw [expire_idle now hold, hold] at hd
        cases hd
    | some d' =>
        obtain ⟨hheader, hcommit⟩ := expire_ends (m := m) now (r := r) (by simp [hold])
        simp only [party] at hd hheader hcommit
        rw [hheader, hcommit] at hd
        simp at hd

end Recv

section Worlds

variable {cfg : ClientConfig} {job : Job} {m : AcceptedMeta cfg}
  {toReceiver : Timed.Route Message} {w w' : FlowWorld}

/-- Both ends go on: what is on the line to the sender has just been written, and the sender is
in time for the receiver's wait. -/
structure Attuned (w : FlowWorld) : Prop where
  arrived : w.left.inbox.latest ≤ w.now
  due : ∀ x ∈ w.left.inbox.queue, x.1 = w.now
  heard : w.left.inbox.queue ≠ [] → w.now + Const.RECOVERY_TIMEOUT ≤ w.right.state.2
  poised : Sender.Poised w.now w.right.state.2 w.left.state

/-- What holds throughout a transfer. -/
structure Timely (m : AcceptedMeta cfg) (w : FlowWorld) : Prop where
  right : w.right.Punctual (Recv.party m) sourcePatience.ack_timeout cfg.headerWait w.now
  attuned : w.left.state.1.Going → w.right.state.1.phase.isHeader = true → Attuned w

theorem timely_start
    (hflow : cfg.flow = true) (barrier_id : Nat) (reset_token : Option Line) :
    Timely m (flowStart job m toReceiver barrier_id reset_token) := by
  refine ⟨⟨Wire.ordered_empty (by decide), ⟨fun _ x _ => Nat.zero_le _, fun d _ =>
    Nat.zero_le d⟩, fun d hd => ?_⟩, fun _ _ => ⟨Nat.le_refl _, ?_, fun _ => ?_, ?_⟩⟩
  · obtain rfl := Option.some.inj hd
    exact (Nat.zero_add _).ge
  · intro x hx
    rw [List.mem_singleton.mp hx]
    rfl
  · change 0 + Const.RECOVERY_TIMEOUT ≤ cfg.headerWait
    rw [Nat.zero_add]
    exact (show cfg.headerWait = Const.RECOVERY_TIMEOUT from if_pos hflow).ge
  · exact ⟨Nat.zero_le _, (Nat.zero_add _).ge, fun hphase => (by cases hphase), trivial, trivial⟩

theorem Attuned.tick
    (h : Attuned w) (hgoing : w.left.state.1.Going)
    (hidle : ¬ w.left.Pressed (Sender.party job) w.now) :
    Attuned { w with now := w.now + 1 } := by
  have hdeadline : (Sender.party job).deadline w.left.state = some w.left.state.2 :=
    if_pos hgoing
  have hlt : w.now < w.left.state.2 := by
    by_contra hle
    refine hidle (Or.inr ?_)
    rw [Seat.act_expire_of hdeadline (Nat.not_lt.mp hle)]
    rfl
  have hreads : w.left.state.1.reads = true :=
    hgoing.resolve_left fun hphase => (h.poised.fill hphase).not_gt hlt
  have hempty : w.left.inbox.queue = [] := by
    cases hqueue : w.left.inbox.queue with
    | nil => rfl
    | cons x queue =>
        refine absurd (Or.inl ?_) hidle
        have hdue : x.1 = w.now := h.due x (by rw [hqueue]; exact List.mem_cons_self)
        rw [Seat.act_read_of (show w.left.inbox.queue = (x.1, x.2) :: queue from hqueue) hreads
          hdue.le]
        rfl
  exact
    { arrived := h.arrived.trans (Nat.le_succ _)
      due := fun x hx => absurd hx (by rw [hempty]; exact List.not_mem_nil)
      heard := fun hne => absurd hempty hne
      poised := h.poised.tick hlt }

/-- The sender does something. -/
theorem Attuned.sender
    (hretries : job.session.config.max_retries ≤ Const.MAX_RETRIES)
    (hprobes : job.session.config.probe_retries ≤ Const.PROBE_RETRIES)
    (h : Attuned w) {a : Timed.Act} {left : Seat (Sender × Nat) Message} {out : List Message}
    {right : Seat (Recv × Nat) Message} (hright : right.state = w.right.state)
    (hact : w.left.act (Sender.party job) w.now a = some (left, out)) :
    Attuned { w with left, right } := by
  cases a with
  | read =>
      obtain ⟨due, message, queue, hqueue, -, -, rfl, rfl⟩ := Seat.act_read hact
      have hsub : ∀ x ∈ queue, x ∈ w.left.inbox.queue := fun x hx => by
        rw [hqueue]
        exact List.mem_cons_of_mem _ hx
      have hheard : w.now + Const.RECOVERY_TIMEOUT ≤ w.right.state.2 :=
        h.heard (by rw [hqueue]; exact List.cons_ne_nil _ _)
      refine ⟨h.arrived, fun x hx => h.due x (hsub x hx), fun _ => ?_, ?_⟩
      · rw [hright]
        exact hheard
      · rw [hright]
        exact h.poised.read hretries hprobes hheard message
  | expire =>
      obtain ⟨d, hd, hle, rfl, rfl⟩ := Seat.act_expire hact
      have hdue : w.left.state.2 ≤ w.now := (Sender.deadline_some hd).2.trans_le hle
      refine ⟨h.arrived, h.due, fun hne => ?_, ?_⟩
      · rw [hright]
        exact h.heard hne
      · rw [hright]
        exact h.poised.expire hprobes hdue

/-- The receiver reads something, and its replies are there at once. -/
theorem Attuned.receiver
    (hflow : cfg.flow = true) (h : Attuned w) (message : Message)
    (hsoon : w.right.state.2 ≤ w.now + Const.RECOVERY_TIMEOUT)
    (hheader : (w.right.state.1.turn m message).1.phase.isHeader = true)
    {inbox : Wire Message} :
    Attuned
      { w with
        left := w.left.deliver w.now (flowLine job m toReceiver).toLeft
          ((Recv.party m).read w.now w.right.state message).2
        right := { state := ((Recv.party m).read w.now w.right.state message).1, inbox } } := by
  have hdelay : ∀ n, (flowLine job m toReceiver).toLeft.delay n = 0 := fun _ => rfl
  obtain ⟨hlatest, hdue⟩ := Wire.puts_at_once hdelay h.arrived
    ((Recv.party m).read w.now w.right.state message).2
  have hwait : ((Recv.party m).read w.now w.right.state message).1.2 =
      w.now + Const.RECOVERY_TIMEOUT := by
    simp only [Recv.party, hheader, if_true, ClientConfig.headerWait, hflow]
  refine ⟨hlatest, fun x hx => (hdue x hx).elim (h.due x) id, fun _ => hwait.ge, ?_⟩
  exact h.poised.mono (hsoon.trans hwait.ge)

theorem Timely.step
    (hflow : cfg.flow = true)
    (hretries : job.session.config.max_retries ≤ Const.MAX_RETRIES)
    (hprobes : job.session.config.probe_retries ≤ Const.PROBE_RETRIES)
    (hdelay : ∀ n, toReceiver.delay n < sourcePatience.ack_timeout)
    (h : Timely m w) {e : Timed.Event} (hstep : w.step (flowLine job m toReceiver) e = some w') :
    Timely m w' := by
  have hwait : cfg.headerWait = Const.RECOVERY_TIMEOUT := if_pos hflow
  cases e with
  | tick =>
      obtain ⟨hleft, hright, rfl⟩ := World.step_tick hstep
      refine ⟨h.right.tick hright, fun hgoing hheader => ?_⟩
      exact (h.attuned hgoing hheader).tick hgoing hleft
  | left a =>
      obtain ⟨left, out, hact, rfl⟩ := World.step_left hstep
      refine ⟨h.right.deliver hdelay out, fun _ hheader => ?_⟩
      have hgoing : w.left.state.1.Going := by
        cases a with
        | read =>
            obtain ⟨_, _, _, _, hlistens, _⟩ := Seat.act_read hact
            exact Or.inr hlistens
        | expire =>
            obtain ⟨d, hd, _⟩ := Seat.act_expire hact
            exact (Sender.deadline_some hd).1
      exact (h.attuned hgoing hheader).sender hretries hprobes rfl hact
  | right a =>
      obtain ⟨right, out, hact, rfl⟩ := World.step_right hstep
      refine ⟨h.right.act Recv.steady hact, fun hgoing hheader => ?_⟩
      cases a with
      | read =>
          obtain ⟨due, message, queue, hqueue, hlistens, -, rfl, rfl⟩ := Seat.act_read hact
          have hdeadline : (Recv.party m).deadline w.right.state = some w.right.state.2 :=
            if_pos (Or.inl hlistens)
          have hsoon := h.right.soon _ hdeadline
          rw [hwait] at hsoon
          exact (h.attuned hgoing hlistens).receiver hflow message hsoon hheader
      | expire =>
          obtain ⟨d, hd, -, rfl, rfl⟩ := Seat.act_expire hact
          have hne : (Recv.party m).deadline w.right.state ≠ none := fun hnone => by
            cases hnone.symm.trans hd
          have hends := (Recv.expire_ends w.now hne).1
          exact absurd (hends.symm.trans hheader) Bool.false_ne_true

/-- While the sender has one BARRIER left, the receiver's wait is the longer one, or something
reaches it in time. -/
def Reached (w : FlowWorld) : Prop :=
  w.left.state.1.phase.barriersLeft = some 1 → w.right.state.1.phase.isHeader = true →
    w.left.state.2 < w.right.state.2 ∨ ∃ x ∈ w.right.inbox.queue, x.1 < w.left.state.2

/-- The sender does something, and begins no wait unheard. -/
theorem Reached.sender
    (h : Reached w) {a : Timed.Act} {left : Seat (Sender × Nat) Message} {out : List Message}
    (hact : w.left.act (Sender.party job) w.now a = some (left, out))
    (hordered : (w.right.inbox.puts toReceiver w.now out).Ordered sourcePatience.ack_timeout w.now)
    (hheard : ¬ Unheard w { w with left, right := w.right.deliver w.now toReceiver out }) :
    Reached { w with left, right := w.right.deliver w.now toReceiver out } := by
  intro hone hheader
  have hdeadline := Sender.act_deadline hact
  by_cases hsame : left.state.1.phase = w.left.state.1.phase
  · rw [if_pos hsame] at hdeadline
    rcases h (hsame ▸ hone) hheader with hlt | ⟨x, hx, hlt⟩
    · exact Or.inl (hdeadline.trans_lt hlt)
    · exact Or.inr ⟨x, Wire.subset_puts hx out, hlt.trans_eq hdeadline.symm⟩
  · rw [if_neg hsame] at hdeadline
    obtain ⟨reset, hphase⟩ := SendPhase.barriersLeft_eq hone
    have htwelve : left.state.2 = w.now + sourcePatience.ack_timeout := by
      rw [hdeadline, show left.state.1.phase = .barrier reset 1 from hphase]
      rfl
    by_cases hlt : left.state.2 < w.right.state.2
    · exact Or.inl hlt
    · cases hqueue : (w.right.inbox.puts toReceiver w.now out).queue with
      | nil =>
          refine absurd ⟨hone, hsame, ?_, hheader, Nat.not_lt.mp hlt⟩ hheard
          exact List.isEmpty_iff.mpr hqueue
      | cons x queue =>
          have hx : x ∈ (w.right.inbox.puts toReceiver w.now out).queue := by
            rw [hqueue]
            exact List.mem_cons_self
          exact Or.inr ⟨x, hx, ((hordered.latest x hx).trans_lt hordered.near).trans_eq
            htwelve.symm⟩

theorem Reached.step
    (hflow : cfg.flow = true) (hdelay : ∀ n, toReceiver.delay n < sourcePatience.ack_timeout)
    (ht : Timely m w) (h : Reached w) {e : Timed.Event}
    (hheard : losesFifth job m toReceiver w e = false)
    (hstep : w.step (flowLine job m toReceiver) e = some w') :
    Reached w' := by
  simp only [losesFifth, hstep, decide_eq_false_iff_not] at hheard
  cases e with
  | tick =>
      obtain ⟨-, -, rfl⟩ := World.step_tick hstep
      exact h
  | left a =>
      obtain ⟨left, out, hact, rfl⟩ := World.step_left hstep
      exact h.sender hact (ht.right.ordered.puts hdelay) hheard
  | right a =>
      obtain ⟨right, out, hact, rfl⟩ := World.step_right hstep
      intro hone hheader
      cases a with
      | read =>
          obtain ⟨due, message, queue, -, hlistens, -, rfl, rfl⟩ := Seat.act_read hact
          have hsoon := (ht.attuned (Sender.going_of_barrier hone) hlistens).poised.soon
          refine Or.inl (lt_of_le_of_lt hsoon ?_)
          change (w.right.state.1.turn m message).1.phase.isHeader = true at hheader
          have hwait : ((Recv.party m).read w.now w.right.state message).1.2 =
              w.now + Const.RECOVERY_TIMEOUT := by
            simp only [Recv.party, hheader, if_true, ClientConfig.headerWait, hflow]
          exact hwait ▸ Nat.add_lt_add_left (by decide) _
      | expire =>
          obtain ⟨d, hd, -, rfl, rfl⟩ := Seat.act_expire hact
          have hne : (Recv.party m).deadline w.right.state ≠ none := fun hnone => by
            cases hnone.symm.trans hd
          have hends := (Recv.expire_ends w.now hne).1
          exact absurd (hends.symm.trans hheader) Bool.false_ne_true

/-- The receiver can be overtaken at the last BARRIER only. -/
theorem Timely.overtaken
    (h : Timely m w) (hover : Overtaken w) :
    (∃ reset, w.left.state.1.phase = .barrier reset 1) ∧ w.left.state.2 = w.now ∧
      w.right.state.2 = w.now := by
  obtain ⟨hheader, hwait, hretries⟩ := hover
  have hpoised := (h.attuned (Sender.going_of_retries hretries) hheader).poised
  exact hpoised.outlasts.last hpoised.fill hpoised.ahead hwait hretries

theorem Reached.not_overtaken
    (ht : Timely m w) (h : Reached w) :
    ¬ Overtaken w := by
  intro hover
  obtain ⟨⟨reset, hphase⟩, hdeadline, hwait⟩ := ht.overtaken hover
  rcases h (by rw [hphase]; rfl) hover.1 with hlt | ⟨x, hx, hlt⟩
  · omega
  · have hge := ht.right.free.1 hover.1 x hx
    omega

/-- From an unheard wait on nothing happens until both waits are over. -/
theorem Timely.overtaken_of_unheard
    {w₀ : FlowWorld} (h : Timely m w) (hunheard : Unheard w₀ w) :
    ∃ w', World.Leads (flowLine job m toReceiver) w w' ∧ Overtaken w' := by
  obtain ⟨hone, -, hempty, hheader, hle⟩ := hunheard
  have hattuned := h.attuned (Sender.going_of_barrier hone) hheader
  have hqueue : w.left.inbox.queue = [] := by
    by_contra hne
    have hheard := hattuned.heard hne
    have hsoon := hattuned.poised.soon
    have hlt : sourcePatience.ack_timeout < Const.RECOVERY_TIMEOUT := by decide
    omega
  obtain ⟨reset, hphase⟩ := SendPhase.barriersLeft_eq hone
  have houtlasts := hattuned.poised.outlasts
  rw [hphase] at houtlasts
  simp only [SendPhase.Outlasts] at houtlasts
  refine ⟨{ w with now := w.left.state.2 }, World.Leads.wait hattuned.poised.ahead ?_ ?_,
    hheader, hle, ?_⟩
  · refine Seat.free_of_deadline (if_pos (Sender.going_of_barrier hone)) (Nat.le_refl _) ?_
    rw [hqueue]
    exact fun x hx => absurd hx List.not_mem_nil
  · refine Seat.free_of_deadline (if_pos (Or.inl hheader)) (by omega) ?_
    rw [List.isEmpty_iff.mp hempty]
    exact fun x hx => absurd hx List.not_mem_nil
  · change w.left.state.1.phase.retriesLeft = true
    rw [hphase]
    rfl

end Worlds

section Result

variable {cfg : ClientConfig} {job : Job} {m : AcceptedMeta cfg}
  {toReceiver : Timed.Route Message}

/-- A run keeps both clocks in time. -/
theorem timely_of_leads
    (hflow : cfg.flow = true)
    (hretries : job.session.config.max_retries ≤ Const.MAX_RETRIES)
    (hprobes : job.session.config.probe_retries ≤ Const.PROBE_RETRIES)
    (hdelay : ∀ n, toReceiver.delay n < sourcePatience.ack_timeout)
    {barrier_id : Nat} {reset_token : Option Line} {w : FlowWorld}
    (h : World.Leads (flowLine job m toReceiver)
      (flowStart job m toReceiver barrier_id reset_token) w) :
    Timely m w :=
  Transition.Steps.invariant (Timely m)
    (fun _ _ _ ht _ hstep => ht.step hflow hretries hprobes hdelay hstep) h
    (timely_start hflow barrier_id reset_token)

/-- In a FLOW transfer in which no fifth BARRIER is written unheard, the receiver's header wait
is never over while the sender has a retry left.  Otherwise that retry is the sixth BARRIER of
a recovery; and once a fifth one was written unheard, the wait is over before the sixth. -/
theorem receiver_outlasts
    (job : Job) (m : AcceptedMeta cfg) (toReceiver : Timed.Route Message)
    (barrier_id : Nat) (reset_token : Option Line)
    (hflow : cfg.flow = true)
    (hretries : job.session.config.max_retries = Const.MAX_RETRIES)
    (hprobes : job.session.config.probe_retries = Const.PROBE_RETRIES)
    (hdelay : ∀ n, toReceiver.delay n < sourcePatience.ack_timeout) :
    (∀ w, Transition.Steps (World.step (flowLine job m toReceiver))
        (fun w e => losesFifth job m toReceiver w e = false)
        (flowStart job m toReceiver barrier_id reset_token) w → ¬ Overtaken w) ∧
      (∀ w, World.Leads (flowLine job m toReceiver)
        (flowStart job m toReceiver barrier_id reset_token) w → Overtaken w →
        ∃ reset, w.left.state.1.phase = .barrier reset 1) ∧
      ∀ w e, World.Leads (flowLine job m toReceiver)
        (flowStart job m toReceiver barrier_id reset_token) w →
        losesFifth job m toReceiver w e = true →
        ∃ w', World.Leads (flowLine job m toReceiver) w w' ∧ Overtaken w' := by
  refine ⟨fun w hsteps => ?_, fun w hleads hover => ?_, fun w e hleads hlost => ?_⟩
  · have hinv : Timely m w ∧ Reached w := by
      refine Transition.Steps.invariant (fun w => Timely m w ∧ Reached w) ?_ hsteps
        ⟨timely_start hflow barrier_id reset_token, fun hone => by cases hone⟩
      exact fun w e w' h hheard hstep =>
        ⟨h.1.step hflow hretries.le hprobes.le hdelay hstep,
          h.2.step hflow hdelay h.1 hheard hstep⟩
    exact hinv.2.not_overtaken hinv.1
  · exact ((timely_of_leads hflow hretries.le hprobes.le hdelay hleads).overtaken hover).1
  · unfold losesFifth at hlost
    cases hstep : w.step (flowLine job m toReceiver) e with
    | none =>
        rw [hstep] at hlost
        cases hlost
    | some w₁ =>
        rw [hstep] at hlost
        have hleads₁ := hleads.tail ⟨e, trivial, hstep⟩
        obtain ⟨w', hw', hover⟩ :=
          (timely_of_leads hflow hretries.le hprobes.le hdelay hleads₁).overtaken_of_unheard
            (of_decide_eq_true hlost)
        exact ⟨w', .head ⟨e, trivial, hstep⟩ hw', hover⟩

end Result

section Small

theorem smallMeta_target :
    sanitize_filename "A".toList = .ok "A".toList := by
  decide +kernel

theorem smallMeta_crc :
    (parse_hex (crc32_hex [0])).isSome = true := by
  decide +kernel

theorem smallMeta_block :
    1 ≤ 1 ∧ 1 ≤ smallClient.max_block_size := by
  decide

theorem smallMeta_size :
    1 ≤ Const.MAX_FILE_SIZE := by
  decide

theorem smallMeta_blocks :
    1 = blockCount 1 1 := by
  decide

theorem smallMeta_fits (space : Nat) (h : smallClient.free_space = some space) :
    1 ≤ space := by
  cases h

/-- The META of a file of one byte, as the receiver of a small session accepts it. -/
def smallMeta : AcceptedMeta smallClient where
  filename := "A".toList
  size := 1
  blocksize := 1
  blocks := 1
  crc32 := crc32_hex [0]
  target := "A".toList
  target_eq := smallMeta_target
  crc_ok := smallMeta_crc
  block_ok := smallMeta_block
  size_ok := smallMeta_size
  blocks_eq := smallMeta_blocks
  fits := smallMeta_fits

/-- A line that loses everything. -/
def deadLine : Timed.Route Message where
  delay := fun _ => 0
  lost := fun _ _ => true

/-- A line that loses everything but AYT?. -/
def onlyProbes : Timed.Route Message where
  delay := fun _ => 0
  lost := fun _ message =>
    match message with
    | .inl (.ayt _) => false
    | _ => true

/-- Time passes, and then the sender's wait is over. -/
def waitOut (seconds : Nat) : List Timed.Event :=
  List.replicate seconds .tick ++ [.left .expire]

/-- READY is read and the first frame is lost; the sender waits for the ACK and the guard. -/
def firstLoss : List Timed.Event :=
  [.left .read, .left .expire, .left .expire] ++ waitOut 12 ++ waitOut 1

/-- When everything is lost, the sender has given up before the receiver does. -/
theorem receiver_outlasts_dead_line :
    ∃ w, World.Leads (flowLine (smallJob [0]) smallMeta deadLine)
        (flowStart (smallJob [0]) smallMeta deadLine 0 none) w ∧
      w.right.state.1.phase.isHeader = true ∧ w.right.state.2 ≤ w.now ∧
        w.left.state.1.phase.retriesLeft = false := by
  let ended : FlowWorld → Bool := fun w =>
    w.right.state.1.phase.isHeader && decide (w.right.state.2 ≤ w.now)
  have hrun : (Transition.exec (World.step (flowLine (smallJob [0]) smallMeta deadLine))
      (fun w e => losesFifth (smallJob [0]) smallMeta deadLine w e = false)
      (flowStart (smallJob [0]) smallMeta deadLine 0 none)
      (firstLoss ++ (List.replicate 13 (waitOut 3)).flatten ++ List.replicate 8 .tick)).any
        ended = true := by
    decide +kernel
  rw [Option.any_eq_true] at hrun
  obtain ⟨w, hexec, hover⟩ := hrun
  simp only [ended, Bool.and_eq_true, decide_eq_true_eq] at hover
  have hsteps := Transition.Steps.of_exec hexec
  have hnot := (receiver_outlasts (smallJob [0]) smallMeta deadLine 0 none rfl rfl rfl
    (fun _ => (by decide : 0 < 12))).1 w hsteps
  refine ⟨w, hsteps.mono fun _ _ _ => trivial, hover.1, hover.2, ?_⟩
  rw [← Bool.not_eq_true]
  exact fun hleft => hnot ⟨hover.1, hover.2, hleft⟩

/-- When the answer to an AYT? comes through and the BARRIERs after it are lost, the receiver's
wait is over with the sixth one left. -/
theorem receiver_overtaken_only_probes :
    ∃ w, World.Leads (flowLine (smallJob [0]) smallMeta onlyProbes)
        (flowStart (smallJob [0]) smallMeta onlyProbes 0 none) w ∧ Overtaken w := by
  have hrun : (Transition.exec (World.step (flowLine (smallJob [0]) smallMeta onlyProbes))
      (fun _ _ => True) (flowStart (smallJob [0]) smallMeta onlyProbes 0 none)
      (firstLoss ++ [.right .read, .left .read] ++ (List.replicate 4 (waitOut 12)).flatten ++
        List.replicate 12 .tick)).any (fun w => decide (Overtaken w)) = true := by
    decide +kernel
  rw [Option.any_eq_true] at hrun
  obtain ⟨w, hexec, hover⟩ := hrun
  exact ⟨w, .of_exec hexec, of_decide_eq_true hover⟩

end Small

end Pcutp
