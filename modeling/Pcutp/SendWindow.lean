import Pcutp.Lib.Machine
import Pcutp.ServerSteps

/-!
# `_send_window` against any peer

`_send_window` with its clock: every wait has a deadline, and a read that
delivers a line takes time.  The lines are arbitrary, and nothing is assumed
about when they come.

A read has one of seven outcomes (`ReadOutcome`).  Either the same wait goes on
until its deadline, or another wait begins that is further down the list of
what the sender tries, or one of the counters moves: the base with an ACK or a
RESUME, the recoveries, the resets.  Each part of the work is bounded by the one
before it in this list, read backwards.
-/

namespace Pcutp

/-- The constructor arguments that `_send_window` waits for, in ticks of the clock. -/
structure Patience where
  ack_timeout : Nat
  probe_guard : Nat
  probe_timeout : Nat

/-- The timeouts of the source, in seconds. -/
def sourcePatience : Patience where
  ack_timeout := 12
  probe_guard := 1
  probe_timeout := 3

namespace SendPhase

/-- Whether `_send_window` waits in a read. -/
def waits : SendPhase → Bool
  | reply => true
  | guard _ => true
  | ayt _ => true
  | rst _ => true
  | barrier _ _ => true
  | _ => false

theorem waits_cases
    {phase : SendPhase} (h : phase.waits = true) :
    phase = .reply ∨ (∃ again, phase = .guard again) ∨ (∃ left, phase = .ayt left) ∨
      (∃ left, phase = .rst left) ∨ ∃ reset left, phase = .barrier reset left := by
  cases phase <;> simp_all [waits]

/-- Whether the loop around the read checks its deadline before the read. -/
def polls : SendPhase → Bool
  | ayt _ => true
  | rst _ => true
  | barrier _ _ => true
  | _ => false

/-- The time that a wait is given. -/
def patience (p : Patience) : SendPhase → Nat
  | reply => p.ack_timeout
  | guard _ => p.probe_guard
  | ayt _ => p.probe_timeout
  | rst _ => p.probe_timeout
  | barrier _ _ => p.ack_timeout
  | _ => 0

end SendPhase

/-- The variables of `_send_window`, the clock, and the deadline of the current wait. -/
structure SendWindow where
  sender : Sender
  now : Nat
  deadline : Nat

/-- What can happen to `_send_window`, and the time that it takes. -/
inductive WindowEvent
  /-- The part before a read: a frame, or the end of the flight. -/
  | run (ticks : Nat)
  /-- A read delivers a line, after one tick and so many more. -/
  | line (text : Line) (ticks : Nat)
  | timeout (ticks : Nat)
  /-- A read raises another exception. -/
  | failed (exc : PcutpError) (ticks : Nat)

namespace SendWindow

/-- `_send_window` is called. -/
def start (barrier_id : Nat) (reset_token : Option Line) (now : Nat) : SendWindow where
  sender := { Sender.start barrier_id reset_token with phase := .fill }
  now := now
  deadline := now

/-- A new wait gets a deadline of its own. -/
def arm (p : Patience) (w : SendWindow) (now : Nat) (s : Sender) : SendWindow where
  sender := s
  now := now
  deadline := if s.phase = w.sender.phase then w.deadline else now + s.phase.patience p

/-- One step of `_send_window`; `none` when the event cannot occur, or it has ended. -/
def step (job : Job) (p : Patience) (w : SendWindow) :
    WindowEvent → Option (SendWindow × List Command)
  | .run ticks =>
      if w.sender.phase = .fill ∧ w.sender.base < job.blocks then
        let next := w.sender.fillWindow job
        some (w.arm p (w.now + ticks) next.1, next.2)
      else
        none
  | .line text ticks =>
      let now := w.now + (ticks + 1)
      if w.sender.phase.waits = false ∨ w.sender.phase.polls = true ∧ w.deadline ≤ w.now then
        none
      else
        (w.sender.step job (.line text (decide (w.deadline ≤ now)))).map fun next =>
          (w.arm p now next.1, next.2)
  | .timeout ticks =>
      let now := w.now + ticks
      if w.sender.phase.waits = false ∨ now < w.deadline then
        none
      else
        (w.sender.step job .timeout).map fun next => (w.arm p now next.1, next.2)
  | .failed exc ticks =>
      if w.sender.phase.waits = false ∨ exc.cls = .timeout then
        none
      else
        some (w.arm p (w.now + ticks) (w.sender.fail exc).1, (w.sender.fail exc).2)

/-- The loop has ended, and `_send_window` returns. -/
def Returns (job : Job) (w : SendWindow) : Prop :=
  w.sender.phase = .fill ∧ job.blocks ≤ w.sender.base

/-- `_send_window` has raised. -/
def Raises (w : SendWindow) : Prop :=
  ∃ exc, w.sender.phase = .raised exc

end SendWindow

namespace Sender

/-- Whether a full-file reset waits for its RESUME. -/
def resetting (s : Sender) : Bool :=
  match s.phase with
  | .barrier reset _ => reset
  | _ => false

/-- What the sender has still to try before a counter must move. -/
def rank (job : Job) (s : Sender) : Nat :=
  let config := job.session.config
  let probes := config.max_retries + 2 + Const.RST_RETRIES
  match s.phase with
  | .barrier _ left => left + 1
  | .rst left => config.max_retries + 2 + left
  | .ayt left => probes + left
  | .guard true => probes + config.probe_retries
  | .guard false => probes + config.probe_retries + 1
  | .reply => probes + config.probe_retries + 2
  | .fill => probes + config.probe_retries + 3 + (s.base + s.cwnd - s.next_seq)
  | _ => 0

/-- The variables that only a reply that counts changes. -/
structure SameWindow (s s' : Sender) : Prop where
  base : s'.base = s.base
  next_seq : s'.next_seq = s.next_seq
  recoveries : s'.recoveries = s.recoveries
  resets : s'.resets = s.resets
  attempts : s'.attempts = s.attempts
  frames : s'.frames = s.frames

/-- `_recover_window` returned this number. -/
def resumedAt (s : Sender) (seq : Nat) : Sender :=
  { s with
    phase := .fill
    base := seq
    next_seq := seq
    recoveries := if s.base < seq then 0 else s.recoveries + 1
    attempts := dropBelow seq 0 s.attempts
    frames := dropBelow seq none s.frames }

/-- The file starts again. -/
def restarted (s : Sender) : Sender :=
  { s with
    phase := .fill
    base := 0
    next_seq := 0
    cwnd := 1
    clean_acks := 0
    attempts := fun _ => 0
    recoveries := 0 }

/-- The outcomes of a read. -/
inductive ReadOutcome (job : Job) (s : Sender) (parts : List Line) (late : Bool) : Sender → Prop
  /-- The same wait goes on. -/
  | stays (hlate : late = false) : ReadOutcome job s parts late s
  /-- Another wait begins, further down. -/
  | moves {s' : Sender} (hwaits : s'.phase.waits = true) (hsame : SameWindow s s')
      (hreset : s'.resetting = s.resetting) (hrank : s'.rank job < s.rank job) :
      ReadOutcome job s parts late s'
  | acknowledged (a : Nat) (hparts : parts.length = 2 ∧ word parts 0 = "ACK".toList)
      (hack : isdecimal (word parts 1) = true ∧ int (word parts 1) = a) (hbase : s.base ≤ a)
      (hsent : a < s.next_seq) (hreset : s.resetting = false) :
      ReadOutcome job s parts late (s.advance job a)
  /-- A full-file reset begins. -/
  | resets {s' : Sender} (hphase : s'.phase = .barrier true job.session.config.max_retries)
      (hbase : s'.base = s.base) (hsent : s'.next_seq = s.next_seq)
      (hresets : s'.resets = s.resets + 1) (hmax : s.resets + 1 ≤ Const.MAX_RESETS)
      (hframes : s'.frames = s.frames) (hreset : s.resetting = false) :
      ReadOutcome job s parts late s'
  | resumed (seq left : Nat) (hphase : s.phase = .barrier false left)
      (hparts : parts.length = 3 ∧ word parts 0 = "RESUME".toList)
      (hseq : isdecimal (word parts 2) = true ∧ int (word parts 2) = seq) (hbase : s.base ≤ seq)
      (hsent : seq ≤ s.next_seq)
      (hrecoveries : s.base < seq ∨ s.recoveries + 1 ≤ job.session.config.max_retries) :
      ReadOutcome job s parts late (s.resumedAt seq)
  | restarts (left : Nat) (hphase : s.phase = .barrier true left) :
      ReadOutcome job s parts late s.restarted
  | raised {s' : Sender} (exc : PcutpError) (hphase : s'.phase = .raised exc)
      (hbase : s'.base = s.base) (hsent : s'.next_seq = s.next_seq)
      (hrecoveries : s.recoveries ≤ s'.recoveries) (hresets : s.resets ≤ s'.resets)
      (hattempts : s'.attempts = s.attempts) (hframes : s'.frames = s.frames) :
      ReadOutcome job s parts late s'

/-- A read ends so, and writes no frame. -/
def Ends (job : Job) (s : Sender) (parts : List Line) (late : Bool)
    (next : Sender × List Command) : Prop :=
  ReadOutcome job s parts late next.1 ∧ ∀ c ∈ next.2, c.isFrame = false

section Outcomes

variable {job : Job} {s : Sender} {parts : List Line} {late : Bool}

/-- A read that raises and reports it. -/
theorem ends_fail
    {t : Sender} (exc : PcutpError)
    (hbase : t.base = s.base) (hsent : t.next_seq = s.next_seq)
    (hrecoveries : s.recoveries ≤ t.recoveries) (hresets : s.resets ≤ t.resets)
    (hattempts : t.attempts = s.attempts) (hframes : t.frames = s.frames) :
    Ends job s parts late (t.fail exc) := by
  refine ⟨.raised exc rfl hbase hsent hrecoveries hresets hattempts hframes, fun c hc => ?_⟩
  rw [List.mem_singleton.mp hc]
  rfl

theorem ends_fail_self (exc : PcutpError) :
    Ends job s parts late (s.fail exc) :=
  ends_fail exc rfl rfl (Nat.le_refl _) (Nat.le_refl _) rfl rfl

/-- The window is drained without a reset. -/
theorem ends_gap
    (hreset : s.resetting = false) (hrank : job.session.config.max_retries + 1 < s.rank job) :
    Ends job s parts late
      (({ s with cwnd := 1, clean_acks := 0 } : Sender).recover job false) := by
  refine ⟨.moves rfl ⟨rfl, rfl, rfl, rfl, rfl, rfl⟩ ?_ hrank, fun c hc => ?_⟩
  · rw [hreset]
    rfl
  · rw [List.mem_singleton.mp hc]
    rfl

/-- A full-file reset, unless there were too many. -/
theorem ends_reset
    (token : Option Line) (hreset : s.resetting = false) :
    Ends job s parts late
      (({ s with reset_token := token } : Sender).dispatch job ["RST".toList, "0".toList]
        late) := by
  rw [dispatch_rst]
  split
  · exact ends_fail _ rfl rfl (Nat.le_refl _) (Nat.le_succ _) rfl rfl
  · rename_i hmax
    refine ⟨.resets rfl rfl rfl rfl (Nat.not_lt.mp hmax) rfl hreset, fun c hc => ?_⟩
    rw [List.mem_singleton.mp hc]
    rfl

/-- What `_send_window` does with a reply, in a phase above the barrier. -/
theorem ends_dispatch
    (hreset : s.resetting = false) (hrank : job.session.config.max_retries + 1 < s.rank job)
    (hlate : late = false → s.phase = .reply) :
    Ends job s parts late (s.dispatch job parts late) := by
  have hself : late = false → ({ s with phase := .reply } : Sender) = s := fun h => by
    rw [← hlate h]
  have hstays : late = false →
      Ends job s parts late (({ s with phase := .reply } : Sender), []) := fun h =>
    ⟨(hself h).symm ▸ .stays h, fun c hc => absurd hc List.not_mem_nil⟩
  by_cases hack : parts.length = 2 ∧ word parts 0 = "ACK".toList ∧
      isdecimal (word parts 1) = true
  · rw [dispatch, if_pos hack]
    dsimp only
    split_ifs with hunsent hold hlater
    · exact ends_fail_self _
    · exact ends_fail_self _
    · exact hstays (Bool.not_eq_true _ ▸ hlater)
    · exact ⟨.acknowledged _ ⟨hack.1, hack.2.1⟩ ⟨hack.2.2, rfl⟩ (Nat.not_lt.mp hold)
        (Nat.not_le.mp hunsent) hreset, fun c hc => absurd hc List.not_mem_nil⟩
  · by_cases hrst : parts.length = 2 ∧ word parts 0 = "RST".toList ∧ word parts 1 = "0".toList
    · have heq : s.dispatch job parts late =
          s.dispatch job ["RST".toList, "0".toList] late := by
        rw [dispatch, if_neg hack, if_pos hrst, dispatch_rst]
      rw [heq]
      exact ends_reset s.reset_token hreset
    · rw [dispatch, if_neg hack, if_neg hrst]
      split_ifs with hgap hold
      · exact ends_gap hreset hrank
      · exact hstays hold.2
      · exact ends_fail_self _

/-- The next AYT?, or the first RST request. -/
theorem ends_ask
    {left : Nat} (hreset : s.resetting = false)
    (hrank : job.session.config.max_retries + 1 + Const.RST_RETRIES + left < s.rank job) :
    Ends job s parts late (s.ask left) := by
  have hrst : Const.RST_RETRIES = 3 := rfl
  cases left with
  | succ left =>
      refine ⟨.moves rfl ⟨rfl, rfl, rfl, rfl, rfl, rfl⟩ hreset.symm ?_, fun c hc => ?_⟩
      · change job.session.config.max_retries + 2 + Const.RST_RETRIES + left < s.rank job
        omega
      · rw [List.mem_singleton.mp hc]
        rfl
  | zero =>
      refine ⟨.moves rfl ⟨rfl, rfl, rfl, rfl, rfl, rfl⟩ hreset.symm ?_, fun c hc => ?_⟩
      · change job.session.config.max_retries + 2 + (Const.RST_RETRIES - 1) < s.rank job
        omega
      · rw [List.mem_singleton.mp hc]
        rfl

theorem ends_askReset
    {left : Nat} (hphase : s.phase = .rst left) :
    Ends job s parts late (s.askReset left) := by
  cases left with
  | succ left =>
      refine ⟨.moves rfl ⟨rfl, rfl, rfl, rfl, rfl, rfl⟩ ?_ ?_, fun c hc => ?_⟩
      · simp only [resetting, askReset, hphase]
      · simp only [askReset, rank, hphase]
        omega
      · rw [List.mem_singleton.mp hc]
        rfl
  | zero => exact ends_fail_self _

theorem ends_askBarrier
    {reset : Bool} {left : Nat} (hphase : s.phase = .barrier reset left) :
    Ends job s parts late (s.askBarrier reset left) := by
  cases left with
  | succ left =>
      refine ⟨.moves rfl ⟨rfl, rfl, rfl, rfl, rfl, rfl⟩ ?_ ?_, fun c hc => ?_⟩
      · simp only [resetting, askBarrier, hphase]
      · simp only [askBarrier, rank, hphase]
        omega
      · rw [List.mem_singleton.mp hc]
        rfl
  | zero => exact ends_fail_self _

theorem ends_stay (hlate : late = false) :
    Ends job s parts late (s, []) :=
  ⟨.stays hlate, fun _ hc => absurd hc List.not_mem_nil⟩

/-- A HERE that comes too late begins the guard again. -/
theorem ends_again
    (hreset : s.resetting = false)
    (hrank : ({ s with phase := .guard true } : Sender).rank job < s.rank job) :
    Ends job s parts late (({ s with phase := .guard true } : Sender), []) :=
  ⟨.moves rfl ⟨rfl, rfl, rfl, rfl, rfl, rfl⟩ hreset.symm hrank,
    fun _ hc => absurd hc List.not_mem_nil⟩

theorem ends_reply
    (hphase : s.phase = .reply) :
    Ends job s parts late (s.onReply job parts late) := by
  have hreset : s.resetting = false := by
    simp only [resetting, hphase]
  have hrank : job.session.config.max_retries + 1 < s.rank job := by
    simp only [rank, hphase]
    omega
  unfold onReply
  split_ifs with hhere hlate
  · refine ends_again hreset ?_
    simp only [rank, hphase]
    omega
  · exact ends_stay (Bool.not_eq_true _ ▸ hlate)
  · exact ends_dispatch hreset hrank (fun _ => hphase)

/-- A wait that does not go on ends so whether the line was late or not. -/
theorem Ends.of_late
    {next : Sender × List Command} (h : Ends job s parts true next) :
    Ends job s parts late next := by
  obtain ⟨s', out⟩ := next
  obtain ⟨houtcome, hplain⟩ := h
  refine ⟨?_, hplain⟩
  cases houtcome with
  | stays hlate => cases hlate
  | moves hwaits hsame hreset hrank => exact .moves hwaits hsame hreset hrank
  | acknowledged a hparts hack hbase hsent hreset =>
      exact .acknowledged a hparts hack hbase hsent hreset
  | resets hphase hbase hsent hresets hmax hframes hreset =>
      exact .resets hphase hbase hsent hresets hmax hframes hreset
  | resumed seq left hphase hparts hseq hbase hsent hrecoveries =>
      exact .resumed seq left hphase hparts hseq hbase hsent hrecoveries
  | restarts left hphase => exact .restarts left hphase
  | raised exc hphase hbase hsent hrecoveries hresets hattempts hframes =>
      exact .raised exc hphase hbase hsent hrecoveries hresets hattempts hframes

theorem ends_guard
    {again : Bool} {text : Line} (hphase : s.phase = .guard again) :
    Ends job s (split text) late (s.onGuard job again text) := by
  have hreset : s.resetting = false := by
    simp only [resetting, hphase]
  have hrank : job.session.config.max_retries + 1 + Const.RST_RETRIES +
      job.session.config.probe_retries < s.rank job := by
    cases again <;>
      · simp only [rank, hphase]
        omega
  apply Ends.of_late
  unfold onGuard
  split_ifs with hempty hhere
  · exact ends_ask hreset hrank
  · refine ends_again hreset ?_
    rw [hhere.1] at hphase
    simp only [rank, hphase]
    omega
  · exact ends_dispatch hreset (by omega) (fun h => by cases h)

theorem ends_probe
    {left : Nat} (hphase : s.phase = .ayt left) :
    Ends job s parts late (s.onProbe job left parts late) := by
  have hreset : s.resetting = false := by
    simp only [resetting, hphase]
  have hrank : job.session.config.max_retries + 1 + Const.RST_RETRIES + left < s.rank job := by
    simp only [rank, hphase]
    omega
  have hgap : ∀ word : Line, Ends job s parts late
      (s.dispatch job ["DROP".toList, word, word] true) := by
    intro word
    rw [dispatch_gap _ _ _ (Or.inr rfl)]
    exact ends_gap hreset (by omega)
  unfold onProbe
  split_ifs with hhere hcontrol hlate
  · exact hgap _
  · exact (ends_dispatch hreset (by omega) (fun h => by cases h)).of_late
  · exact ends_ask hreset hrank
  · exact ends_stay (Bool.not_eq_true _ ▸ hlate)

theorem ends_rst
    {left : Nat} (hphase : s.phase = .rst left) :
    Ends job s parts late (s.onReset job left parts late) := by
  have hreset : s.resetting = false := by
    simp only [resetting, hphase]
  unfold onReset
  split_ifs with hack hold hlate
  · exact (ends_reset _ hreset).of_late
  · exact ends_askReset hphase
  · exact ends_stay (Bool.not_eq_true _ ▸ hlate)
  · exact ends_fail_self _

/-- `_recover_window` returns. -/
theorem ends_resume
    {reset : Bool} {left seq : Nat} (hphase : s.phase = .barrier reset left)
    (hparts : parts.length = 3 ∧ word parts 0 = "RESUME".toList)
    (hseq : isdecimal (word parts 2) = true ∧ int (word parts 2) = seq)
    (hbase : reset = false → s.base ≤ seq) (hsent : seq ≤ s.next_seq) :
    Ends job s parts late (s.resume job reset seq) := by
  have hnone : ∀ c ∈ ([] : List Command), c.isFrame = false :=
    fun _ hc => absurd hc List.not_mem_nil
  cases reset with
  | true =>
      rw [resume, if_pos rfl]
      split
      · exact ends_fail_self _
      · exact ⟨.restarts left hphase, hnone⟩
  | false =>
      have hresumed : s.base < seq ∨ s.recoveries + 1 ≤ job.session.config.max_retries →
          Ends job s parts late (s.resumedAt seq, []) := fun h =>
        ⟨.resumed seq left hphase hparts hseq (hbase rfl) hsent h, hnone⟩
      unfold resumedAt at hresumed
      rw [resume, if_neg Bool.false_ne_true]
      by_cases hlt : s.base < seq
      · simp only [hlt, if_true, true_or, forall_const] at hresumed ⊢
        rw [if_neg (Nat.not_lt_zero _)]
        exact hresumed
      · simp only [hlt, if_false, false_or] at hresumed ⊢
        split
        · exact ends_fail _ (Nat.le_antisymm (Nat.not_lt.mp hlt) (hbase rfl)) rfl
            (Nat.le_succ _) (Nat.le_refl _) rfl rfl
        · rename_i hallowed
          exact hresumed (Nat.not_lt.mp hallowed)

theorem ends_barrier
    {reset : Bool} {left : Nat} (hphase : s.phase = .barrier reset left) :
    Ends job s parts late (s.onBarrier job reset left parts late) := by
  rw [onBarrier]
  by_cases hresume : parts.length = 3 ∧ parts.take 2 = ["RESUME".toList, dec s.barrier_id]
  · rw [if_pos hresume]
    have hword : word parts 0 = "RESUME".toList := by
      have hfirst := congrArg (fun l => word l 0) hresume.2
      simpa [word] using hfirst
    by_cases hrange : isdecimal (word parts 2) = true ∧
        (if reset = true then 0 else s.base) ≤ int (word parts 2) ∧ int (word parts 2) ≤ s.next_seq
    · rw [if_pos hrange]
      refine ends_resume hphase ⟨hresume.1, hword⟩ ⟨hrange.1, rfl⟩ (fun hfalse => ?_) hrange.2.2
      simpa [hfalse] using hrange.2.1
    · rw [if_neg hrange]
      exact ends_fail_self _
  · rw [if_neg hresume]
    split_ifs with hold hlate
    · exact ends_askBarrier hphase
    · exact ends_stay (Bool.not_eq_true _ ▸ hlate)
    · exact ends_fail_self _

/-- A read that times out. -/
theorem timeout_ends
    (parts : List Line) (exc : PcutpError) (hwaits : s.phase.waits = true) :
    ∃ next, s.onTimeout job exc = some next ∧ Ends job s parts true next := by
  rcases SendPhase.waits_cases hwaits with hphase | ⟨again, hphase⟩ | ⟨left, hphase⟩ |
      ⟨left, hphase⟩ | ⟨reset, left, hphase⟩
  · refine ⟨_, by rw [onTimeout, hphase], .moves rfl ⟨rfl, rfl, rfl, rfl, rfl, rfl⟩ ?_ ?_,
      fun c hc => absurd hc List.not_mem_nil⟩
    · simp only [resetting, hphase]
    · simp only [rank, hphase]
      omega
  · refine ⟨_, by rw [onTimeout, hphase], ends_ask ?_ ?_⟩
    · simp only [resetting, hphase]
    · cases again <;>
        · simp only [rank, hphase]
          omega
  · refine ⟨_, by rw [onTimeout, hphase], ends_ask ?_ ?_⟩
    · simp only [resetting, hphase]
    · simp only [rank, hphase]
      omega
  · exact ⟨_, by rw [onTimeout, hphase], ends_askReset hphase⟩
  · exact ⟨_, by rw [onTimeout, hphase], ends_askBarrier hphase⟩

/-- A read that delivers a line, whatever the line is. -/
theorem line_ends
    {text : Line} (hwaits : s.phase.waits = true) :
    ∃ next, s.step job (.line text late) = some next ∧ Ends job s (split text) late next := by
  by_cases hrmb : isRmb text = true
  · -- `_recv_line` answers; its time may be over.
    have hreads : s.reads ≠ false := by
      rcases SendPhase.waits_cases hwaits with hphase | ⟨again, hphase⟩ | ⟨left, hphase⟩ |
        ⟨left, hphase⟩ | ⟨reset, left, hphase⟩ <;> simp [reads, hphase]
    rw [step, if_pos hrmb, if_neg hreads]
    cases late with
    | true =>
        obtain ⟨next, hnext, houtcome, hplain⟩ :=
          timeout_ends (split text) (TimeoutError_ "only control replies received") hwaits
        refine ⟨(next.1, .rmbAck (word (split text) 1) :: next.2), by rw [if_pos rfl, hnext]; rfl,
          houtcome, fun c hc => ?_⟩
        rcases List.mem_cons.mp hc with rfl | hc
        · rfl
        · exact hplain c hc
    | false =>
        refine ⟨_, if_neg Bool.false_ne_true, .stays rfl, fun c hc => ?_⟩
        rw [List.mem_singleton.mp hc]
        rfl
  · rw [step, if_neg hrmb]
    rcases SendPhase.waits_cases hwaits with hphase | ⟨again, hphase⟩ | ⟨left, hphase⟩ |
        ⟨left, hphase⟩ | ⟨reset, left, hphase⟩
    · exact ⟨_, by rw [onLine, hphase], ends_reply hphase⟩
    · exact ⟨_, by rw [onLine, hphase], ends_guard hphase⟩
    · exact ⟨_, by rw [onLine, hphase], ends_probe hphase⟩
    · exact ⟨_, by rw [onLine, hphase], ends_rst hphase⟩
    · exact ⟨_, by rw [onLine, hphase], ends_barrier hphase⟩

/-- The part of `_send_window` before a read: a frame, a wait, or too many attempts. -/
theorem fillWindow_cases
    (hbase : s.base < job.blocks) :
    (s.next_seq < job.blocks ∧ s.next_seq < s.base + s.cwnd ∧
        s.attempts s.next_seq ≤ job.session.config.max_retries ∧
        s.fillWindow job =
          (s.writeFrame ((s.frames s.next_seq).getD (job.frame s.next_seq)),
            [(s.frames s.next_seq).getD (job.frame s.next_seq)])) ∨
      s.fillWindow job = ({ s with phase := .reply }, []) ∨
      ∃ exc, s.fillWindow job = s.fail exc := by
  rw [fillWindow, if_pos hbase]
  split
  · rename_i hroom
    split
    · exact Or.inr (Or.inr ⟨_, rfl⟩)
    · rename_i hattempts
      exact Or.inl ⟨hroom.trans_le (Nat.min_le_left _ _), hroom.trans_le (Nat.min_le_right _ _),
        Nat.not_lt.mp hattempts, rfl⟩
  · exact Or.inr (Or.inl rfl)

end Outcomes

end Sender

namespace SendWindow

open Sender (ReadOutcome)

/-- The outcomes of a step: a frame is written, or a wait begins or ends so. -/
inductive StepKind (job : Job) (p : Patience) (w : SendWindow) (e : WindowEvent) :
    SendWindow → List Command → Prop
  | frame (now : Nat) (frame : Command) (hphase : w.sender.phase = .fill)
      (hframe : frame = (w.sender.frames w.sender.next_seq).getD (job.frame w.sender.next_seq))
      (hblocks : w.sender.next_seq < job.blocks)
      (hroom : w.sender.next_seq < w.sender.base + w.sender.cwnd)
      (hattempts : w.sender.attempts w.sender.next_seq ≤ job.session.config.max_retries) :
      StepKind job p w e (w.arm p now (w.sender.writeFrame frame)) [frame]
  | ends {s' : Sender} {out : List Command} (parts : List Line) (late : Bool) (now : Nat)
      (hparts : parts = [] ∨ ∃ text ticks, e = .line text ticks ∧ parts = split text)
      (hclock : late = false → w.now < now ∧ now < w.deadline)
      (hlive : 0 < w.sender.rank job)
      (houtcome : ReadOutcome job w.sender parts late s')
      (hplain : ∀ c ∈ out, c.isFrame = false) :
      StepKind job p w e (w.arm p now s') out

theorem rank_pos
    {job : Job} {s : Sender} (h : s.phase = .fill ∨ s.phase.waits = true) :
    0 < s.rank job := by
  rcases h with hphase | hwaits
  · simp only [Sender.rank, hphase]
    omega
  · rcases SendPhase.waits_cases hwaits with hphase | ⟨again, hphase⟩ | ⟨left, hphase⟩ |
      ⟨left, hphase⟩ | ⟨reset, left, hphase⟩
    · simp only [Sender.rank, hphase]
      omega
    · cases again <;>
        · simp only [Sender.rank, hphase]
          omega
    · simp only [Sender.rank, hphase]
      omega
    · simp only [Sender.rank, hphase]
      omega
    · simp only [Sender.rank, hphase]
      omega

theorem step_cases
    {job : Job} {p : Patience} {w w' : SendWindow} {e : WindowEvent} {out : List Command}
    (h : w.step job p e = some (w', out)) :
    StepKind job p w e w' out := by
  have hfail : ∀ (exc : PcutpError) now, 0 < w.sender.rank job →
      StepKind job p w e (w.arm p now (w.sender.fail exc).1) (w.sender.fail exc).2 := by
    intro exc now hlive
    have hends : Sender.Ends job w.sender [] true (w.sender.fail exc) :=
      Sender.ends_fail_self exc
    exact .ends _ _ now (Or.inl rfl) (fun hlate => by cases hlate) hlive hends.1 hends.2
  cases e with
  | run ticks =>
      simp only [step] at h
      split_ifs at h with hready
      cases h
      have hlive : 0 < w.sender.rank job := rank_pos (Or.inl hready.1)
      rcases Sender.fillWindow_cases hready.2 with ⟨hblocks, hroom, hattempts, heq⟩ | heq |
          ⟨exc, heq⟩
      · rw [heq]
        exact .frame _ _ hready.1 rfl hblocks hroom hattempts
      · rw [heq]
        refine .ends [] true _ (Or.inl rfl) (fun hlate => by cases hlate) hlive
          (.moves rfl ⟨rfl, rfl, rfl, rfl, rfl, rfl⟩ ?_ ?_) (fun c hc => absurd hc List.not_mem_nil)
        · simp only [Sender.resetting, hready.1]
        · simp only [Sender.rank, hready.1]
          omega
      · rw [heq]
        exact hfail exc _ hlive
  | line text ticks =>
      simp only [step] at h
      split_ifs at h with hbusy
      simp only [not_or, Bool.not_eq_false] at hbusy
      obtain ⟨next, hnext, heq⟩ := Option.map_eq_some_iff.mp h
      cases heq
      obtain ⟨next', hnext', houtcome, hplain⟩ := Sender.line_ends hbusy.1
      obtain rfl := Option.some.inj (hnext.symm.trans hnext')
      refine .ends _ _ _ (Or.inr ⟨text, ticks, rfl, rfl⟩) (fun hlate => ?_)
        (rank_pos (Or.inr hbusy.1)) houtcome hplain
      have := of_decide_eq_false hlate
      omega
  | timeout ticks =>
      simp only [step] at h
      split_ifs at h with hbusy
      simp only [not_or, Bool.not_eq_false] at hbusy
      obtain ⟨next, hnext, heq⟩ := Option.map_eq_some_iff.mp h
      cases heq
      obtain ⟨next', hnext', houtcome, hplain⟩ := Sender.timeout_ends [] _ hbusy.1
      obtain rfl := Option.some.inj (hnext.symm.trans hnext')
      exact .ends _ _ _ (Or.inl rfl) (fun hlate => by cases hlate) (rank_pos (Or.inr hbusy.1))
        houtcome hplain
  | failed exc ticks =>
      simp only [step] at h
      split_ifs at h with hbusy
      simp only [not_or, Bool.not_eq_false] at hbusy
      cases h
      exact hfail exc _ (rank_pos (Or.inr hbusy.1))

end SendWindow

end Pcutp
