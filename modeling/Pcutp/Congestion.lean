import Pcutp.SendWindow
import Pcutp.Transfer

/-!
# The congestion window

`cwnd` in `_send_window`: one frame may be under way until `FLOW_GROW_ACKS` ACKs
have moved the base, then as many as the session allows.  `Streak` counts, beside
the machine of `_send_window`, the ACKs that moved the base since the last NAK,
DROP or RST and since the last call of `_probe_receiver`; the source counts them
in `clean_acks`.

`clean_acks` may never exceed that count.  Two branches let it.  A HERE that is
read when the deadline has passed calls `_probe_receiver` without clearing it,
as the branch of the timeout does; and the branch of RST 0 narrows the window
only after its call of `_recover_window`, where that of NAK does so before.
-/

namespace Pcutp

/-- The replies that narrow the window. -/
def setback (parts : List Line) : Bool :=
  decide (word parts 0 ∈ ["NAK".toList, "DROP".toList, "RST".toList])

/-- Whether `_probe_receiver` is called between two phases. -/
def calls (phase : SendPhase) : SendPhase → Bool
  | .guard again => decide (phase ≠ .guard again)
  | _ => false

theorem calls_self (phase : SendPhase) :
    calls phase phase = false := by
  cases phase <;> simp [calls]

/-- The count after a step that read `parts`. -/
def recount (s : Sender) (since : Nat) (parts : List Line) (s' : Sender) : Nat :=
  if calls s.phase s'.phase = true ∨ setback parts = true then 0
  else if word parts 0 = "ACK".toList ∧ s.base < s'.base then since + 1
  else since

/-- `_send_window`, and the ACKs that moved its base since the window was last narrowed. -/
structure Streak where
  window : SendWindow
  since : Nat

namespace Streak

/-- The words of the line that an event brings. -/
def heard : WindowEvent → List Line
  | .line text _ => split text
  | _ => []

/-- `_send_window` is called. -/
def start (barrier_id : Nat) (reset_token : Option Line) (now : Nat) : Streak where
  window := .start barrier_id reset_token now
  since := 0

/-- One step, and the count after it. -/
def step (job : Job) (p : Patience) (t : Streak) (e : WindowEvent) :
    Option (Streak × List Command) :=
  (t.window.step job p e).map fun next =>
    ({ window := next.1
       since := recount t.window.sender t.since (heard e) next.1.sender }, next.2)

/-- `_send_window` runs: it writes frames, waits for a reply, or is in one of its two calls. -/
def Running (t : Streak) : Prop :=
  t.window.sender.phase = .fill ∨ t.window.sender.phase.waits = true

/-- The law of the window. -/
structure Lawful (job : Job) (t : Streak) : Prop where
  window : t.window.sender.cwnd = 1 ∨ t.window.sender.cwnd = job.session.window_size
  flight : t.window.sender.next_seq ≤ t.window.sender.base + job.session.window_size
  earned : 1 < job.session.window_size → t.window.sender.cwnd = job.session.window_size →
    Const.FLOW_GROW_ACKS ≤ t.since

instance (t : Streak) : Decidable t.Running :=
  inferInstanceAs (Decidable (_ ∨ _))

instance (job : Job) (t : Streak) : Decidable (t.Lawful job) :=
  decidable_of_iff (_ ∧ _ ∧ _)
    ⟨fun h => ⟨h.1, h.2.1, h.2.2⟩, fun h => ⟨h.window, h.flight, h.earned⟩⟩

/-- A HERE is read when the deadline of the reply has passed, and some ACKs count. -/
def LateHere (job : Job) (t : Streak) : WindowEvent → Prop
  | .line text ticks =>
      t.window.sender.phase = .reply ∧ (split text).take 1 = ["HERE".toList] ∧
        t.window.deadline ≤ t.window.now + (ticks + 1) ∧
        0 < t.window.sender.clean_acks ∧ 1 < job.session.window_size
  | _ => False

instance (job : Job) (t : Streak) : ∀ e, Decidable (t.LateHere job e)
  | .line _ _ => inferInstanceAs (Decidable (_ ∧ _ ∧ _ ∧ _ ∧ _))
  | .run _ => inferInstanceAs (Decidable False)
  | .timeout _ => inferInstanceAs (Decidable False)
  | .failed _ _ => inferInstanceAs (Decidable False)

/-- RST 0 is read by the wait for a reply while the window is wide, and a reset is left. -/
def WideReset (t : Streak) : WindowEvent → Prop
  | .line text _ =>
      t.window.sender.phase = .reply ∧ split text = ["RST".toList, "0".toList] ∧
        t.window.sender.resets < Const.MAX_RESETS ∧ 1 < t.window.sender.cwnd
  | _ => False

instance (t : Streak) : ∀ e, Decidable (t.WideReset e)
  | .line _ _ => inferInstanceAs (Decidable (_ ∧ _ ∧ _ ∧ _))
  | .run _ => inferInstanceAs (Decidable False)
  | .timeout _ => inferInstanceAs (Decidable False)
  | .failed _ _ => inferInstanceAs (Decidable False)

end Streak

namespace Sender

/-- How `clean_acks` stands to the count, in each phase. -/
def InStep (clean_acks since : Nat) : SendPhase → Prop
  | .fill => clean_acks ≤ since
  | .reply => clean_acks ≤ since
  | .barrier true _ => True
  | _ => clean_acks = 0

theorem inStep_zero (since : Nat) (phase : SendPhase) :
    InStep 0 since phase := by
  unfold InStep
  split
  · exact Nat.zero_le _
  · exact Nat.zero_le _
  · trivial
  · rfl

/-- What `_send_window` maintains about its window. -/
structure Governed (job : Job) (s : Sender) (since : Nat) : Prop where
  window : s.cwnd = 1 ∨ s.cwnd = job.session.window_size
  grown : s.cwnd ≠ 1 → Const.FLOW_GROW_ACKS ≤ s.clean_acks
  base_le : s.base ≤ s.next_seq
  flight : s.next_seq ≤ s.base + job.session.window_size
  counts : 1 < job.session.window_size → InStep s.clean_acks since s.phase
  draining : ∀ left, s.phase = .barrier true left → s.cwnd = 1

/-- The window is governed, or `_send_window` has raised. -/
def Held (job : Job) (s : Sender) (since : Nat) : Prop :=
  Governed job s since ∨ ∃ exc, s.phase = .raised exc

section Handlers

variable {job : Job} {s s' : Sender} {since : Nat} {parts : List Line} {late : Bool}

theorem held_fail (exc : PcutpError) :
    Held job (s.fail exc).1 since :=
  Or.inr ⟨exc, rfl⟩

/-- The same window in another phase. -/
theorem Governed.moved
    {since' : Nat} (h : Governed job s since)
    (hbase : s'.base = s.base) (hnext : s'.next_seq = s.next_seq)
    (hcwnd : s'.cwnd = s.cwnd) (hclean : s'.clean_acks = s.clean_acks)
    (hcounts : 1 < job.session.window_size → InStep s'.clean_acks since' s'.phase)
    (hdrain : ∀ left, s'.phase = .barrier true left → s.cwnd = 1) :
    Governed job s' since' where
  window := hcwnd ▸ h.window
  grown := hcwnd ▸ hclean ▸ h.grown
  base_le := hbase ▸ hnext ▸ h.base_le
  flight := hbase ▸ hnext ▸ h.flight
  counts := hcounts
  draining := fun left hphase => hcwnd ▸ hdrain left hphase

/-- The narrowed window, in any phase. -/
theorem Governed.narrowed
    {since' : Nat} (hbase : s'.base ≤ s'.next_seq)
    (hflight : s'.next_seq ≤ s'.base + job.session.window_size)
    (hcwnd : s'.cwnd = 1) (hclean : s'.clean_acks = 0) :
    Governed job s' since' where
  window := Or.inl hcwnd
  grown := fun h => absurd hcwnd h
  base_le := hbase
  flight := hflight
  counts := fun _ => by
    rw [hclean]
    exact inStep_zero _ _
  draining := fun _ _ => hcwnd

/-- A phase in which no ACK counts. -/
theorem Governed.clean_eq
    (h : Governed job s since) (hwindow : 1 < job.session.window_size)
    (hphase : (∃ again, s.phase = .guard again) ∨ (∃ left, s.phase = .ayt left) ∨
      (∃ left, s.phase = .rst left) ∨ ∃ left, s.phase = .barrier false left) :
    s.clean_acks = 0 := by
  have hcounts := h.counts hwindow
  rcases hphase with ⟨_, hphase⟩ | ⟨_, hphase⟩ | ⟨_, hphase⟩ | ⟨_, hphase⟩ <;>
    · rw [hphase] at hcounts
      exact hcounts

/-- In such a phase the window is narrow. -/
theorem Governed.cwnd_eq
    (h : Governed job s since)
    (hphase : (∃ again, s.phase = .guard again) ∨ (∃ left, s.phase = .ayt left) ∨
      (∃ left, s.phase = .rst left) ∨ ∃ left, s.phase = .barrier false left) :
    s.cwnd = 1 := by
  by_contra hwide
  have hcwnd := h.window.resolve_left hwide
  have hone := job.session.window_ok.1
  have hgrown := h.grown hwide
  rw [h.clean_eq (by omega) hphase] at hgrown
  exact absurd hgrown (by decide)

/-- The count stays while the same wait goes on. -/
theorem recount_stays
    (hcalls : calls s.phase s'.phase = false) (hset : setback parts = false)
    (hbase : ¬ (word parts 0 = "ACK".toList ∧ s.base < s'.base)) :
    recount s since parts s' = since := by
  rw [recount, if_neg (by simp [hcalls, hset]), if_neg hbase]

/-- Not an ACK, and not a line that narrows the window. -/
theorem recount_other
    (hcalls : calls s.phase s'.phase = false)
    (hword : word parts 0 ∉ ["ACK".toList, "NAK".toList, "DROP".toList, "RST".toList]) :
    recount s since parts s' = since := by
  simp only [List.mem_cons, not_or] at hword
  refine recount_stays hcalls ?_ fun h => hword.1 h.1
  simpa [setback] using hword.2

theorem not_setback_of_ack
    (hack : word parts 0 = "ACK".toList) :
    setback parts = false := by
  rw [setback, hack]
  decide

/-- An ACK moves the window and counts. -/
theorem held_advance
    (h : Governed job s since) (hclean : 1 < job.session.window_size → s.clean_acks ≤ since)
    (hack : word parts 0 = "ACK".toList) {a : Nat} (hbase : s.base ≤ a) (hsent : a < s.next_seq) :
    Governed job (s.advance job a) (recount s since parts (s.advance job a)) := by
  have hcount : recount s since parts (s.advance job a) = since + 1 := by
    rw [recount, if_neg (by simp [calls, advance, not_setback_of_ack hack]),
      if_pos ⟨hack, Nat.lt_succ_of_le hbase⟩]
  have hflight := h.flight
  refine ⟨?_, fun hcwnd => ?_, hsent, ?_, fun hwindow => ?_, fun _ hphase => by cases hphase⟩
  · change (if Const.FLOW_GROW_ACKS ≤ s.clean_acks + 1 then job.session.window_size
      else s.cwnd) = 1 ∨ (if Const.FLOW_GROW_ACKS ≤ s.clean_acks + 1 then job.session.window_size
      else s.cwnd) = job.session.window_size
    split
    · exact Or.inr rfl
    · exact h.window
  · change Const.FLOW_GROW_ACKS ≤ s.clean_acks + 1
    by_contra hfew
    have hsame : (s.advance job a).cwnd = s.cwnd := if_neg hfew
    rw [hsame] at hcwnd
    exact hfew ((h.grown hcwnd).trans (Nat.le_succ _))
  · change s.next_seq ≤ a + 1 + job.session.window_size
    omega
  · rw [hcount]
    exact Nat.succ_le_succ (hclean hwindow)

/-- What `_send_window` does with a reply. -/
theorem held_dispatch
    (h : Governed job s since) (hclean : 1 < job.session.window_size → s.clean_acks ≤ since)
    (hlate : late = false → s.phase = .reply)
    (hreset : parts = ["RST".toList, "0".toList] → s.resets < Const.MAX_RESETS → s.cwnd = 1) :
    Held job (s.dispatch job parts late).1
      (recount s since parts (s.dispatch job parts late).1) := by
  have hself : late = false → ({ s with phase := .reply } : Sender) = s := fun hfalse => by
    rw [← hlate hfalse]
  have hstays : late = false → setback parts = false →
      Held job ({ s with phase := .reply } : Sender)
        (recount s since parts ({ s with phase := .reply } : Sender)) := by
    intro hfalse hset
    have hsame : recount s since parts ({ s with phase := .reply } : Sender) = since :=
      recount_stays rfl hset fun h => Nat.lt_irrefl _ h.2
    rw [hsame, hself hfalse]
    exact Or.inl h
  by_cases hack : parts.length = 2 ∧ word parts 0 = "ACK".toList ∧
      isdecimal (word parts 1) = true
  · rw [dispatch, if_pos hack]
    dsimp only
    by_cases hunsent : s.next_seq ≤ int (word parts 1)
    · rw [if_pos hunsent]
      exact held_fail _
    · rw [if_neg hunsent]
      by_cases hold : int (word parts 1) < s.base
      · rw [if_pos hold]
        split
        · exact held_fail _
        · rename_i hlater
          exact hstays (Bool.not_eq_true _ ▸ hlater) (not_setback_of_ack hack.2.1)
      · rw [if_neg hold]
        exact Or.inl (held_advance h hclean hack.2.1 (Nat.not_lt.mp hold) (Nat.not_le.mp hunsent))
  · rw [dispatch, if_neg hack]
    by_cases hrst : parts.length = 2 ∧ word parts 0 = "RST".toList ∧ word parts 1 = "0".toList
    · rw [if_pos hrst]
      split
      · exact held_fail _
      · rename_i hleft
        obtain ⟨hlength, hword, hzero⟩ := hrst
        obtain ⟨w, v, rfl⟩ := List.length_eq_two.mp hlength
        simp only [word_zero, word_succ] at hword hzero
        have hnarrow := hreset (by rw [hword, hzero]) (Nat.succ_le_of_lt (Nat.not_lt.mp hleft))
        exact Or.inl (h.moved rfl rfl rfl rfl (fun _ => trivial) fun _ _ => hnarrow)
    · rw [if_neg hrst]
      by_cases hgap : parts = [] ∨ word parts 0 = "NAK".toList ∨ word parts 0 = "DROP".toList
      · rw [if_pos hgap]
        exact Or.inl (.narrowed h.base_le h.flight rfl rfl)
      · rw [if_neg hgap]
        split
        · rename_i hold
          have hword : word parts 0 = "RESUME".toList := by
            have hresume := hold.1
            simp only [oldResume, Bool.and_eq_true, beq_iff_eq] at hresume
            exact hresume.1.1.1.2
          refine hstays hold.2 ?_
          rw [setback, hword]
          decide
        · exact held_fail _

/-- The next question of a call asks nothing of the window. -/
theorem held_moved
    {since' : Nat} (h : Governed job s since)
    (hphase : (∃ again, s.phase = .guard again) ∨ (∃ left, s.phase = .ayt left) ∨
      (∃ left, s.phase = .rst left) ∨ ∃ left, s.phase = .barrier false left)
    (hbase : s'.base = s.base) (hnext : s'.next_seq = s.next_seq)
    (hcwnd : s'.cwnd = s.cwnd) (hacks : s'.clean_acks = s.clean_acks) :
    Governed job s' since' := by
  refine h.moved hbase hnext hcwnd hacks (fun hwindow => ?_) fun _ _ => h.cwnd_eq hphase
  rw [hacks, h.clean_eq hwindow hphase]
  exact inStep_zero _ _

theorem held_ask
    {since' : Nat} (left : Nat) (h : Governed job s since)
    (hphase : (∃ again, s.phase = .guard again) ∨ ∃ left, s.phase = .ayt left) :
    Held job (s.ask left).1 since' := by
  have hcall := hphase.imp_right (Or.inl (b := (∃ left, s.phase = .rst left) ∨
    ∃ left, s.phase = .barrier false left))
  cases left with
  | zero => exact Or.inl (held_moved h hcall rfl rfl rfl rfl)
  | succ left => exact Or.inl (held_moved h hcall rfl rfl rfl rfl)

theorem held_askReset
    {since' left : Nat} (h : Governed job s since) (hphase : s.phase = .rst left) :
    Held job (s.askReset left).1 since' := by
  cases left with
  | zero => exact held_fail _
  | succ left =>
      exact Or.inl (held_moved h (Or.inr (Or.inr (Or.inl ⟨_, hphase⟩))) rfl rfl rfl rfl)

/-- The state of `_recover_window` at a later turn. -/
theorem held_draining
    {since' left : Nat} {reset : Bool} (h : Governed job s since)
    (hphase : s.phase = .barrier reset left) (left' : Nat) :
    Governed job ({ s with phase := .barrier reset left' } : Sender) since' := by
  cases reset with
  | true => exact h.moved rfl rfl rfl rfl (fun _ => trivial) fun _ _ => h.draining _ hphase
  | false =>
      exact held_moved h (Or.inr (Or.inr (Or.inr ⟨_, hphase⟩))) rfl rfl rfl rfl

theorem held_askBarrier
    {since' left : Nat} {reset : Bool} (h : Governed job s since)
    (hphase : s.phase = .barrier reset left) :
    Held job (s.askBarrier reset left).1 since' := by
  cases left with
  | zero => exact held_fail _
  | succ left => exact Or.inl (held_draining h hphase left)

theorem held_reply
    (h : Governed job s since) (hphase : s.phase = .reply)
    (hprompt : parts.take 1 = ["HERE".toList] → late = true → 1 < job.session.window_size →
      s.clean_acks = 0)
    (hreset : parts = ["RST".toList, "0".toList] → s.resets < Const.MAX_RESETS → s.cwnd = 1) :
    Held job (s.onReply job parts late).1
      (recount s since parts (s.onReply job parts late).1) := by
  have hclean : 1 < job.session.window_size → s.clean_acks ≤ since := by
    intro hwindow
    have hcounts := h.counts hwindow
    rw [hphase] at hcounts
    exact hcounts
  rw [onReply]
  by_cases hhere : parts.take 1 = ["HERE".toList]
  · rw [if_pos hhere]
    split
    · rename_i hlate
      exact Or.inl (h.moved rfl rfl rfl rfl (fun hwindow => hprompt hhere hlate hwindow)
        fun _ hphase => by cases hphase)
    · have hword : word parts 0 = "HERE".toList := by
        cases parts with
        | nil => cases hhere
        | cons w ws => simpa using hhere
      rw [recount_other (calls_self _) (by rw [hword]; decide)]
      exact Or.inl h
  · rw [if_neg hhere]
    exact held_dispatch h hclean (fun _ => hphase) hreset

theorem held_guard
    {again : Bool} {text : Line} (h : Governed job s since) (hphase : s.phase = .guard again) :
    Held job (s.onGuard job again text).1
      (recount s since (split text) (s.onGuard job again text).1) := by
  have hcall : (∃ again, s.phase = .guard again) ∨ ∃ left, s.phase = .ayt left :=
    Or.inl ⟨again, hphase⟩
  unfold onGuard
  split
  · exact held_ask _ h hcall
  · split
    · exact Or.inl (held_moved h (Or.inl ⟨again, hphase⟩) rfl rfl rfl rfl)
    · exact held_dispatch h
        (fun hwindow => (h.clean_eq hwindow (Or.inl ⟨again, hphase⟩)).le.trans (Nat.zero_le _))
        (fun hfalse => by cases hfalse) fun _ _ => h.cwnd_eq (Or.inl ⟨again, hphase⟩)

theorem held_probe
    {left : Nat} (h : Governed job s since) (hphase : s.phase = .ayt left) :
    Held job (s.onProbe job left parts late).1
      (recount s since parts (s.onProbe job left parts late).1) := by
  have hcall : (∃ again, s.phase = .guard again) ∨ ∃ left, s.phase = .ayt left :=
    Or.inr ⟨left, hphase⟩
  unfold onProbe
  split
  · dsimp only
    rw [dispatch_gap _ _ _ (Or.inr rfl)]
    exact Or.inl (.narrowed h.base_le h.flight rfl rfl)
  · split
    · exact held_dispatch h (fun hwindow =>
        (h.clean_eq hwindow (Or.inr (Or.inl ⟨left, hphase⟩))).le.trans (Nat.zero_le _))
        (fun hfalse => by cases hfalse) fun _ _ => h.cwnd_eq (Or.inr (Or.inl ⟨left, hphase⟩))
    · split
      · exact held_ask _ h hcall
      · exact Or.inl (held_moved h (Or.inr (Or.inl ⟨left, hphase⟩)) rfl rfl rfl rfl)

theorem held_rst
    {left : Nat} (h : Governed job s since) (hphase : s.phase = .rst left) :
    Held job (s.onReset job left parts late).1
      (recount s since parts (s.onReset job left parts late).1) := by
  unfold onReset
  split
  · rw [dispatch_rst]
    split
    · exact held_fail _
    · exact Or.inl (held_moved h (Or.inr (Or.inr (Or.inl ⟨left, hphase⟩))) rfl rfl rfl rfl)
  · split
    · split
      · exact held_askReset h hphase
      · exact Or.inl (held_moved h (Or.inr (Or.inr (Or.inl ⟨left, hphase⟩))) rfl rfl rfl rfl)
    · exact held_fail _

/-- `_recover_window` returns. -/
theorem held_resume
    {reset : Bool} {left seq since' : Nat} (h : Governed job s since)
    (hphase : s.phase = .barrier reset left) :
    Held job (s.resume job reset seq).1 since' := by
  cases reset with
  | true =>
      rw [resume, if_pos rfl]
      split
      · exact held_fail _
      · exact Or.inl (.narrowed (Nat.le_refl _) (Nat.zero_le _) rfl rfl)
  | false =>
      rw [resume, if_neg Bool.false_ne_true]
      generalize (if s.base < seq then 0 else s.recoveries + 1) = recoveries
      dsimp only
      split
      · exact held_fail _
      · refine Or.inl ⟨h.window, h.grown, Nat.le_refl _, Nat.le_add_right _ _, fun hwindow => ?_,
          fun _ hfill => by cases hfill⟩
        exact (h.clean_eq hwindow (Or.inr (Or.inr (Or.inr ⟨left, hphase⟩)))).le.trans
          (Nat.zero_le _)

theorem held_barrier
    {reset : Bool} {left : Nat} (h : Governed job s since)
    (hphase : s.phase = .barrier reset left) :
    Held job (s.onBarrier job reset left parts late).1
      (recount s since parts (s.onBarrier job reset left parts late).1) := by
  rw [onBarrier]
  generalize (if reset = true then 0 else s.base) = lo
  split
  · split
    · exact held_resume h hphase
    · exact held_fail _
  · split
    · split
      · exact held_askBarrier h hphase
      · have hself : ({ s with phase := .barrier reset left } : Sender) = s := by
          rw [← hphase]
        exact Or.inl (hself ▸ held_draining h hphase left)
    · exact held_fail _

/-- A read that times out. -/
theorem held_timeout
    {exc : PcutpError} {next : Sender × List Command} {since' : Nat} (h : Governed job s since)
    (hwaits : s.phase.waits = true) (hnext : s.onTimeout job exc = some next) :
    Held job next.1 since' := by
  rcases SendPhase.waits_cases hwaits with hphase | ⟨again, hphase⟩ | ⟨left, hphase⟩ |
      ⟨left, hphase⟩ | ⟨reset, left, hphase⟩ <;> rw [onTimeout, hphase] at hnext <;>
    cases hnext
  · exact Or.inl (.narrowed h.base_le h.flight rfl rfl)
  · exact held_ask _ h (Or.inl ⟨again, hphase⟩)
  · exact held_ask _ h (Or.inr ⟨left, hphase⟩)
  · exact held_askReset h hphase
  · exact held_askBarrier h hphase

/-- A read that delivers a line. -/
theorem held_line
    {text : Line} {next : Sender × List Command} (h : Governed job s since)
    (hwaits : s.phase.waits = true)
    (hprompt : s.phase = .reply → (split text).take 1 = ["HERE".toList] → late = true →
      1 < job.session.window_size → s.clean_acks = 0)
    (hreset : s.phase = .reply → split text = ["RST".toList, "0".toList] →
      s.resets < Const.MAX_RESETS → s.cwnd = 1)
    (hnext : s.step job (.line text late) = some next) :
    Held job next.1 (recount s since (split text) next.1) := by
  by_cases hrmb : isRmb text = true
  · have hreads : s.reads ≠ false := by
      rcases SendPhase.waits_cases hwaits with hphase | ⟨again, hphase⟩ | ⟨left, hphase⟩ |
        ⟨left, hphase⟩ | ⟨reset, left, hphase⟩ <;> simp [reads, hphase]
    rw [step, if_pos hrmb, if_neg hreads] at hnext
    dsimp only at hnext
    split at hnext
    · obtain ⟨timed, htimed, heq⟩ := Option.map_eq_some_iff.mp hnext
      cases heq
      have htimeout : Held job timed.1 (recount s since (split text) timed.1) :=
        held_timeout h hwaits htimed
      exact htimeout
    · cases hnext
      have hword : word (split text) 0 = "RMB".toList := by
        simp only [isRmb, Bool.and_eq_true, beq_iff_eq] at hrmb
        exact hrmb.1.2
      rw [recount_other (calls_self _) (by rw [hword]; decide)]
      exact Or.inl h
  · rw [step, if_neg hrmb] at hnext
    rcases SendPhase.waits_cases hwaits with hphase | ⟨again, hphase⟩ | ⟨left, hphase⟩ |
        ⟨left, hphase⟩ | ⟨reset, left, hphase⟩ <;> rw [onLine, hphase] at hnext <;>
      cases hnext
    · exact held_reply h hphase (hprompt hphase) (hreset hphase)
    · exact held_guard h hphase
    · exact held_probe h hphase
    · exact held_rst h hphase
    · exact held_barrier h hphase

/-- The part of `_send_window` before a read. -/
theorem held_fill
    (h : Governed job s since) (hphase : s.phase = .fill) (hbase : s.base < job.blocks) :
    Held job (s.fillWindow job).1 (recount s since [] (s.fillWindow job).1) := by
  have hclean : 1 < job.session.window_size → s.clean_acks ≤ since := by
    intro hwindow
    have hcounts := h.counts hwindow
    rw [hphase] at hcounts
    exact hcounts
  have hquiet : ∀ s' : Sender, s'.phase = .fill ∨ s'.phase = .reply →
      recount s since [] s' = since := by
    intro s' hs'
    refine recount_other ?_ (by decide)
    rcases hs' with hs' | hs' <;> rw [hs', hphase] <;> rfl
  rcases fillWindow_cases hbase with ⟨_, hroom, _, heq⟩ | heq | ⟨exc, heq⟩
  · rw [heq]
    generalize (s.frames s.next_seq).getD (job.frame s.next_seq) = frame
    have hwritten : (s.writeFrame frame).phase = .fill := hphase
    dsimp only
    rw [hquiet _ (Or.inl hwritten)]
    refine Or.inl ⟨h.window, h.grown, h.base_le.trans (Nat.le_succ _), ?_, fun hwindow => ?_,
      fun _ hdrain => by rw [hwritten] at hdrain; cases hdrain⟩
    · change s.next_seq + 1 ≤ s.base + job.session.window_size
      have hone := job.session.window_ok.1
      rcases h.window with hcwnd | hcwnd <;> omega
    · rw [hwritten]
      exact hclean hwindow
  · rw [heq, hquiet _ (Or.inr rfl)]
    exact Or.inl (h.moved rfl rfl rfl rfl hclean fun _ hdrain => by cases hdrain)
  · rw [heq]
    exact held_fail exc

end Handlers

end Sender

namespace Streak

open Sender (Governed Held)

variable {job : Job} {p : Patience} {t t' : Streak} {e : WindowEvent} {out : List Command}

/-- A governed window obeys the law. -/
theorem lawful_of_governed
    (h : Governed job t.window.sender t.since) (hrunning : t.Running) :
    Lawful job t := by
  refine ⟨h.window, h.flight, fun hwindow hcwnd => ?_⟩
  have hwide : t.window.sender.cwnd ≠ 1 := by omega
  have hgrown := h.grown hwide
  have hcounts := h.counts hwindow
  rcases hrunning with hphase | hwaits
  · rw [hphase] at hcounts
    exact hgrown.trans hcounts
  · rcases SendPhase.waits_cases hwaits with hphase | hphase | hphase | hphase |
        ⟨reset, left, hphase⟩
    · rw [hphase] at hcounts
      exact hgrown.trans hcounts
    · exact absurd (h.cwnd_eq (Or.inl hphase)) hwide
    · exact absurd (h.cwnd_eq (Or.inr (Or.inl hphase))) hwide
    · exact absurd (h.cwnd_eq (Or.inr (Or.inr (Or.inl hphase)))) hwide
    · cases reset with
      | true => exact absurd (h.draining left hphase) hwide
      | false => exact absurd (h.cwnd_eq (Or.inr (Or.inr (Or.inr ⟨left, hphase⟩)))) hwide

/-- One step keeps the window governed, unless a HERE comes too late or a wide window is reset. -/
theorem held_step
    (h : Held job t.window.sender t.since) (hnext : t.step job p e = some (t', out))
    (hprompt : ¬ LateHere job t e) (hnarrow : ¬ WideReset t e) :
    Held job t'.window.sender t'.since := by
  obtain ⟨next, hwindow, heq⟩ := Option.map_eq_some_iff.mp hnext
  cases heq
  have hlive : ∀ {phase : SendPhase}, phase = .fill ∨ phase.waits = true →
      t.window.sender.phase = phase → Governed job t.window.sender t.since := by
    intro phase hphase heq
    refine h.resolve_right ?_
    rintro ⟨exc, hraised⟩
    rw [← heq, hraised] at hphase
    rcases hphase with hphase | hphase <;> cases hphase
  cases e with
  | run ticks =>
      simp only [SendWindow.step] at hwindow
      split_ifs at hwindow with hready
      cases hwindow
      exact Sender.held_fill (hlive (Or.inl rfl) hready.1) hready.1 hready.2
  | line text ticks =>
      simp only [SendWindow.step] at hwindow
      split_ifs at hwindow with hbusy
      simp only [not_or, Bool.not_eq_false] at hbusy
      obtain ⟨answer, hanswer, heq⟩ := Option.map_eq_some_iff.mp hwindow
      cases heq
      refine Sender.held_line (hlive (Or.inr hbusy.1) rfl) hbusy.1
        (fun hphase hhere hlate hwide => ?_) (fun hphase hrst hleft => ?_) hanswer
      · by_contra hclean
        exact hprompt ⟨hphase, hhere, of_decide_eq_true hlate, Nat.pos_of_ne_zero hclean, hwide⟩
      · have hgoverned := hlive (Or.inr hbusy.1) rfl
        by_contra hwide
        have hone := job.session.window_ok.1
        have hcwnd := hgoverned.window.resolve_left hwide
        exact hnarrow ⟨hphase, hrst, hleft, by omega⟩
  | timeout ticks =>
      simp only [SendWindow.step] at hwindow
      split_ifs at hwindow with hbusy
      simp only [not_or, Bool.not_eq_false] at hbusy
      obtain ⟨answer, hanswer, heq⟩ := Option.map_eq_some_iff.mp hwindow
      cases heq
      exact Sender.held_timeout (hlive (Or.inr hbusy.1) rfl) hbusy.1 hanswer
  | failed exc ticks =>
      simp only [SendWindow.step] at hwindow
      split_ifs at hwindow
      cases hwindow
      exact Sender.held_fail exc

theorem governed_start (barrier_id : Nat) (reset_token : Option Line) (now : Nat) :
    Governed job (start barrier_id reset_token now).window.sender
      (start barrier_id reset_token now).since where
  window := Or.inl rfl
  grown := fun h => absurd rfl h
  base_le := Nat.le_refl _
  flight := Nat.zero_le _
  counts := fun _ => Nat.le_refl _
  draining := fun _ _ => rfl

/-- The law of the congestion window: against any peer, at any pace, it holds as long as no HERE
comes when the deadline has passed and some ACKs count, and no RST 0 while the window is wide. -/
theorem congestion_law
    (job : Job) (p : Patience) (barrier_id : Nat) (reset_token : Option Line) (now : Nat)
    (events : List WindowEvent)
    (hprompt : Machine.Always (step job p)
      (fun t e _ _ => ¬ LateHere job t e ∧ ¬ WideReset t e)
      (start barrier_id reset_token now) events) :
    Lawful job (start barrier_id reset_token now) ∧
      Machine.Always (step job p) (fun _ _ t' _ => t'.Running → Lawful job t')
        (start barrier_id reset_token now) events := by
  have hstart : Governed job (start barrier_id reset_token now).window.sender
      (start barrier_id reset_token now).since :=
    governed_start barrier_id reset_token now
  refine ⟨lawful_of_governed hstart (Or.inl rfl), ?_⟩
  refine Machine.always_of_inv (fun t => Held job t.window.sender t.since)
    (fun t e t' out h hnext hprompt => ?_) (Or.inl hstart) hprompt
  have hheld := held_step h hnext hprompt.1 hprompt.2
  refine ⟨fun hrunning => lawful_of_governed (hheld.resolve_right ?_) hrunning, hheld⟩
  rintro ⟨exc, hraised⟩
  rw [Running, hraised] at hrunning
  rcases hrunning with hphase | hphase <;> cases hphase

/-- Eight blocks are acknowledged one by one; the ninth is refused and sent again, and the
receiver starts the file again while the window is narrow. -/
def refusedNinth : List WindowEvent :=
  ((List.range 8).flatMap fun seq =>
    [.run 0, .run 0, .line ("ACK ".toList ++ dec seq) 0]) ++
  [.run 0, .run 0, .run 0, .line "NAK 8 CRC".toList 0, .line "RESUME 1 8".toList 0, .run 0, .run 0,
    .line "ACK 8".toList 0, .run 0, .run 0, .line "RST 0".toList 0, .line "RESUME 2 0".toList 0,
    .run 0]

theorem congestion_law_refused_ninth :
    Machine.Always (step (smallJob (List.replicate 12 0)) sourcePatience)
      (fun _ _ t' _ => t'.Running → Lawful (smallJob (List.replicate 12 0)) t')
      (start 0 none 0) refusedNinth :=
  (congestion_law (smallJob (List.replicate 12 0)) sourcePatience 0 none 0 refusedNinth
    (by decide +kernel)).2

/-- Eight blocks are acknowledged one by one.  A HERE comes after the deadline of the next reply,
and the guard of the probe reads the ACK that was waited for. -/
def hereTooLate : List WindowEvent :=
  ((List.range 8).flatMap fun seq =>
    [.run 0, .run 0, .line ("ACK ".toList ++ dec seq) 0]) ++
  [.run 0, .run 0, .run 0, .line "HERE 1 8".toList 12, .line "ACK 8".toList 0]

/-- Eight blocks are acknowledged one by one, and then the receiver starts the file again. -/
def resetWhileWide : List WindowEvent :=
  ((List.range 8).flatMap fun seq =>
    [.run 0, .run 0, .line ("ACK ".toList ++ dec seq) 0]) ++
  [.run 0, .run 0, .run 0, .line "RST 0".toList 0]

theorem congestion_law_broken :
    (¬ Machine.Always (step (smallJob (List.replicate 12 0)) sourcePatience)
      (fun _ _ t' _ => t'.Running → Lawful (smallJob (List.replicate 12 0)) t')
      (start 0 none 0) hereTooLate) ∧
    ¬ Machine.Always (step (smallJob (List.replicate 12 0)) sourcePatience)
      (fun _ _ t' _ => t'.Running → Lawful (smallJob (List.replicate 12 0)) t')
      (start 0 none 0) resetWhileWide := by
  constructor <;> decide +kernel

end Streak

end Pcutp
