import Mathlib.Algebra.BigOperators.Intervals
import Mathlib.Algebra.Group.Action.Defs
import Mathlib.Algebra.Order.BigOperators.Group.Finset
import Mathlib.Data.Prod.Lex
import Pcutp.SendWindow

/-!
# Bounded work against any peer

Whatever lines a peer sends, and whenever, `_send_window` ends.  The rank of a
state is lexicographic: the resets that are left, the blocks that are left, the
recoveries that are left, what the sender has still to try, and the time to the
deadline (`rank`).

What it writes is paid from a budget (`budget`): in each epoch between two
full-file resets every block has its attempts, those of a block below the base
are forfeited, and a reset buys a new epoch.
-/

namespace Pcutp

namespace SendWindow

variable {job : Job} {p : Patience} {w w' : SendWindow} {e : WindowEvent} {out : List Command}

section Lengths

/-- The window lies in the file, and the cache holds frames of their blocks. -/
structure Sane (job : Job) (s : Sender) : Prop where
  base : s.base ≤ s.next_seq
  sent : s.next_seq ≤ job.blocks
  frames : ∀ seq c, s.frames seq = some c → job.IsFrameOf seq c

theorem sane_start (barrier_id : Nat) (reset_token : Option Line) (now : Nat) :
    Sane job (start barrier_id reset_token now).sender :=
  ⟨Nat.le_refl _, Nat.zero_le _, fun _ _ h => by cases h⟩

theorem sane_step
    (h : Sane job w.sender) (hstep : w.step job p e = some (w', out)) :
    Sane job w'.sender := by
  obtain ⟨hbase, hsent, hframes⟩ := h
  cases step_cases hstep with
  | frame now frame hphase hframe hblocks hroom hattempts =>
      refine ⟨Nat.le_succ_of_le hbase, hblocks, fun seq c hc => ?_⟩
      simp only [arm, Sender.writeFrame] at hc
      by_cases hseq : seq = w.sender.next_seq
      · rw [hseq, Function.update_self] at hc
        cases hc
        rw [hseq, hframe]
        exact isFrameOf_cached hframes
      · rw [Function.update_of_ne hseq] at hc
        exact hframes seq c hc
  | ends parts late now hparts hclock hlive houtcome hplain =>
      cases houtcome with
      | stays hlate => exact ⟨hbase, hsent, hframes⟩
      | moves hwaits hsame hreset hrank =>
          exact ⟨by rw [arm, hsame.base, hsame.next_seq]; exact hbase,
            by rw [arm, hsame.next_seq]; exact hsent, by rw [arm, hsame.frames]; exact hframes⟩
      | acknowledged a hparts hack hle hlt hreset =>
          exact ⟨hlt, hsent, fun seq c hc => hframes seq c (Sender.dropBelow_some hc)⟩
      | resets hphase hbase' hsent' hresets hmax hframes' hreset =>
          exact ⟨by rw [arm, hbase', hsent']; exact hbase, by rw [arm, hsent']; exact hsent,
            by rw [arm, hframes']; exact hframes⟩
      | resumed seq left hphase hparts hseq hle hlt hrecoveries =>
          exact ⟨Nat.le_refl _, hlt.trans hsent,
            fun seq c hc => hframes seq c (Sender.dropBelow_some hc)⟩
      | restarts left hphase => exact ⟨Nat.le_refl _, Nat.zero_le _, hframes⟩
      | raised exc hphase hbase' hsent' hrecoveries hresets hattempts hframes' =>
          exact ⟨by rw [arm, hbase', hsent']; exact hbase, by rw [arm, hsent']; exact hsent,
            by rw [arm, hframes']; exact hframes⟩

end Lengths

section Termination

/-- The blocks that are left; while a reset waits for its RESUME, all of them and one more. -/
def blocksLeft (job : Job) (s : Sender) : Nat :=
  if s.resetting = true then job.blocks + 1 else job.blocks - s.base

theorem blocksLeft_open
    {s : Sender} (h : s.resetting = false) :
    blocksLeft job s = job.blocks - s.base := by
  simp [blocksLeft, h]

theorem resetting_of_phase
    {s : Sender} (h : ∀ left, s.phase ≠ .barrier true left) :
    s.resetting = false := by
  unfold Sender.resetting
  split
  · rename_i reset left hphase
    cases reset with
    | true => exact absurd hphase (h left)
    | false => rfl
  · rfl

/-- The rank that every step lowers. -/
def rank (job : Job) (w : SendWindow) : ℕ ×ₗ ℕ ×ₗ ℕ ×ₗ ℕ ×ₗ ℕ :=
  toLex (Const.MAX_RESETS - w.sender.resets, toLex (blocksLeft job w.sender,
    toLex (job.session.config.max_retries - w.sender.recoveries,
      toLex (w.sender.rank job, w.deadline - w.now))))

theorem lex_lt
    {a b c d e a' b' c' d' e' : ℕ}
    (h : a' < a ∨ a' = a ∧ (b' < b ∨ b' = b ∧ (c' < c ∨ c' = c ∧ (d' < d ∨ d' = d ∧ e' < e)))) :
    toLex (a', toLex (b', toLex (c', toLex (d', e')))) <
      toLex (a, toLex (b, toLex (c, toLex (d, e)))) := by
  simpa [Prod.Lex.toLex_lt_toLex] using h

theorem rank_lt
    (h : Sane job w.sender) (hstep : w.step job p e = some (w', out)) :
    rank job w' < rank job w := by
  apply lex_lt
  cases step_cases hstep with
  | frame now frame hphase hframe hblocks hroom hattempts =>
      refine Or.inr ⟨rfl, Or.inr ⟨rfl, Or.inr ⟨rfl, Or.inl ?_⟩⟩⟩
      simp only [arm, Sender.writeFrame, Sender.rank, hphase]
      omega
  | @ends s' out parts late now hparts hclock hlive houtcome hplain =>
      cases houtcome with
      | stays hlate =>
          obtain ⟨hnow, hdeadline⟩ := hclock hlate
          refine Or.inr ⟨rfl, Or.inr ⟨rfl, Or.inr ⟨rfl, Or.inr ⟨rfl, ?_⟩⟩⟩⟩
          simp only [arm, if_true]
          omega
      | moves hwaits hsame hreset hrank =>
          refine Or.inr ⟨?_, Or.inr ⟨?_, Or.inr ⟨?_, Or.inl hrank⟩⟩⟩
          · rw [arm, hsame.resets]
          · rw [arm, blocksLeft, blocksLeft, hreset, hsame.base]
          · rw [arm, hsame.recoveries]
      | acknowledged a hparts hack hle hlt hreset =>
          refine Or.inr ⟨rfl, Or.inl ?_⟩
          have hsent := h.sent
          rw [blocksLeft_open hreset, blocksLeft_open rfl]
          simp only [arm, Sender.advance]
          omega
      | resets hphase hbase hsent hresets hmax hframes hreset =>
          refine Or.inl ?_
          simp only [arm, hresets]
          omega
      | resumed seq left hphase hparts hseq hle hlt hrecoveries =>
          have hsent := h.sent
          have hreset : w.sender.resetting = false := by
            simp only [Sender.resetting, hphase]
          rw [blocksLeft_open hreset, blocksLeft_open rfl]
          simp only [arm, Sender.resumedAt]
          by_cases hgrown : w.sender.base < seq
          · exact Or.inr ⟨trivial, Or.inl (by omega)⟩
          · have hmax := hrecoveries.resolve_left hgrown
            rw [if_neg hgrown]
            exact Or.inr ⟨trivial, Or.inr ⟨by omega, Or.inl (by omega)⟩⟩
      | restarts left hphase =>
          refine Or.inr ⟨rfl, Or.inl ?_⟩
          have hreset : w.sender.resetting = true := by
            simp only [Sender.resetting, hphase]
          rw [blocksLeft_open rfl, blocksLeft, if_pos hreset]
          simp only [arm, Sender.restarted]
          omega
      | raised exc hphase hbase hsent hrecoveries hresets hattempts hframes =>
          have hrank : (w.arm p now s').sender.rank job = 0 := by
            simp only [arm, Sender.rank, hphase]
          have hblocks : blocksLeft job (w.arm p now s').sender ≤ blocksLeft job w.sender := by
            have hopen : (w.arm p now s').sender.resetting = false :=
              resetting_of_phase fun left => by simp [arm, hphase]
            rw [blocksLeft_open hopen, blocksLeft]
            simp only [arm, hbase]
            split <;> omega
          rw [hrank]
          simp only [arm] at hblocks ⊢
          omega

end Termination

section Budget

/-- The frames that one epoch may write. -/
def epochBudget (job : Job) : Nat :=
  (job.session.config.max_retries + 1) * job.blocks

/-- The attempts that the blocks from the base on have left. -/
def attemptsLeft (job : Job) (s : Sender) : Nat :=
  ∑ seq ∈ Finset.Ico s.base job.blocks, (job.session.config.max_retries + 1 - s.attempts seq)

/-- The frames that the sender may still write. -/
def budget (job : Job) (s : Sender) : Nat :=
  (Const.MAX_RESETS - s.resets) * epochBudget job +
    if s.resetting = true then epochBudget job else attemptsLeft job s

variable {s s' : Sender}

theorem budget_open (h : s.resetting = false) :
    budget job s = (Const.MAX_RESETS - s.resets) * epochBudget job + attemptsLeft job s := by
  simp [budget, h]

theorem attemptsLeft_congr
    (hbase : s'.base = s.base) (hattempts : s'.attempts = s.attempts) :
    attemptsLeft job s' = attemptsLeft job s := by
  rw [attemptsLeft, attemptsLeft, hbase, hattempts]

theorem attemptsLeft_le (job : Job) (s : Sender) :
    attemptsLeft job s ≤ epochBudget job := by
  have hterm : ∀ seq ∈ Finset.Ico s.base job.blocks,
      job.session.config.max_retries + 1 - s.attempts seq ≤ job.session.config.max_retries + 1 :=
    fun _ _ => Nat.sub_le _ _
  have hsum := Finset.sum_le_card_nsmul _ _ _ hterm
  rw [Nat.card_Ico, smul_eq_mul, Nat.mul_comm] at hsum
  exact hsum.trans (Nat.mul_le_mul_left _ (Nat.sub_le _ _))

/-- No block was tried. -/
theorem attemptsLeft_fresh
    (hbase : s.base = 0) (hattempts : ∀ seq, s.attempts seq = 0) :
    attemptsLeft job s = epochBudget job := by
  simp [attemptsLeft, epochBudget, hbase, hattempts, Nat.mul_comm]

/-- The attempts of the blocks below a new base are forfeited. -/
theorem attemptsLeft_drop
    {base : Nat} (hle : s.base ≤ base) (hbase : s'.base = base)
    (hattempts : s'.attempts = Sender.dropBelow base 0 s.attempts) :
    attemptsLeft job s' ≤ attemptsLeft job s := by
  rw [attemptsLeft, attemptsLeft, hbase, hattempts]
  have hsame : ∀ seq ∈ Finset.Ico base job.blocks,
      job.session.config.max_retries + 1 - Sender.dropBelow base 0 s.attempts seq =
        job.session.config.max_retries + 1 - s.attempts seq := by
    intro seq hseq
    rw [Sender.dropBelow, if_pos (Finset.mem_Ico.mp hseq).1]
  rw [Finset.sum_congr rfl hsame]
  exact Finset.sum_le_sum_of_subset (Finset.Ico_subset_Ico_left hle)

/-- A frame is an attempt of its block. -/
theorem attemptsLeft_write
    (frame : Command) (hbase : s.base ≤ s.next_seq) (hblocks : s.next_seq < job.blocks)
    (hattempts : s.attempts s.next_seq ≤ job.session.config.max_retries) :
    1 + attemptsLeft job (s.writeFrame frame) = attemptsLeft job s := by
  have hmem : s.next_seq ∈ Finset.Ico s.base job.blocks := Finset.mem_Ico.mpr ⟨hbase, hblocks⟩
  have hother : ∀ seq ∈ (Finset.Ico s.base job.blocks).erase s.next_seq,
      job.session.config.max_retries + 1 - (s.writeFrame frame).attempts seq =
        job.session.config.max_retries + 1 - s.attempts seq := by
    intro seq hseq
    rw [Sender.writeFrame]
    dsimp only
    rw [Function.update_of_ne (Finset.ne_of_mem_erase hseq)]
  have hone : (s.writeFrame frame).attempts s.next_seq = s.attempts s.next_seq + 1 := by
    simp [Sender.writeFrame]
  have hbase' : (s.writeFrame frame).base = s.base := rfl
  rw [attemptsLeft, attemptsLeft, hbase', ← Finset.add_sum_erase _ _ hmem,
    ← Finset.add_sum_erase _ _ hmem, Finset.sum_congr rfl hother, hone]
  omega

theorem resets_left_succ
    {r : Nat} (h : r + 1 ≤ Const.MAX_RESETS) (n : Nat) :
    (Const.MAX_RESETS - (r + 1)) * n + n = (Const.MAX_RESETS - r) * n := by
  have hsucc : Const.MAX_RESETS - r = Const.MAX_RESETS - (r + 1) + 1 := by omega
  rw [hsucc, Nat.succ_mul]

/-- Every frame is paid from the budget. -/
theorem budget_step
    (h : Sane job w.sender) (hstep : w.step job p e = some (w', out)) :
    out.countP Command.isFrame + budget job w'.sender ≤ budget job w.sender := by
  cases step_cases hstep with
  | frame now frame hphase hframe hblocks hroom hattempts =>
      have hreset : ∀ {t : Sender}, t.phase = .fill → t.resetting = false := fun ht =>
        resetting_of_phase fun left => by simp [ht]
      have hwrite := attemptsLeft_write frame h.base hblocks hattempts
      have hcount : [frame].countP Command.isFrame ≤ 1 := List.countP_le_length
      have hwritten : (w.sender.writeFrame frame).resetting = false := hreset hphase
      have hresets : (w.sender.writeFrame frame).resets = w.sender.resets := rfl
      change [frame].countP Command.isFrame + budget job (w.sender.writeFrame frame) ≤ _
      rw [budget_open (hreset hphase), budget_open hwritten, hresets]
      omega
  | @ends s' out parts late now hparts hclock hlive houtcome hplain =>
      have hcount : out.countP Command.isFrame = 0 :=
        List.countP_eq_zero.mpr fun c hc => by simp [hplain c hc]
      rw [hcount, Nat.zero_add]
      change budget job s' ≤ budget job w.sender
      cases houtcome with
      | stays hlate => exact Nat.le_refl _
      | moves hwaits hsame hreset hrank =>
          rw [budget, budget, hreset, hsame.resets, attemptsLeft_congr hsame.base hsame.attempts]
      | acknowledged a hparts hack hle hlt hreset =>
          rw [budget_open hreset, budget_open rfl]
          exact Nat.add_le_add_left (attemptsLeft_drop (Nat.le_succ_of_le hle) rfl rfl) _
      | resets hphase hbase hsent hresets hmax hframes hreset =>
          have hnew : s'.resetting = true := by
            simp only [Sender.resetting, hphase]
          rw [budget_open hreset, budget, if_pos hnew, hresets, resets_left_succ hmax]
          exact Nat.le_add_right _ _
      | resumed seq left hphase hparts hseq hle hlt hrecoveries =>
          have hreset : w.sender.resetting = false := by
            simp only [Sender.resetting, hphase]
          rw [budget_open hreset, budget_open rfl]
          exact Nat.add_le_add_left (attemptsLeft_drop hle rfl rfl) _
      | restarts left hphase =>
          have hreset : w.sender.resetting = true := by
            simp only [Sender.resetting, hphase]
          rw [budget_open rfl, budget, if_pos hreset, attemptsLeft_fresh rfl (fun _ => rfl)]
          exact Nat.le_refl _
      | raised exc hphase hbase hsent hrecoveries hresets hattempts hframes =>
          have hopen : s'.resetting = false :=
            resetting_of_phase fun left => by simp [hphase]
          have hleft : attemptsLeft job s' = attemptsLeft job w.sender :=
            attemptsLeft_congr hbase hattempts
          have hle := attemptsLeft_le job w.sender
          rw [budget_open hopen, budget, hleft]
          refine Nat.add_le_add (Nat.mul_le_mul_right _ (by omega)) ?_
          split
          · exact hle
          · exact Nat.le_refl _

theorem budget_start (barrier_id : Nat) (reset_token : Option Line) (now : Nat) :
    budget job (start barrier_id reset_token now).sender =
      (Const.MAX_RESETS + 1) * (job.session.config.max_retries + 1) * job.blocks := by
  have hfresh : attemptsLeft job (start barrier_id reset_token now).sender = epochBudget job :=
    attemptsLeft_fresh rfl (fun _ => rfl)
  have hopen : (start barrier_id reset_token now).sender.resetting = false := rfl
  rw [budget_open hopen, hfresh, Nat.mul_assoc, Nat.succ_mul]
  rfl

end Budget

section Base

/-- A full-file reset is confirmed. -/
def Restarts (w w' : SendWindow) : Prop :=
  w.sender.resetting = true ∧ w'.sender.phase = .fill

instance (w w' : SendWindow) : Decidable (Restarts w w') :=
  inferInstanceAs (Decidable (_ ∧ _))

/-- The restarts that may still come. -/
def restartsLeft (s : Sender) : Nat :=
  Const.MAX_RESETS - s.resets + if s.resetting = true then 1 else 0

theorem restartsLeft_open {s : Sender} (h : s.resetting = false) :
    restartsLeft s = Const.MAX_RESETS - s.resets := by
  simp [restartsLeft, h]

/-- The base moves on, or the file is restarted. -/
theorem base_step
    (hstep : w.step job p e = some (w', out)) :
    w.sender.base ≤ w'.sender.base ∨ Restarts w w' ∧ w'.sender.base = 0 := by
  cases step_cases hstep with
  | frame now frame hphase hframe hblocks hroom hattempts => exact Or.inl (Nat.le_refl _)
  | ends parts late now hparts hclock hlive houtcome hplain =>
      cases houtcome with
      | stays hlate => exact Or.inl (Nat.le_refl _)
      | moves hwaits hsame hreset hrank => exact Or.inl hsame.base.ge
      | acknowledged a hparts hack hle hlt hreset => exact Or.inl (Nat.le_succ_of_le hle)
      | resets hphase hbase hsent hresets hmax hframes hreset => exact Or.inl hbase.ge
      | resumed seq left hphase hparts hseq hle hlt hrecoveries => exact Or.inl hle
      | restarts left hphase =>
          refine Or.inr ⟨⟨?_, rfl⟩, rfl⟩
          simp only [Sender.resetting, hphase]
      | raised exc hphase hbase hsent hrecoveries hresets hattempts hframes =>
          exact Or.inl hbase.ge

theorem restarts_step
    (hstep : w.step job p e = some (w', out)) :
    (if Restarts w w' then 1 else 0) + restartsLeft w'.sender ≤ restartsLeft w.sender := by
  have hnot : w.sender.resetting = false → ¬ Restarts w w' := fun hreset hrestarts =>
    Bool.false_ne_true (hreset.symm.trans hrestarts.1)
  cases step_cases hstep with
  | frame now frame hphase hframe hblocks hroom hattempts =>
      have hreset : w.sender.resetting = false :=
        resetting_of_phase fun left => by simp [hphase]
      have hwritten : (w.arm p now (w.sender.writeFrame frame)).sender.resetting = false :=
        resetting_of_phase fun left => by simp [arm, Sender.writeFrame, hphase]
      rw [if_neg (hnot hreset), restartsLeft_open hreset, restartsLeft_open hwritten, Nat.zero_add]
      exact Nat.le_refl _
  | @ends s' out parts late now hparts hclock hlive houtcome hplain =>
      have hwaiting : s'.phase ≠ .fill → ¬ Restarts w (w.arm p now s') :=
        fun hphase hrestarts => hphase hrestarts.2
      change _ + restartsLeft s' ≤ _
      cases houtcome with
      | stays hlate =>
          have hsame : ¬ Restarts w (w.arm p now w.sender) := fun hrestarts => by
            have hphase : w.sender.phase = .fill := hrestarts.2
            have hreset := hrestarts.1
            simp [Sender.resetting, hphase] at hreset
          rw [if_neg hsame, Nat.zero_add]
      | moves hwaits hsame hreset hrank =>
          have hphase : s'.phase ≠ .fill := fun hfill => by
            simp [hfill, SendPhase.waits] at hwaits
          rw [if_neg (hwaiting hphase), Nat.zero_add, restartsLeft, restartsLeft, hreset,
            hsame.resets]
      | acknowledged a hparts hack hle hlt hreset =>
          rw [if_neg (hnot hreset), restartsLeft_open hreset, restartsLeft_open rfl, Nat.zero_add]
          exact Nat.le_refl _
      | resets hphase hbase hsent hresets hmax hframes hreset =>
          have hnew : s'.resetting = true := by
            simp only [Sender.resetting, hphase]
          rw [if_neg (hnot hreset), restartsLeft_open hreset, restartsLeft, if_pos hnew, hresets]
          omega
      | resumed seq left hphase hparts hseq hle hlt hrecoveries =>
          have hreset : w.sender.resetting = false := by
            simp only [Sender.resetting, hphase]
          rw [if_neg (hnot hreset), restartsLeft_open hreset, restartsLeft_open rfl, Nat.zero_add]
          exact Nat.le_refl _
      | restarts left hphase =>
          have hreset : w.sender.resetting = true := by
            simp only [Sender.resetting, hphase]
          rw [if_pos ⟨hreset, rfl⟩, restartsLeft_open rfl, restartsLeft, if_pos hreset,
            Nat.add_comm]
          exact Nat.le_refl _
      | raised exc hphase hbase hsent hrecoveries hresets hattempts hframes =>
          have hopen : s'.resetting = false :=
            resetting_of_phase fun left => by simp [hphase]
          rw [if_neg (hwaiting (by simp [hphase])), restartsLeft_open hopen, restartsLeft]
          omega

end Base

section Served

variable (job) (p)

/-- A line that acknowledges a block: an ACK of it or of a later one, or a RESUME past it. -/
def Covers (text : Line) (seq : Nat) : Prop :=
  ((split text).length = 2 ∧ word (split text) 0 = "ACK".toList ∧
      isdecimal (word (split text) 1) = true ∧ seq ≤ int (word (split text) 1)) ∨
    ((split text).length = 3 ∧ word (split text) 0 = "RESUME".toList ∧
      isdecimal (word (split text) 2) = true ∧ seq < int (word (split text) 2))

/-- A frame of the block is among the commands. -/
def Written (out : List Command) (seq : Nat) : Prop :=
  ∃ c ∈ out, c.seq? = some seq

/-- In this run the block was written, and later a line was read that covers it. -/
def Served (w : SendWindow) (events : List WindowEvent) (seq : Nat) : Prop :=
  ∃ before text ticks after w' out, events = before ++ .line text ticks :: after ∧
    Machine.run (step job p) (w, []) before = some (w', out) ∧ Written out seq ∧
      Covers text seq

/-- What holds of the blocks after a run. -/
structure Progress (w₀ : SendWindow) (events : List WindowEvent) (s : Sender)
    (out : List Command) : Prop where
  written : ∀ seq < s.next_seq, Written out seq
  served : ∀ seq < s.base, Served job p w₀ events seq

variable {job} {p} {w₀ : SendWindow} {events : List WindowEvent} {written : List Command}

theorem Written.append
    {out out' : List Command} {seq : Nat} (h : Written out seq) :
    Written (out ++ out') seq := by
  obtain ⟨c, hc, hseq⟩ := h
  exact ⟨c, List.mem_append_left _ hc, hseq⟩

theorem Served.concat
    {seq : Nat} (h : Served job p w₀ events seq) (e : WindowEvent) :
    Served job p w₀ (events ++ [e]) seq := by
  obtain ⟨before, text, ticks, after, w', out, hevents, hrun, hwritten, hcovers⟩ := h
  refine ⟨before, text, ticks, after ++ [e], w', out, ?_, hrun, hwritten, hcovers⟩
  rw [hevents, List.append_assoc]
  rfl

/-- A line that is read last serves the blocks that were written before it. -/
theorem served_now
    {text : Line} {ticks seq : Nat}
    (hrun : Machine.run (step job p) (w₀, []) events = some (w, written))
    (hwritten : Written written seq) (hcovers : Covers text seq) :
    Served job p w₀ (events ++ [.line text ticks]) seq :=
  ⟨events, text, ticks, [], w, written, rfl, hrun, hwritten, hcovers⟩

theorem progress_step
    (hrun : Machine.run (step job p) (w₀, []) events = some (w, written))
    (hsane : Sane job w.sender) (h : Progress job p w₀ events w.sender written)
    (hstep : w.step job p e = some (w', out)) :
    Progress job p w₀ (events ++ [e]) w'.sender (written ++ out) := by
  have hold : ∀ {s : Sender}, s.base = w.sender.base → s.next_seq = w.sender.next_seq →
      Progress job p w₀ (events ++ [e]) s (written ++ out) := fun hbase hsent =>
    ⟨fun seq hseq => (h.written seq (hsent ▸ hseq)).append,
      fun seq hseq => (h.served seq (hbase ▸ hseq)).concat e⟩
  cases step_cases hstep with
  | frame now frame hphase hframe hblocks hroom hattempts =>
      refine ⟨fun seq hseq => ?_, fun seq hseq => (h.served seq hseq).concat e⟩
      have hlt : seq < w.sender.next_seq + 1 := hseq
      rcases Nat.lt_succ_iff_lt_or_eq.mp hlt with hlt | heq
      · exact (h.written seq hlt).append
      · have hof : job.IsFrameOf w.sender.next_seq frame := hframe ▸ isFrameOf_cached hsane.frames
        refine ⟨frame, List.mem_append_right _ (List.mem_singleton_self _), ?_⟩
        rw [heq]
        exact (hof.carries hblocks).isFrame.2
  | ends parts late now hparts hclock hlive houtcome hplain =>
      have hline : parts.length ≠ 0 → ∃ text ticks, e = .line text ticks ∧ parts = split text :=
        fun hne => hparts.resolve_left fun hnil => hne (by rw [hnil]; rfl)
      cases houtcome with
      | stays hlate => exact hold rfl rfl
      | moves hwaits hsame hreset hrank => exact hold hsame.base hsame.next_seq
      | acknowledged a hack hint hle hlt hreset =>
          obtain ⟨text, ticks, rfl, rfl⟩ := hline (by omega)
          refine ⟨fun seq hseq => (h.written seq hseq).append, fun seq hseq => ?_⟩
          have hseq' : seq ≤ a := Nat.lt_succ_iff.mp hseq
          refine served_now hrun (h.written seq (by omega)) (Or.inl ?_)
          exact ⟨hack.1, hack.2, hint.1, hint.2.symm ▸ hseq'⟩
      | resets hphase hbase hsent hresets hmax hframes hreset => exact hold hbase hsent
      | resumed a left hphase hresume hint hle hlt hrecoveries =>
          obtain ⟨text, ticks, rfl, rfl⟩ := hline (by omega)
          refine ⟨fun seq hseq => ?_, fun seq hseq => ?_⟩
          · have hseq' : seq < a := hseq
            exact (h.written seq (by omega)).append
          · have hseq' : seq < a := hseq
            refine served_now hrun (h.written seq (by omega)) (Or.inr ?_)
            exact ⟨hresume.1, hresume.2, hint.1, hint.2.symm ▸ hseq'⟩
      | restarts left hphase =>
          exact ⟨fun seq hseq => absurd hseq (Nat.not_lt_zero _),
            fun seq hseq => absurd hseq (Nat.not_lt_zero _)⟩
      | raised exc hphase hbase hsent hrecoveries hresets hattempts hframes =>
            exact hold hbase hsent

end Served

section Result

/-- The frames of the step carry their blocks: bytes `seq * block_size` to
`(seq + 1) * block_size` of the file. -/
def Carries (job : Job) (out : List Command) : Prop :=
  ∀ c ∈ out, c.isFrame = true → ∃ seq < job.blocks, c.seq? = some seq ∧
    c.decoded = .ok (slice job.data (seq * job.block_size) ((seq + 1) * job.block_size))

theorem carries_step
    (hsane : Sane job w.sender) (hstep : w.step job p e = some (w', out)) :
    Carries job out := by
  cases step_cases hstep with
  | frame now frame hphase hframe hblocks hroom hattempts =>
      intro c hc _
      rw [List.mem_singleton.mp hc]
      have hof : job.IsFrameOf w.sender.next_seq frame := hframe ▸ isFrameOf_cached hsane.frames
      exact ⟨_, hblocks, (hof.carries hblocks).isFrame.2, hof.decoded⟩
  | ends parts late now hparts hclock hlive houtcome hplain =>
      intro c hc hframe
      rw [hplain c hc] at hframe
      cases hframe

/-- `_send_window` goes on by itself, or it waits and takes whatever comes: any line, and the
timeout when its time is over. -/
def Responds (job : Job) (p : Patience) (w : SendWindow) : Prop :=
  (∀ ticks, (w.step job p (.run ticks)).isSome = true) ∨
    (∀ ticks, w.deadline ≤ w.now + ticks → (w.step job p (.timeout ticks)).isSome = true) ∧
      ∀ text ticks, w.sender.phase.polls = false ∨ w.now < w.deadline →
        (w.step job p (.line text ticks)).isSome = true

/-- `_send_window` fills, waits, or has raised. -/
def Live (w : SendWindow) : Prop :=
  w.sender.phase = .fill ∨ w.sender.phase.waits = true ∨ w.Raises

theorem live_step
    (hstep : w.step job p e = some (w', out)) (h : Live w) :
    Live w' := by
  cases step_cases hstep with
  | frame now frame hphase hframe hblocks hroom hattempts => exact Or.inl hphase
  | ends parts late now hparts hclock hlive houtcome hplain =>
      cases houtcome with
      | stays hlate => exact h
      | moves hwaits hsame hreset hrank => exact Or.inr (Or.inl hwaits)
      | acknowledged a hack hint hle hlt hreset => exact Or.inl rfl
      | resets hphase hbase hsent hresets hmax hframes hreset =>
          exact Or.inr (Or.inl (by rw [arm, hphase]; rfl))
      | resumed a left hphase hresume hint hle hlt hrecoveries => exact Or.inl rfl
      | restarts left hphase => exact Or.inl rfl
      | raised exc hphase hbase hsent hrecoveries hresets hattempts hframes =>
          exact Or.inr (Or.inr ⟨exc, hphase⟩)

theorem responds_of_live
    (h : Live w) :
    w.Returns job ∨ w.Raises ∨ Responds job p w := by
  rcases h with hphase | hwaits | hraises
  · by_cases hbase : w.sender.base < job.blocks
    · refine Or.inr (Or.inr (Or.inl fun ticks => ?_))
      rw [step, if_pos ⟨hphase, hbase⟩]
      rfl
    · exact Or.inl ⟨hphase, Nat.not_lt.mp hbase⟩
  · refine Or.inr (Or.inr (Or.inr ⟨fun ticks hdue => ?_, fun text ticks hopen => ?_⟩))
    · obtain ⟨next, hstep, -⟩ : ∃ next, w.sender.step job .timeout = some next ∧
          Sender.Ends job w.sender [] true next := Sender.timeout_ends _ _ hwaits
      have hidle : ¬ (w.sender.phase.waits = false ∨ w.now + ticks < w.deadline) := by
        rw [hwaits]
        simp only [Bool.true_eq_false, false_or]
        omega
      rw [step, if_neg hidle, hstep]
      rfl
    · obtain ⟨next, hnext, -⟩ : ∃ next, w.sender.step job
            (.line text (decide (w.deadline ≤ w.now + (ticks + 1)))) = some next ∧
          Sender.Ends job w.sender (split text) (decide (w.deadline ≤ w.now + (ticks + 1))) next :=
        Sender.line_ends hwaits
      have hidle : ¬ (w.sender.phase.waits = false ∨
          w.sender.phase.polls = true ∧ w.deadline ≤ w.now) := by
        rw [hwaits]
        simp only [Bool.true_eq_false, false_or, not_and]
        intro hpolls
        rcases hopen with hopen | hopen
        · rw [hpolls] at hopen
          cases hopen
        · omega
      rw [step, if_neg hidle, hnext]
      rfl
  · exact Or.inr (Or.inl hraises)

/-- What `_send_window` does from a state on, against any peer. -/
structure BoundedWork (job : Job) (p : Patience) (w₀ : SendWindow) : Prop where
  /-- It does not run for ever. -/
  terminates : ∀ schedule : Nat → WindowEvent,
    ∃ n, Machine.run (step job p) (w₀, []) ((List.range n).map schedule) = none
  /-- It ends only by returning or by raising a `PcutpError`. -/
  responds : ∀ events w out, Machine.run (step job p) (w₀, []) events = some (w, out) →
    w.Returns job ∨ w.Raises ∨ Responds job p w
  /-- When it returns every block was written, and covered after that. -/
  returns : ∀ events w out, Machine.run (step job p) (w₀, []) events = some (w, out) →
    w.Returns job → w.sender.base = job.blocks ∧
      ∀ seq < job.blocks, Served job p w₀ events seq
  /-- The frames that it writes. -/
  writes : ∀ events,
    Machine.total (step job p) (fun _ _ _ out => out.countP Command.isFrame) w₀ events ≤
      (Const.MAX_RESETS + 1) * (job.session.config.max_retries + 1) * job.blocks
  /-- The base falls only to zero, at a restart. -/
  base : ∀ events, Machine.Always (step job p)
    (fun w _ w' _ => w.sender.base ≤ w'.sender.base ∨ Restarts w w' ∧ w'.sender.base = 0)
    w₀ events
  restarts : ∀ events,
    Machine.total (step job p) (fun w _ w' _ => if Restarts w w' then 1 else 0) w₀ events ≤
      Const.MAX_RESETS
  carries : ∀ events, Machine.Always (step job p) (fun _ _ _ out => Carries job out) w₀ events

theorem run_progress
    {w₀ : SendWindow} {events : List WindowEvent} {written : List Command}
    (hlive : Live w₀) (hsane : Sane job w₀.sender) (hfresh : w₀.sender.next_seq = 0)
    (hrun : Machine.run (step job p) (w₀, []) events = some (w, written)) :
    Live w ∧ Sane job w.sender ∧ Progress job p w₀ events w.sender written := by
  have hstart : Progress job p w₀ [] w₀.sender [] := by
    have hbase := hsane.base
    exact ⟨fun seq hseq => by omega, fun seq hseq => by omega⟩
  refine (Machine.run_induction
    (fun events w written => Machine.run (step job p) (w₀, []) events = some (w, written) ∧
      Live w ∧ Sane job w.sender ∧ Progress job p w₀ events w.sender written)
    ⟨rfl, hlive, hsane, hstart⟩ ?_ hrun).2
  rintro events w written e w' out ⟨hrun, hlive, hsane, hprogress⟩ hstep
  exact ⟨Machine.run_snoc hrun hstep, live_step hstep hlive, sane_step hsane hstep,
    progress_step hrun hsane hprogress hstep⟩

end Result

/-- `_send_window` does not run for ever. -/
theorem terminates
    (h : Sane job w.sender) (out : List Command) (schedule : Nat → WindowEvent) :
    ∃ n, Machine.run (step job p) (w, out) ((List.range n).map schedule) = none :=
  Machine.exists_run_eq_none wellFounded_lt (rank job) (fun w => Sane job w.sender)
    (fun _ _ _ _ h hstep => ⟨rank_lt h hstep, sane_step h hstep⟩) out schedule h

end SendWindow

open SendWindow

/-- The work of `_send_window` is bounded, whatever lines the peer sends and whenever. -/
theorem send_window_bounded
    (job : Job) (p : Patience) (barrier_id : Nat) (reset_token : Option Line) (now : Nat) :
    BoundedWork job p (SendWindow.start barrier_id reset_token now) := by
  have hsane : Sane job (SendWindow.start barrier_id reset_token now).sender :=
    sane_start barrier_id reset_token now
  have hrun : ∀ {events w out}, Machine.run (SendWindow.step job p)
      (SendWindow.start barrier_id reset_token now, []) events = some (w, out) →
      Live w ∧ Sane job w.sender ∧
        Progress job p (SendWindow.start barrier_id reset_token now) events w.sender out :=
    fun h => run_progress (Or.inl rfl) hsane rfl h
  refine ⟨fun schedule => ?_, fun events w out h => ?_, fun events w out h hreturns => ?_,
    fun events => ?_, fun events => ?_, fun events => ?_, fun events => ?_⟩
  · exact SendWindow.terminates hsane [] schedule
  · exact responds_of_live (hrun h).1
  · obtain ⟨-, hsane', hprogress⟩ := hrun h
    have hbase : w.sender.base = job.blocks :=
      Nat.le_antisymm (hsane'.base.trans hsane'.sent) hreturns.2
    exact ⟨hbase, fun seq hseq => hprogress.served seq (hbase ▸ hseq)⟩
  · rw [← budget_start barrier_id reset_token now]
    exact Machine.total_le (fun w => Sane job w.sender) (fun w => budget job w.sender)
      (fun w e w' out h hstep => ⟨budget_step h hstep, sane_step h hstep⟩) events hsane
  · refine Machine.always_of_step (fun _ => True) (fun w e w' out _ hstep => ?_) events trivial
    exact ⟨base_step hstep, trivial⟩
  · exact Machine.total_le (fun _ => True) (fun w => restartsLeft w.sender)
      (fun w e w' out _ hstep => ⟨restarts_step hstep, trivial⟩) events trivial
  · exact Machine.always_of_step (fun w => Sane job w.sender)
      (fun w e w' out h hstep => ⟨carries_step h hstep, sane_step h hstep⟩) events hsane

end Pcutp
