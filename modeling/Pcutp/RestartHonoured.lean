import Pcutp.Accusation
import Pcutp.BoundedWork
import Pcutp.Charted

/-!
# A restart of the receiver is honoured

When the receiver has gone back to the start by itself, the sender either goes
back as well or gives up, because some budget is used up.  The reads that break
this are those of `refuses`: the RST 0 itself where the drain of a BARRIER or
the RST loop reads it, a RESUME below the window, an ERR, and the replies that
are merely late.  `aborts_iff` says that there are no others.
-/

namespace Pcutp

namespace Sender

/-- The exceptions of a budget that is used up: of retries, of probes, or of resets. -/
def budgets : List PcutpError :=
  [RetryError "block exhausted retries", RetryError "window recovery exhausted retries",
    RetryError "receiver exhausted full-file resets",
    TimeoutError_ "recovery barrier was not acknowledged",
    LinkLostError "receiver did not acknowledge transfer reset"]

/-- A step that raises although no budget is used up. -/
def Aborts (p : Sender × List Command) : Prop :=
  ∃ exc, p.1.phase = .raised exc ∧ exc ∉ budgets

end Sender

/-- A reply that no wait of `_send_window` knows. -/
def Reply.foreign : Reply → Bool
  | .ready => true
  | .err _ => true
  | _ => false

namespace Sender

/-- What the wait for a reply does not take: an ACK below the base or a RESUME when the deadline
has passed, and what is no answer at all. -/
def overdue (s : Sender) (r : Reply) (late : Bool) : Bool :=
  match r with
  | .ack a => late && decide (a < s.base)
  | .resume _ _ => late
  | r => r.foreign

/-- The reads that end a transfer although no budget is used up. -/
def refuses (s : Sender) (r : Reply) (late : Bool) : Bool :=
  match s.phase, r with
  | .reply, r => s.overdue r late
  -- The deadline of the reply has passed.
  | .guard again, .here _ _ => again
  | .guard _, r => s.overdue r true
  | .ayt _, .ack a => s.overdue (.ack a) true
  | .ayt _, .err code => s.overdue (.err code) true
  -- The RST loop and the drain of a BARRIER do not know the RST 0 of the receiver.
  | .rst _, .rst => true
  | .rst _, r => r.foreign
  | .barrier _ _, .rst => true
  | .barrier reset _, .resume w n => !reset && decide (w = dec s.barrier_id ∧ n < s.base)
  | .barrier _ _, r => r.foreign
  | _, _ => false

/-- What is known of a reply that the sender reads. -/
structure Meets (s : Sender) (r : Reply) : Prop where
  verdict : r.NoVerdict
  token : r.TokenLe s.barrier_id
  ack : ∀ a, r = .ack a → s.Listening → a < s.next_seq
  rstAck : ∀ w, r = .rstAck w → s.Acknowledges w
  resume : ∀ n reset left, r = .resume (dec s.barrier_id) n → s.phase = .barrier reset left →
    n ≤ s.next_seq ∧ (reset = true → n = 0)

variable {job : Job} {s : Sender} {late : Bool}

theorem aborts_fail_iff
    {exc : PcutpError} :
    Aborts (s.fail exc) ↔ exc ∉ budgets := by
  constructor
  · rintro ⟨exc', heq, hnot⟩
    cases heq
    exact hnot
  · exact fun hnot => ⟨exc, rfl, hnot⟩

theorem not_aborts_fail
    {exc : PcutpError} (h : exc ∈ budgets) :
    ¬ Aborts (s.fail exc) :=
  fun habort => aborts_fail_iff.mp habort h

theorem not_aborts_of_phase
    {p : Sender × List Command} (h : ∀ exc, p.1.phase ≠ .raised exc) :
    ¬ Aborts p := by
  rintro ⟨exc, heq, _⟩
  exact h exc heq

section Steps

theorem not_aborts_ask (left : Nat) :
    ¬ Aborts (s.ask left) := by
  cases left <;> exact not_aborts_of_phase (by simp [ask])

theorem not_aborts_askReset (left : Nat) :
    ¬ Aborts (s.askReset left) := by
  cases left with
  | zero => exact not_aborts_fail (by decide)
  | succ left => exact not_aborts_of_phase (by simp [askReset])

theorem not_aborts_askBarrier (reset : Bool) (left : Nat) :
    ¬ Aborts (s.askBarrier reset left) := by
  cases left with
  | zero => exact not_aborts_fail (by decide)
  | succ left => exact not_aborts_of_phase (by simp [askBarrier])

theorem not_aborts_dispatch_rst :
    ¬ Aborts (s.dispatch job ["RST".toList, "0".toList] late) := by
  rw [dispatch_rst]
  split
  · exact not_aborts_fail (by decide)
  · exact not_aborts_of_phase (by simp [recover])

theorem not_aborts_dispatch_gap
    {parts : List Line} (h : word parts 0 = "NAK".toList ∨ word parts 0 = "DROP".toList) :
    ¬ Aborts (s.dispatch job parts late) := by
  rw [dispatch_gap job s late h]
  exact not_aborts_of_phase (by simp [recover])

/-- An ACK below the base ends the transfer when the deadline has passed. -/
theorem aborts_dispatch_ack_iff
    {a : Nat} (hsent : a < s.next_seq) :
    Aborts (s.dispatch job (Reply.ack a).words late) ↔ a < s.base ∧ late = true := by
  rw [dispatch_ack, if_neg (Nat.not_le.mpr hsent)]
  by_cases hbase : a < s.base
  · rw [if_pos hbase]
    cases late with
    | true => exact iff_of_true (aborts_fail_iff.mpr (by decide)) ⟨hbase, rfl⟩
    | false => exact iff_of_false (not_aborts_of_phase (by simp)) (by simp)
  · rw [if_neg hbase]
    exact iff_of_false (not_aborts_of_phase (by simp [advance])) fun h => hbase h.1

/-- A RESUME of an earlier barrier ends the transfer when the deadline has passed. -/
theorem aborts_dispatch_resume_iff
    {t n : Nat} (hpos : 0 < t) (hle : t ≤ s.barrier_id) :
    Aborts (s.dispatch job (Reply.resume (dec t) n).words late) ↔ late = true := by
  rw [dispatch_other job s late (by simp [Reply.words]) (by simp [Reply.words])]
  have hold : s.oldResume (Reply.resume (dec t) n).words = true := by
    simp [oldResume, Reply.words, hpos, hle]
  cases late with
  | true =>
      rw [if_neg (by simp)]
      exact iff_of_true (aborts_fail_iff.mpr (by decide)) rfl
  | false =>
      rw [if_pos ⟨hold, rfl⟩]
      exact iff_of_false (not_aborts_of_phase (by simp)) (by simp)

theorem aborts_dispatch_foreign
    {r : Reply} (h : r.foreign = true) :
    Aborts (s.dispatch job r.words late) := by
  have hother : s.dispatch job r.words late =
      s.fail (ProtocolError "unexpected window reply") := by
    cases r with
    | ready =>
        rw [dispatch_other job s late (by simp [Reply.words]) (by simp [Reply.words]),
          if_neg (by simp [oldResume, Reply.words])]
    | err code =>
        rw [dispatch_other job s late (by simp [Reply.words]) (by simp [Reply.words]),
          if_neg (by simp [oldResume, Reply.words])]
    | _ => cases h
  rw [hother]
  exact aborts_fail_iff.mpr (by decide)

/-- What `_send_window` does with a reply that is not HERE. -/
theorem aborts_dispatch_iff
    {r : Reply} (h : s.Meets r) (hlistening : s.Listening)
    (hplain : ∀ w e, r ≠ .here w e ∧ r ≠ .rstAck w) :
    Aborts (s.dispatch job r.words late) ↔ s.overdue r late = true := by
  cases r with
  | ack a =>
      rw [aborts_dispatch_ack_iff (h.ack a rfl hlistening)]
      simp [overdue, and_comm]
  | nak e why =>
      exact iff_of_false (not_aborts_dispatch_gap (Or.inl rfl)) (by simp [overdue, Reply.foreign])
  | drop e why =>
      exact iff_of_false (not_aborts_dispatch_gap (Or.inr rfl)) (by simp [overdue, Reply.foreign])
  | rst => exact iff_of_false not_aborts_dispatch_rst (by simp [overdue, Reply.foreign])
  | resume w n =>
      obtain ⟨t, rfl, hpos⟩ := h.verdict
      obtain ⟨t', hle, heq⟩ := h.token
      obtain rfl := dec_injective heq
      exact aborts_dispatch_resume_iff hpos hle
  | ready | err => exact iff_of_true (aborts_dispatch_foreign rfl) rfl
  | here w e => exact absurd rfl (hplain w e).1
  | rstAck w => exact absurd rfl (hplain w 0).2
  | bye | ok | failCrc => exact h.verdict.elim

/-- What `_recover_window` returns ends a transfer only by its budget, when the receiver is not
said to be beyond the start in a reset. -/
theorem not_aborts_resume
    {reset : Bool} {n : Nat} (hreset : reset = true → n = 0) :
    ¬ Aborts (s.resume job reset n) := by
  simp only [Sender.resume]
  split
  · rename_i h
    rw [if_neg (Decidable.not_not.mpr (hreset h))]
    exact not_aborts_of_phase (by simp)
  · by_cases hmax : (if s.base < n then 0 else s.recoveries + 1) > job.session.config.max_retries
    · rw [if_pos hmax]
      exact not_aborts_fail (by decide)
    · rw [if_neg hmax]
      exact not_aborts_of_phase (by simp)

end Steps

section Waits

variable {r : Reply}

theorem aborts_onReply_iff
    (h : s.Meets r) (hphase : s.phase = .reply) :
    Aborts (s.onReply job r.words late) ↔ s.refuses r late = true := by
  have hrefuses : s.refuses r late = s.overdue r late := by simp [refuses, hphase]
  rw [onReply, hrefuses]
  by_cases hhere : r.words.take 1 = ["HERE".toList]
  · rw [if_pos hhere]
    refine iff_of_false ?_ ?_
    · split <;> exact not_aborts_of_phase (by simp [hphase])
    · cases r <;> simp [Reply.words] at hhere
      simp [overdue, Reply.foreign]
  · rw [if_neg hhere]
    refine aborts_dispatch_iff h (Or.inl hphase) fun w e => ⟨?_, ?_⟩
    · rintro rfl
      exact hhere rfl
    · rintro rfl
      simpa [Acknowledges, hphase] using h.rstAck w rfl

theorem aborts_onGuard_iff
    (h : s.Meets r) (hr : r.Printable) {again : Bool} (hphase : s.phase = .guard again) :
    Aborts (s.onGuard job again r.line) ↔ s.refuses r late = true := by
  rw [onGuard, if_neg (Reply.line_ne_nil hr), Reply.split_line hr]
  by_cases hhere : ∃ w e, r = .here w e
  · obtain ⟨w, e, rfl⟩ := hhere
    have hrefuses : s.refuses (.here w e) late = again := by simp [refuses, hphase]
    rw [hrefuses]
    cases again with
    | false =>
        rw [if_pos ⟨rfl, rfl⟩]
        exact iff_of_false (not_aborts_of_phase (by simp)) (by simp)
    | true =>
        rw [if_neg (by simp), dispatch_other job s true (by simp [Reply.words])
          (by simp [Reply.words]), if_neg (by simp)]
        exact iff_of_true (aborts_fail_iff.mpr (by decide)) rfl
  · have hrefuses : s.refuses r late = s.overdue r true := by
      cases r with
      | here w e => exact absurd ⟨w, e, rfl⟩ hhere
      | _ => simp [refuses, hphase]
    rw [if_neg (by cases r <;> simp_all [Reply.words]), hrefuses]
    refine aborts_dispatch_iff h (Or.inr (Or.inl ⟨again, hphase⟩)) fun w e => ⟨?_, ?_⟩
    · rintro rfl
      exact hhere ⟨w, e, rfl⟩
    · rintro rfl
      simpa [Acknowledges, hphase] using h.rstAck w rfl

theorem aborts_onProbe_iff
    (h : s.Meets r) {left : Nat} (hphase : s.phase = .ayt left) :
    Aborts (s.onProbe job left r.words late) ↔ s.refuses r late = true := by
  have hskip : ¬ Aborts (if late = true then s.ask left else (s, [])) := by
    split
    · exact not_aborts_ask left
    · exact not_aborts_of_phase (by simp [hphase])
  have hdispatch : (∀ w e, r ≠ .here w e ∧ r ≠ .rstAck w) →
      (Aborts (s.dispatch job r.words true) ↔ s.overdue r true = true) :=
    aborts_dispatch_iff h (Or.inr (Or.inr ⟨left, hphase⟩))
  rw [onProbe]
  cases r with
  | here w e =>
      refine iff_of_false ?_ (by simp [refuses, hphase])
      split
      · exact not_aborts_dispatch_gap (Or.inr rfl)
      · rw [if_neg (by simp [Reply.words])]
        exact hskip
  | ack | nak | drop | rst | err =>
      rw [if_neg (by simp [Reply.words]), if_pos (by simp [Reply.words]), hdispatch (by simp)]
      simp [refuses, overdue, Reply.foreign, hphase]
  | rstAck | resume | ready =>
      rw [if_neg (by simp [Reply.words]), if_neg (by simp [Reply.words])]
      exact iff_of_false hskip (by simp [refuses, hphase])
  | bye | ok | failCrc => exact h.verdict.elim

theorem aborts_onReset_iff
    (h : s.Meets r) {left : Nat} (hphase : s.phase = .rst left) :
    Aborts (s.onReset job left r.words late) ↔ s.refuses r late = true := by
  have hskip : ¬ Aborts (if late = true then s.askReset left else (s, [])) := by
    split
    · exact not_aborts_askReset left
    · exact not_aborts_of_phase (by simp [hphase])
  have hfail : Aborts (s.fail (ProtocolError "unexpected reset reply")) :=
    aborts_fail_iff.mpr (by decide)
  rw [onReset]
  cases r with
  | rstAck w =>
      have hw : w = dec s.barrier_id := by simpa [Acknowledges, hphase] using h.rstAck w rfl
      rw [if_pos (by rw [hw]; rfl)]
      exact iff_of_false not_aborts_dispatch_rst (by simp [refuses, hphase, Reply.foreign])
  | rst | ready | err =>
      rw [if_neg (by simp [Reply.words]), if_neg (by simp [Reply.words])]
      exact iff_of_true hfail (by simp [refuses, hphase, Reply.foreign])
  | bye | ok | failCrc => exact h.verdict.elim
  | _ =>
      rw [if_neg (by simp [Reply.words]), if_pos (by simp [Reply.words])]
      exact iff_of_false hskip (by simp [refuses, hphase, Reply.foreign])

theorem aborts_onBarrier_iff
    (h : s.Meets r) {reset : Bool} {left : Nat} (hphase : s.phase = .barrier reset left) :
    Aborts (s.onBarrier job reset left r.words late) ↔ s.refuses r late = true := by
  have hskip : ¬ Aborts (if late = true then s.askBarrier reset left else (s, [])) := by
    split
    · exact not_aborts_askBarrier reset left
    · exact not_aborts_of_phase (by simp [hphase])
  have hfail : Aborts (s.fail (ProtocolError "unexpected recovery reply")) :=
    aborts_fail_iff.mpr (by decide)
  rw [onBarrier]
  cases r with
  | resume w n =>
      by_cases hw : w = dec s.barrier_id
      · subst hw
        obtain ⟨hnext, hzero⟩ := h.resume n reset left rfl hphase
        rw [if_pos (by simp [Reply.words])]
        simp only [Reply.words, word_succ, word_zero, isdecimal_dec, int_dec, true_and]
        by_cases hlow : reset = false ∧ n < s.base
        · obtain ⟨rfl, hlow⟩ := hlow
          rw [if_neg (by simp; omega)]
          exact iff_of_true (aborts_fail_iff.mpr (by decide)) (by simp [refuses, hphase, hlow])
        · have hlo : (if reset = true then 0 else s.base) ≤ n := by
            cases reset with
            | true => exact Nat.zero_le _
            | false => simpa using hlow
          rw [if_pos ⟨hlo, hnext⟩]
          refine iff_of_false (not_aborts_resume hzero) ?_
          simpa [refuses, hphase] using hlow
      · rw [if_neg (by simp [Reply.words, hw]), if_pos (by simp [Reply.words])]
        exact iff_of_false hskip (by simp [refuses, hphase, hw])
  | rstAck w =>
      have hw : s.reset_token = some w := by simpa [Acknowledges, hphase] using h.rstAck w rfl
      rw [if_neg (by simp [Reply.words]), if_pos (Or.inl ⟨w, hw, rfl⟩)]
      exact iff_of_false hskip (by simp [refuses, hphase, Reply.foreign])
  | rst | ready | err =>
      rw [if_neg (by simp [Reply.words]), if_neg (by simp [Reply.words])]
      exact iff_of_true hfail (by simp [refuses, hphase, Reply.foreign])
  | bye | ok | failCrc => exact h.verdict.elim
  | _ =>
      rw [if_neg (by simp [Reply.words]), if_pos (by simp [Reply.words])]
      exact iff_of_false hskip (by simp [refuses, hphase, Reply.foreign])

end Waits

end Sender

namespace Sender

/-- The sender is in `_send_window`. -/
def Working (s : Sender) : Prop :=
  s.phase = .fill ∨ s.phase.waits = true

/-- `_send_window` is at the start of the file. -/
def AtZero (s : Sender) : Prop :=
  s.phase = .fill ∧ s.base = 0 ∧ s.next_seq = 0

/-- The receiver has gone back below the window, and the sender has not restarted yet. -/
def Unanswered (s : Sender) (e : Nat) : Prop :=
  e < s.base ∨ s.InReset

theorem Unanswered.not_atZero
    {s : Sender} {e : Nat} (h : s.Unanswered e) :
    ¬ s.AtZero := by
  rintro ⟨hphase, hbase, _⟩
  rcases h with h | ⟨left, h⟩ | ⟨left, h⟩
  · omega
  · rw [hphase] at h
    cases h
  · rw [hphase] at h
    cases h

section Steps

variable {job : Job} {s s' : Sender} {out : List Command}

theorem Working.not_raised
    (h : s.Working) (exc : PcutpError) :
    s.phase ≠ .raised exc := by
  rcases h with h | h
  · simp [h]
  · intro heq
    simp [heq, SendPhase.waits] at h

theorem Working.not_over
    (h : s.Working) :
    ¬ s.Over := by
  rintro (⟨_, heq⟩ | ⟨exc, heq⟩)
  · rcases h with h | h <;> simp [heq, SendPhase.waits] at h
  · exact h.not_raised exc heq

theorem Working.not_ended
    (h : s.Working) :
    s.phase ≠ .ready ∧ s.phase ≠ .final := by
  rcases h with h | h <;> constructor <;> intro heq <;> simp [heq, SendPhase.waits] at h

/-- What a wait does with a reply. -/
theorem line_aborts_iff
    {r : Reply} {late : Bool} {p : Sender × List Command}
    (hwaits : s.phase.waits = true) (hr : r.Printable) (hmeets : s.Meets r)
    (h : s.step job (.line r.line late) = some p) :
    Aborts p ↔ s.refuses r late = true := by
  rw [step, if_neg (by rw [Reply.isRmb_line hr]; simp), onLine] at h
  rcases SendPhase.waits_cases hwaits with hphase | ⟨again, hphase⟩ | ⟨left, hphase⟩ |
      ⟨left, hphase⟩ | ⟨reset, left, hphase⟩ <;>
    simp only [hphase, Reply.split_line hr, Option.some.injEq] at h <;> subst h
  · exact aborts_onReply_iff hmeets hphase
  · exact aborts_onGuard_iff hmeets hr hphase
  · exact aborts_onProbe_iff hmeets hphase
  · exact aborts_onReset_iff hmeets hphase
  · exact aborts_onBarrier_iff hmeets hphase

/-- The time of a wait is a matter of the budgets. -/
theorem timeout_not_aborts
    {p : Sender × List Command} (hwaits : s.phase.waits = true)
    (h : s.step job .timeout = some p) :
    ¬ Aborts p := by
  rw [step, onTimeout] at h
  rcases SendPhase.waits_cases hwaits with hphase | ⟨again, hphase⟩ | ⟨left, hphase⟩ |
      ⟨left, hphase⟩ | ⟨reset, left, hphase⟩ <;>
    simp only [hphase, Option.some.injEq] at h <;> subst h
  · exact not_aborts_of_phase (by simp)
  · exact not_aborts_ask _
  · exact not_aborts_ask _
  · exact not_aborts_askReset _
  · exact not_aborts_askBarrier _ _

/-- Writing frames is a matter of the budgets. -/
theorem run_not_aborts
    {p : Sender × List Command} (hflow : job.session.flow = true) (hphase : s.phase = .fill)
    (h : s.step job .run = some p) :
    ¬ Aborts p := by
  rw [step, if_pos hphase, if_pos hflow, Option.some.injEq] at h
  subst h
  rw [fillWindow]
  split
  · split
    · split
      · exact not_aborts_fail (by decide)
      · exact not_aborts_of_phase (by simp [writeFrame, hphase])
    · exact not_aborts_of_phase (by simp)
  · exact not_aborts_of_phase (by simp)

/-- After a read `_send_window` goes on, or it has raised. -/
theorem ReadKind.working
    {r : Option Reply} (hkind : ReadKind job s r s' out) (h : s.Working) :
    s'.Working ∨ ∃ exc, s'.phase = .raised exc := by
  obtain ⟨hready, hfinal⟩ := h.not_ended
  cases hkind with
  | begin hphase => exact absurd hphase hready
  | refused r hphase => exact absurd hphase hready
  | ended r phase hphase => exact absurd hphase hfinal
  | wait r phase hwait =>
      generalize hp : s.phase = p at hwait
      cases hwait with
      | final => exact absurd hp hfinal
      | _ => exact Or.inl (Or.inr rfl)
  | advance | resumed | resumedReset => exact Or.inl (Or.inl rfl)
  | failed r s' exc out hphase hphase' => exact Or.inr ⟨exc, hphase'⟩
  | unsent | badReset | badResume => exact Or.inr ⟨_, rfl⟩
  | _ => exact Or.inl (Or.inr rfl)

/-- In a read a restart of the receiver stays unanswered, or the sender restarts, or it raises. -/
theorem ReadKind.unanswered
    {r : Option Reply} {e : Nat} (hkind : ReadKind job s r s' out) (h : s.Unanswered e) :
    s'.Unanswered e ∨ s'.AtZero ∨ ∃ exc, s'.phase = .raised exc := by
  rcases h with h | h
  · cases hkind with
    | advance a hphase hbase =>
        exact Or.inl (Or.inl (h.trans_le (hbase.trans (Nat.le_succ a))))
    | resumed left n hphase hlo => exact Or.inl (Or.inl (h.trans_le hlo))
    | resumedReset => exact Or.inr (Or.inl ⟨rfl, rfl, rfl⟩)
    | failed r s' exc out hphase hphase' => exact Or.inr (Or.inr ⟨exc, hphase'⟩)
    | _ => exact Or.inl (Or.inl h)
  · have hlistening : ¬ s.Listening := by
      rcases h with ⟨_, heq⟩ | ⟨_, heq⟩ <;> simp [Listening, heq]
    cases hkind with
    | wait r phase hwait =>
        refine Or.inl (Or.inr ?_)
        rcases h with ⟨left, heq⟩ | ⟨left, heq⟩ <;> rw [heq] at hwait <;> cases hwait
        · exact Or.inl ⟨left, rfl⟩
        · exact Or.inr ⟨left, rfl⟩
    | askReset r left => exact Or.inl (Or.inr (Or.inl ⟨left, rfl⟩))
    | askRestart => exact Or.inl (Or.inr (Or.inl ⟨_, rfl⟩))
    | askBarrier r reset left hphase =>
        rcases h with ⟨_, heq⟩ | ⟨_, heq⟩ <;> rw [heq] at hphase <;> cases hphase
        exact Or.inl (Or.inr (Or.inr ⟨left, rfl⟩))
    | resetDone => exact Or.inl (Or.inr (Or.inr ⟨_, rfl⟩))
    | resumedReset => exact Or.inr (Or.inl ⟨rfl, rfl, rfl⟩)
    | failed r s' exc out hphase hphase' => exact Or.inr (Or.inr ⟨exc, hphase'⟩)
    | badReset | badResume | unsent => exact Or.inr (Or.inr ⟨_, rfl⟩)
    | begin hphase | refused r hphase | probe hphase | ended r phase hphase
    | resumed left n hphase =>
        rcases h with ⟨_, heq⟩ | ⟨_, heq⟩ <;> rw [heq] at hphase <;> cases hphase
    | askAlive r left hphase => exact absurd (Or.inr hphase) hlistening
    | advance a hphase | gap r hphase | restarted hphase => exact absurd hphase hlistening

end Steps

end Sender

section Runs

variable {cfg : ClientConfig} {job : Job} {s s' : Transfer cfg}

/-- No step reads a reply that ends the transfer although no budget is used up. -/
def Transfer.heard (s : Transfer cfg) : Event → Bool
  | .reply late => s.replies.head?.all fun r => !s.sender.refuses r late
  | _ => true

/-- A run over a line that loses and repeats, of which every read is heard. -/
def Transfer.execHeard (job : Job) (s : Transfer cfg) (events : List Event) :
    Option (Transfer cfg) :=
  Transition.exec (Transfer.step job)
    (fun s e => Faults.copying.permit e = true ∧ s.heard e = true) s events

/-- In a step the receiver goes back to the start by itself and says so. -/
def Transfer.Restarts (s s' : Transfer cfg) : Prop :=
  ∃ effects, s'.trace = s.trace ++ effects ∧ Effect.send .rst ∈ effects

/-- What the sender can meet on a line that keeps the order. -/
theorem Charted.meets
    (hg : Genuine job s) (hs : Charted job s) (hworking : s.sender.Working) {r : Reply}
    (hmem : r ∈ s.replies) :
    s.sender.Meets r := by
  obtain ⟨hready, hfinal⟩ := hworking.not_ended
  have hover := hworking.not_over
  refine
    { verdict := hs.replies hfinal hover r hmem
      token := hs.replyTokens r hmem
      ack := ?_
      rstAck := ?_
      resume := ?_ }
  · rintro a rfl hlistening
    rcases hs.standing with hc | hc
    · have ha := hc.stage.aligned hlistening.aligns
      exact (ha.acks a hmem).trans_le ha.le_next
    · obtain ⟨k, _, hnext, hold⟩ := hc.reached
      exact (hold a hmem).trans hnext
  · rintro w rfl
    rcases hs.standing with hc | hc
    · exact hc.stage.acknowledges hmem hready hfinal hover hg.block
    · exact absurd hmem (hc.noRstAck w)
  · rintro n reset left rfl hphase
    rcases hs.standing with hc | hc
    · cases reset with
      | true =>
          rcases (hc.stage.of_barrier_true hphase).reply _ hmem with ⟨w, heq, _⟩ | heq
          · cases heq
          · cases heq
            exact ⟨Nat.zero_le _, fun _ => rfl⟩
      | false =>
          obtain ⟨ha, hd⟩ := hc.stage.of_barrier_false hphase
          exact ⟨(hd.resume n hmem).trans_le ha.le_next, fun h => by cases h⟩
    · have hzero := hc.resume reset left hphase n hmem
      exact ⟨hzero ▸ Nat.zero_le _, fun _ => hzero⟩

/-- A receiver below the window is adrift. -/
theorem Standing.adrift
    {t : Sender} {blocks e : Nat} {commands : List Command} {replies : List Reply}
    (hs : Standing t blocks e commands replies) (hworking : t.Working) (hreset : ¬ t.InReset)
    (hbelow : e < t.base ∨ Reply.rst ∈ replies) :
    Adrift t blocks e commands replies := by
  refine hs.resolve_left fun hc => ?_
  have haligns : t.Aligns := by
    rcases hworking with h | h
    · exact Or.inr (Or.inl h)
    · rcases SendPhase.waits_cases h with hphase | ⟨again, hphase⟩ | ⟨left, hphase⟩ |
        ⟨left, hphase⟩ | ⟨reset, left, hphase⟩
      · exact Sender.Listening.aligns (Or.inl hphase)
      · exact Sender.Listening.aligns (Or.inr (Or.inl ⟨again, hphase⟩))
      · exact Sender.Listening.aligns (Or.inr (Or.inr ⟨left, hphase⟩))
      · exact absurd (Or.inl ⟨left, hphase⟩) hreset
      · cases reset with
        | true => exact absurd (Or.inr ⟨left, hphase⟩) hreset
        | false => exact Or.inr (Or.inr (Or.inr (Or.inr ⟨left, hphase⟩)))
  rcases hbelow with hlt | hrst
  · exact absurd (hc.stage.aligned haligns).base_le (Nat.not_le.mpr hlt)
  · exact hc.noRestart haligns hrst

/-- The sender raises although no budget is used up in the reads that are not heard, and in no
other step. -/
theorem Charted.aborts_iff
    (hflow : job.session.flow = true) (hg : Genuine job s)
    (hs : Charted job s) (hworking : s.sender.Working) {e : Event} (h : s.step job e = some s') :
    (∃ exc, s'.sender.phase = .raised exc ∧ exc ∉ Sender.budgets) ↔ s.heard e = false := by
  have hquiet : s'.sender = s.sender →
      ¬ ∃ exc, s'.sender.phase = .raised exc ∧ exc ∉ Sender.budgets := by
    rintro hsame ⟨exc, heq, _⟩
    rw [hsame] at heq
    exact hworking.not_raised exc heq
  cases e with
  | run =>
      rw [Transfer.step, Option.map_eq_some_iff] at h
      obtain ⟨p, hp, rfl⟩ := h
      refine iff_of_false (Sender.run_not_aborts hflow ?_ hp) (by simp [Transfer.heard])
      rw [Sender.step] at hp
      split at hp
      · assumption
      · cases hp
  | timeout =>
      rw [Transfer.step, Option.map_eq_some_iff] at h
      obtain ⟨p, hp, rfl⟩ := h
      refine iff_of_false ?_ (by simp [Transfer.heard])
      rcases hworking with hfill | hwaits
      · rw [Sender.step, Sender.onTimeout, hfill] at hp
        cases hp
      · exact Sender.timeout_not_aborts hwaits hp
  | reply late =>
      rw [Transfer.step] at h
      split at h
      · cases h
      · rename_i r replies hreplies
        rw [Option.map_eq_some_iff] at h
        obtain ⟨p, hp, rfl⟩ := h
        have hmem : r ∈ s.replies := hreplies ▸ List.mem_cons_self
        have hr := hg.replies r hmem
        have hwaits : s.sender.phase.waits = true := by
          refine hworking.resolve_left fun hfill => ?_
          rw [Sender.step, if_neg (by rw [Reply.isRmb_line hr]; simp), Sender.onLine, hfill] at hp
          cases hp
        have hiff := Sender.line_aborts_iff hwaits hr (hs.meets hg hworking hmem) hp
        have hheard : s.heard (.reply late) = !s.sender.refuses r late := by
          simp [Transfer.heard, hreplies]
        rw [hheard, Bool.not_eq_false']
        exact hiff
  | command | commit | giveUp | loseCommand | loseReply | copyCommand | copyReply | swapCommands |
      swapReplies | damage =>
      refine iff_of_false (hquiet ?_) (by simp [Transfer.heard])
      rw [Transfer.step] at h
      first
      | (split at h
         · cases h
         · rw [Option.map_eq_some_iff] at h
           obtain ⟨p, -, rfl⟩ := h
           rfl)
      | (rw [Option.map_eq_some_iff] at h
         obtain ⟨p, -, rfl⟩ := h
         rfl)
      | (split at h
         · cases h
           rfl
         · cases h)
      | (split at h
         · cases h
         · split at h
           · cases h
             rfl
           · cases h)

/-- A restart of the receiver that is not answered yet, by a sender that still works. -/
structure Pending (job : Job) (s : Transfer cfg) : Prop where
  genuine : Genuine job s
  charted : Charted job s
  working : s.sender.Working
  unanswered : s.sender.Unanswered s.client.expected

/-- A step leaves a restart of the receiver unanswered, or the sender restarts, or it has used up a
budget. -/
theorem Pending.step
    (hflow : job.session.flow = true) (hpair : Paired job.session cfg) (hs : Pending job s)
    {e : Event} (he : Faults.copying.permit e = true) (hheard : s.heard e = true)
    (h : s.step job e = some s') :
    Pending job s' ∨ s'.sender.AtZero ∨ ∃ exc ∈ Sender.budgets, s'.sender.phase = .raised exc := by
  obtain ⟨hg, hc, hworking, hunanswered⟩ := hs
  have hmove := step_move hpair hflow hg h
  have hg' := hg.move hmove
  have hc' := hc.move hflow hpair hg he hmove
  have haborts := hc.aborts_iff hflow hg hworking h
  have hbudget : ∀ exc, s'.sender.phase = .raised exc → exc ∈ Sender.budgets := by
    intro exc hraised
    by_contra hnot
    rw [haborts.mp ⟨exc, hraised, hnot⟩] at hheard
    cases hheard
  -- The sender is where it was; what changes is where the receiver stands.
  have hreceiver : s'.sender = s.sender → (s.client.expected < s.sender.base →
      ¬ s.sender.InReset → s'.client.expected < s'.sender.base) → Pending job s' := by
    intro hsame hbelow
    refine ⟨hg', hc', hsame ▸ hworking, ?_⟩
    by_cases hreset : s.sender.InReset
    · exact Or.inr (hsame ▸ hreset)
    · exact Or.inl (hbelow (hunanswered.resolve_right hreset) hreset)
  have hstill : s'.sender = s.sender → s'.client.expected = s.client.expected →
      Pending job s' := fun hsame hexpected =>
    hreceiver hsame fun hlt _ => by rw [hsame, hexpected]; exact hlt
  have hread : ∀ {r : Option Reply} {p : Sender × List Command},
      s'.sender = p.1 → s'.client = s.client → Sender.ReadKind job s.sender r p.1 p.2 →
      Pending job s' ∨ s'.sender.AtZero ∨
        ∃ exc ∈ Sender.budgets, s'.sender.phase = .raised exc := by
    intro r p hsender hclient hkind
    rw [← hsender] at hkind
    have hraised : (∃ exc, s'.sender.phase = .raised exc) →
        ∃ exc ∈ Sender.budgets, s'.sender.phase = .raised exc := fun ⟨exc, heq⟩ =>
      ⟨exc, hbudget exc heq, heq⟩
    rcases hkind.working hworking with hworking' | hover
    · rcases hkind.unanswered hunanswered with hunanswered' | hzero | hover
      · exact Or.inl ⟨hg', hc', hworking', hclient ▸ hunanswered'⟩
      · exact Or.inr (Or.inl hzero)
      · exact Or.inr (Or.inr (hraised hover))
    · exact Or.inr (Or.inr (hraised hover))
  cases hmove with
  | fill p hphase hkind =>
      have hreset : ¬ s.sender.InReset := by simp [Sender.InReset, hphase]
      have hlt := hunanswered.resolve_right hreset
      have hadrift := hc.standing.adrift hworking hreset (Or.inl hlt)
      obtain ⟨t, out⟩ := p
      cases hkind with
      | frame frame => exact Or.inl ⟨hg', hc', Or.inl hphase, Or.inl hlt⟩
      | wait => exact Or.inl ⟨hg', hc', Or.inr rfl, Or.inl hlt⟩
      | done hblocks =>
          obtain ⟨k, hbase, hnext, _⟩ := hadrift.reached
          have := hadrift.next_le
          omega
      | failed exc => exact Or.inr (Or.inr ⟨_, hbudget _ rfl, rfl⟩)
  | timeout p hkind => exact hread rfl rfl hkind
  | reply late r replies p hreplies hkind => exact hread rfl rfl hkind
  | command m r c commands p hclient hcommands hphase hreadc hturn =>
      refine Or.inl (hreceiver rfl fun hlt hreset => ?_)
      have hadrift := hcommands ▸ hc.standing.adrift hworking hreset (Or.inl hlt)
      have hturn' := turned_of_turn (hpair.flow.trans hflow) hturn
      rw [hclient] at hadrift
      show p.1.expected < s.sender.base
      rw [show p.1.expected = 0 from (hadrift.turned hturn').zero]
      exact hadrift.base_pos
  | accept m commands hclient =>
      refine Or.inl (hstill rfl ?_)
      rw [hclient]
      rfl
  | refuse c commands exc effects hclient =>
      refine Or.inl (hstill rfl ?_)
      rw [hclient]
      rfl
  | commit m r hclient hphase =>
      refine Or.inl (hstill rfl ?_)
      rw [hclient]
      rfl
  | giveUp m r exc hclient =>
      refine Or.inl (hstill rfl ?_)
      rw [hclient]
      rfl
  | giveUpMeta exc hclient =>
      refine Or.inl (hstill rfl ?_)
      rw [hclient]
      rfl
  | _ => exact Or.inl (hstill rfl rfl)

/-- An exception is final. -/
theorem Move.raised
    {e : Event} {exc : PcutpError} (h : Move job s e s') (hraised : s.sender.phase = .raised exc) :
    s'.sender.phase = .raised exc := by
  cases h with
  | fill p hphase =>
      rw [hphase] at hraised
      cases hraised
  | timeout p hkind => exact absurd hraised (hkind.not_raised exc)
  | reply late r replies p hreplies hkind => exact absurd hraised (hkind.not_raised exc)
  | _ => exact hraised

/-- In the step in which the receiver restarts by itself, its restart becomes pending. -/
theorem Charted.pending
    (hflow : job.session.flow = true) (hpair : Paired job.session cfg)
    (hg : Genuine job s) (hs : Charted job s) (hworking : s.sender.Working)
    {e : Event} (he : Faults.copying.permit e = true) (h : s.step job e = some s')
    (hrestarts : s.Restarts s') :
    Pending job s' := by
  have hmove := step_move hpair hflow hg h
  have hg' := hg.move hmove
  have hs' := hs.move hflow hpair hg he hmove
  obtain ⟨effects, htrace, hrst⟩ := hrestarts
  have hnone : s'.trace = s.trace → False := by
    intro hsame
    rw [hsame, List.self_eq_append_right] at htrace
    rw [htrace] at hrst
    cases hrst
  have hsent : ∀ {p : Client cfg × List Effect}, s'.trace = s.trace ++ p.2 →
      Reply.rst ∈ sends p.2 := by
    intro p heq
    rw [heq, List.append_cancel_left_eq] at htrace
    exact mem_sends.mpr (htrace ▸ hrst)
  cases hmove with
  | command m r c commands p hclient hcommands hphase hread hturn =>
      have hmem := hsent (p := (.receiving m p.1, p.2)) rfl
      refine ⟨hg', hs', hworking, ?_⟩
      by_cases hreset : s.sender.InReset
      · exact Or.inr hreset
      · have hadrift := hs'.standing.adrift hworking hreset
          (Or.inr (List.mem_append_right _ hmem))
        refine Or.inl ?_
        show p.1.expected < s.sender.base
        rw [show p.1.expected = 0 from hadrift.zero]
        exact hadrift.base_pos
  | accept m commands =>
      have hmem := hsent (p := (.receiving m Recv.start, Recv.startEffects m)) rfl
      cases List.mem_singleton.mp hmem
  | refuse c commands exc effects hclient hcommands heffects =>
      have hmem := hsent (p := (.stopped exc, effects)) rfl
      rcases heffects with rfl | ⟨_, code, _, rfl⟩
      · cases hmem
      · cases List.mem_singleton.mp hmem
  | commit m r =>
      have hmem := hsent (p := (.receiving m { r with phase := .returned true },
        [.replace, .unlink])) rfl
      cases hmem
  | giveUp m r exc =>
      have hmem := hsent (p := (.receiving m (r.raise exc), [])) rfl
      cases hmem
  | giveUpMeta exc =>
      have hmem := hsent (p := (.stopped exc, [])) rfl
      cases hmem
  | _ => exact (hnone rfl).elim

/-- A restart of the receiver is honoured, as long as every read is heard.

While `_send_window` works, a step raises anything but a used-up budget exactly when its read is
not heard.  After a step in which the receiver restarts by itself, which never finds the sender at
the start of the file, a run of heard reads leads through it, or to a used-up budget, or it is
still in `_send_window`.  There it does not stay: whatever it reads from here on, with its clock
`_send_window` comes to an end. -/
theorem restart_honoured_iff
    (job : Job) (cfg : ClientConfig) (hflow : job.session.flow = true)
    (hpair : Paired job.session cfg)
    (barrier_id : Nat) (reset_token : Option Line) (s : Transfer cfg)
    (hleads : Transfer.Leads .copying job (Transfer.start cfg job barrier_id reset_token) s)
    (hworking : s.sender.Working) :
    (∀ e s', s.step job e = some s' →
      ((∃ exc, s'.sender.phase = .raised exc ∧ exc ∉ Sender.budgets) ↔ s.heard e = false)) ∧
    (∀ e t events u, Faults.copying.permit e = true → s.step job e = some t → s.Restarts t →
      t.execHeard job events = some u →
        ¬ t.sender.AtZero ∧
          ((∃ before rest v, events = before ++ rest ∧ t.execHeard job before = some v ∧
              v.sender.AtZero) ∨
            u.sender.Working ∨ ∃ exc ∈ Sender.budgets, u.sender.phase = .raised exc)) ∧
    ∀ p now deadline schedule, ∃ n, Machine.run (SendWindow.step job p)
      ({ sender := s.sender, now, deadline }, []) ((List.range n).map schedule) = none := by
  have hinv : Genuine job s ∧ Charted job s := by
    refine Transition.Steps.invariant (fun s => Genuine job s ∧ Charted job s) ?_ hleads
      ⟨genuine_start barrier_id reset_token, charted_start barrier_id reset_token⟩
    rintro s e s' ⟨hg, hs⟩ he hstep
    have hmove := step_move hpair hflow hg hstep
    exact ⟨hg.move hmove, hs.move hflow hpair hg he hmove⟩
  obtain ⟨hg, hs⟩ := hinv
  refine ⟨fun e s' h => hs.aborts_iff hflow hg hworking h, ?_, fun p now deadline schedule => ?_⟩
  · intro e t events u he hstep hrestarts hexec
    have hpending := hs.pending hflow hpair hg hworking he hstep hrestarts
    refine ⟨hpending.unanswered.not_atZero, ?_⟩
    have hrun := Transition.exists_exec_until
      (Pending job) (fun u => u.sender.AtZero)
      (fun u => Genuine job u ∧ ∃ exc ∈ Sender.budgets, u.sender.phase = .raised exc) ?_ ?_
      (Or.inl hpending) hexec
    · rcases hrun with hzero | hu | ⟨-, hraised⟩
      · exact Or.inl hzero
      · exact Or.inr (Or.inl hu.working)
      · exact Or.inr (Or.inr hraised)
    · rintro u e u' ⟨hg, exc, hexc, hraised⟩ - h
      have hmove := step_move hpair hflow hg h
      exact ⟨hg.move hmove, exc, hexc, hmove.raised hraised⟩
    · rintro u e u' hu ⟨he, hheard⟩ h
      refine (hu.step hflow hpair he hheard h).imp_right (Or.imp_right fun hraised => ⟨?_, hraised⟩)
      exact hu.genuine.move (step_move hpair hflow hu.genuine h)
  · exact SendWindow.terminates ⟨(hs.counted hworking.not_over).base_le,
      (hs.counted hworking.not_over).next_le, hg.frames hworking.not_raised⟩ [] schedule

/-- Eight blocks are acknowledged one by one.  DATA 8 is lost, and DATA 9 comes three times. -/
def ninthLost : List Event :=
  [.command, .reply false] ++
    ((List.range 8).flatMap fun _ => [.run, .run, .command, .reply false]) ++
    [.run, .run, .run, .loseCommand 0, .copyCommand 0, .copyCommand 0, .command, .command]

/-- Both DROPs are lost, RST 0 is read in time, and the file is sent again to its end. -/
def sentAgain : List Event :=
  [.loseReply 0, .loseReply 0, .reply false, .command, .reply false] ++
    ((List.range 8).flatMap fun _ => [.run, .run, .command, .reply false]) ++
    [.run, .run, .run, .command, .command, .reply false, .run, .reply false, .run]

/-- The restart of the receiver is lost with the DROPs before it. -/
def restartLost : List Event :=
  [.loseReply 0, .loseReply 0, .loseReply 0, .timeout, .timeout, .command, .reply false, .command,
    .reply false]

/-- Ten blocks of one byte. -/
def tenBlocks : Job :=
  smallJob (List.replicate 10 0)

/-- The third copy of DATA 9 makes the receiver restart.  The drain of the BARRIER that the first
DROP has asked for reads RST 0; or RST 0 is lost, and the RESUME lies below the window. -/
theorem restart_refused :
    ∃ s t u v : Transfer smallClient,
      (Transfer.start smallClient tenBlocks 0 none).exec .copying tenBlocks ninthLost = some s ∧
      s.sender.phase = .reply ∧ s.step tenBlocks .command = some t ∧ s.Restarts t ∧
      t.exec .copying tenBlocks [.reply false, .reply false, .reply false] = some u ∧
      u.sender.phase = .raised (ProtocolError "unexpected recovery reply") ∧
      t.exec .copying tenBlocks restartLost = some v ∧
      v.sender.phase = .raised (ProtocolError "invalid recovery sequence") := by
  have hrun : ((Transfer.start smallClient tenBlocks 0 none).exec .copying tenBlocks
      ninthLost).any (fun s => decide (s.sender.phase = .reply) &&
        (s.step tenBlocks .command).any (fun t =>
          decide (t.trace = s.trace ++ [.truncate, .send .rst]) &&
          (t.exec .copying tenBlocks [.reply false, .reply false, .reply false]).any (fun u =>
            decide (u.sender.phase =
              .raised (ProtocolError "unexpected recovery reply"))) &&
          (t.exec .copying tenBlocks restartLost).any (fun v => decide (v.sender.phase =
            .raised (ProtocolError "invalid recovery sequence"))))) = true := by
    decide +kernel
  simp only [Option.any_eq_true, Bool.and_eq_true, decide_eq_true_eq] at hrun
  obtain ⟨s, hs, hphase, t, ht, ⟨htrace, u, hu, hraised⟩, v, hv, hraised'⟩ := hrun
  exact ⟨s, t, u, v, hs, hphase, ht, ⟨_, htrace, by simp⟩, hu, hraised, hv, hraised'⟩

/-- When RST 0 is the first reply to be read, the sender comes to its end only through the start
of the file.  When a BARRIER is out first, the read of RST 0 is not heard and ends the transfer. -/
theorem restart_honoured_iff_ninth_lost :
    ∃ s t u w w' : Transfer smallClient, ∃ before rest v exc,
      (Transfer.start smallClient tenBlocks 0 none).exec .copying tenBlocks ninthLost = some s ∧
      s.step tenBlocks .command = some t ∧ s.Restarts t ∧
      t.execHeard tenBlocks sentAgain = some u ∧ u.sender.phase = .final ∧
      sentAgain = before ++ rest ∧ t.execHeard tenBlocks before = some v ∧ v.sender.AtZero ∧
      t.execHeard tenBlocks [.reply false, .reply false] = some w ∧
      w.step tenBlocks (.reply false) = some w' ∧ w'.sender.phase = .raised exc ∧
      exc ∉ Sender.budgets := by
  have hrun : ((Transfer.start smallClient tenBlocks 0 none).exec .copying tenBlocks
      ninthLost).any (fun s => decide (s.sender.phase = .reply) &&
        (s.step tenBlocks .command).any (fun t =>
          decide (t.trace = s.trace ++ [.truncate, .send .rst]) &&
          (t.execHeard tenBlocks sentAgain).any (fun u => decide (u.sender.phase = .final)) &&
          (t.execHeard tenBlocks [.reply false, .reply false]).any (fun w =>
            w.sender.phase.waits && !w.heard (.reply false) &&
              (w.step tenBlocks (.reply false)).isSome))) = true := by
    decide +kernel
  simp only [Option.any_eq_true, Bool.and_eq_true, decide_eq_true_eq, Bool.not_eq_true',
    Option.isSome_iff_exists] at hrun
  obtain ⟨s, hs, hphase, t, ht, ⟨htrace, u, hu, hfinal⟩, w, hw, ⟨hwaits, hunheard⟩, w', hw'⟩ :=
    hrun
  have hrestarts : s.Restarts t := ⟨_, htrace, by simp⟩
  have hleads : Transfer.Leads .copying tenBlocks
      (Transfer.start smallClient tenBlocks 0 none) s :=
    .of_exec hs
  have hended : ¬ (u.sender.Working ∨ ∃ exc ∈ Sender.budgets, u.sender.phase = .raised exc) := by
    rintro (hworking | ⟨exc, -, hraised⟩)
    · exact hworking.not_ended.2 hfinal
    · rw [hfinal] at hraised
      cases hraised
  obtain ⟨before, rest, v, hsplit, hv, hzero⟩ := ((restart_honoured_iff tenBlocks smallClient rfl
    small_paired 0 none s hleads (Or.inr (by rw [hphase]; rfl))).2.1 .command t sentAgain u rfl ht
      hrestarts hu).2.resolve_right hended
  have hleads' : Transfer.Leads .copying tenBlocks
      (Transfer.start smallClient tenBlocks 0 none) w :=
    (hleads.tail ⟨.command, rfl, ht⟩).trans ((Transition.Steps.of_exec hw).mono fun _ _ h => h.1)
  obtain ⟨exc, hraised, hnot⟩ := ((restart_honoured_iff tenBlocks smallClient rfl small_paired 0
    none w hleads' (Or.inr hwaits)).1 (.reply false) w' hw').mpr hunheard
  exact ⟨s, t, u, w, w', before, rest, v, exc, hs, ht, hrestarts, hu, hfinal, hsplit, hv, hzero, hw,
    hw', hraised, hnot⟩

end Runs

end Pcutp
