import Pcutp.Frames
import Pcutp.Server

/-!
# What one step of the sender can do

`reply_kind`, `timeout_kind` and `fill_kind` list the outcomes of a step of a
FLOW transfer, for every reply the receiver prints.  Invariants of a run are
proved from these lists.
-/

namespace Pcutp

namespace Reply

/-- A printed reply is never one of the lines `_recv_line` answers itself. -/
theorem isRmb_line
    {r : Reply} (hr : r.Printable) :
    Sender.isRmb r.line = false := by
  rw [Sender.isRmb, split_line hr]
  cases r <;> simp [words]

theorem line_ne_nil
    {r : Reply} (hr : r.Printable) :
    r.line ≠ [] := by
  intro hnil
  have hsplit := split_line hr
  rw [hnil] at hsplit
  cases r <;> cases hsplit

theorem line_eq_ready_iff
    {r : Reply} (hr : r.Printable) :
    r.line = "READY".toList ↔ r = .ready := by
  constructor
  · intro h
    have hsplit := split_line hr
    rw [h] at hsplit
    cases r <;> first | rfl | cases hsplit
  · rintro rfl
    rfl

end Reply

namespace Sender

section Dispatch

variable (job : Job) (s : Sender) (late : Bool)

theorem dispatch_ack (a : Nat) :
    s.dispatch job (Reply.ack a).words late =
      if s.next_seq ≤ a then s.fail (ProtocolError "ACK for unsent block")
      else if a < s.base then
        if late = true then s.fail (TimeoutError_ "only duplicate ACKs received")
        else ({ s with phase := .reply }, [])
      else (s.advance job a, []) := by
  simp [dispatch, Reply.words]

theorem dispatch_rst :
    s.dispatch job ["RST".toList, "0".toList] late =
      if s.resets + 1 > Const.MAX_RESETS then
        ({ s with resets := s.resets + 1 } : Sender).fail
          (RetryError "receiver exhausted full-file resets")
      else
        ({ s with resets := s.resets + 1 } : Sender).recover job true := by
  simp [dispatch]

theorem dispatch_gap
    {parts : List Line}
    (h : word parts 0 = "NAK".toList ∨ word parts 0 = "DROP".toList) :
    s.dispatch job parts late =
      ({ s with cwnd := 1, clean_acks := 0 } : Sender).recover job false := by
  have hack : word parts 0 ≠ "ACK".toList := by
    rcases h with h | h <;> rw [h] <;> decide
  have hrst : word parts 0 ≠ "RST".toList := by
    rcases h with h | h <;> rw [h] <;> decide
  simp only [dispatch, hack, hrst, false_and, and_false, if_false]
  rw [if_pos (Or.inr h)]

/-- The other replies end the transfer, apart from a RESUME read in time. -/
theorem dispatch_other
    {parts : List Line}
    (hne : parts ≠ [])
    (h : word parts 0 ∉ ["ACK".toList, "RST".toList, "NAK".toList, "DROP".toList]) :
    s.dispatch job parts late =
      if s.oldResume parts = true ∧ late = false then ({ s with phase := .reply }, [])
      else s.fail (ProtocolError "unexpected window reply") := by
  simp only [List.mem_cons, List.not_mem_nil, or_false, not_or] at h
  simp only [dispatch, h, hne, false_and, and_false, or_self, if_false]

end Dispatch

/-- The phases in which an ACK, a NAK or a receiver's RST counts. -/
def Listening (s : Sender) : Prop :=
  s.phase = .reply ∨ (∃ again, s.phase = .guard again) ∨ ∃ left, s.phase = .ayt left

/-- The phases that wait for a reply before DONE. -/
def Busy (s : Sender) : Prop :=
  match s.phase with
  | .fill => False
  | .final => False
  | .returned _ => False
  | .raised _ => False
  | _ => True

/-- The phase after a read that changes nothing else. -/
inductive Waits : SendPhase → SendPhase → Prop
  | reply : Waits .reply .reply
  | late : Waits .reply (.guard true)
  | again : Waits (.guard false) (.guard true)
  | ayt (left : Nat) : Waits (.ayt left) (.ayt left)
  | rst (left : Nat) : Waits (.rst left) (.rst left)
  | barrier (reset : Bool) (left : Nat) : Waits (.barrier reset left) (.barrier reset left)
  | final : Waits .final .final

theorem Waits.not_block
    {p p' : SendPhase} (h : Waits p p') :
    ∀ attempt timeouts, p' ≠ .block attempt timeouts := by
  cases h <;> simp

/-- The messages that accuse the receiver of a wrong sequence number. -/
def seriousMessages : List String :=
  ["ACK for unsent block", "invalid recovery sequence", "receiver did not reset to sequence zero"]

/-- A reply after which `_send_window` drains the window. -/
def Gap (s : Sender) (r : Reply) : Prop :=
  (∃ e why, r = .nak e why) ∨ (∃ e why, r = .drop e why) ∨
    ((∃ left, s.phase = .ayt left) ∧ ∃ e, r = .here (dec s.barrier_id) e)

/-- The outcomes of a read; no reply stands for a timeout. -/
inductive ReadKind (job : Job) (s : Sender) : Option Reply → Sender → List Command → Prop
  | begin (hphase : s.phase = .ready) :
      ReadKind job s (some .ready) { s with phase := .fill } []
  | refused (r : Reply) (hphase : s.phase = .ready) (hr : r ≠ .ready) :
      ReadKind job s (some r) { s with phase := .returned none } []
  | advance (a : Nat) (hphase : s.Listening) (hbase : s.base ≤ a) (hsent : a < s.next_seq) :
      ReadKind job s (some (.ack a)) (s.advance job a) []
  | unsent (a : Nat) (hphase : s.Listening) (hsent : s.next_seq ≤ a) :
      ReadKind job s (some (.ack a)) (s.fail (ProtocolError "ACK for unsent block")).1
        (s.fail (ProtocolError "ACK for unsent block")).2
  | wait (r : Reply) (phase : SendPhase) (hwait : Waits s.phase phase) :
      ReadKind job s (some r) { s with phase } []
  | probe (hphase : s.phase = .reply) :
      ReadKind job s none { s with phase := .guard false, cwnd := 1, clean_acks := 0 } []
  | askAlive (r : Option Reply) (left : Nat)
      (hphase : (∃ again, s.phase = .guard again) ∨ ∃ left, s.phase = .ayt left) :
      ReadKind job s r { s with phase := .ayt left, barrier_id := s.barrier_id + 1 }
        [.ayt (s.barrier_id + 1)]
  | askRestart (r : Option Reply)
      (hphase : (∃ again, s.phase = .guard again) ∨ ∃ left, s.phase = .ayt left) :
      ReadKind job s r
        { s with phase := .rst (Const.RST_RETRIES - 1), barrier_id := s.barrier_id + 1 }
        [.rst (s.barrier_id + 1)]
  | askReset (r : Option Reply) (left : Nat) (hphase : s.phase = .rst (left + 1)) :
      ReadKind job s r { s with phase := .rst left } [.rst s.barrier_id]
  | askBarrier (r : Option Reply) (reset : Bool) (left : Nat)
      (hphase : s.phase = .barrier reset (left + 1)) :
      ReadKind job s r { s with phase := .barrier reset left } [.barrier s.barrier_id]
  | gap (r : Reply) (hphase : s.Listening) (hgap : s.Gap r) :
      ReadKind job s (some r)
        { s with
          phase := .barrier false job.session.config.max_retries
          barrier_id := s.barrier_id + 1
          cwnd := 1
          clean_acks := 0 }
        [.barrier (s.barrier_id + 1)]
  | restarted (hphase : s.Listening) :
      ReadKind job s (some .rst)
        { s with
          phase := .barrier true job.session.config.max_retries
          barrier_id := s.barrier_id + 1
          resets := s.resets + 1 }
        [.barrier (s.barrier_id + 1)]
  | resetDone (left : Nat) (hphase : s.phase = .rst left) :
      ReadKind job s (some (.rstAck (dec s.barrier_id)))
        { s with
          phase := .barrier true job.session.config.max_retries
          barrier_id := s.barrier_id + 1
          reset_token := some (dec s.barrier_id)
          resets := s.resets + 1 }
        [.barrier (s.barrier_id + 1)]
  | resumed (left n : Nat) (hphase : s.phase = .barrier false left)
      (hlo : s.base ≤ n) (hhi : n ≤ s.next_seq) :
      ReadKind job s (some (.resume (dec s.barrier_id) n))
        { s with
          phase := .fill
          base := n
          next_seq := n
          recoveries := if s.base < n then 0 else s.recoveries + 1
          attempts := dropBelow n 0 s.attempts
          frames := dropBelow n none s.frames } []
  | resumedReset (left : Nat) (hphase : s.phase = .barrier true left) :
      ReadKind job s (some (.resume (dec s.barrier_id) 0))
        { s with
          phase := .fill
          base := 0
          next_seq := 0
          cwnd := 1
          clean_acks := 0
          attempts := fun _ => 0
          recoveries := 0 } []
  | badReset (left n : Nat) (hphase : s.phase = .barrier true left) (hn : n ≠ 0) :
      ReadKind job s (some (.resume (dec s.barrier_id) n))
        (s.fail (ProtocolError "receiver did not reset to sequence zero")).1
        (s.fail (ProtocolError "receiver did not reset to sequence zero")).2
  | badResume (left n : Nat) (reset : Bool) (hphase : s.phase = .barrier reset left)
      (hn : ¬ ((reset = true ∨ s.base ≤ n) ∧ n ≤ s.next_seq)) :
      ReadKind job s (some (.resume (dec s.barrier_id) n))
        (s.fail (ProtocolError "invalid recovery sequence")).1
        (s.fail (ProtocolError "invalid recovery sequence")).2
  | failed (r : Option Reply) (s' : Sender) (exc : PcutpError) (out : List Command)
      (hphase : s.Busy) (hphase' : s'.phase = .raised exc)
      (hmessage : exc.message ∉ seriousMessages) (hcode : exc.code = exc.cls.code)
      (hid : s'.barrier_id = s.barrier_id) (hout : out = [] ∨ out = [.err exc.code]) :
      ReadKind job s r s' out
  | ended (r : Option Reply) (phase : SendPhase) (hphase : s.phase = .final)
      (hphase' : (∃ exc, phase = .raised exc ∧ exc.message ∉ seriousMessages) ∨
        ∃ result, phase = .returned (some result)) :
      ReadKind job s r { s with phase } []

section Reading

variable {job : Job} {s : Sender} {late : Bool}

theorem ReadKind.ofFail
    (r : Option Reply) (s' : Sender) (exc : PcutpError)
    (hphase : s.Busy) (hmessage : exc.message ∉ seriousMessages)
    (hcode : exc.code = exc.cls.code) (hid : s'.barrier_id = s.barrier_id) :
    ReadKind job s r (s'.fail exc).1 (s'.fail exc).2 :=
  .failed r _ exc _ hphase rfl hmessage hcode hid (Or.inr rfl)

theorem ReadKind.ofSome
    {r : Option Reply} {p : Sender × List Command} {s' : Sender} {out : List Command}
    (hkind : ReadKind job s r p.1 p.2)
    (h : some p = some (s', out)) :
    ReadKind job s r s' out := by
  rw [Option.some.inj h] at hkind
  exact hkind

/-- A reply that `_send_window` dispatches. -/
theorem dispatch_kind
    {r : Reply} (hr : r.Printable)
    (hphase : s.Listening)
    (hlate : s.phase = .reply ∨ late = true) :
    ReadKind job s (some r) (s.dispatch job r.words late).1 (s.dispatch job r.words late).2 := by
  have hbusy : s.Busy := by
    rcases hphase with h | ⟨_, h⟩ | ⟨_, h⟩ <;> simp [Busy, h]
  have hstay : late = false → ReadKind job s (some r) { s with phase := .reply } [] := by
    intro hfalse
    rcases hlate with h | h
    · exact .wait r .reply (h ▸ .reply)
    · rw [hfalse] at h
      cases h
  have hother : r.words ≠ [] →
      word r.words 0 ∉ ["ACK".toList, "RST".toList, "NAK".toList, "DROP".toList] →
      ReadKind job s (some r) (s.dispatch job r.words late).1
        (s.dispatch job r.words late).2 := by
    intro hne hword
    rw [dispatch_other job s late hne hword]
    split
    · rename_i h
      exact hstay h.2
    · exact .ofFail _ _ _ hbusy (by decide) rfl rfl
  cases r with
  | ack a =>
      rw [dispatch_ack]
      split
      · rename_i h
        exact .unsent a hphase h
      · split
        · split
          · exact .ofFail _ _ _ hbusy (by decide) rfl rfl
          · rename_i h
            exact hstay (Bool.not_eq_true _ ▸ h)
        · exact .advance a hphase (by omega) (by omega)
  | nak e why =>
      rw [dispatch_gap job s late (Or.inl rfl)]
      exact .gap _ hphase (Or.inl ⟨e, why, rfl⟩)
  | drop e why =>
      rw [dispatch_gap job s late (Or.inr rfl)]
      exact .gap _ hphase (Or.inr (Or.inl ⟨e, why, rfl⟩))
  | rst =>
      have hwords : Reply.rst.words = ["RST".toList, "0".toList] := rfl
      rw [hwords, dispatch_rst]
      split
      · exact .ofFail _ _ _ hbusy (by decide) rfl rfl
      · exact .restarted hphase
  | _ => exact hother (by simp [Reply.words]) (by simp [Reply.words])

theorem ask_kind
    (r : Option Reply) (left : Nat)
    (hphase : (∃ again, s.phase = .guard again) ∨ ∃ left, s.phase = .ayt left) :
    ReadKind job s r (s.ask left).1 (s.ask left).2 := by
  cases left with
  | zero => exact .askRestart r hphase
  | succ left => exact .askAlive r left hphase

theorem askReset_kind
    (r : Option Reply) {left : Nat}
    (hphase : s.phase = .rst left) :
    ReadKind job s r (s.askReset left).1 (s.askReset left).2 := by
  cases left with
  | zero => exact .ofFail _ _ _ (by simp [Busy, hphase]) (by decide) rfl rfl
  | succ left => exact .askReset r left hphase

theorem askBarrier_kind
    (r : Option Reply) {reset : Bool} {left : Nat}
    (hphase : s.phase = .barrier reset left) :
    ReadKind job s r (s.askBarrier reset left).1 (s.askBarrier reset left).2 := by
  cases left with
  | zero => exact .ofFail _ _ _ (by simp [Busy, hphase]) (by decide) rfl rfl
  | succ left => exact .askBarrier r reset left hphase

theorem onReply_kind
    {r : Reply} (hr : r.Printable) (hphase : s.phase = .reply) :
    ReadKind job s (some r) (s.onReply job r.words late).1 (s.onReply job r.words late).2 := by
  rw [onReply]
  split
  · split
    · exact .wait r _ (hphase ▸ .late)
    · exact .wait r s.phase (hphase ▸ .reply)
  · exact dispatch_kind hr (Or.inl hphase) (Or.inl hphase)

theorem onGuard_kind
    {r : Reply} (hr : r.Printable) {again : Bool} (hphase : s.phase = .guard again) :
    ReadKind job s (some r) (s.onGuard job again r.line).1 (s.onGuard job again r.line).2 := by
  rw [onGuard, if_neg (Reply.line_ne_nil hr), Reply.split_line hr]
  split
  · rename_i h
    rw [h.1] at hphase
    exact .wait r _ (hphase ▸ .again)
  · exact dispatch_kind hr (Or.inr (Or.inl ⟨again, hphase⟩)) (Or.inr rfl)

theorem onProbe_kind
    {r : Reply} (hr : r.Printable) {left : Nat} (hphase : s.phase = .ayt left) :
    ReadKind job s (some r) (s.onProbe job left r.words late).1
      (s.onProbe job left r.words late).2 := by
  have hlistening : s.Listening := Or.inr (Or.inr ⟨left, hphase⟩)
  rw [onProbe]
  split
  · rename_i h
    rw [dispatch_gap job s true (Or.inr rfl)]
    refine .gap r hlistening (Or.inr (Or.inr ⟨⟨left, hphase⟩, ?_⟩))
    cases r <;> simp [Reply.words] at h
    rename_i token e
    exact ⟨e, by rw [h]⟩
  · split
    · exact dispatch_kind hr hlistening (Or.inr rfl)
    · split
      · exact ask_kind _ _ (Or.inr ⟨left, hphase⟩)
      · exact .wait r s.phase (hphase ▸ .ayt left)

theorem onReset_kind
    {r : Reply} {left : Nat} (hphase : s.phase = .rst left) :
    ReadKind job s (some r) (s.onReset job left r.words late).1
      (s.onReset job left r.words late).2 := by
  have hbusy : s.Busy := by
    simp [Busy, hphase]
  rw [onReset]
  split
  · rename_i h
    rw [dispatch_rst]
    split
    · exact .ofFail _ _ _ hbusy (by decide) rfl rfl
    · cases r <;> simp [Reply.words] at h
      subst h
      exact .resetDone left hphase
  · split
    · split
      · exact askReset_kind _ hphase
      · exact .wait r s.phase (hphase ▸ .rst left)
    · exact .ofFail _ _ _ hbusy (by decide) rfl rfl

theorem resume_kind
    {reset : Bool} {left n : Nat} (hphase : s.phase = .barrier reset left)
    (hlo : reset = true ∨ s.base ≤ n) (hhi : n ≤ s.next_seq) :
    ReadKind job s (some (.resume (dec s.barrier_id) n)) (s.resume job reset n).1
      (s.resume job reset n).2 := by
  have hbusy : s.Busy := by
    simp [Busy, hphase]
  cases reset with
  | true =>
      rw [Sender.resume, if_pos rfl]
      split
      · rename_i h
        exact .badReset left n hphase h
      · rename_i h
        obtain rfl := Decidable.not_not.mp h
        exact .resumedReset left hphase
  | false =>
      simp only [Sender.resume, Bool.false_eq_true, if_false]
      by_cases hmax :
          (if s.base < n then 0 else s.recoveries + 1) > job.session.config.max_retries
      · rw [if_pos hmax]
        exact .ofFail _ _ _ hbusy (by decide) rfl rfl
      · rw [if_neg hmax]
        exact .resumed left n hphase (hlo.resolve_left (by simp)) hhi

theorem onBarrier_kind
    {r : Reply} {reset : Bool} {left : Nat} (hphase : s.phase = .barrier reset left) :
    ReadKind job s (some r) (s.onBarrier job reset left r.words late).1
      (s.onBarrier job reset left r.words late).2 := by
  have hbusy : s.Busy := by
    simp [Busy, hphase]
  rw [onBarrier]
  split
  · rename_i h
    cases r <;> simp [Reply.words] at h
    rename_i token n
    subst h
    simp only [Reply.words, word_succ, word_zero, isdecimal_dec, int_dec, true_and]
    by_cases hrange : (if reset = true then 0 else s.base) ≤ n ∧ n ≤ s.next_seq
    · rw [if_pos hrange]
      refine resume_kind hphase ?_ hrange.2
      cases reset with
      | true => exact Or.inl rfl
      | false => exact Or.inr hrange.1
    · rw [if_neg hrange]
      refine .badResume left n reset hphase (fun h => hrange ⟨?_, h.2⟩)
      rcases h.1 with rfl | h
      · exact Nat.zero_le _
      · split
        · exact Nat.zero_le _
        · exact h
  · split
    · split
      · exact askBarrier_kind _ hphase
      · exact .wait r s.phase (hphase ▸ .barrier reset left)
    · exact .ofFail _ _ _ hbusy (by decide) rfl rfl

theorem onFinal_kind
    {r : Reply} (hphase : s.phase = .final) :
    ReadKind job s (some r) (s.onFinal job r.words late).1 (s.onFinal job r.words late).2 := by
  rw [onFinal]
  split
  · split
    · exact .ended _ _ hphase (Or.inl ⟨_, rfl, by decide⟩)
    · exact .wait r s.phase (hphase ▸ .final)
  · exact .ended _ _ hphase (Or.inr ⟨_, rfl⟩)

/-- The outcomes of reading a reply, in a FLOW transfer. -/
theorem reply_kind
    {r : Reply} (hr : r.Printable)
    {s' : Sender} {out : List Command}
    (hblock : ∀ attempt timeouts, s.phase ≠ .block attempt timeouts)
    (h : s.step job (.line r.line late) = some (s', out)) :
    ReadKind job s (some r) s' out := by
  rw [step, if_neg (by rw [Reply.isRmb_line hr]; simp), onLine] at h
  have hready : r.line = "READY".toList ↔ r = .ready := Reply.line_eq_ready_iff hr
  split at h <;> rename_i hphase
  · split at h <;> cases h
    · rename_i hline
      rw [hready.mp hline]
      exact .begin hphase
    · rename_i hline
      exact .refused r hphase (fun heq => hline (hready.mpr heq))
  · rw [Reply.split_line hr] at h
    exact (onReply_kind hr hphase).ofSome h
  · exact (onGuard_kind hr hphase).ofSome h
  · rw [Reply.split_line hr] at h
    exact (onProbe_kind hr hphase).ofSome h
  · rw [Reply.split_line hr] at h
    exact (onReset_kind hphase).ofSome h
  · rw [Reply.split_line hr] at h
    exact (onBarrier_kind hphase).ofSome h
  · exact absurd hphase (hblock _ _)
  · rw [Reply.split_line hr] at h
    exact (onFinal_kind hphase).ofSome h
  · cases h

/-- The outcomes of a timeout, in a FLOW transfer. -/
theorem timeout_kind
    {s' : Sender} {out : List Command}
    (hblock : ∀ attempt timeouts, s.phase ≠ .block attempt timeouts)
    (h : s.step job .timeout = some (s', out)) :
    ReadKind job s none s' out := by
  rw [step, onTimeout] at h
  split at h <;> rename_i hphase
  · cases h
    exact .failed _ _ (TimeoutError_ "timed out waiting for a control line") _
      (by simp [Busy, hphase]) rfl (by decide) rfl rfl (Or.inl rfl)
  · cases h
    exact .probe hphase
  · exact (ask_kind _ _ (Or.inl ⟨_, hphase⟩)).ofSome h
  · exact (ask_kind _ _ (Or.inr ⟨_, hphase⟩)).ofSome h
  · exact (askReset_kind _ hphase).ofSome h
  · exact (askBarrier_kind _ hphase).ofSome h
  · exact absurd hphase (hblock _ _)
  · cases h
    exact .ended _ _ hphase (Or.inl ⟨_, rfl, by decide⟩)
  · cases h

end Reading

/-- The outcomes of the part of `_send_window` that runs without reading. -/
inductive FillKind (job : Job) (s : Sender) : Sender → List Command → Prop
  | frame (frame : Command) (hframe : frame = (s.frames s.next_seq).getD (job.frame s.next_seq))
      (hblocks : s.next_seq < job.blocks) (hroom : s.next_seq < s.base + s.cwnd)
      (hbase : s.base < job.blocks) :
      FillKind job s (s.writeFrame frame) [frame]
  | wait (hbase : s.base < job.blocks) (hfull : min job.blocks (s.base + s.cwnd) ≤ s.next_seq) :
      FillKind job s { s with phase := .reply } []
  | done (hblocks : job.blocks ≤ s.base) :
      FillKind job s { s with phase := .final } [.done job.crc]
  | failed (exc : PcutpError) (hcls : exc.cls = .retry) (hmessage : exc.message ∉ seriousMessages)
      (hcode : exc.code = exc.cls.code) :
      FillKind job s (s.fail exc).1 (s.fail exc).2

/-- The outcomes of a step without a read, in a FLOW transfer. -/
theorem fill_kind
    {job : Job} {s s' : Sender} {out : List Command}
    (hflow : job.session.flow = true)
    (h : s.step job .run = some (s', out)) :
    s.phase = .fill ∧ FillKind job s s' out := by
  rw [step] at h
  split at h
  · rename_i hphase
    refine ⟨hphase, ?_⟩
    have hkind : FillKind job s (s.fillWindow job).1 (s.fillWindow job).2 := by
      rw [fillWindow]
      split
      · rename_i hbase
        split
        · rename_i hroom
          dsimp only
          split
          · exact .failed _ rfl (by decide) rfl
          · exact .frame _ rfl (hroom.trans_le (Nat.min_le_left _ _))
              (hroom.trans_le (Nat.min_le_right _ _)) hbase
        · rename_i hfull
          exact .wait hbase (Nat.not_lt.mp hfull)
      · rename_i hblocks
        exact .done (Nat.not_lt.mp hblocks)
    rw [Option.some.inj h] at hkind
    exact hkind
  · cases h

theorem dropBelow_some
    {base seq : Nat} {d : Nat → Option Command} {c : Command}
    (h : dropBelow base none d seq = some c) :
    d seq = some c := by
  rw [dropBelow] at h
  split at h
  · exact h
  · cases h

theorem isWord_code (cls : ErrorClass) :
    IsWord cls.code := by
  cases cls <;> exact isWord_of_check (by decide)

/-- What a read makes the sender write is a control line. -/
theorem ReadKind.control
    {job : Job} {s s' : Sender} {r : Option Reply} {out : List Command}
    (h : ReadKind job s r s' out) :
    ∀ c ∈ out, job.Control c := by
  have hnil : ∀ c ∈ ([] : List Command), job.Control c := fun c hc => absurd hc List.not_mem_nil
  have hone : ∀ {c : Command}, job.Control c → ∀ c' ∈ [c], job.Control c' := by
    intro c hc c' hc'
    rwa [List.mem_singleton.mp hc']
  cases h with
  | failed r s' exc out hphase hphase' hmessage hcode hid hout =>
      rcases hout with rfl | rfl
      · exact hnil
      · refine hone ?_
        rw [hcode]
        exact isWord_code _
  | askAlive => exact hone trivial
  | askRestart => exact hone trivial
  | askReset => exact hone trivial
  | askBarrier => exact hone trivial
  | gap => exact hone trivial
  | restarted => exact hone trivial
  | resetDone => exact hone trivial
  | unsent => exact hone (isWord_code .protocol)
  | badReset => exact hone (isWord_code .protocol)
  | badResume => exact hone (isWord_code .protocol)
  | _ => exact hnil

/-- A read makes no new frame. -/
theorem ReadKind.frames
    {job : Job} {s s' : Sender} {r : Option Reply} {out : List Command}
    (h : ReadKind job s r s' out) (hraised : ∀ exc, s'.phase ≠ .raised exc) :
    ∀ seq c, s'.frames seq = some c → s.frames seq = some c := by
  cases h with
  | advance => exact fun seq c hc => dropBelow_some hc
  | resumed => exact fun seq c hc => dropBelow_some hc
  | failed r s' exc out hphase hphase' => exact absurd hphase' (hraised _)
  | _ => exact fun _ _ hc => hc

theorem Waits.not_raised
    {p p' : SendPhase} (h : Waits p p') (exc : PcutpError) :
    p ≠ .raised exc := by
  cases h <;> simp

theorem Waits.not_raised'
    {p p' : SendPhase} (h : Waits p p') (exc : PcutpError) :
    p' ≠ .raised exc := by
  cases h <;> simp

/-- After an exception nothing is read. -/
theorem ReadKind.not_raised
    {job : Job} {s s' : Sender} {r : Option Reply} {out : List Command}
    (h : ReadKind job s r s' out) (exc : PcutpError) :
    s.phase ≠ .raised exc := by
  intro hraised
  cases h with
  | wait r phase hwait => exact hwait.not_raised exc hraised
  | failed r s' exc' out hbusy => simp [Busy, hraised] at hbusy
  | _ => simp_all [Listening]

/-- No read of a FLOW transfer enters `_send_block`. -/
theorem ReadKind.not_block
    {job : Job} {s s' : Sender} {r : Option Reply} {out : List Command}
    (h : ReadKind job s r s' out) :
    ∀ attempt timeouts, s'.phase ≠ .block attempt timeouts := by
  intro attempt timeouts
  cases h with
  | failed r s' exc out hphase hphase' =>
      rw [hphase']
      simp
  | ended r phase hphase hphase' =>
      rcases hphase' with ⟨_, rfl, _⟩ | ⟨_, rfl⟩ <;> simp
  | wait r phase hwait => exact hwait.not_block _ _
  | _ => simp [Sender.advance, fail]

/-- No read writes DONE. -/
theorem ReadKind.no_done
    {job : Job} {s s' : Sender} {r : Option Reply} {out : List Command}
    (h : ReadKind job s r s' out) (crc : Line) :
    Command.done crc ∉ out := by
  cases h with
  | failed r s' exc out hphase hphase' hmessage hcode hid hout =>
      rcases hout with rfl | rfl <;> simp
  | _ => simp [fail]

/-- After DONE a read writes nothing and leads nowhere else. -/
theorem ReadKind.after_done
    {job : Job} {s s' : Sender} {r : Option Reply} {out : List Command}
    (h : ReadKind job s r s' out)
    (hphase : s.phase = .final ∨ (∃ result, s.phase = .returned result) ∨
      ∃ exc, s.phase = .raised exc) :
    out = [] ∧ (s'.phase = .final ∨ (∃ result, s'.phase = .returned result) ∨
      ∃ exc, s'.phase = .raised exc) := by
  cases h with
  | wait r phase hwait =>
      refine ⟨rfl, ?_⟩
      rcases hphase with hphase | ⟨_, hphase⟩ | ⟨_, hphase⟩ <;> rw [hphase] at hwait <;>
        cases hwait
      exact Or.inl rfl
  | ended r phase hfinal hphase' =>
      refine ⟨rfl, ?_⟩
      rcases hphase' with ⟨exc, rfl, _⟩ | ⟨result, rfl⟩
      · exact Or.inr (Or.inr ⟨exc, rfl⟩)
      · exact Or.inr (Or.inl ⟨_, rfl⟩)
  | failed r s' exc out hbusy =>
      rcases hphase with hphase | ⟨_, hphase⟩ | ⟨_, hphase⟩ <;> simp [Busy, hphase] at hbusy
  | _ =>
      rcases hphase with hphase | ⟨_, hphase⟩ | ⟨_, hphase⟩ <;> simp_all [Listening]

end Sender

/-- The frame that goes out next is one of its block, cached or not. -/
theorem isFrameOf_cached
    {job : Job} {t : Sender}
    (hframes : ∀ seq c, t.frames seq = some c → job.IsFrameOf seq c) :
    job.IsFrameOf t.next_seq ((t.frames t.next_seq).getD (job.frame t.next_seq)) := by
  cases hold : t.frames t.next_seq with
  | none => exact Or.inr rfl
  | some c => exact hframes _ _ hold

end Pcutp
