import Pcutp.Complete
import Pcutp.Polite

/-!
# Transfers without FLOW

Without FLOW `_send_block` sends one frame and waits for its answer.  When the
ACK timer runs out too early the frame is sent again and answered twice, and
the second answer travels on behind the first.

The receiver is not confused by this: it never meets a gap, never starts over,
and stores every block once (`Trailing`).  The sender is: `_send_block` takes
the second answer for a reply to the next block, and `send_file` takes it for
the final reply.  `Paced` is what holds as long as no timer is too early: at
most one line is under way.
-/

namespace Pcutp

section Block

variable {job : Job} {s : Sender}

/-- The outcomes of a read of `_send_block`; no reply stands for a timeout. -/
inductive Sender.BlockKind (job : Job) (s : Sender) :
    Option Reply → Sender → List Command → Prop
  | acked (attempt : Nat) :
      BlockKind job s (some (.ack s.base))
        { s with phase := .fill, base := s.base + 1, retransmits := s.retransmits + attempt } []
  | again {reply : Option Reply} (attempt timeouts : Nat)
      (hreply : ∀ r, reply = some r → ∃ e why, r = .nak e why) :
      BlockKind job s reply (s.sendBlock job attempt timeouts).1
        (s.sendBlock job attempt timeouts).2
  | failed {reply : Option Reply} (exc : PcutpError) (hcls : exc.cls ≠ .protocol)
      (hcode : exc.code = exc.cls.code) (hreply : ∀ r, reply = some r → ∃ e why, r = .nak e why) :
      BlockKind job s reply (s.fail exc).1 (s.fail exc).2
  | refused (r : Reply) (exc : PcutpError) (hr : r ≠ .ack s.base) :
      BlockKind job s (some r) (s.raise exc).1 (s.raise exc).2

theorem Sender.sendAgain_kind
    {reply : Option Reply} (attempt timeouts : Nat)
    (hreply : ∀ r, reply = some r → ∃ e why, r = .nak e why) :
    BlockKind job s reply (s.sendAgain job attempt timeouts).1
      (s.sendAgain job attempt timeouts).2 := by
  rw [sendAgain]
  split
  · exact .again _ _ hreply
  · exact .failed _ (by decide) rfl hreply

theorem Sender.step_block_line
    {r : Reply} (hr : r.Printable) {attempt timeouts : Nat}
    (hphase : s.phase = .block attempt timeouts) {late : Bool} :
    s.step job (.line r.line late) = some (s.onBlock job attempt timeouts r.words) := by
  rw [step, if_neg (by rw [Reply.isRmb_line hr]; simp), onLine]
  simp only [hphase, Reply.split_line hr]

theorem Sender.step_final_line
    {r : Reply} (hr : r.Printable) (hphase : s.phase = .final) {late : Bool} :
    s.step job (.line r.line late) = some (s.onFinal job r.words late) := by
  rw [step, if_neg (by rw [Reply.isRmb_line hr]; simp), onLine]
  simp only [hphase, Reply.split_line hr]

/-- A reply read by `_send_block`. -/
theorem Sender.block_reply
    {r : Reply} (hr : r.Printable) {attempt timeouts : Nat}
    (hphase : s.phase = .block attempt timeouts) {late : Bool}
    {s' : Sender} {out : List Command}
    (h : s.step job (.line r.line late) = some (s', out)) :
    BlockKind job s (some r) s' out := by
  rw [step_block_line hr hphase, Option.some.injEq, onBlock] at h
  have hacked : r.words.take 2 = ["ACK".toList, dec s.base] ↔ r = .ack s.base := by
    cases r <;> simp [Reply.words]
  split at h
  · rename_i hack
    cases h
    rw [hacked.mp hack]
    exact .acked attempt
  · rename_i hother
    have hne : r ≠ .ack s.base := fun heq => hother (hacked.mpr heq)
    split at h
    · rename_i hnak
      have hkind : BlockKind job s (some r) _ _ := sendAgain_kind attempt timeouts ?_
      · rw [h] at hkind
        exact hkind
      · rintro r' heq
        cases heq
        cases r with
        | nak e why => exact ⟨e, why, rfl⟩
        | _ => simp [Reply.words] at hnak
    · split at h
      · cases h
        exact .refused r _ hne
      · cases h
        exact .refused r _ hne

/-- The timeout of `_send_block`. -/
theorem Sender.block_timeout
    {attempt timeouts : Nat} (hphase : s.phase = .block attempt timeouts)
    {s' : Sender} {out : List Command}
    (h : s.step job .timeout = some (s', out)) :
    BlockKind job s none s' out := by
  rw [step, onTimeout] at h
  simp only [hphase, Option.some.injEq] at h
  rw [onBlockTimeout] at h
  split at h
  · cases h
    exact .failed _ (by decide) rfl (fun _ heq => by cases heq)
  · have hkind : BlockKind job s none _ _ :=
      sendAgain_kind attempt (timeouts + 1) (fun _ heq => by cases heq)
    rw [h] at hkind
    exact hkind

/-- The block loop between two blocks. -/
theorem Sender.fill_block
    (hflow : job.session.flow = false) {s' : Sender} {out : List Command}
    (h : s.step job .run = some (s', out)) :
    s.phase = .fill ∧
      (s.base < job.blocks ∧ s' = (s.sendBlock job 0 0).1 ∧ out = [job.rawFrame s.base] ∨
        job.blocks ≤ s.base ∧ s' = { s with phase := .final } ∧ out = [.done job.crc]) := by
  rw [step] at h
  split at h
  · rename_i hphase
    refine ⟨hphase, ?_⟩
    rw [if_neg (by rw [hflow]; simp), Option.some.injEq, fillBlock] at h
    split at h
    · rename_i hlt
      cases h
      exact Or.inl ⟨hlt, rfl, rfl⟩
    · rename_i hge
      cases h
      exact Or.inr ⟨Nat.le_of_not_lt hge, rfl, rfl⟩
  · cases h

/-- The phases of a transfer without FLOW. -/
def Sender.Unwindowed (s : Sender) : Prop :=
  match s.phase with
  | .ready => True
  | .fill => True
  | .block _ _ => True
  | .final => True
  | .returned _ => True
  | .raised _ => True
  | _ => False

/-- The outcomes of a read in a transfer without FLOW. -/
inductive Sender.PlainKind (job : Job) (s : Sender) :
    Option Reply → Sender → List Command → Prop
  | begin (hphase : s.phase = .ready) :
      PlainKind job s (some .ready) { s with phase := .fill } []
  | declined (r : Reply) (hphase : s.phase = .ready) (hr : r ≠ .ready) :
      PlainKind job s (some r) { s with phase := .returned none } []
  | block {reply : Option Reply} {s' : Sender} {out : List Command} (attempt timeouts : Nat)
      (hphase : s.phase = .block attempt timeouts) (hkind : s.BlockKind job reply s' out) :
      PlainKind job s reply s' out
  | verdict (r : Reply) (hphase : s.phase = .final) :
      PlainKind job s (some r)
        { s with phase := .returned (some (s.result job (decide (r = .ok job.crc)))) } []
  | silence (exc : PcutpError) (hphase : s.phase = .ready ∨ s.phase = .final)
      (hcls : exc.cls ≠ .protocol) :
      PlainKind job s none { s with phase := .raised exc } []

theorem Sender.plain_reply
    (hflow : job.session.flow = false) (hphase : s.Unwindowed)
    {r : Reply} (hr : r.Printable) {late : Bool} {s' : Sender} {out : List Command}
    (h : s.step job (.line r.line late) = some (s', out)) :
    s.PlainKind job (some r) s' out := by
  have honline : s.onLine job r.line late = some (s', out) := by
    rwa [step, if_neg (by rw [Reply.isRmb_line hr]; simp)] at h
  cases hp : s.phase with
  | ready =>
      rw [onLine, hp] at honline
      dsimp only at honline
      split at honline
      · rename_i hready
        cases honline
        rw [(Reply.line_eq_ready_iff hr).mp hready]
        exact .begin hp
      · rename_i hready
        cases honline
        exact .declined r hp (fun heq => hready ((Reply.line_eq_ready_iff hr).mpr heq))
  | block attempt timeouts => exact .block attempt timeouts hp (block_reply hr hp h)
  | final =>
      simp only [onLine, hp, Reply.split_line hr, Option.some.injEq] at honline
      have hverified : r.words.take 2 = ["OK".toList, job.crc] ↔ r = .ok job.crc := by
        cases r <;> simp [Reply.words]
      rw [onFinal, if_neg (by rw [hflow]; simp)] at honline
      simp only [hverified] at honline
      cases honline
      exact .verdict r hp
  | fill => simp [onLine, hp] at honline
  | returned => simp [onLine, hp] at honline
  | raised => simp [onLine, hp] at honline
  | _ => simp [Unwindowed, hp] at hphase

theorem Sender.plain_timeout
    (hphase : s.Unwindowed) {s' : Sender} {out : List Command}
    (h : s.step job .timeout = some (s', out)) :
    s.PlainKind job none s' out := by
  cases hp : s.phase with
  | ready =>
      rw [step, onTimeout, hp] at h
      cases h
      exact .silence _ (Or.inl hp) (by decide)
  | block attempt timeouts => exact .block attempt timeouts hp (block_timeout hp h)
  | final =>
      rw [step, onTimeout, hp] at h
      cases h
      exact .silence _ (Or.inr hp) (by decide)
  | fill => simp [step, onTimeout, hp] at h
  | returned => simp [step, onTimeout, hp] at h
  | raised => simp [step, onTimeout, hp] at h
  | _ => simp [Unwindowed, hp] at hphase

theorem Sender.PlainKind.unwindowed
    {reply : Option Reply} {s' : Sender} {out : List Command}
    (h : s.PlainKind job reply s' out) :
    s'.Unwindowed := by
  cases h with
  | block attempt timeouts hphase hkind => cases hkind <;> trivial
  | _ => trivial

end Block

section Trailing

variable {cfg : ClientConfig} {job : Job} {s s' : Transfer cfg}

/-- The number of blocks the receiver has counted. -/
def Client.counted (client : Client cfg) : Nat :=
  match client with
  | .receiving _ r => r.expected
  | _ => 0

/-- What holds of every transfer without FLOW over a line that loses and delays: the sender
trails behind the receiver. -/
structure Trailing (job : Job) (s : Transfer cfg) : Prop where
  phase : s.sender.Unwindowed
  block : ∀ attempt timeouts, s.sender.phase = .block attempt timeouts →
    s.sender.base < job.blocks
  commands : ∀ c ∈ s.commands, c = job.announcement ∨
    (∃ seq, seq ≤ s.sender.base ∧ seq < job.blocks ∧ c = job.rawFrame seq) ∨
    c = .done job.crc ∨ ∃ report, IsWord report ∧ c = .err report
  replies : ∀ r ∈ s.replies, r.Printable
  acks : ∀ n, Reply.ack n ∈ s.replies → n < s.client.counted
  base : s.sender.base ≤ s.client.counted
  awaiting : ∀ fetching, s.client = .awaiting fetching → fetching = true ∧ s.trace = []
  receiving : ∀ m r, s.client = .receiving m r →
    m.Matches job ∧ (∃ events, Recv.run m events = some (r, s.trace)) ∧ Effect.truncate ∉ s.trace
  written : writtenBlocks s.trace = List.range s.client.counted
  holds : Holds job s

/-- What a read makes the sender write without FLOW. -/
theorem Sender.PlainKind.writes
    {t t' : Sender} {reply : Option Reply} {out : List Command}
    (h : t.PlainKind job reply t' out) :
    t.base ≤ t'.base ∧
      ∀ c ∈ out, ((∃ attempt timeouts, t.phase = .block attempt timeouts) ∧
        c = job.rawFrame t.base) ∨ ∃ report, IsWord report ∧ c = .err report := by
  cases h with
  | block attempt timeouts hphase hkind =>
      cases hkind with
      | acked => exact ⟨Nat.le_succ _, fun _ hc => absurd hc List.not_mem_nil⟩
      | again =>
          exact ⟨Nat.le_refl _,
            fun c hc => Or.inl ⟨⟨attempt, timeouts, hphase⟩, List.mem_singleton.mp hc⟩⟩
      | failed exc hcls hcode =>
          refine ⟨Nat.le_refl _, fun c hc => Or.inr ⟨exc.code, ?_, List.mem_singleton.mp hc⟩⟩
          rw [hcode]
          exact Sender.isWord_code _
      | refused => exact ⟨Nat.le_refl _, fun _ hc => absurd hc List.not_mem_nil⟩
  | _ => exact ⟨Nat.le_refl _, fun _ hc => absurd hc List.not_mem_nil⟩

/-- The sender moves on only with an ACK of the block it has sent. -/
theorem Sender.PlainKind.base_cases
    {t t' : Sender} {reply : Option Reply} {out : List Command}
    (h : t.PlainKind job reply t' out) :
    t'.base = t.base ∨ reply = some (.ack t.base) ∧ t'.base = t.base + 1 := by
  cases h with
  | block attempt timeouts hphase hkind =>
      cases hkind with
      | acked => exact Or.inr ⟨rfl, rfl⟩
      | _ => exact Or.inl rfl
  | _ => exact Or.inl rfl

theorem Sender.PlainKind.block_of
    {t t' : Sender} {reply : Option Reply} {out : List Command}
    (h : t.PlainKind job reply t' out) {attempt timeouts : Nat}
    (hphase' : t'.phase = .block attempt timeouts) :
    t'.base = t.base ∧ ∃ attempt timeouts, t.phase = .block attempt timeouts := by
  cases h with
  | block attempt timeouts hphase hkind =>
      refine ⟨?_, _, _, hphase⟩
      cases hkind with
      | acked => cases hphase'
      | _ => rfl
  | _ => cases hphase'

/-- A read of the sender keeps it behind the receiver. -/
theorem Trailing.read
    (hs : Trailing job s) {reply : Option Reply} {replies : List Reply}
    {p : Sender × List Command}
    (hkind : s.sender.PlainKind job reply p.1 p.2)
    (hreplies : ∀ r, r ∈ replies ∨ reply = some r → r ∈ s.replies) :
    Trailing job ({ s with replies }.sent p) where
  phase := hkind.unwindowed
  block := fun attempt timeouts hphase => by
    obtain ⟨hbase, attempt', timeouts', hblock⟩ := hkind.block_of hphase
    rw [Transfer.sent, hbase]
    exact hs.block _ _ hblock
  commands := fun c hc => by
    obtain ⟨hle, hout⟩ := hkind.writes
    rcases List.mem_append.mp hc with hc | hc
    · rcases hs.commands c hc with h | ⟨seq, hseq, hlt, rfl⟩ | h
      · exact Or.inl h
      · exact Or.inr (Or.inl ⟨seq, hseq.trans hle, hlt, rfl⟩)
      · exact Or.inr (Or.inr h)
    · rcases hout c hc with ⟨⟨attempt, timeouts, hphase⟩, rfl⟩ | h
      · exact Or.inr (Or.inl ⟨_, hle, hs.block _ _ hphase, rfl⟩)
      · exact Or.inr (Or.inr (Or.inr h))
  replies := fun r hr => hs.replies r (hreplies r (Or.inl hr))
  acks := fun n hn => hs.acks n (hreplies _ (Or.inl hn))
  base := by
    rcases hkind.base_cases with hbase | ⟨rfl, hbase⟩
    · rw [Transfer.sent, hbase]
      exact hs.base
    · rw [Transfer.sent, hbase]
      exact hs.acks _ (hreplies _ (Or.inr rfl))
  awaiting := hs.awaiting
  receiving := hs.receiving
  written := hs.written
  holds := hs.holds

/-- The sender goes on to the next block, or to DONE. -/
theorem Trailing.fill
    (hs : Trailing job s) (hflow : job.session.flow = false) {p : Sender × List Command}
    (h : s.sender.step job .run = some p) :
    Trailing job (s.sent p) := by
  obtain ⟨s', out⟩ := p
  obtain ⟨_, hfill⟩ := Sender.fill_block hflow h
  rcases hfill with ⟨hlt, hp, hout⟩ | ⟨_, hp, hout⟩
  · refine
      { hs with
        phase := by rw [Transfer.sent, hp]; trivial
        block := fun _ _ _ => by rw [Transfer.sent, hp]; exact hlt
        commands := fun c hc => ?_
        base := by rw [Transfer.sent, hp]; exact hs.base }
    rw [Transfer.sent, hp]
    rcases List.mem_append.mp hc with hc | hc
    · exact hs.commands c hc
    · rw [hout] at hc
      exact Or.inr (Or.inl ⟨_, Nat.le_refl _, hlt, List.mem_singleton.mp hc⟩)
  · refine
      { hs with
        phase := by rw [Transfer.sent, hp]; trivial
        block := fun _ _ hphase => by rw [Transfer.sent, hp] at hphase; cases hphase
        commands := fun c hc => ?_
        base := by rw [Transfer.sent, hp]; exact hs.base }
    rw [Transfer.sent, hp]
    rcases List.mem_append.mp hc with hc | hc
    · exact hs.commands c hc
    · rw [hout] at hc
      exact Or.inr (Or.inr (Or.inl (List.mem_singleton.mp hc)))

theorem Trailing.inFlight
    (hs : Trailing job s) {c : Command} (hc : c ∈ s.commands) :
    job.InFlight c ∧ ∀ t, c ≠ .barrier t := by
  rcases hs.commands c hc with rfl | ⟨seq, _, hlt, rfl⟩ | rfl | ⟨report, hreport, rfl⟩
  · exact ⟨Or.inl rfl, by simp [Job.announcement]⟩
  · have hof : job.IsFrameOf seq (job.rawFrame seq) := Or.inl rfl
    exact ⟨Or.inr (Or.inl ⟨seq, hof.carries hlt⟩), by simp [Job.rawFrame]⟩
  · exact ⟨Or.inr (Or.inr rfl), by simp⟩
  · exact ⟨Or.inr (Or.inr hreport), by simp⟩

/-- A turn of the receiver of a transfer without FLOW: it answers, or stores the next block. -/
theorem Trailing.turn
    (hs : Trailing job s) (hflow : cfg.flow = false) {m : AcceptedMeta cfg} {r r' : Recv}
    {c : Command} {effects : List Effect} (hclient : s.client = .receiving m r)
    (hc : c ∈ s.commands) (h : Recv.Turn m job r c r' effects) :
    Effect.truncate ∉ effects ∧
      ((r'.expected = r.expected ∧ writtenBlocks effects = [] ∧
          ∀ n, Reply.ack n ∈ sends effects → n < r.expected) ∨
        (r'.expected = r.expected + 1 ∧ writtenBlocks effects = [r.expected] ∧
          ∀ n, Reply.ack n ∈ sends effects → n = r.expected)) := by
  have hbase : s.sender.base ≤ r.expected := by
    have := hs.base
    rwa [hclient] at this
  have hcommand := hs.commands c hc
  cases h with
  | ayt t => simp [Job.announcement, Job.rawFrame] at hcommand
  | rst t => simp [Job.announcement, Job.rawFrame] at hcommand
  | barrier t => simp [Job.announcement, Job.rawFrame] at hcommand
  | early => exact ⟨by simp, Or.inl ⟨rfl, rfl, by simp⟩⟩
  | refused => exact ⟨by simp, Or.inl ⟨rfl, rfl, by simp⟩⟩
  | verified => exact ⟨by simp, Or.inl ⟨rfl, rfl, by simp⟩⟩
  | raised => exact ⟨by simp, Or.inl ⟨rfl, rfl, by simp⟩⟩
  | frame seq c hcarries hkind =>
      have hle : seq ≤ s.sender.base ∧ c = job.rawFrame seq := by
        obtain ⟨hframe, hseq⟩ := hcarries.isFrame
        rcases hcommand with rfl | ⟨seq', hseq', _, rfl⟩ | rfl | ⟨report, _, rfl⟩
        · cases hframe
        · obtain rfl : seq' = seq := by simpa [Job.rawFrame, Command.seq?] using hseq
          exact ⟨hseq', rfl⟩
        · cases hframe
        · cases hframe
      cases hkind with
      | nak why hwhy hdamaged =>
          have hof : job.IsFrameOf seq c := Or.inl hle.2
          exact absurd hof.intact hdamaged
      | old hold =>
          refine ⟨by simp, Or.inl ⟨rfl, rfl, fun n hn => ?_⟩⟩
          simp only [hflow, sends_send, sends_nil, List.mem_singleton, Reply.ack.injEq] at hn
          simp only [Bool.false_eq_true, if_false] at hn
          omega
      | gap hgap => omega
      | store heq =>
          refine ⟨?_, Or.inr ⟨rfl, ?_, ?_⟩⟩
          · simp only [Recv.onBlock]
            split <;> simp
          · simp only [Recv.onBlock, heq]
            split <;> rfl
          · intro n hn
            simp only [Recv.onBlock] at hn
            split at hn <;> simpa [heq] using hn

theorem Trailing.pop
    (hs : Trailing job s) {commands : List Command} (hrest : ∀ c ∈ commands, c ∈ s.commands) :
    Trailing job { s with commands } :=
  { hs with commands := fun c hc => hs.commands c (hrest c hc) }

/-- Before META is read nothing has happened. -/
theorem Trailing.untouched
    (hs : Trailing job s) {fetching : Bool} (hclient : s.client = .awaiting fetching) :
    s.trace = [] ∧ s.sender.base = 0 ∧ ∀ n, Reply.ack n ∉ s.replies := by
  have hzero : s.client.counted = 0 := by
    rw [hclient]
    rfl
  refine ⟨(hs.awaiting fetching hclient).2, Nat.le_zero.mp (hzero ▸ hs.base), fun n hn => ?_⟩
  exact absurd (hzero ▸ hs.acks n hn) (Nat.not_lt_zero n)

/-- META is accepted. -/
theorem Trailing.accept
    (hs : Trailing job s) {fetching : Bool} (hclient : s.client = .awaiting fetching)
    {m : AcceptedMeta cfg} (hm : m.Matches job) :
    Trailing job (s.received (.receiving m Recv.start, Recv.startEffects m)) := by
  obtain ⟨htrace, hbase, hnone⟩ := hs.untouched hclient
  refine
    { phase := hs.phase
      block := hs.block
      commands := hs.commands
      replies := fun r hr => ?_
      acks := fun n hn => ?_
      base := hbase.le
      awaiting := fun _ heq => by cases heq
      receiving := fun m' r' heq => ?_
      written := ?_
      holds := fun m' r' heq => ?_ }
  · rcases List.mem_append.mp hr with hr | hr
    · exact hs.replies r hr
    · rw [List.mem_singleton.mp hr]
      trivial
  · rcases List.mem_append.mp hn with hn | hn
    · exact absurd hn (hnone n)
    · exact absurd (List.mem_singleton.mp hn) (by simp)
  · cases heq
    refine ⟨hm, ⟨[], ?_⟩, ?_⟩
    · simp [Transfer.received, htrace, Recv.run, Machine.run]
    · simp [Transfer.received, htrace, Recv.startEffects]
  · simp [Transfer.received, htrace, Recv.startEffects, writtenBlocks, Client.counted, Recv.start]
  · cases heq
    simp [Transfer.received, htrace, Recv.startEffects, sinceRestart, writtenBytes, Recv.start]

/-- META is refused, with a word of the receiver or without one. -/
theorem Trailing.refuse
    (hs : Trailing job s) {fetching : Bool} (hclient : s.client = .awaiting fetching)
    {exc : Raised} {effects : List Effect}
    (heffects : effects = [] ∨ ∃ code, IsWord code ∧ effects = [.send (.err code)]) :
    Trailing job (s.received (.stopped exc, effects)) := by
  obtain ⟨htrace, hbase, hnone⟩ := hs.untouched hclient
  refine
    { phase := hs.phase
      block := hs.block
      commands := hs.commands
      replies := fun r hr => ?_
      acks := fun n hn => ?_
      base := hbase.le
      awaiting := fun _ heq => by cases heq
      receiving := fun m' r' heq => by cases heq
      written := ?_
      holds := fun m' r' heq => by cases heq }
  · rcases List.mem_append.mp hr with hr | hr
    · exact hs.replies r hr
    · rcases heffects with rfl | ⟨code, hcode, rfl⟩
      · exact absurd hr List.not_mem_nil
      · rw [List.mem_singleton.mp hr]
        exact hcode
  · rcases List.mem_append.mp hn with hn | hn
    · exact absurd hn (hnone n)
    · rcases heffects with rfl | ⟨code, hcode, rfl⟩ <;> simp at hn
  · rcases heffects with rfl | ⟨code, hcode, rfl⟩ <;>
      simp [Transfer.received, htrace, writtenBlocks, Client.counted]

/-- A receiver at work answers a line. -/
theorem Trailing.answer
    (hs : Trailing job s) (hflow : cfg.flow = false) {m : AcceptedMeta cfg} {r : Recv}
    {c : Command} {q : Recv × List Effect} (hclient : s.client = .receiving m r)
    (hmem : c ∈ s.commands) (hq : r.read m c = some q) :
    Trailing job (s.received (.receiving m q.1, q.2)) := by
  obtain ⟨hm, ⟨events, hrun⟩, htruncate⟩ := hs.receiving m r hclient
  obtain ⟨hflight, hbarrier⟩ := hs.inFlight hmem
  have hturn : Recv.Turn m job r c q.1 q.2 :=
    Recv.read_turn_of hm (fun t ht => absurd ht (hbarrier t))
      (Recv.counts_run hrun).received_eq hflight hq
  obtain ⟨hfresh, hcases⟩ := hs.turn hflow hclient hmem hturn
  have hacks : ∀ n, Reply.ack n ∈ s.replies → n < r.expected := by
    intro n hn
    have := hs.acks n hn
    rwa [hclient] at this
  have hbase : s.sender.base ≤ r.expected := by
    have := hs.base
    rwa [hclient] at this
  have hwritten : writtenBlocks s.trace = List.range r.expected := by
    rw [hs.written, hclient]
    rfl
  refine
    { phase := hs.phase
      block := hs.block
      commands := hs.commands
      replies := fun reply hreply => ?_
      acks := fun n hn => ?_
      base := ?_
      awaiting := fun _ heq => by cases heq
      receiving := fun m' r' heq => ?_
      written := ?_
      holds := fun m' r' heq => ?_ }
  · exact (List.mem_append.mp hreply).elim (hs.replies reply) (turn_printable hturn reply)
  · change n < q.1.expected
    rcases hcases with ⟨hexp, _, hsends⟩ | ⟨hexp, _, hsends⟩ <;>
      rcases List.mem_append.mp hn with hn | hn
    · have := hacks n hn
      omega
    · have := hsends n hn
      omega
    · have := hacks n hn
      omega
    · have := hsends n hn
      omega
  · change s.sender.base ≤ q.1.expected
    rcases hcases with ⟨hexp, _⟩ | ⟨hexp, _⟩ <;> omega
  · cases heq
    refine ⟨hm, run_read hrun hq, ?_⟩
    rw [Transfer.received, List.mem_append, not_or]
    exact ⟨htruncate, hfresh⟩
  · change writtenBlocks (s.trace ++ q.2) = List.range q.1.expected
    rw [writtenBlocks_append, hwritten]
    rcases hcases with ⟨hexp, hnone, _⟩ | ⟨hexp, hone, _⟩
    · rw [hnone, hexp, List.append_nil]
    · rw [hone, hexp, List.range_succ]
  · cases heq
    exact turn_writes hturn (hs.holds m r hclient)

/-- The receiver reads a command. -/
theorem Trailing.command
    (hs : Trailing job s) (hpair : Paired job.session cfg) (hflow : job.session.flow = false)
    (h : s.step job .command = some s') :
    Trailing job s' := by
  rw [Transfer.step] at h
  split at h
  · cases h
  · rename_i c commands hcommands
    have hmem : c ∈ s.commands := hcommands ▸ List.mem_cons_self
    have hrest : ∀ c' ∈ commands, c' ∈ s.commands :=
      fun c' hc' => hcommands ▸ List.mem_cons_of_mem _ hc'
    rw [Option.map_eq_some_iff] at h
    obtain ⟨p, hp, rfl⟩ := h
    cases hclient : s.client with
    | awaiting fetching =>
        obtain ⟨rfl, _⟩ := hs.awaiting fetching hclient
        rw [hclient, Client.read, Option.some.injEq] at hp
        rcases onMeta_cases hpair (hs.inFlight hmem).1 with
          ⟨m, _, hm, hmeta⟩ | ⟨exc, effects, hmeta, heffects⟩
        · rw [hmeta] at hp
          cases hp
          exact (hs.pop hrest).accept hclient hm
        · rw [hmeta] at hp
          cases hp
          exact (hs.pop hrest).refuse hclient (heffects.imp_right And.right)
    | receiving m r =>
        rw [hclient, Client.read, Option.map_eq_some_iff] at hp
        obtain ⟨q, hq, rfl⟩ := hp
        exact (hs.answer (hpair.flow.trans hflow) hclient hmem hq).pop hrest
    | stopped exc =>
        rw [hclient, Client.read] at hp
        cases hp

/-- The steps of the receiver that read nothing store nothing. -/
theorem Client.act_cases
    {client : Client cfg} {ev : RecvEvent} {p : Client cfg × List Effect}
    (hev : ev = .commit true ∨ ev = .timeout) (h : client.act ev = some p) :
    (p.2 = [] ∨ p.2 = [.replace, .unlink]) ∧
      ((∃ fetching exc, client = .awaiting fetching ∧ p.1 = .stopped exc) ∨
        ∃ m r r', client = .receiving m r ∧ p.1 = .receiving m r' ∧
          r.step m ev = some (r', p.2) ∧ r'.expected = r.expected ∧ r'.phase ≠ .header) := by
  cases client with
  | awaiting fetching =>
      rcases hev with rfl | rfl
      · cases h
      · cases h
        exact ⟨Or.inl rfl, Or.inl ⟨_, _, rfl, rfl⟩⟩
  | receiving m r =>
      rw [act, Option.map_eq_some_iff] at h
      obtain ⟨q, hq, rfl⟩ := h
      rcases hev with rfl | rfl
      · have hstep := hq
        rw [Recv.step] at hstep
        split at hstep
        · cases hstep
          exact ⟨Or.inr rfl, Or.inr ⟨m, r, _, rfl, rfl, hq, rfl, by simp⟩⟩
        · cases hstep
      · have hstep := hq
        rw [Recv.step] at hstep
        split at hstep
        · cases hstep
          exact ⟨Or.inl rfl, Or.inr ⟨m, r, _, rfl, rfl, hq, rfl, by simp [Recv.raise]⟩⟩
        · cases hstep
  | stopped exc =>
      rcases hev with rfl | rfl <;> cases h

/-- The receiver gives up, or renames the file. -/
theorem Trailing.act
    (hs : Trailing job s) {ev : RecvEvent} (hev : ev = .commit true ∨ ev = .timeout)
    {p : Client cfg × List Effect} (h : s.client.act ev = some p) :
    Trailing job (s.received p) := by
  obtain ⟨heffects, hcases⟩ := Client.act_cases hev h
  have hsends : sends p.2 = [] := by
    rcases heffects with h | h <;> rw [h] <;> rfl
  have hblocks : writtenBlocks p.2 = [] := by
    rcases heffects with h | h <;> rw [h] <;> rfl
  have hfresh : Effect.truncate ∉ p.2 := by
    rcases heffects with h | h <;> rw [h] <;> simp
  have hcounted : p.1.counted = s.client.counted := by
    rcases hcases with ⟨_, _, hclient, hp⟩ | ⟨m, r, r', hclient, hp, _, hexp, _⟩
    · rw [hclient, hp]
      rfl
    · rw [hclient, hp]
      exact hexp
  refine
    { phase := hs.phase
      block := hs.block
      commands := hs.commands
      replies := fun r hr => hs.replies r (by simpa [Transfer.received, hsends] using hr)
      acks := fun n hn => ?_
      base := hcounted ▸ hs.base
      awaiting := fun _ heq => ?_
      receiving := fun m' r'' heq => ?_
      written := ?_
      holds := fun m' r'' heq => ?_ }
  · rw [Transfer.received, hcounted]
    exact hs.acks n (by simpa [Transfer.received, hsends] using hn)
  · rcases hcases with ⟨_, _, _, hp⟩ | ⟨_, _, _, _, hp, _⟩ <;>
      · rw [Transfer.received, hp] at heq
        cases heq
  · rcases hcases with ⟨_, _, _, hp⟩ | ⟨m, r, r', hclient, hp, hstep, _⟩
    · rw [Transfer.received, hp] at heq
      cases heq
    · rw [Transfer.received, hp] at heq
      cases heq
      obtain ⟨hm, ⟨events, hrun⟩, htruncate⟩ := hs.receiving _ r hclient
      refine ⟨hm, run_step hrun hstep, ?_⟩
      rw [Transfer.received, List.mem_append, not_or]
      exact ⟨htruncate, hfresh⟩
  · rw [Transfer.received, writtenBlocks_append, hblocks, List.append_nil, hcounted, hs.written]
  · rcases hcases with ⟨_, _, _, hp⟩ | ⟨m, r, r', hclient, hp, _, hexp, _⟩
    · rw [Transfer.received, hp] at heq
      cases heq
    · rw [Transfer.received, hp] at heq
      cases heq
      rw [Transfer.received, sinceRestart_append hfresh, writtenBytes_append, hexp,
        hs.holds _ r hclient]
      rcases heffects with h | h <;> simp [h, writtenBytes]

/-- What holds of a transfer without FLOW after any step of a line that loses and delays. -/
theorem Trailing.move
    (hs : Trailing job s) (hpair : Paired job.session cfg) (hflow : job.session.flow = false)
    {e : Event} (he : Faults.lossy.permit e = true) (h : s.step job e = some s') :
    Trailing job s' := by
  cases e with
  | run =>
      rw [Transfer.step, Option.map_eq_some_iff] at h
      obtain ⟨p, hp, rfl⟩ := h
      exact hs.fill hflow hp
  | timeout =>
      rw [Transfer.step, Option.map_eq_some_iff] at h
      obtain ⟨p, hp, rfl⟩ := h
      have hreplies : ∀ r, r ∈ s.replies ∨ none = some r → r ∈ s.replies :=
        fun r hr => hr.elim id (fun heq => by cases heq)
      exact hs.read (Sender.plain_timeout hs.phase hp) hreplies
  | reply late =>
      rw [Transfer.step] at h
      split at h
      · cases h
      · rename_i r replies hreplies
        rw [Option.map_eq_some_iff] at h
        obtain ⟨p, hp, rfl⟩ := h
        have hr : r ∈ s.replies := hreplies ▸ List.mem_cons_self
        refine hs.read (Sender.plain_reply hflow hs.phase (hs.replies r hr) hp) ?_
        rintro r' (hr' | heq)
        · exact hreplies ▸ List.mem_cons_of_mem _ hr'
        · cases heq
          exact hr
  | command => exact hs.command hpair hflow h
  | commit =>
      rw [Transfer.step, Option.map_eq_some_iff] at h
      obtain ⟨p, hp, rfl⟩ := h
      exact hs.act (Or.inl rfl) hp
  | giveUp =>
      rw [Transfer.step, Option.map_eq_some_iff] at h
      obtain ⟨p, hp, rfl⟩ := h
      exact hs.act (Or.inr rfl) hp
  | loseCommand i =>
      rw [Transfer.step] at h
      split at h <;> cases h
      exact { hs with commands := fun c hc => hs.commands c (List.mem_of_mem_eraseIdx hc) }
  | loseReply i =>
      rw [Transfer.step] at h
      split at h <;> cases h
      exact
        { hs with
          replies := fun r hr => hs.replies r (List.mem_of_mem_eraseIdx hr)
          acks := fun n hn => hs.acks n (List.mem_of_mem_eraseIdx hn) }
  | copyCommand i => cases he
  | copyReply i => cases he
  | swapCommands i => cases he
  | swapReplies i => cases he
  | damage i bytes => cases he

/-- The line is trailed in every state of a transfer without FLOW. -/
theorem trailing_start
    (barrier_id : Nat) (reset_token : Option Line) :
    Trailing job (Transfer.start cfg job barrier_id reset_token) where
  phase := trivial
  block := fun _ _ hphase => by cases hphase
  commands := fun c hc => Or.inl (List.mem_singleton.mp hc)
  replies := fun _ hr => absurd hr List.not_mem_nil
  acks := fun _ hn => absurd hn List.not_mem_nil
  base := Nat.le_refl _
  awaiting := fun _ heq => by
    cases heq
    exact ⟨rfl, rfl⟩
  receiving := fun _ _ heq => by cases heq
  written := rfl
  holds := fun _ _ heq => by cases heq

end Trailing

section Paced

variable {cfg : ClientConfig} {job : Job} {s s' : Transfer cfg}

/-- The ACK timer of `_send_block` runs out only when nothing is under way any more. -/
def Transfer.unhurried (s : Transfer cfg) : Event → Bool
  | .timeout =>
      match s.sender.phase with
      | .block _ _ => s.commands.isEmpty && s.replies.isEmpty
      | _ => true
  | _ => true

/-- The command a sender without FLOW waits to have answered. -/
def Sender.asks (job : Job) (s : Sender) (c : Command) : Prop :=
  match s.phase with
  | .ready => c = job.announcement
  | .block _ _ => c = job.rawFrame s.base
  | .final => c = .done job.crc
  | .returned _ => True
  | .raised _ => True
  | _ => False

/-- The answers to it. -/
def Sender.awaits (job : Job) (s : Sender) (r : Reply) : Prop :=
  match s.phase with
  | .ready => r = .ready ∨ ∃ code, r = .err code
  | .block _ _ => r = .ack s.base
  | .final => r = .ok job.crc
  | .returned _ => True
  | .raised _ => True
  | _ => False

/-- `send_file` has neither returned nor raised. -/
def Sender.Open (s : Sender) : Prop :=
  (∀ result, s.phase ≠ .returned result) ∧ ∀ exc, s.phase ≠ .raised exc

/-- What holds as long as no timer of `_send_block` is too early. -/
structure Paced (job : Job) (s : Transfer cfg) : Prop where
  trailing : Trailing job s
  asked : ∀ c ∈ s.commands, s.sender.asks job c
  awaited : ∀ r ∈ s.replies, s.sender.awaits job r
  single : s.sender.Open → s.commands.length + s.replies.length ≤ 1
  sent : s.sender.phase = .final → job.blocks ≤ s.sender.base
  verified : ∀ result, s.sender.phase = .returned (some result) → result.verified = true
  raised : ∀ exc, s.sender.phase = .raised exc → exc.cls ≠ .protocol

theorem Sender.asks_of_over
    {t : Sender} (hover : ¬ t.Open) :
    (∀ c, t.asks job c) ∧ ∀ r, t.awaits job r := by
  simp only [Open, not_and_or, not_forall, not_not] at hover
  rcases hover with ⟨result, hphase⟩ | ⟨exc, hphase⟩
  · exact ⟨fun _ => by simp [asks, hphase], fun _ => by simp [awaits, hphase]⟩
  · exact ⟨fun _ => by simp [asks, hphase], fun _ => by simp [awaits, hphase]⟩

theorem Sender.asks_cases
    {t : Sender} (hopen : t.Open) {c : Command} (h : t.asks job c) :
    (t.phase = .ready ∧ c = job.announcement) ∨
      ((∃ attempt timeouts, t.phase = .block attempt timeouts) ∧ c = job.rawFrame t.base) ∨
      (t.phase = .final ∧ c = .done job.crc) := by
  unfold asks at h
  split at h
  · exact Or.inl ⟨‹_›, h⟩
  · exact Or.inr (Or.inl ⟨⟨_, _, ‹_›⟩, h⟩)
  · exact Or.inr (Or.inr ⟨‹_›, h⟩)
  · exact absurd ‹_› (hopen.1 _)
  · exact absurd ‹_› (hopen.2 _)
  · cases h

/-- A turn of the receiver answers what the sender has asked, at most once. -/
theorem Paced.turn
    (hs : Paced job s) (hflow : cfg.flow = false) (hopen : s.sender.Open)
    {m : AcceptedMeta cfg} {r r' : Recv} {c : Command} {effects : List Effect}
    (hclient : s.client = .receiving m r) (hheader : r.phase = .header) (hc : c ∈ s.commands)
    (h : Recv.Turn m job r c r' effects) :
    (sends effects).length ≤ 1 ∧ ∀ reply ∈ sends effects, s.sender.awaits job reply := by
  obtain ⟨hm, ⟨events, hrun⟩, _⟩ := hs.trailing.receiving m r hclient
  have hbase : s.sender.base ≤ r.expected := by
    have := hs.trailing.base
    rwa [hclient] at this
  have hasks := Sender.asks_cases hopen (hs.asked c hc)
  have hnone : ∀ reply ∈ ([] : List Reply), s.sender.awaits job reply :=
    fun _ hr => absurd hr List.not_mem_nil
  cases h with
  | ayt t =>
      have := hs.trailing.commands _ hc
      simp [Job.announcement, Job.rawFrame] at this
  | rst t =>
      have := hs.trailing.commands _ hc
      simp [Job.announcement, Job.rawFrame] at this
  | barrier t =>
      have := hs.trailing.commands _ hc
      simp [Job.announcement, Job.rawFrame] at this
  | early => exact ⟨Nat.zero_le _, hnone⟩
  | raised => exact ⟨Nat.zero_le _, hnone⟩
  | refused hblocks hbad =>
      have hgood := Recv.agrees_of_stored hm hrun (hs.trailing.holds m r hclient) hheader
        (hblocks.trans hm.blocks)
      exact absurd hgood (by tauto)
  | verified hblocks hgood =>
      have hfinal : s.sender.phase = .final := by
        rcases hasks with ⟨_, heq⟩ | ⟨_, heq⟩ | ⟨hphase, _⟩
        · cases heq
        · cases heq
        · exact hphase
      refine ⟨Nat.le_refl _, fun reply hreply => ?_⟩
      rw [List.mem_singleton.mp hreply, Sender.awaits, hfinal, hgood.1, hm.crc32]
  | frame seq c hcarries hkind =>
      have hframe : s.sender.awaits job (.ack seq) ∧ seq ≤ s.sender.base ∧
          job.IsFrameOf seq c := by
        obtain ⟨hframe, hseq⟩ := hcarries.isFrame
        rcases hasks with ⟨_, rfl⟩ | ⟨⟨attempt, timeouts, hphase⟩, heq⟩ | ⟨_, rfl⟩
        · cases hframe
        · obtain rfl : s.sender.base = seq := by
            rw [heq] at hseq
            simpa [Job.rawFrame, Command.seq?] using hseq
          exact ⟨by simp [Sender.awaits, hphase], Nat.le_refl _, Or.inl heq⟩
        · cases hframe
      obtain ⟨hawaits, hle, hof⟩ := hframe
      have hone : ∀ reply ∈ [Reply.ack seq], s.sender.awaits job reply := by
        intro reply hreply
        rwa [List.mem_singleton.mp hreply]
      cases hkind with
      | nak why hwhy hdamaged => exact absurd hof.intact hdamaged
      | old hold =>
          rw [hflow, if_neg (by simp)]
          exact ⟨Nat.le_refl _, hone⟩
      | gap hgap => omega
      | store heq =>
          have hsends : sends (r.onBlock m seq (job.chunk seq)).2 = [.ack seq] := by
            simp only [Recv.onBlock]
            split <;> rfl
          rw [hsends]
          exact ⟨Nat.le_refl _, hone⟩

/-- What a command makes the receiver send answers what the sender has asked. -/
theorem Paced.answers
    (hs : Paced job s) (hpair : Paired job.session cfg) (hflow : job.session.flow = false)
    (hopen : s.sender.Open) {c : Command} {p : Client cfg × List Effect}
    (hc : c ∈ s.commands) (h : s.client.read c = some p) :
    (sends p.2).length ≤ 1 ∧ ∀ reply ∈ sends p.2, s.sender.awaits job reply := by
  obtain ⟨hflight, hbarrier⟩ := hs.trailing.inFlight hc
  cases hclient : s.client with
  | awaiting fetching =>
      obtain ⟨rfl, _⟩ := hs.trailing.awaiting fetching hclient
      -- META is on the line while the sender waits for READY.
      have hready : c = job.announcement → s.sender.phase = .ready := by
        intro heq
        rcases Sender.asks_cases hopen (hs.asked c hc) with ⟨hphase, _⟩ | ⟨_, hother⟩ | ⟨_, hother⟩
        · exact hphase
        · rw [heq] at hother
          cases hother
        · rw [heq] at hother
          cases hother
      rw [hclient, Client.read, Option.some.injEq] at h
      rcases onMeta_cases hpair hflight with ⟨m, hmeta, _, hread⟩ | ⟨exc, effects, hread, heffects⟩
      · rw [hread] at h
        cases h
        refine ⟨Nat.le_refl _, fun reply hreply => ?_⟩
        rw [List.mem_singleton.mp hreply, Sender.awaits, hready hmeta]
        exact Or.inl rfl
      · rw [hread] at h
        cases h
        rcases heffects with rfl | ⟨hmeta, code, _, rfl⟩
        · exact ⟨Nat.zero_le _, fun _ hr => absurd hr List.not_mem_nil⟩
        · refine ⟨Nat.le_refl _, fun reply hreply => ?_⟩
          rw [List.mem_singleton.mp hreply, Sender.awaits, hready hmeta]
          exact Or.inr ⟨code, rfl⟩
  | receiving m r =>
      rw [hclient, Client.read, Option.map_eq_some_iff] at h
      obtain ⟨q, hq, rfl⟩ := h
      obtain ⟨hm, ⟨events, hrun⟩, _⟩ := hs.trailing.receiving m r hclient
      have hturn : Recv.Turn m job r c q.1 q.2 :=
        Recv.read_turn_of hm (fun t ht => absurd ht (hbarrier t))
          (Recv.counts_run hrun).received_eq hflight hq
      exact hs.turn (hpair.flow.trans hflow) hopen hclient (Recv.header_of_read hq) hc hturn
  | stopped exc =>
      rw [hclient, Client.read] at h
      cases h

/-- A command read by the receiver. -/
theorem Paced.command
    (hs : Paced job s) (hpair : Paired job.session cfg) (hflow : job.session.flow = false)
    (h : s.step job .command = some s') :
    Paced job s' := by
  have htrailing := hs.trailing.command hpair hflow h
  rw [Transfer.step] at h
  split at h
  · cases h
  · rename_i c commands hcommands
    rw [Option.map_eq_some_iff] at h
    obtain ⟨p, hp, rfl⟩ := h
    have hc : c ∈ s.commands := hcommands ▸ List.mem_cons_self
    refine
      { trailing := htrailing
        asked := fun c' hc' => hs.asked c' (hcommands ▸ List.mem_cons_of_mem _ hc')
        awaited := fun r hr => ?_
        single := fun hopen => ?_
        sent := hs.sent
        verified := hs.verified
        raised := hs.raised }
    · rcases List.mem_append.mp hr with hr | hr
      · exact hs.awaited r hr
      · by_cases hopen : s.sender.Open
        · exact (hs.answers hpair hflow hopen hc hp).2 r hr
        · exact (Sender.asks_of_over hopen).2 r
    · have hone := hs.single hopen
      have hanswer := (hs.answers hpair hflow hopen hc hp).1
      rw [hcommands, List.length_cons] at hone
      rw [Transfer.received, List.length_append]
      dsimp only
      omega

theorem Sender.PlainKind.open
    {t t' : Sender} {reply : Option Reply} {out : List Command}
    (h : t.PlainKind job reply t' out) :
    t.Open := by
  cases h with
  | begin hphase => simp [Open, hphase]
  | declined r hphase => simp [Open, hphase]
  | block attempt timeouts hphase => simp [Open, hphase]
  | verdict r hphase => simp [Open, hphase]
  | silence exc hphase => rcases hphase with hphase | hphase <;> simp [Open, hphase]

/-- Once the sender is done, nothing is promised but its verdict. -/
theorem Paced.of_over
    (htrailing : Trailing job s) (hover : ¬ s.sender.Open)
    (hverified : ∀ result, s.sender.phase = .returned (some result) → result.verified = true)
    (hraised : ∀ exc, s.sender.phase = .raised exc → exc.cls ≠ .protocol) :
    Paced job s where
  trailing := htrailing
  asked := fun c _ => (Sender.asks_of_over hover).1 c
  awaited := fun r _ => (Sender.asks_of_over hover).2 r
  single := fun hopen => absurd hopen hover
  sent := fun hphase => absurd ⟨by simp [hphase], by simp [hphase]⟩ hover
  verified := hverified
  raised := hraised

/-- A reply read by the sender is the only line under way, and the one it awaits. -/
theorem Paced.replied
    (hs : Paced job s) (hflow : job.session.flow = false) {late : Bool}
    (htrailing : Trailing job s') (h : s.step job (.reply late) = some s') :
    Paced job s' := by
  rw [Transfer.step] at h
  split at h
  · cases h
  · rename_i r replies hreplies
    rw [Option.map_eq_some_iff] at h
    obtain ⟨p, hp, rfl⟩ := h
    have hr : r ∈ s.replies := hreplies ▸ List.mem_cons_self
    have hkind := Sender.plain_reply hflow hs.trailing.phase (hs.trailing.replies r hr) hp
    have hawaits := hs.awaited r hr
    have hone := hs.single hkind.open
    rw [hreplies, List.length_cons] at hone
    obtain rfl : replies = [] := List.length_eq_zero_iff.mp (by omega)
    have hcommands : s.commands = [] := List.length_eq_zero_iff.mp (by omega)
    have hfilled : ∀ t : Sender, t.phase = .fill → p = (t, []) →
        Paced job ({ s with replies := [] }.sent p) := by
      rintro t hphase rfl
      exact
        { trailing := htrailing
          asked := fun c hc => by simp [Transfer.sent, hcommands] at hc
          awaited := fun r hr => absurd hr List.not_mem_nil
          single := fun _ => by simp [Transfer.sent, hcommands]
          sent := fun hfinal => by simp [Transfer.sent, hphase] at hfinal
          verified := fun _ hret => by simp [Transfer.sent, hphase] at hret
          raised := fun _ hraise => by simp [Transfer.sent, hphase] at hraise }
    cases p with
    | mk t out =>
        cases hkind with
        | begin hphase => exact hfilled _ rfl rfl
        | declined r hphase =>
            exact .of_over htrailing (by simp [Transfer.sent, Sender.Open])
              (fun _ hret => by cases hret) (fun _ hraise => by cases hraise)
        | block attempt timeouts hphase hkind =>
            obtain rfl : r = .ack s.sender.base := by
              simpa [Sender.awaits, hphase] using hawaits
            have hnak : ¬ ∀ r, some (Reply.ack s.sender.base) = some r →
                ∃ e why, r = .nak e why := by
              intro hall
              obtain ⟨e, why, heq⟩ := hall _ rfl
              cases heq
            cases hkind with
            | acked attempt => exact hfilled _ rfl rfl
            | again attempt timeouts hreply => exact absurd hreply hnak
            | failed exc hcls hcode hreply => exact absurd hreply hnak
            | refused r exc hr => exact absurd rfl hr
        | verdict r hphase =>
            obtain rfl : r = .ok job.crc := by
              simpa [Sender.awaits, hphase] using hawaits
            refine .of_over htrailing (by simp [Transfer.sent, Sender.Open]) ?_
              (fun _ hraise => by cases hraise)
            intro result hret
            cases hret
            simp [Sender.result]

/-- A timer that runs out when nothing is under way. -/
theorem Paced.timed
    (hs : Paced job s) (hunhurried : s.unhurried .timeout = true)
    (htrailing : Trailing job s') (h : s.step job .timeout = some s') :
    Paced job s' := by
  rw [Transfer.step, Option.map_eq_some_iff] at h
  obtain ⟨p, hp, rfl⟩ := h
  have hkind := Sender.plain_timeout hs.trailing.phase hp
  cases p with
  | mk t out =>
      cases hkind with
      | block attempt timeouts hphase hkind =>
          obtain ⟨hcommands, hreplies⟩ : s.commands = [] ∧ s.replies = [] := by
            simpa [Transfer.unhurried, hphase] using hunhurried
          cases hkind with
          | again attempt timeouts =>
              exact
                { trailing := htrailing
                  asked := fun c hc => by
                    simpa [Transfer.sent, hcommands, Sender.sendBlock, Sender.asks] using hc
                  awaited := fun r hr => by simp [Transfer.sent, hreplies] at hr
                  single := fun _ => by
                    simp [Transfer.sent, hcommands, hreplies]
                  sent := fun hfinal => by cases hfinal
                  verified := fun _ hret => by cases hret
                  raised := fun _ hraise => by cases hraise }
          | failed exc hcls =>
              refine .of_over htrailing (by simp [Transfer.sent, Sender.Open])
                (fun _ hret => by cases hret) (fun _ hraise => ?_)
              cases hraise
              exact hcls
      | silence exc hphase hcls =>
          refine .of_over htrailing (by simp [Transfer.sent, Sender.Open])
            (fun _ hret => by cases hret) (fun _ hraise => ?_)
          cases hraise
          exact hcls

/-- The next frame, or DONE, is the only line under way. -/
theorem Paced.fill
    (hs : Paced job s) (hflow : job.session.flow = false)
    (htrailing : Trailing job s') (h : s.step job .run = some s') :
    Paced job s' := by
  rw [Transfer.step, Option.map_eq_some_iff] at h
  obtain ⟨p, hp, rfl⟩ := h
  obtain ⟨q, out⟩ := p
  obtain ⟨hphase, hfill⟩ := Sender.fill_block hflow hp
  have hcommands : s.commands = [] := by
    refine List.eq_nil_iff_forall_not_mem.mpr (fun c hc => ?_)
    simpa [Sender.asks, hphase] using hs.asked c hc
  have hreplies : s.replies = [] := by
    refine List.eq_nil_iff_forall_not_mem.mpr (fun r hr => ?_)
    simpa [Sender.awaits, hphase] using hs.awaited r hr
  rcases hfill with ⟨_, rfl, rfl⟩ | ⟨hsent, rfl, rfl⟩
  · exact
      { trailing := htrailing
        asked := fun c hc => by
          simpa [Transfer.sent, hcommands, Sender.sendBlock, Sender.asks] using hc
        awaited := fun r hr => by simp [Transfer.sent, hreplies] at hr
        single := fun _ => by simp [Transfer.sent, hcommands, hreplies]
        sent := fun hfinal => by cases hfinal
        verified := fun _ hret => by cases hret
        raised := fun _ hraise => by cases hraise }
  · exact
      { trailing := htrailing
        asked := fun c hc => by
          simpa [Transfer.sent, hcommands, Sender.asks] using hc
        awaited := fun r hr => by simp [Transfer.sent, hreplies] at hr
        single := fun _ => by simp [Transfer.sent, hcommands, hreplies]
        sent := fun _ => hsent
        verified := fun _ hret => by cases hret
        raised := fun _ hraise => by cases hraise }

/-- What holds of a transfer whose timers are never too early. -/
theorem Paced.move
    (hs : Paced job s) (hpair : Paired job.session cfg) (hflow : job.session.flow = false)
    {e : Event} (he : Faults.lossy.permit e = true) (hunhurried : s.unhurried e = true)
    (h : s.step job e = some s') :
    Paced job s' := by
  have htrailing := hs.trailing.move hpair hflow he h
  have hact : ∀ {p : Client cfg × List Effect}, sends p.2 = [] →
      Trailing job (s.received p) → Paced job (s.received p) := by
    intro p hsends htrailing
    exact
      { trailing := htrailing
        asked := hs.asked
        awaited := fun r hr => hs.awaited r (by simpa [Transfer.received, hsends] using hr)
        single := fun hopen => by simpa [Transfer.received, hsends] using hs.single hopen
        sent := hs.sent
        verified := hs.verified
        raised := hs.raised }
  have hquiet : ∀ {ev : RecvEvent} {p : Client cfg × List Effect},
      ev = .commit true ∨ ev = .timeout → s.client.act ev = some p → sends p.2 = [] := by
    intro ev p hev hp
    rcases (Client.act_cases hev hp).1 with heffects | heffects <;> rw [heffects] <;> rfl
  cases e with
  | run => exact hs.fill hflow htrailing h
  | timeout => exact hs.timed hunhurried htrailing h
  | reply late => exact hs.replied hflow htrailing h
  | command => exact hs.command hpair hflow h
  | commit =>
      rw [Transfer.step, Option.map_eq_some_iff] at h
      obtain ⟨p, hp, rfl⟩ := h
      exact hact (hquiet (Or.inl rfl) hp) htrailing
  | giveUp =>
      rw [Transfer.step, Option.map_eq_some_iff] at h
      obtain ⟨p, hp, rfl⟩ := h
      exact hact (hquiet (Or.inr rfl) hp) htrailing
  | loseCommand i =>
      rw [Transfer.step] at h
      split at h <;> cases h
      refine
        { hs with
          trailing := htrailing
          asked := fun c hc => hs.asked c (List.mem_of_mem_eraseIdx hc)
          single := fun hopen => ?_ }
      have hle := (List.eraseIdx_sublist s.commands i).length_le
      have := hs.single hopen
      dsimp only
      omega
  | loseReply i =>
      rw [Transfer.step] at h
      split at h <;> cases h
      refine
        { hs with
          trailing := htrailing
          awaited := fun r hr => hs.awaited r (List.mem_of_mem_eraseIdx hr)
          single := fun hopen => ?_ }
      have hle := (List.eraseIdx_sublist s.replies i).length_le
      have := hs.single hopen
      dsimp only
      omega
  | copyCommand i => cases he
  | copyReply i => cases he
  | swapCommands i => cases he
  | swapReplies i => cases he
  | damage i bytes => cases he

theorem paced_start
    (barrier_id : Nat) (reset_token : Option Line) :
    Paced job (Transfer.start cfg job barrier_id reset_token) where
  trailing := trailing_start barrier_id reset_token
  asked := fun c hc => List.mem_singleton.mp hc
  awaited := fun _ hr => absurd hr List.not_mem_nil
  single := fun _ => Nat.le_refl _
  sent := fun hphase => by cases hphase
  verified := fun _ hphase => by cases hphase
  raised := fun _ hphase => by cases hphase

end Paced

section Surplus

variable {cfg : ClientConfig} {job : Job} {s s' : Transfer cfg}

/-- The receiver waits for a header. -/
def Transfer.Listens (s : Transfer cfg) : Prop :=
  ∃ m r, s.client = .receiving m r ∧ r.phase = .header

/-- `send_file` has read a repeated ACK as something else. -/
def Transfer.Misread (s : Transfer cfg) : Prop :=
  (∃ exc, s.sender.phase = .raised exc ∧ exc.cls = .protocol) ∨
    ∃ result, s.sender.phase = .returned (some result) ∧ result.verified = false

/-- Every frame of the block is acknowledged, whether or not the block is stored. -/
theorem Trailing.acknowledges
    (hs : Trailing job s) (hflow : cfg.flow = false) (hlistens : s.Listens)
    {commands : List Command} (hcommands : s.commands = job.rawFrame s.sender.base :: commands)
    (hlt : s.sender.base < job.blocks) :
    ∃ s', s.step job .command = some s' ∧ s'.sender = s.sender ∧ s'.commands = commands ∧
      s'.replies = s.replies ++ [.ack s.sender.base] ∧ s'.Listens := by
  obtain ⟨m, r, hclient, hheader⟩ := hlistens
  obtain ⟨hm, ⟨events, hrun⟩, _⟩ := hs.receiving m r hclient
  have hof : job.IsFrameOf s.sender.base (job.rawFrame s.sender.base) := Or.inl rfl
  have hbase : s.sender.base ≤ r.expected := by
    have := hs.base
    rwa [hclient] at this
  obtain ⟨r', effects, hread, hkind⟩ :=
    Recv.read_frame hm hheader (Recv.counts_run hrun).received_eq (hof.carries hlt)
  have hstep : s.step job .command =
      some ({ s with commands }.received (.receiving m r', effects)) := by
    simp [Transfer.step, hcommands, hclient, Client.read, hread]
  refine ⟨_, hstep, rfl, rfl, ?_, m, r', rfl, ?_⟩
  · cases hkind with
    | nak why hwhy hdamaged => exact absurd hof.intact hdamaged
    | old hold => simp [Transfer.received, hflow]
    | gap hgap => omega
    | store heq =>
        simp only [Transfer.received, Recv.onBlock]
        split <;> rfl
  · cases hkind with
    | nak why hwhy hdamaged => exact absurd hof.intact hdamaged
    | old hold => exact hheader
    | gap hgap => omega
    | store heq => exact hheader

/-- Two answers to one block make the sender misread the second. -/
theorem misread_of_surplus
    (hflow : job.session.flow = false) {attempt timeouts : Nat}
    (hphase : s.sender.phase = .block attempt timeouts)
    (hreplies : s.replies = [.ack s.sender.base, .ack s.sender.base]) :
    ∃ s', Transfer.Leads .lossy job s s' ∧ s'.Misread := by
  obtain ⟨sender, client, commands, replies, written, trace⟩ := s
  dsimp only at hphase hreplies
  subst hreplies
  -- The first ACK ends the block.
  let t : Sender :=
    { sender with
      phase := .fill, base := sender.base + 1, retransmits := sender.retransmits + attempt }
  have hfirst : Transition.Next (Transfer.step job) (fun _ e => Faults.lossy.permit e = true)
      ⟨sender, client, commands, [.ack sender.base, .ack sender.base], written, trace⟩
      ⟨t, client, commands, [.ack sender.base], written, trace⟩ := by
    refine ⟨.reply false, rfl, ?_⟩
    simp [Transfer.step, Sender.step_block_ack hphase, Transfer.sent, t]
  by_cases hlt : t.base < job.blocks
  · -- The second is read for the next block.
    let u := (t.sendBlock job 0 0).1
    have hrun : Transition.Next (Transfer.step job) (fun _ e => Faults.lossy.permit e = true)
        ⟨t, client, commands, [.ack sender.base], written, trace⟩
        ⟨u, client, commands ++ [job.rawFrame t.base], [.ack sender.base],
          written ++ [job.rawFrame t.base], trace⟩ := by
      refine ⟨.run, rfl, ?_⟩
      simp [Transfer.step, Sender.step, hflow, Sender.fillBlock, hlt, Transfer.sent, t, u,
        Sender.sendBlock]
    have hlast : Transition.Next (Transfer.step job) (fun _ e => Faults.lossy.permit e = true)
        ⟨u, client, commands ++ [job.rawFrame t.base], [.ack sender.base],
          written ++ [job.rawFrame t.base], trace⟩
        ⟨{ u with phase := .raised (ProtocolError "unexpected reply to DATA") }, client,
          commands ++ [job.rawFrame t.base], [], written ++ [job.rawFrame t.base], trace⟩ := by
      refine ⟨.reply false, rfl, ?_⟩
      have hline : u.step job (.line (Reply.ack sender.base).line false) =
          some (u.onBlock job 0 0 (Reply.ack sender.base).words) :=
        Sender.step_block_line (show (Reply.ack sender.base).Printable from trivial) rfl
      have hother : u.onBlock job 0 0 (Reply.ack sender.base).words =
          u.raise (ProtocolError "unexpected reply to DATA") := by
        simp [Sender.onBlock, Reply.words, u, t, Sender.sendBlock]
      rw [hother] at hline
      simp [Transfer.step, hline, Transfer.sent, Sender.raise]
    exact ⟨_, ((Relation.ReflTransGen.single hfirst).tail hrun).tail hlast,
      Or.inl ⟨_, rfl, rfl⟩⟩
  · -- The second is read for the final reply.
    let u : Sender := { t with phase := .final }
    have hrun : Transition.Next (Transfer.step job) (fun _ e => Faults.lossy.permit e = true)
        ⟨t, client, commands, [.ack sender.base], written, trace⟩
        ⟨u, client, commands ++ [.done job.crc], [.ack sender.base],
          written ++ [.done job.crc], trace⟩ := by
      refine ⟨.run, rfl, ?_⟩
      simp [Transfer.step, Sender.step, hflow, Sender.fillBlock, hlt, Transfer.sent, t, u]
    have hlast : Transition.Next (Transfer.step job) (fun _ e => Faults.lossy.permit e = true)
        ⟨u, client, commands ++ [.done job.crc], [.ack sender.base],
          written ++ [.done job.crc], trace⟩
        ⟨{ u with phase := .returned (some (u.result job false)) }, client,
          commands ++ [.done job.crc], [], written ++ [.done job.crc], trace⟩ := by
      refine ⟨.reply false, rfl, ?_⟩
      have hline : u.step job (.line (Reply.ack sender.base).line false) =
          some (u.onFinal job (Reply.ack sender.base).words false) :=
        Sender.step_final_line (show (Reply.ack sender.base).Printable from trivial) rfl
      have hother : u.onFinal job (Reply.ack sender.base).words false =
          ({ u with phase := .returned (some (u.result job false)) }, []) := by
        simp [Sender.onFinal, Reply.words, hflow]
      rw [hother] at hline
      simp [Transfer.step, hline, Transfer.sent]
    exact ⟨_, ((Relation.ReflTransGen.single hfirst).tail hrun).tail hlast,
      Or.inr ⟨_, rfl, rfl⟩⟩

/-- A frame that was sent again too early can be answered twice. -/
theorem surplus_of_hasty
    (hs : Paced job s) (hpair : Paired job.session cfg) (hflow : job.session.flow = false)
    (hhasty : s.unhurried .timeout = false) (hlistens : s.Listens)
    (hstep : s.step job .timeout = some s') {attempt timeouts : Nat}
    (hphase' : s'.sender.phase = .block attempt timeouts) :
    ∃ s'', Transfer.Leads .lossy job s' s'' ∧ s''.sender = s'.sender ∧
      s''.replies = [.ack s'.sender.base, .ack s'.sender.base] := by
  have hs' := hs.trailing.move hpair hflow rfl hstep
  have hlt := hs'.block _ _ hphase'
  obtain ⟨hcommands, hreplies, hbase, hclient, hopen, hsome⟩ :
      s'.commands = s.commands ++ [job.rawFrame s'.sender.base] ∧ s'.replies = s.replies ∧
        s'.sender.base = s.sender.base ∧ s'.client = s.client ∧ s.sender.Open ∧
        (∃ attempt timeouts, s.sender.phase = .block attempt timeouts) := by
    rw [Transfer.step, Option.map_eq_some_iff] at hstep
    obtain ⟨p, hp, rfl⟩ := hstep
    have hkind := Sender.plain_timeout hs.trailing.phase hp
    have hopen := hkind.open
    cases p with
    | mk t out =>
        cases hkind with
        | block attempt timeouts hphase hkind =>
            cases hkind with
            | again attempt timeouts => exact ⟨rfl, rfl, rfl, rfl, hopen, _, _, hphase⟩
            | failed => cases hphase'
        | silence => cases hphase'
  obtain ⟨attempt₀, timeouts₀, hphase⟩ := hsome
  have hlistens' : s'.Listens := by
    obtain ⟨m, r, hc, hheader⟩ := hlistens
    exact ⟨m, r, hclient.trans hc, hheader⟩
  have hsingle := hs.single hopen
  have hcfg : cfg.flow = false := hpair.flow.trans hflow
  cases hline : s.commands with
  | nil =>
      -- The ACK is on its way.
      have hack : s.replies = [.ack s'.sender.base] := by
        cases hr : s.replies with
        | nil => simp [Transfer.unhurried, hphase, hline, hr] at hhasty
        | cons r rest =>
            have hawaits := hs.awaited r (hr ▸ List.mem_cons_self)
            obtain rfl : rest = [] := by
              rw [hr, List.length_cons] at hsingle
              exact List.length_eq_zero_iff.mp (by omega)
            simp only [Sender.awaits, hphase] at hawaits
            rw [hawaits, hbase]
      rw [hline, List.nil_append] at hcommands
      obtain ⟨s₁, hread, hsender, _, hreplies₁, _⟩ :=
        hs'.acknowledges hcfg hlistens' hcommands hlt
      exact ⟨s₁, .single ⟨.command, rfl, hread⟩, hsender, by rw [hreplies₁, hreplies, hack]; rfl⟩
  | cons c rest =>
      -- The frame is on its way.
      have hasks := hs.asked c (hline ▸ List.mem_cons_self)
      simp only [Sender.asks, hphase, ← hbase] at hasks
      obtain ⟨rfl, hnone⟩ : rest = [] ∧ s.replies = [] := by
        rw [hline, List.length_cons] at hsingle
        exact ⟨List.length_eq_zero_iff.mp (by omega), List.length_eq_zero_iff.mp (by omega)⟩
      rw [hline, hasks] at hcommands
      obtain ⟨s₁, hread, hsender, hcommands₁, hreplies₁, hlistens₁⟩ :=
        hs'.acknowledges hcfg hlistens' hcommands hlt
      have hs₁ := hs'.move hpair hflow rfl hread
      rw [← hsender] at hcommands₁ hlt
      obtain ⟨s₂, hread₂, hsender₂, _, hreplies₂, _⟩ :=
        hs₁.acknowledges hcfg hlistens₁ hcommands₁ hlt
      refine ⟨s₂, (Relation.ReflTransGen.single ⟨.command, rfl, hread⟩).tail
        ⟨.command, rfl, hread₂⟩, hsender₂.trans hsender, ?_⟩
      rw [hreplies₂, hreplies₁, hreplies, hnone, hsender]
      rfl

/-- Stop-and-wait stores every block once, and tolerates delayed acknowledgements as long as
no ACK timer runs out while its exchange is under way. -/
theorem stop_and_wait_tolerates_iff_unhurried
    (job : Job) (cfg : ClientConfig) (hflow : job.session.flow = false)
    (hpair : Paired job.session cfg) (barrier_id : Nat) (reset_token : Option Line) :
    (∀ s, Transfer.Leads .lossy job (Transfer.start cfg job barrier_id reset_token) s →
      writtenBlocks s.trace = List.range s.client.counted ∧
        (s.client.saved = true → s.client.counted = job.blocks)) ∧
    ∀ s, Transition.Steps (Transfer.step job)
        (fun s e => Faults.lossy.permit e = true ∧ s.unhurried e = true)
        (Transfer.start cfg job barrier_id reset_token) s →
      ¬ s.Misread ∧
        ∀ s', s.step job .timeout = some s' → s.unhurried .timeout = false → s.Listens →
          (∃ attempt timeouts, s'.sender.phase = .block attempt timeouts) →
          ∃ s'', Transfer.Leads .lossy job s' s'' ∧ s''.Misread := by
  constructor
  · intro s hleads
    have hs : Trailing job s :=
      Transition.Steps.invariant (Trailing job)
        (fun _ _ _ hs he hstep => hs.move hpair hflow he hstep) hleads
        (trailing_start barrier_id reset_token)
    refine ⟨hs.written, fun hsaved => ?_⟩
    obtain ⟨m, r, hclient, hphase⟩ := Client.saved_iff.mp hsaved
    obtain ⟨hm, ⟨events, hrun⟩, _⟩ := hs.receiving m r hclient
    obtain ⟨⟨hblocks, _, _⟩, _⟩ := (Recv.counts_run hrun).returned hphase
    rw [hclient, Client.counted, hblocks, hm.blocks]
  · intro s hsteps
    have hs : Paced job s :=
      Transition.Steps.invariant (Paced job)
        (fun _ _ _ hs he hstep => hs.move hpair hflow he.1 he.2 hstep) hsteps
        (paced_start barrier_id reset_token)
    constructor
    · rintro (⟨exc, hphase, hcls⟩ | ⟨result, hphase, hverified⟩)
      · exact hs.raised exc hphase hcls
      · rw [hs.verified result hphase] at hverified
        cases hverified
    · rintro s' hstep hhasty hlistens ⟨attempt, timeouts, hphase⟩
      obtain ⟨s₁, hleads₁, hsender, hreplies⟩ :=
        surplus_of_hasty hs hpair hflow hhasty hlistens hstep hphase
      rw [← hsender] at hphase hreplies
      obtain ⟨s₂, hleads₂, hmisread⟩ := misread_of_surplus hflow hphase hreplies
      exact ⟨s₂, hleads₁.trans hleads₂, hmisread⟩

end Surplus

section Slow

/-- A session without FLOW, with blocks of one byte. -/
def slowSession : Session where
  config := smallServer
  negotiated_block_limit := 1
  window_size := 1
  flow := false
  compression := false
  identity := true
  block_ok := oneByte_ok
  window_ok := plainWindow_ok
  compression_flow := plainCompression_flow
  window_flow := plainWindow_flow

/-- The transfer of a file named `A` in such a session. -/
def slowJob (data : Bytes) : Job :=
  { smallJob data with session := slowSession }

/-- The receiver of such a session. -/
def slowClient : ClientConfig :=
  { smallClient with flow := false }

theorem slow_paired :
    Paired slowSession slowClient :=
  ⟨rfl, rfl, by decide⟩

/-- The timer of the only block runs out while its ACK is under way: the file is stored, and the
second ACK is taken for the verdict.  With a second block it is taken for a wrong reply. -/
theorem stop_and_wait_misreads :
    (∃ (s : Transfer slowClient) (result : TransferResult),
      Transfer.Leads .lossy (slowJob [65]) (Transfer.start slowClient (slowJob [65]) 0 none) s ∧
        s.sender.phase = .returned (some result) ∧ result.verified = false ∧
        s.client.saved = true) ∧
    ∃ (s : Transfer slowClient) (exc : PcutpError),
      Transfer.Leads .lossy (slowJob [65, 66])
          (Transfer.start slowClient (slowJob [65, 66]) 0 none) s ∧
        s.sender.phase = .raised exc ∧ exc = ProtocolError "unexpected reply to DATA" := by
  constructor
  · let events : List Event :=
      [.command, .reply false, .run, .command, .timeout, .command, .reply false, .run,
        .reply false, .command, .commit]
    have hrun : ((Transfer.start slowClient (slowJob [65]) 0 none).exec .lossy (slowJob [65])
        events).any (fun s => s.returns fun result =>
          !result.verified && s.client.saved) = true := by
      decide +kernel
    rw [Option.any_eq_true] at hrun
    obtain ⟨s, hexec, hend⟩ := hrun
    obtain ⟨result, hphase, hresult⟩ := Transfer.exists_of_returns hend
    simp only [Bool.and_eq_true, Bool.not_eq_true'] at hresult
    exact ⟨s, result, .of_exec hexec, hphase, hresult.1, hresult.2⟩
  · let events : List Event :=
      [.command, .reply false, .run, .command, .timeout, .command, .reply false, .run,
        .reply false]
    have hrun : ((Transfer.start slowClient (slowJob [65, 66]) 0 none).exec .lossy
        (slowJob [65, 66]) events).any (fun s => decide
          (s.sender.phase = .raised (ProtocolError "unexpected reply to DATA"))) = true := by
      decide +kernel
    rw [Option.any_eq_true] at hrun
    obtain ⟨s, hexec, hend⟩ := hrun
    exact ⟨s, _, .of_exec hexec, of_decide_eq_true hend, rfl⟩

/-- A file of one byte whose first frame is lost. -/
theorem stop_and_wait_tolerates_lost_frame :
    ∃ s : Transfer slowClient, writtenBlocks s.trace = [0] ∧ s.client.saved = true ∧
      ¬ s.Misread := by
  let events : List Event :=
    [.command, .reply false, .run, .loseCommand 0, .timeout, .command, .reply false, .run,
      .command, .commit, .reply false]
  have hrun : (Transition.exec (Transfer.step (slowJob [65]))
      (fun s e => Faults.lossy.permit e = true ∧ s.unhurried e = true)
      (Transfer.start slowClient (slowJob [65]) 0 none) events).any
        (fun s => s.client.saved) = true := by
    decide +kernel
  rw [Option.any_eq_true] at hrun
  obtain ⟨s, hexec, hsaved⟩ := hrun
  obtain ⟨honce, hquiet⟩ := stop_and_wait_tolerates_iff_unhurried (slowJob [65]) slowClient rfl
    slow_paired 0 none
  have hsteps := Transition.Steps.of_exec hexec
  obtain ⟨hwritten, hcounted⟩ := honce s (hsteps.mono fun _ _ h => h.1)
  refine ⟨s, ?_, hsaved, (hquiet s hsteps).1⟩
  rw [hwritten, hcounted hsaved]
  rfl

end Slow

end Pcutp
