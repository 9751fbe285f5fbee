import Mathlib.Data.List.InsertIdx
import Pcutp.Complete

/-!
# Lost ACKs cost no data

A FLOW transfer in which only ACKs are lost, and in which a clock of the sender
runs out only when everything else has arrived.  Then the sender asks a receiver
that has stored every frame: HERE and RESUME name the next block to send.

`Spared` describes every state of such a transfer.  The sender never goes back,
so each frame is written once and each block is stored once, whatever ACKs are
lost; `stepsLeft` counts down to the end.
-/

namespace Pcutp

section Defs

variable {cfg : ClientConfig}

def Reply.isAck : Reply → Bool
  | .ack _ => true
  | _ => false

/-- Only ACKs are lost, and a clock of the sender runs out when nothing is on the way. -/
def Transfer.sparing (s : Transfer cfg) : Event → Bool
  | .run => true
  | .timeout => s.commands.isEmpty && s.replies.isEmpty
  | .reply _ => true
  | .command => true
  | .commit => true
  | .loseReply i => s.replies[i]?.any Reply.isAck
  | _ => false

/-- What a receiver has done that stored every frame it read, each of them once. -/
structure Stored (job : Job) (s : Transfer cfg) (m : AcceptedMeta cfg) (r : Recv) : Prop where
  client : s.client = .receiving m r
  agrees : m.Matches job
  run : ∃ events, Recv.run m events = some (r, s.trace)
  blocks : writtenBlocks s.trace = List.range r.expected
  bytes : writtenBytes (sinceRestart s.trace) = job.data.take (r.expected * job.block_size)

/-- A sender that has never gone back. -/
structure Sender.Onward (job : Job) (s : Sender) : Prop where
  base_le : s.base ≤ s.next_seq
  next_le : s.next_seq ≤ job.blocks
  window : 1 ≤ s.cwnd
  untried : ∀ seq, s.next_seq ≤ seq → s.attempts seq = 0
  cached : ∀ seq c, s.frames seq = some c → c = job.frame seq
  clean : s.retransmits = 0

/-- The two ends between READY and DONE. -/
structure Underway (job : Job) (s : Transfer cfg) (m : AcceptedMeta cfg) (r : Recv) : Prop where
  stored : Stored job s m r
  onward : s.sender.Onward job
  header : r.phase = .header
  base_le : s.sender.base ≤ r.expected
  written : s.written.filter Command.isFrame = (List.range s.sender.next_seq).map job.frame

/-- The frames that were not read are on the way, and some ACKs of the others. -/
structure Flight (job : Job) (s : Transfer cfg) (r : Recv) (acks : List Nat) : Prop where
  phase : s.sender.phase = .fill ∨ s.sender.phase = .reply ∧ s.sender.base < s.sender.next_seq
  expected_le : r.expected ≤ s.sender.next_seq
  commands : s.commands =
    (List.range' r.expected (s.sender.next_seq - r.expected)).map job.frame
  replies : s.replies = acks.map Reply.ack
  acks : acks.Sublist (List.range' s.sender.base (r.expected - s.sender.base))

/-- The two ends after DONE. -/
structure Closing (job : Job) (s : Transfer cfg) (m : AcceptedMeta cfg) (r : Recv) : Prop where
  stored : Stored job s m r
  blocks : r.expected = job.blocks
  clean : s.sender.retransmits = 0
  written : s.written.filter Command.isFrame = (List.range job.blocks).map job.frame

/-- The states of a transfer in which only ACKs are lost. -/
inductive Spared (job : Job) (s : Transfer cfg) : Prop
  | opening (barrier_id : Nat) (reset_token : Option Line)
      (hsender : s.sender = Sender.start barrier_id reset_token)
      (hclient : s.client = .awaiting true) (hcommands : s.commands = [job.announcement])
      (hreplies : s.replies = []) (hwritten : s.written = [job.announcement])
      (htrace : s.trace = [])
  | greeted (barrier_id : Nat) (reset_token : Option Line) (m : AcceptedMeta cfg)
      (hsender : s.sender = Sender.start barrier_id reset_token)
      (hstored : Stored job s m Recv.start) (hcommands : s.commands = [])
      (hreplies : s.replies = [.ready]) (hwritten : s.written = [job.announcement])
  | sending (m : AcceptedMeta cfg) (r : Recv) (acks : List Nat) (h : Underway job s m r)
      (hflight : Flight job s r acks)
  /-- All frames were read, and the sender has heard too few ACKs. -/
  | guarding (m : AcceptedMeta cfg) (r : Recv) (again : Bool) (h : Underway job s m r)
      (hphase : s.sender.phase = .guard again) (hlt : s.sender.base < r.expected)
      (hexpected : r.expected = s.sender.next_seq)
      (hcommands : s.commands = []) (hreplies : s.replies = [])
  | asking (m : AcceptedMeta cfg) (r : Recv) (left : Nat) (h : Underway job s m r)
      (hphase : s.sender.phase = .ayt left) (hlt : s.sender.base < r.expected)
      (hexpected : r.expected = s.sender.next_seq)
      (hway : s.commands = [.ayt s.sender.barrier_id] ∧ s.replies = [] ∨
        s.commands = [] ∧ s.replies = [.here (dec s.sender.barrier_id) r.expected])
  | draining (m : AcceptedMeta cfg) (r : Recv) (left : Nat) (h : Underway job s m r)
      (hphase : s.sender.phase = .barrier false left) (hlt : s.sender.base < r.expected)
      (hexpected : r.expected = s.sender.next_seq)
      (hway : s.commands = [.barrier s.sender.barrier_id] ∧ s.replies = [] ∨
        s.commands = [] ∧ s.replies = [.resume (dec s.sender.barrier_id) r.expected])
  | asked (m : AcceptedMeta cfg) (r : Recv) (h : Closing job s m r)
      (hphase : s.sender.phase = .final) (hheader : r.phase = .header)
      (hcommands : s.commands = [.done job.crc]) (hreplies : s.replies = [])
  | answered (m : AcceptedMeta cfg) (r : Recv) (h : Closing job s m r)
      (hphase : s.sender.phase = .final) (hend : r.phase = .commit ∨ r.phase = .returned true)
      (hcommands : s.commands = []) (hreplies : s.replies = [.ok job.crc])
  | told (m : AcceptedMeta cfg) (r : Recv) (result : TransferResult) (h : Closing job s m r)
      (hphase : s.sender.phase = .returned (some result))
      (hresult : result = s.sender.result job true)
      (hend : r.phase = .commit ∨ r.phase = .returned true)
      (hcommands : s.commands = []) (hreplies : s.replies = [])

/-- What a phase of the sender has before it until the base moves. -/
def SendPhase.weight : SendPhase → Nat
  | .ready => 17
  | .fill => 16
  | .reply => 15
  | .guard _ => 14
  | .ayt _ => 10
  | .barrier _ _ => 6
  | .final => 12
  | _ => 0

/-- How many steps are left at most. -/
def Transfer.stepsLeft (job : Job) (s : Transfer cfg) : Nat :=
  (job.blocks - s.sender.next_seq) * 4 + (job.blocks - s.sender.base) * 9 +
    s.sender.phase.weight + s.commands.length * 3 + s.replies.length * 2 +
    (!s.client.saved).toNat

/-- What is left of a transfer in which every frame was written and stored once. -/
structure Transfer.Spotless (job : Job) (dir : Directory) (s : Transfer cfg) : Prop where
  result : ∃ result, s.sender.phase = .returned (some result) ∧ result.verified = true ∧
    result.retransmits = 0
  frames : s.written.filter Command.isFrame = (List.range job.blocks).map job.frame
  blocks : writtenBlocks s.trace = List.range job.blocks
  saved : applyEffects job.filename.text dir s.trace job.filename.text = some (.bytes job.data)

end Defs

section Sender

variable {job : Job} {s : Sender} {late : Bool}

/-- The answer to the last probe starts a recovery. -/
theorem Sender.step_here
    {left e : Nat} (hphase : s.phase = .ayt left) :
    s.step job (.line (Reply.here (dec s.barrier_id) e).line late) =
      some (({ s with cwnd := 1, clean_acks := 0 } : Sender).recover job false) := by
  have hprintable : (Reply.here (dec s.barrier_id) e).Printable := isWord_dec _
  rw [step, if_neg (by rw [Reply.isRmb_line hprintable]; simp), onLine, hphase]
  simp only [Reply.split_line hprintable, Option.some.injEq]
  rw [onProbe, if_pos (by simp [Reply.words]), dispatch_gap job s true (Or.inr rfl)]
  rfl

/-- The answer to the last barrier moves the base to where the receiver stands. -/
theorem Sender.step_resume
    {left : Nat} (hphase : s.phase = .barrier false left) (hlt : s.base < s.next_seq) :
    s.step job (.line (Reply.resume (dec s.barrier_id) s.next_seq).line late) =
      some ({ s with
        phase := .fill
        base := s.next_seq
        recoveries := 0
        attempts := dropBelow s.next_seq 0 s.attempts
        frames := dropBelow s.next_seq none s.frames }, []) := by
  have hprintable : (Reply.resume (dec s.barrier_id) s.next_seq).Printable := isWord_dec _
  rw [step, if_neg (by rw [Reply.isRmb_line hprintable]; simp), onLine, hphase]
  simp only [Reply.split_line hprintable, Option.some.injEq]
  rw [onBarrier, if_pos (by simp [Reply.words])]
  simp [Reply.words, hlt.le, resume, hlt]

namespace Sender.Onward

/-- What a sender does that has never gone back: a frame, a wait, or DONE. -/
theorem fill
    (h : s.Onward job) (hflow : job.session.flow = true) {p : Sender × List Command}
    (hp : s.step job .run = some p) :
    s.phase = .fill ∧
      (p = (s.writeFrame (job.frame s.next_seq), [job.frame s.next_seq]) ∧
          s.next_seq < job.blocks ∨
        p = ({ s with phase := .reply }, []) ∧ s.base < s.next_seq ∨
        p = ({ s with phase := .final }, [.done job.crc]) ∧ s.base = job.blocks) := by
  have hbase := h.base_le
  have hnext := h.next_le
  have hwindow := h.window
  rw [step] at hp
  split at hp
  swap
  · cases hp
  rename_i hphase
  refine ⟨hphase, ?_⟩
  rw [fillWindow, h.untried _ (Nat.le_refl _)] at hp
  have hframe : (s.frames s.next_seq).getD (job.frame s.next_seq) = job.frame s.next_seq := by
    cases hold : s.frames s.next_seq with
    | none => rfl
    | some c => exact h.cached _ c hold
  split at hp
  · split at hp
    · rename_i hroom
      rw [if_neg (Nat.not_lt_zero _), hframe] at hp
      cases hp
      exact Or.inl ⟨rfl, hroom.trans_le (Nat.min_le_left _ _)⟩
    · rename_i hlt hfull
      cases hp
      refine Or.inr (Or.inl ⟨rfl, ?_⟩)
      omega
  · rename_i hblocks
    cases hp
    exact Or.inr (Or.inr ⟨rfl, by omega⟩)

theorem write
    (h : s.Onward job) (hlt : s.next_seq < job.blocks) :
    (s.writeFrame (job.frame s.next_seq)).Onward job where
  base_le := h.base_le.trans (Nat.le_succ _)
  next_le := hlt
  window := h.window
  untried := by
    intro seq hseq
    have hne : seq ≠ s.next_seq := Nat.ne_of_gt hseq
    exact (Function.update_of_ne hne _ _).trans (h.untried seq (Nat.le_of_succ_le hseq))
  cached := by
    intro seq c hc
    simp only [writeFrame] at hc
    by_cases hseq : seq = s.next_seq
    · subst hseq
      rw [Function.update_self] at hc
      cases hc
      rfl
    · rw [Function.update_of_ne hseq] at hc
      exact h.cached seq c hc
  clean := by
    simp [writeFrame, h.clean, h.untried _ (Nat.le_refl _)]

/-- The base moves up, to an ACK or to the end of the flight. -/
theorem advance
    (h : s.Onward job) {a : Nat} (hlt : a < s.next_seq) :
    (s.advance job a).Onward job where
  base_le := hlt
  next_le := h.next_le
  window := by
    simp only [Sender.advance]
    split
    · exact job.session.window_ok.1
    · exact h.window
  untried := by
    intro seq hseq
    simp [Sender.advance, dropBelow, h.untried seq hseq]
  cached := fun seq c hc => h.cached seq c (dropBelow_some hc)
  clean := h.clean

end Sender.Onward

end Sender

section Receiver

variable {cfg : ClientConfig} {job : Job} {s s' : Transfer cfg} {m : AcceptedMeta cfg}
  {r r' : Recv} {effects : List Effect}

/-- The receiver has moved, and stored what it has counted. -/
theorem Stored.after
    (h : Stored job s m r) (hclient : s'.client = .receiving m r')
    (htrace : s'.trace = s.trace ++ effects)
    (hrun : ∃ events, Recv.run m events = some (r', s.trace ++ effects))
    (hwhole : Effect.truncate ∉ effects)
    (hblocks : List.range r.expected ++ writtenBlocks effects = List.range r'.expected)
    (hbytes : job.data.take (r.expected * job.block_size) ++ writtenBytes effects =
      job.data.take (r'.expected * job.block_size)) :
    Stored job s' m r' where
  client := hclient
  agrees := h.agrees
  run := htrace ▸ hrun
  blocks := by
    rw [htrace, writtenBlocks, List.filterMap_append]
    exact (congrArg (· ++ writtenBlocks effects) h.blocks).trans hblocks
  bytes := by
    rw [htrace, sinceRestart_append hwhole, writtenBytes_append, h.bytes, hbytes]

/-- The receiver has answered a line, or renamed the file. -/
theorem Stored.quiet
    (h : Stored job s m r) (hclient : s'.client = .receiving m r')
    (htrace : s'.trace = s.trace ++ effects)
    (hrun : ∃ events, Recv.run m events = some (r', s.trace ++ effects))
    (hexpected : r'.expected = r.expected)
    (hquiet : ∀ e ∈ effects, e ≠ .truncate ∧ ∀ seq payload, e ≠ .write seq payload) :
    Stored job s' m r' := by
  have hnone : writtenBlocks effects = [] := by
    refine List.filterMap_eq_nil_iff.mpr fun e he => ?_
    split
    · exact absurd rfl ((hquiet _ he).2 _ _)
    · rfl
  have hempty : writtenBytes effects = [] := by
    refine List.flatMap_eq_nil_iff.mpr fun e he => ?_
    split
    · exact absurd rfl ((hquiet _ he).2 _ _)
    · rfl
  refine h.after hclient htrace hrun (fun hmem => (hquiet _ hmem).1 rfl) ?_ ?_
  · rw [hnone, List.append_nil, hexpected]
  · rw [hempty, List.append_nil, hexpected]

/-- The receiver has stored the next block. -/
theorem Stored.store
    (h : Stored job s m r) {commands : List Command}
    (hread : r.read m (job.sentFrame r.expected) =
      some (r.onBlock m r.expected (job.chunk r.expected))) :
    Stored job
      ({ s with commands }.received (.receiving m (r.onBlock m r.expected (job.chunk r.expected)).1,
        (r.onBlock m r.expected (job.chunk r.expected)).2)) m
      (r.onBlock m r.expected (job.chunk r.expected)).1 := by
  obtain ⟨events, hrun⟩ := h.run
  refine h.after rfl rfl (run_read hrun hread) ?_ ?_ ?_
  · simp only [Recv.onBlock]
    split <;> simp
  · simp only [Recv.onBlock]
    split <;> simp [writtenBlocks, List.range_succ]
  · simp only [Recv.onBlock]
    split <;> simp [writtenBytes, job.take_append_chunk]

/-- The sender has moved, or the line has. -/
theorem Stored.of_eq
    (h : Stored job s m r) (hclient : s'.client = s.client) (htrace : s'.trace = s.trace) :
    Stored job s' m r where
  client := hclient.trans h.client
  agrees := h.agrees
  run := htrace ▸ h.run
  blocks := htrace ▸ h.blocks
  bytes := htrace ▸ h.bytes

/-- A receiver that has stored all blocks confirms the file. -/
theorem Stored.read_done
    (h : Stored job s m r) (hheader : r.phase = .header) (hblocks : r.expected = job.blocks) :
    r.read m (.done job.crc) = some ({ r with phase := .commit }, [.send (.ok job.crc)]) := by
  obtain ⟨events, hrun⟩ := h.run
  exact Recv.read_done_stored h.agrees hrun h.bytes hheader hblocks

end Receiver

section Move

variable {cfg : ClientConfig} {job : Job} {s s' : Transfer cfg} {m : AcceptedMeta cfg} {r : Recv}

/-- The oldest of some numbers in order, and the ones behind it. -/
theorem sublist_range'_cons
    {a base n : Nat} {l : List Nat} (h : (a :: l).Sublist (List.range' base n)) :
    base ≤ a ∧ a < base + n ∧ l.Sublist (List.range' (a + 1) (base + n - (a + 1))) := by
  induction n generalizing base with
  | zero => cases h
  | succ n ih =>
      rw [List.range'_succ, List.sublist_cons_iff] at h
      rcases h with htail | ⟨rest, heq, htail⟩
      · obtain ⟨hle, hlt, hsub⟩ := ih htail
        rw [show base + 1 + n = base + (n + 1) by omega] at hlt hsub
        exact ⟨Nat.le_of_succ_le hle, hlt, hsub⟩
      · cases heq
        refine ⟨Nat.le_refl _, by omega, ?_⟩
        rwa [show a + (n + 1) - (a + 1) = n by omega]

/-- A step of such a transfer. -/
def Nears (job : Job) (s s' : Transfer cfg) : Prop :=
  Spared job s' ∧ s'.stepsLeft job < s.stepsLeft job

/-- The sender has moved. -/
theorem Underway.sent
    (h : Underway job s m r) {t : Sender} {out : List Command} (replies : List Reply)
    (honward : t.Onward job) (hbase : t.base ≤ r.expected)
    (hwritten : (List.range s.sender.next_seq).map job.frame ++ out.filter Command.isFrame =
      (List.range t.next_seq).map job.frame) :
    Underway job ({ s with replies }.sent (t, out)) m r where
  stored := h.stored.of_eq rfl rfl
  onward := honward
  header := h.header
  base_le := hbase
  written := by
    show (s.written ++ out).filter Command.isFrame = (List.range t.next_seq).map job.frame
    rw [List.filter_append, h.written, hwritten]

/-- The sender has written a control line, or none. -/
theorem Underway.sent_control
    (h : Underway job s m r) {t : Sender} {out : List Command} (replies : List Reply)
    (honward : t.Onward job) (hbase : t.base ≤ r.expected)
    (hnext : t.next_seq = s.sender.next_seq) (hout : out.filter Command.isFrame = []) :
    Underway job ({ s with replies }.sent (t, out)) m r :=
  h.sent replies honward hbase (by rw [hout, List.append_nil, hnext])

/-- The receiver has answered a line. -/
theorem Underway.answered
    (h : Underway job s m r) {c : Command} {reply : Reply} {commands : List Command}
    (hread : r.read m c = some (r, [.send reply])) :
    Underway job ({ s with commands }.received (.receiving m r, [.send reply])) m r where
  stored := by
    obtain ⟨events, hrun⟩ := h.stored.run
    exact h.stored.quiet rfl rfl (run_read hrun hread) rfl (by simp)
  onward := h.onward
  header := h.header
  base_le := h.base_le
  written := h.written

theorem Underway.unsaved
    (h : Underway job s m r) :
    s.client.saved = false := by
  rw [h.stored.client]
  exact not_saved_of_header (by rw [h.header]; simp)

/-- The sender writes a frame, waits, or writes DONE. -/
theorem Spared.sending_run
    (hflow : job.session.flow = true) {acks : List Nat} (h : Underway job s m r)
    (hflight : Flight job s r acks) (hstep : s.step job .run = some s') :
    Nears job s s' := by
  obtain ⟨_, hexpected, hcommands, hreplies, hacks⟩ := hflight
  rw [Transfer.step, Option.map_eq_some_iff] at hstep
  obtain ⟨p, hp, rfl⟩ := hstep
  have hbase := h.base_le
  have hle := h.onward.next_le
  obtain ⟨hphase, ⟨rfl, hlt⟩ | ⟨rfl, hlt⟩ | ⟨rfl, hall⟩⟩ := h.onward.fill hflow hp
  · refine ⟨.sending m r acks (h.sent s.replies (h.onward.write hlt) hbase ?_)
      ⟨Or.inl hphase, hexpected.trans (Nat.le_succ _), ?_, hreplies, hacks⟩, ?_⟩
    · rw [List.filter_cons_of_pos (job.isFrame_frame _)]
      simp [Sender.writeFrame, List.range_succ]
    · simp only [Transfer.sent, Sender.writeFrame, hcommands]
      rw [range'_append_next hexpected, List.map_append]
      rfl
    · simp only [Transfer.stepsLeft, Transfer.sent, Sender.writeFrame, List.length_append,
        List.length_cons, List.length_nil]
      omega
  · refine ⟨.sending m r acks (h.sent_control s.replies ?_ hbase rfl rfl)
      ⟨Or.inr ⟨rfl, hlt⟩, hexpected, ?_, hreplies, hacks⟩, ?_⟩
    · exact { h.onward with }
    · simpa [Transfer.sent] using hcommands
    · simp [Transfer.stepsLeft, Transfer.sent, hphase, SendPhase.weight]
  · have hend : r.expected = job.blocks ∧ s.sender.next_seq = job.blocks := by
      have := h.onward.base_le
      omega
    obtain ⟨hblocks, hnext⟩ := hend
    rw [hblocks, hall, Nat.sub_self] at hacks
    rw [List.sublist_nil.mp hacks] at hreplies
    refine ⟨.asked m r ⟨h.stored.of_eq rfl rfl, hblocks, h.onward.clean, ?_⟩ rfl h.header ?_
      hreplies, ?_⟩
    · rw [← hnext, ← h.written]
      simp [Transfer.sent, Command.isFrame]
    · simp [Transfer.sent, hcommands, hblocks, hnext]
    · simp only [Transfer.stepsLeft, Transfer.sent, hphase, SendPhase.weight, List.length_append,
        List.length_cons, List.length_nil]
      omega

/-- The receiver stores the oldest frame. -/
theorem Spared.sending_command
    (hflow : job.session.flow = true) {acks : List Nat} (h : Underway job s m r)
    (hflight : Flight job s r acks) (hstep : s.step job .command = some s') :
    Nears job s s' := by
  obtain ⟨hphase, hexpected, hcommands, hreplies, hacks⟩ := hflight
  have hle := h.onward.next_le
  have hsome := Transfer.commands_of_command hstep
  obtain ⟨k, hk⟩ : ∃ k, s.sender.next_seq - r.expected = k + 1 := by
    cases hzero : s.sender.next_seq - r.expected with
    | zero =>
        rw [hzero] at hcommands
        exact absurd hcommands hsome
    | succ k => exact ⟨k, rfl⟩
  rw [hk, List.range'_succ, List.map_cons] at hcommands
  obtain ⟨events, hrun⟩ := h.stored.run
  have hread := Recv.read_sent h.stored.agrees h.header (Recv.counts_run hrun).received_eq
    (show r.expected < job.blocks by omega)
  have hframe : job.sentFrame r.expected = job.frame r.expected := by
    rw [Job.sentFrame, if_pos hflow]
  rw [Transfer.step, hcommands, Option.map_eq_some_iff] at hstep
  obtain ⟨p, hp, rfl⟩ := hstep
  rw [h.stored.client, Client.read, ← hframe, hread] at hp
  cases hp
  have hsends : sends (r.onBlock m r.expected (job.chunk r.expected)).2 = [.ack r.expected] := by
    simp only [Recv.onBlock]
    split <;> rfl
  have hbase := h.base_le
  refine ⟨.sending m (r.onBlock m r.expected (job.chunk r.expected)).1 (acks ++ [r.expected])
    ?_ ⟨hphase, ?_, ?_, ?_, ?_⟩, ?_⟩
  · exact
      { stored := h.stored.store hread
        onward := h.onward
        header := by simp [Recv.onBlock, h.header]
        base_le := Nat.le_succ_of_le h.base_le
        written := h.written }
  · show r.expected + 1 ≤ s.sender.next_seq
    omega
  · show (List.range' (r.expected + 1) k).map job.frame =
      (List.range' (r.expected + 1) (s.sender.next_seq - (r.expected + 1))).map job.frame
    congr 2
    omega
  · show s.replies ++ sends (r.onBlock m r.expected (job.chunk r.expected)).2 =
      (acks ++ [r.expected]).map Reply.ack
    rw [hsends, hreplies, List.map_append]
    rfl
  · show (acks ++ [r.expected]).Sublist
      (List.range' s.sender.base (r.expected + 1 - s.sender.base))
    rw [range'_append_next hbase]
    exact hacks.append (List.Sublist.refl _)
  · have hunsaved := not_saved_of_header (m := m)
      (r := (r.onBlock m r.expected (job.chunk r.expected)).1) (by simp [Recv.onBlock, h.header])
    simp only [Transfer.stepsLeft, Transfer.received, hcommands, hsends, h.unsaved, hunsaved,
      List.length_append, List.length_cons, List.length_nil]
    omega

/-- The sender reads the oldest ACK that was not lost. -/
theorem Spared.sending_reply
    {acks : List Nat} {late : Bool} (h : Underway job s m r)
    (hflight : Flight job s r acks) (hstep : s.step job (.reply late) = some s') :
    Nears job s s' := by
  obtain ⟨hphase, hexpected, hcommands, hreplies, hacks⟩ := hflight
  cases acks with
  | nil => exact absurd hreplies (Transfer.replies_of_reply hstep)
  | cons a acks =>
      obtain ⟨hle, hlt, hrest⟩ := sublist_range'_cons hacks
      have hbase := h.base_le
      have hnext := h.onward.next_le
      rw [Nat.add_sub_cancel' hbase] at hlt hrest
      rw [List.map_cons] at hreplies
      rw [Transfer.step, hreplies, Option.map_eq_some_iff] at hstep
      obtain ⟨p, hp, rfl⟩ := hstep
      rcases hphase with hphase | ⟨hphase, _⟩
      · rw [Sender.step, if_neg (by rw [Reply.isRmb_line (r := .ack a) trivial]; simp),
          Sender.onLine, hphase] at hp
        cases hp
      · rw [Sender.step_ack hphase hle (by omega)] at hp
        cases hp
        refine ⟨.sending m r acks (h.sent_control _ (h.onward.advance (by omega)) hlt rfl rfl)
          ⟨Or.inl rfl, hexpected, ?_, rfl, hrest⟩, ?_⟩
        · simpa [Transfer.sent, Sender.advance] using hcommands
        · simp only [Transfer.stepsLeft, Transfer.sent, Sender.advance, hphase, hreplies,
            SendPhase.weight, List.length_append, List.length_cons, List.length_nil,
            List.length_map]
          omega

/-- An ACK is lost. -/
theorem Spared.sending_lose
    {acks : List Nat} {i : Nat} (h : Underway job s m r)
    (hflight : Flight job s r acks) (hstep : s.step job (.loseReply i) = some s') :
    Nears job s s' := by
  obtain ⟨hphase, hexpected, hcommands, hreplies, hacks⟩ := hflight
  rw [Transfer.step] at hstep
  split at hstep
  · rename_i hi
    cases hstep
    refine ⟨.sending m r (acks.eraseIdx i) ?_ ⟨hphase, hexpected, hcommands, ?_,
      (List.eraseIdx_sublist acks i).trans hacks⟩, ?_⟩
    · exact
        { stored := h.stored.of_eq rfl rfl
          onward := h.onward
          header := h.header
          base_le := h.base_le
          written := h.written }
    · rw [hreplies, List.eraseIdx_map]
    · have hlength := List.length_eraseIdx_of_lt hi
      simp only [Transfer.stepsLeft, hlength]
      omega
  · cases hstep

/-- The ACKs of the flight were lost. -/
theorem Spared.sending_timeout
    {acks : List Nat} (h : Underway job s m r) (hflight : Flight job s r acks)
    (hquiet : s.commands = [] ∧ s.replies = []) (hstep : s.step job .timeout = some s') :
    Nears job s s' := by
  obtain ⟨hphase, hexpected, hcommands, _, _⟩ := hflight
  have hall : r.expected = s.sender.next_seq := by
    rw [hquiet.1] at hcommands
    have hzero := congrArg List.length hcommands
    rw [List.length_nil, List.length_map, List.length_range'] at hzero
    omega
  rw [Transfer.step, Option.map_eq_some_iff] at hstep
  obtain ⟨p, hp, rfl⟩ := hstep
  rw [Sender.step, Sender.onTimeout] at hp
  rcases hphase with hphase | ⟨hphase, hlt⟩
  · rw [hphase] at hp
    cases hp
  · rw [hphase] at hp
    cases hp
    refine ⟨.guarding m r false (h.sent_control s.replies ?_ h.base_le rfl rfl) rfl
      (hall ▸ hlt) hall ?_ hquiet.2, ?_⟩
    · exact { h.onward with window := Nat.le_refl 1 }
    · simp [Transfer.sent, hquiet.1]
    · simp [Transfer.stepsLeft, Transfer.sent, hphase, SendPhase.weight]

/-- The line stays silent, and the sender asks the receiver where it stands. -/
theorem Spared.guarding_timeout
    (hprobes : 0 < job.session.config.probe_retries) {again : Bool} (h : Underway job s m r)
    (hphase : s.sender.phase = .guard again) (hlt : s.sender.base < r.expected)
    (hexpected : r.expected = s.sender.next_seq)
    (hquiet : s.commands = [] ∧ s.replies = [])
    (hstep : s.step job .timeout = some s') :
    Nears job s s' := by
  obtain ⟨left, hleft⟩ := Nat.exists_eq_succ_of_ne_zero hprobes.ne'
  rw [Transfer.step, Option.map_eq_some_iff] at hstep
  obtain ⟨p, hp, rfl⟩ := hstep
  rw [Sender.step, Sender.onTimeout, hphase, hleft] at hp
  cases hp
  refine ⟨.asking m r left (h.sent_control s.replies { h.onward with } h.base_le rfl rfl) rfl
    hlt hexpected (Or.inl ⟨?_, hquiet.2⟩), ?_⟩
  · simp [Transfer.sent, Sender.ask, hquiet.1]
  · simp [Transfer.stepsLeft, Transfer.sent, Sender.ask, hphase, SendPhase.weight]
    omega

/-- What can happen when only ACKs are lost. -/
theorem Transfer.sparing_cases
    {e : Event} (he : s.sparing e = true) (hstep : s.step job e = some s') :
    (e = .run ∧ s.sender.phase = .fill) ∨
      (e = .timeout ∧ s.commands = [] ∧ s.replies = []) ∨
      (∃ late, e = .reply late ∧ s.replies ≠ []) ∨
      (e = .command ∧ s.commands ≠ []) ∨
      e = .commit ∨
      ∃ i a, e = .loseReply i ∧ s.replies[i]? = some (.ack a) := by
  cases e with
  | run => exact Or.inl ⟨rfl, Transfer.phase_of_run hstep⟩
  | timeout =>
      simp only [Transfer.sparing, Bool.and_eq_true, List.isEmpty_iff] at he
      exact Or.inr (Or.inl ⟨rfl, he⟩)
  | reply late => exact Or.inr (Or.inr (Or.inl ⟨late, rfl, Transfer.replies_of_reply hstep⟩))
  | command =>
      exact Or.inr (Or.inr (Or.inr (Or.inl ⟨rfl, Transfer.commands_of_command hstep⟩)))
  | commit => simp
  | loseReply i =>
      simp only [Transfer.sparing, Option.any_eq_true] at he
      obtain ⟨reply, hi, hack⟩ := he
      cases reply with
      | ack a => exact Or.inr (Or.inr (Or.inr (Or.inr (Or.inr ⟨i, a, rfl, hi⟩))))
      | _ => cases hack
  | _ => cases he

/-- A question or its answer is on the way, and nothing else. -/
theorem Transfer.sparing_turn
    {c : Command} {reply : Reply} {e : Event} (hack : reply.isAck = false)
    (hway : s.commands = [c] ∧ s.replies = [] ∨ s.commands = [] ∧ s.replies = [reply])
    (hphase : s.sender.phase ≠ .fill) (he : s.sparing e = true) (hstep : s.step job e = some s') :
    (e = .command ∧ s.commands = [c] ∧ s.replies = []) ∨
      (∃ late, e = .reply late ∧ s.commands = [] ∧ s.replies = [reply]) ∨ e = .commit := by
  rcases Transfer.sparing_cases he hstep with ⟨rfl, hfill⟩ | ⟨rfl, hcommands, hreplies⟩ |
    ⟨late, rfl, hsome⟩ | ⟨rfl, hsome⟩ | rfl | ⟨i, a, rfl, hi⟩
  · exact absurd hfill hphase
  · rcases hway with ⟨hone, _⟩ | ⟨_, hone⟩
    · cases hone.symm.trans hcommands
    · cases hone.symm.trans hreplies
  · exact Or.inr (Or.inl ⟨late, rfl, hway.resolve_left fun h => hsome h.2⟩)
  · exact Or.inl ⟨rfl, hway.resolve_right fun h => hsome h.1⟩
  · exact Or.inr (Or.inr rfl)
  · rcases hway with ⟨_, hnone⟩ | ⟨_, hone⟩
    · rw [hnone] at hi
      cases hi
    · rw [hone] at hi
      have hmem := List.mem_of_getElem? hi
      rw [← List.mem_singleton.mp hmem] at hack
      cases hack

theorem Underway.no_commit
    (h : Underway job s m r) :
    s.step job .commit ≠ some s' := by
  intro hcommit
  have hphase := (Transfer.of_commit h.stored.client hcommit).1
  rw [h.header] at hphase
  cases hphase

/-- A probe is answered, and the answer starts a recovery. -/
theorem Spared.asking_move
    {left : Nat} (h : Underway job s m r)
    (hphase : s.sender.phase = .ayt left) (hlt : s.sender.base < r.expected)
    (hexpected : r.expected = s.sender.next_seq)
    (hway : s.commands = [.ayt s.sender.barrier_id] ∧ s.replies = [] ∨
      s.commands = [] ∧ s.replies = [.here (dec s.sender.barrier_id) r.expected])
    {e : Event} (he : s.sparing e = true) (hstep : s.step job e = some s') :
    Nears job s s' := by
  rcases Transfer.sparing_turn rfl hway (by rw [hphase]; simp) he hstep with
    ⟨rfl, hcommands, hreplies⟩ | ⟨late, rfl, hcommands, hreplies⟩ | rfl
  · have hread := Recv.read_ayt (m := m) h.header s.sender.barrier_id
    rw [Transfer.step, hcommands, Option.map_eq_some_iff] at hstep
    obtain ⟨p, hp, rfl⟩ := hstep
    rw [h.stored.client, Client.read, hread] at hp
    cases hp
    refine ⟨.asking m r left (h.answered hread) hphase hlt hexpected
      (Or.inr ⟨rfl, by simp [Transfer.received, hreplies]⟩), ?_⟩
    have hsaved := (@Underway.answered cfg job s m r h _ _ [] hread).unsaved
    simp only [Transfer.received] at hsaved
    simp [Transfer.stepsLeft, Transfer.received, hcommands, hreplies, h.unsaved, hsaved]
  · rw [Transfer.step, hreplies, Option.map_eq_some_iff] at hstep
    obtain ⟨p, hp, rfl⟩ := hstep
    rw [Sender.step_here hphase] at hp
    cases hp
    refine ⟨.draining m r job.session.config.max_retries
      (h.sent_control [] { h.onward with window := Nat.le_refl 1 } h.base_le rfl rfl) rfl hlt
      hexpected (Or.inl ⟨?_, rfl⟩), ?_⟩
    · simp [Transfer.sent, Sender.recover, hcommands]
    · simp [Transfer.stepsLeft, Transfer.sent, Sender.recover, hphase, hcommands, hreplies,
        SendPhase.weight]
  · exact absurd hstep h.no_commit

/-- A barrier is answered, and the sender goes on from where the receiver stands. -/
theorem Spared.draining_move
    (hflow : cfg.flow = true) {left : Nat} (h : Underway job s m r)
    (hphase : s.sender.phase = .barrier false left) (hlt : s.sender.base < r.expected)
    (hexpected : r.expected = s.sender.next_seq)
    (hway : s.commands = [.barrier s.sender.barrier_id] ∧ s.replies = [] ∨
      s.commands = [] ∧ s.replies = [.resume (dec s.sender.barrier_id) r.expected])
    {e : Event} (he : s.sparing e = true) (hstep : s.step job e = some s') :
    Nears job s s' := by
  rcases Transfer.sparing_turn rfl hway (by rw [hphase]; simp) he hstep with
    ⟨rfl, hcommands, hreplies⟩ | ⟨late, rfl, hcommands, hreplies⟩ | rfl
  · have hread := Recv.read_barrier (m := m) h.header hflow s.sender.barrier_id
    rw [Transfer.step, hcommands, Option.map_eq_some_iff] at hstep
    obtain ⟨p, hp, rfl⟩ := hstep
    rw [h.stored.client, Client.read, hread] at hp
    cases hp
    refine ⟨.draining m r left (h.answered hread) hphase hlt hexpected
      (Or.inr ⟨rfl, by simp [Transfer.received, hreplies]⟩), ?_⟩
    have hsaved := (@Underway.answered cfg job s m r h _ _ [] hread).unsaved
    simp only [Transfer.received] at hsaved
    simp [Transfer.stepsLeft, Transfer.received, hcommands, hreplies, h.unsaved, hsaved]
  · rw [hexpected] at hreplies
    have hnext := h.onward.next_le
    rw [Transfer.step, hreplies, Option.map_eq_some_iff] at hstep
    obtain ⟨p, hp, rfl⟩ := hstep
    rw [Sender.step_resume hphase (hexpected ▸ hlt)] at hp
    cases hp
    refine ⟨.sending m r [] (h.sent_control [] ?_ hexpected.ge rfl rfl)
      ⟨Or.inl rfl, hexpected.le, ?_, rfl, List.nil_sublist _⟩, ?_⟩
    · exact
        { base_le := Nat.le_refl _
          next_le := hnext
          window := h.onward.window
          untried := fun seq hseq => by simp [Sender.dropBelow, h.onward.untried seq hseq]
          cached := fun seq c hc => h.onward.cached seq c (Sender.dropBelow_some hc)
          clean := h.onward.clean }
    · simp [Transfer.sent, hcommands, hexpected]
    · simp only [Transfer.stepsLeft, Transfer.sent, hphase, hcommands, hreplies,
        SendPhase.weight, List.length_append, List.length_cons, List.length_nil]
      omega
  · exact absurd hstep h.no_commit

/-- The rename keeps what was stored. -/
theorem Closing.commit
    (h : Closing job s m r) (hphase : r.phase = .commit) :
    Closing job
      (s.received (.receiving m { r with phase := .returned true }, [.replace, .unlink])) m
      { r with phase := .returned true } where
  stored := by
    obtain ⟨events, hrun⟩ := h.stored.run
    have hstep : r.step m (.commit true) =
        some ({ r with phase := .returned true }, [.replace, .unlink]) := by
      simp [Recv.step, hphase]
    exact h.stored.quiet rfl rfl (run_step hrun hstep) rfl (by simp)
  blocks := h.blocks
  clean := h.clean
  written := h.written

/-- The receiver confirms the file. -/
theorem Spared.asked_move
    (h : Closing job s m r) (hphase : s.sender.phase = .final) (hheader : r.phase = .header)
    (hcommands : s.commands = [.done job.crc]) (hreplies : s.replies = [])
    {e : Event} (he : s.sparing e = true) (hstep : s.step job e = some s') :
    Nears job s s' := by
  have hready : Reply.ready.isAck = false := rfl
  rcases Transfer.sparing_turn hready (Or.inl ⟨hcommands, hreplies⟩)
      (by rw [hphase]; simp) he hstep with ⟨rfl, _, _⟩ | ⟨late, rfl, hnone, _⟩ | rfl
  · have hread := h.stored.read_done hheader h.blocks
    obtain ⟨events, hrun⟩ := h.stored.run
    rw [Transfer.step, hcommands, Option.map_eq_some_iff] at hstep
    obtain ⟨p, hp, rfl⟩ := hstep
    rw [h.stored.client, Client.read, hread] at hp
    cases hp
    refine ⟨.answered m _
      ⟨h.stored.quiet rfl rfl (run_read hrun hread) rfl (by simp), h.blocks, h.clean, h.written⟩
      hphase (Or.inl rfl) rfl (by simp [Transfer.received, hreplies]), ?_⟩
    have hunsaved := not_saved_of_header (m := m) (r := r) (by rw [hheader]; simp)
    have hunsaved' := not_saved_of_header (m := m) (r := { r with phase := .commit }) (by simp)
    simp [Transfer.stepsLeft, Transfer.received, hcommands, hreplies, h.stored.client, hunsaved,
      hunsaved']
  · cases hcommands.symm.trans hnone
  · cases hheader.symm.trans (Transfer.of_commit h.stored.client hstep).1

/-- The receiver renames the file, and the sender reads OK. -/
theorem Spared.answered_move
    (h : Closing job s m r) (hphase : s.sender.phase = .final)
    (hend : r.phase = .commit ∨ r.phase = .returned true)
    (hcommands : s.commands = []) (hreplies : s.replies = [.ok job.crc])
    {e : Event} (he : s.sparing e = true) (hstep : s.step job e = some s') :
    Nears job s s' := by
  rcases Transfer.sparing_turn (c := .done []) rfl (Or.inr ⟨hcommands, hreplies⟩)
      (by rw [hphase]; simp) he hstep with ⟨rfl, _, hnone⟩ | ⟨late, rfl, _, _⟩ | rfl
  · cases hreplies.symm.trans hnone
  · rw [Transfer.step, hreplies, Option.map_eq_some_iff] at hstep
    obtain ⟨p, hp, rfl⟩ := hstep
    rw [Sender.step_ok hphase] at hp
    cases hp
    refine ⟨.told m r _ ⟨h.stored.of_eq rfl rfl, h.blocks, h.clean, ?_⟩ rfl rfl hend ?_ rfl, ?_⟩
    · simpa [Transfer.sent] using h.written
    · simp [Transfer.sent, hcommands]
    · simp [Transfer.stepsLeft, Transfer.sent, hcommands, hreplies, hphase, SendPhase.weight]
      omega
  · obtain ⟨hrphase, rfl⟩ := Transfer.of_commit h.stored.client hstep
    refine ⟨.answered m _ (h.commit hrphase) hphase (Or.inr rfl) hcommands
      (by simpa [Transfer.received, sends] using hreplies), ?_⟩
    simp [Transfer.stepsLeft, Transfer.received, sends, h.stored.client, hrphase, Client.saved]

/-- The receiver renames the file when the sender has returned. -/
theorem Spared.told_move
    {result : TransferResult} (h : Closing job s m r)
    (hphase : s.sender.phase = .returned (some result))
    (hresult : result = s.sender.result job true)
    (hcommands : s.commands = []) (hreplies : s.replies = [])
    {e : Event} (he : s.sparing e = true) (hstep : s.step job e = some s') :
    Nears job s s' := by
  rcases Transfer.sparing_cases he hstep with ⟨rfl, hfill⟩ | ⟨rfl, _, _⟩ | ⟨late, rfl, hsome⟩ |
    ⟨rfl, hsome⟩ | rfl | ⟨i, a, rfl, hi⟩
  · rw [hphase] at hfill
    cases hfill
  · rw [Transfer.step, Sender.step, Sender.onTimeout, hphase] at hstep
    cases hstep
  · exact absurd hreplies hsome
  · exact absurd hcommands hsome
  · obtain ⟨hrphase, rfl⟩ := Transfer.of_commit h.stored.client hstep
    refine ⟨.told m _ result (h.commit hrphase) hphase hresult (Or.inr rfl) hcommands
      (by simpa [Transfer.received, sends] using hreplies), ?_⟩
    simp [Transfer.stepsLeft, Transfer.received, sends, h.stored.client, hrphase, Client.saved]
  · rw [hreplies] at hi
    cases hi

/-- The receiver accepts META. -/
theorem Spared.opening_move
    (hpair : Paired job.session cfg) (hsize : job.size ≤ Const.MAX_FILE_SIZE)
    (hspace : ∀ space, cfg.free_space = some space → job.size ≤ space)
    {barrier_id : Nat} {reset_token : Option Line}
    (hsender : s.sender = Sender.start barrier_id reset_token)
    (hclient : s.client = .awaiting true) (hcommands : s.commands = [job.announcement])
    (hreplies : s.replies = []) (hwritten : s.written = [job.announcement]) (htrace : s.trace = [])
    {e : Event} (he : s.sparing e = true) (hstep : s.step job e = some s') :
    Nears job s s' := by
  have hready : Reply.ready.isAck = false := rfl
  rcases Transfer.sparing_turn hready (Or.inl ⟨hcommands, hreplies⟩)
      (by rw [hsender]; simp [Sender.start]) he hstep with ⟨rfl, _, _⟩ | ⟨late, rfl, hnone, _⟩ | rfl
  · obtain ⟨m, hm, hmeta⟩ := accept_announcement hpair hsize hspace
    rw [Transfer.step, hcommands, Option.map_eq_some_iff] at hstep
    obtain ⟨p, hp, rfl⟩ := hstep
    rw [hclient, Client.read, hmeta] at hp
    cases hp
    refine ⟨.greeted barrier_id reset_token m hsender ?_ rfl ?_ hwritten, ?_⟩
    · exact
        { client := rfl
          agrees := hm
          run := ⟨[], by simp [Transfer.received, htrace, Recv.run, Machine.run]⟩
          blocks := by
            simp [Transfer.received, htrace, Recv.startEffects, writtenBlocks, Recv.start]
          bytes := by
            simp [Transfer.received, htrace, Recv.startEffects, sinceRestart, writtenBytes,
              Recv.start] }
    · simp [Transfer.received, hreplies, Recv.startEffects, sends]
    · simp [Transfer.stepsLeft, Transfer.received, hcommands, hreplies, hclient,
        Recv.startEffects, sends, Client.saved, Recv.start]
  · cases hcommands.symm.trans hnone
  · rw [Transfer.step, hclient] at hstep
    cases hstep

/-- The sender reads READY. -/
theorem Spared.greeted_move
    {barrier_id : Nat} {reset_token : Option Line}
    (hsender : s.sender = Sender.start barrier_id reset_token)
    (hstored : Stored job s m Recv.start) (hcommands : s.commands = [])
    (hreplies : s.replies = [.ready]) (hwritten : s.written = [job.announcement])
    {e : Event} (he : s.sparing e = true) (hstep : s.step job e = some s') :
    Nears job s s' := by
  rcases Transfer.sparing_turn (c := .done []) rfl (Or.inr ⟨hcommands, hreplies⟩)
      (by rw [hsender]; simp [Sender.start]) he hstep with ⟨rfl, _, hnone⟩ | ⟨late, rfl, _, _⟩ | rfl
  · cases hreplies.symm.trans hnone
  · have hphase : s.sender.phase = .ready := by rw [hsender]; rfl
    rw [Transfer.step, hreplies, Option.map_eq_some_iff] at hstep
    obtain ⟨p, hp, rfl⟩ := hstep
    rw [Sender.step_ready hphase] at hp
    cases hp
    have honward : ({ s.sender with phase := .fill } : Sender).Onward job := by
      rw [hsender]
      exact
        { base_le := Nat.le_refl _
          next_le := Nat.zero_le _
          window := Nat.le_refl _
          untried := fun _ _ => rfl
          cached := fun seq c hc => by cases hc
          clean := rfl }
    refine ⟨.sending m Recv.start [] ⟨hstored.of_eq rfl rfl, honward, rfl, ?_, ?_⟩
      ⟨Or.inl rfl, Nat.zero_le _, ?_, rfl, List.nil_sublist _⟩, ?_⟩
    · simp [Transfer.sent, hsender, Sender.start]
    · simp [Transfer.sent, hwritten, hsender, Sender.start, Job.announcement, Command.isFrame]
    · simp [Transfer.sent, hcommands, hsender, Sender.start, Recv.start]
    · simp [Transfer.stepsLeft, Transfer.sent, hcommands, hreplies, hphase, SendPhase.weight]
  · cases (Transfer.of_commit hstored.client hstep).1

/-- While only ACKs are lost, a transfer stays among these states and comes nearer to its end. -/
theorem Spared.move
    (hpair : Paired job.session cfg) (hflow : job.session.flow = true)
    (hprobes : 0 < job.session.config.probe_retries) (hsize : job.size ≤ Const.MAX_FILE_SIZE)
    (hspace : ∀ space, cfg.free_space = some space → job.size ≤ space)
    (hs : Spared job s) {e : Event} (he : s.sparing e = true) (hstep : s.step job e = some s') :
    Nears job s s' := by
  cases hs with
  | opening barrier_id reset_token hsender hclient hcommands hreplies hwritten htrace =>
      exact opening_move hpair hsize hspace hsender hclient hcommands hreplies hwritten htrace he
        hstep
  | greeted barrier_id reset_token m hsender hstored hcommands hreplies hwritten =>
      exact greeted_move hsender hstored hcommands hreplies hwritten he hstep
  | sending m r acks h hflight =>
      rcases Transfer.sparing_cases he hstep with ⟨rfl, _⟩ | ⟨rfl, hquiet⟩ | ⟨late, rfl, _⟩ |
        ⟨rfl, _⟩ | rfl | ⟨i, a, rfl, _⟩
      · exact sending_run hflow h hflight hstep
      · exact sending_timeout h hflight hquiet hstep
      · exact sending_reply h hflight hstep
      · exact sending_command hflow h hflight hstep
      · exact absurd hstep h.no_commit
      · exact sending_lose h hflight hstep
  | guarding m r again h hphase hlt hexpected hcommands hreplies =>
      rcases Transfer.sparing_cases he hstep with ⟨rfl, hfill⟩ | ⟨rfl, hquiet⟩ |
        ⟨late, rfl, hsome⟩ | ⟨rfl, hsome⟩ | rfl | ⟨i, a, rfl, hi⟩
      · cases hphase.symm.trans hfill
      · exact guarding_timeout hprobes h hphase hlt hexpected hquiet hstep
      · exact absurd hreplies hsome
      · exact absurd hcommands hsome
      · exact absurd hstep h.no_commit
      · rw [hreplies] at hi
        cases hi
  | asking m r left h hphase hlt hexpected hway =>
      exact asking_move h hphase hlt hexpected hway he hstep
  | draining m r left h hphase hlt hexpected hway =>
      exact draining_move (hpair.flow.trans hflow) h hphase hlt hexpected hway he hstep
  | asked m r h hphase hheader hcommands hreplies =>
      exact asked_move h hphase hheader hcommands hreplies he hstep
  | answered m r h hphase hend hcommands hreplies =>
      exact answered_move h hphase hend hcommands hreplies he hstep
  | told m r result h hphase hresult hend hcommands hreplies =>
      exact told_move h hphase hresult hcommands hreplies he hstep

/-- The states begin when META has been written. -/
theorem spared_start (cfg : ClientConfig) (job : Job) (barrier_id : Nat)
    (reset_token : Option Line) :
    Spared job (Transfer.start cfg job barrier_id reset_token) :=
  .opening barrier_id reset_token rfl rfl rfl rfl rfl rfl

/-- A transfer in which only ACKs are lost is over, or can go on. -/
theorem Spared.spotless_or_step
    (hpair : Paired job.session cfg) (hflow : job.session.flow = true)
    (hsize : job.size ≤ Const.MAX_FILE_SIZE)
    (hspace : ∀ space, cfg.free_space = some space → job.size ≤ space)
    (dir : Directory) (hs : Spared job s) :
    s.Spotless job dir ∨ ∃ e s', s.sparing e = true ∧ s.step job e = some s' := by
  have hsome : ∀ {e : Event}, s.sparing e = true → (s.step job e).isSome = true →
      ∃ e s', s.sparing e = true ∧ s.step job e = some s' :=
    fun he h => ⟨_, _, he, (Option.some_get h).symm⟩
  cases hs with
  | opening barrier_id reset_token hsender hclient hcommands =>
      obtain ⟨m, _, hmeta⟩ := accept_announcement hpair hsize hspace
      refine Or.inr (hsome (e := .command) rfl ?_)
      rw [Transfer.step, hcommands, hclient]
      simp only [Client.read, hmeta, Option.map_some]
      rfl
  | greeted barrier_id reset_token m hsender hstored hcommands hreplies =>
      have hphase : s.sender.phase = .ready := by rw [hsender]; rfl
      refine Or.inr (hsome (e := .reply false) rfl ?_)
      rw [Transfer.step, hreplies]
      simp only [Sender.step_ready hphase, Option.map_some]
      rfl
  | sending m r acks h hflight =>
      obtain ⟨hphase, hexpected, hcommands, hreplies, hacks⟩ := hflight
      right
      rcases hphase with hphase | ⟨hphase, hlt⟩
      · refine hsome (e := .run) rfl ?_
        rw [Transfer.step, Sender.step, if_pos hphase]
        rfl
      · by_cases hread : r.expected < s.sender.next_seq
        · -- A frame is on the way.
          have hnext := h.onward.next_le
          obtain ⟨events, hrun⟩ := h.stored.run
          have hread' := Recv.read_sent h.stored.agrees h.header (Recv.counts_run hrun).received_eq
            (show r.expected < job.blocks by omega)
          rw [Job.sentFrame, if_pos hflow] at hread'
          obtain ⟨k, hk⟩ := Nat.exists_eq_add_of_lt hread
          rw [show s.sender.next_seq - r.expected = k + 1 by omega, List.range'_succ,
            List.map_cons] at hcommands
          refine hsome (e := .command) rfl ?_
          rw [Transfer.step, hcommands, h.stored.client]
          simp only [Client.read, hread', Option.map_some]
          rfl
        · have hnone : s.commands = [] := by
            rw [hcommands, Nat.sub_eq_zero_of_le (Nat.not_lt.mp hread)]
            rfl
          cases acks with
          | cons a acks =>
              -- An ACK is on the way.
              obtain ⟨hle, ha, _⟩ := sublist_range'_cons hacks
              rw [Nat.add_sub_cancel' h.base_le] at ha
              rw [List.map_cons] at hreplies
              refine hsome (e := .reply false) rfl ?_
              rw [Transfer.step, hreplies]
              simp only [Sender.step_ack hphase hle (ha.trans_le hexpected), Option.map_some]
              rfl
          | nil =>
              rw [List.map_nil] at hreplies
              refine hsome (e := .timeout) (by simp [Transfer.sparing, hnone, hreplies]) ?_
              rw [Transfer.step, Sender.step, Sender.onTimeout, hphase]
              rfl
  | guarding m r again h hphase hlt hexpected hcommands hreplies =>
      refine Or.inr (hsome (e := .timeout) (by simp [Transfer.sparing, hcommands, hreplies]) ?_)
      rw [Transfer.step, Sender.step, Sender.onTimeout, hphase]
      rfl
  | asking m r left h hphase hlt hexpected hway =>
      rcases hway with ⟨hcommands, _⟩ | ⟨_, hreplies⟩
      · refine Or.inr (hsome (e := .command) rfl ?_)
        rw [Transfer.step, hcommands, h.stored.client]
        simp only [Client.read, Recv.read_ayt h.header, Option.map_some]
        rfl
      · refine Or.inr (hsome (e := .reply false) rfl ?_)
        rw [Transfer.step, hreplies]
        simp only [Sender.step_here hphase, Option.map_some]
        rfl
  | draining m r left h hphase hlt hexpected hway =>
      rcases hway with ⟨hcommands, _⟩ | ⟨_, hreplies⟩
      · refine Or.inr (hsome (e := .command) rfl ?_)
        rw [Transfer.step, hcommands, h.stored.client]
        simp only [Client.read, Recv.read_barrier h.header (hpair.flow.trans hflow),
          Option.map_some]
        rfl
      · rw [hexpected] at hreplies
        refine Or.inr (hsome (e := .reply false) rfl ?_)
        rw [Transfer.step, hreplies]
        simp only [Sender.step_resume hphase (hexpected ▸ hlt), Option.map_some]
        rfl
  | asked m r h hphase hheader hcommands hreplies =>
      refine Or.inr (hsome (e := .command) rfl ?_)
      rw [Transfer.step, hcommands, h.stored.client]
      simp only [Client.read, h.stored.read_done hheader h.blocks, Option.map_some]
      rfl
  | answered m r h hphase hend hcommands hreplies =>
      refine Or.inr (hsome (e := .reply false) rfl ?_)
      rw [Transfer.step, hreplies]
      simp only [Sender.step_ok hphase, Option.map_some]
      rfl
  | told m r result h hphase hresult hend hcommands hreplies =>
      rcases hend with hend | hend
      · refine Or.inr (hsome (e := .commit) rfl ?_)
        rw [Transfer.step, h.stored.client]
        simp [Client.act, Recv.step, hend]
      · left
        refine ⟨⟨result, hphase, ?_, ?_⟩, h.written, ?_, ?_⟩
        · rw [hresult, Sender.result]
        · rw [hresult, Sender.result]
          exact h.clean
        · rw [h.stored.blocks, h.blocks]
        · obtain ⟨events, hrun⟩ := h.stored.run
          have hbytes := h.stored.bytes
          rw [h.blocks, job.take_blocks] at hbytes
          rw [← h.stored.agrees.target, Recv.final_of_returned dir hrun hend, hbytes]

/-- In every state so far no block was counted as sent again, the frames written are the first
ones in order, and so are the blocks stored. -/
theorem Spared.once
    (hs : Spared job s) :
    s.sender.retransmits = 0 ∧
      (∃ n ≤ job.blocks, s.written.filter Command.isFrame = (List.range n).map job.frame) ∧
      ∃ n ≤ job.blocks, writtenBlocks s.trace = List.range n := by
  have hunderway : ∀ {m : AcceptedMeta cfg} {r : Recv}, Underway job s m r →
      r.expected ≤ s.sender.next_seq →
      s.sender.retransmits = 0 ∧
        (∃ n ≤ job.blocks, s.written.filter Command.isFrame = (List.range n).map job.frame) ∧
        ∃ n ≤ job.blocks, writtenBlocks s.trace = List.range n := fun h hexpected =>
    ⟨h.onward.clean, ⟨_, h.onward.next_le, h.written⟩,
      ⟨_, hexpected.trans h.onward.next_le, h.stored.blocks⟩⟩
  have hending : ∀ {m : AcceptedMeta cfg} {r : Recv}, Closing job s m r →
      s.sender.retransmits = 0 ∧
        (∃ n ≤ job.blocks, s.written.filter Command.isFrame = (List.range n).map job.frame) ∧
        ∃ n ≤ job.blocks, writtenBlocks s.trace = List.range n := fun h =>
    ⟨h.clean, ⟨_, Nat.le_refl _, h.written⟩, ⟨_, h.blocks.le, h.stored.blocks⟩⟩
  cases hs with
  | opening barrier_id reset_token hsender hclient hcommands hreplies hwritten htrace =>
      refine ⟨by rw [hsender]; rfl, ⟨0, Nat.zero_le _, ?_⟩, ⟨0, Nat.zero_le _, ?_⟩⟩
      · rw [hwritten]
        rfl
      · rw [htrace]
        rfl
  | greeted barrier_id reset_token m hsender hstored hcommands hreplies hwritten =>
      refine ⟨by rw [hsender]; rfl, ⟨0, Nat.zero_le _, ?_⟩, ⟨_, Nat.zero_le _, hstored.blocks⟩⟩
      rw [hwritten]
      rfl
  | sending m r acks h hflight => exact hunderway h hflight.expected_le
  | guarding m r again h hphase hlt hexpected => exact hunderway h hexpected.le
  | asking m r left h hphase hlt hexpected => exact hunderway h hexpected.le
  | draining m r left h hphase hlt hexpected => exact hunderway h hexpected.le
  | asked m r h => exact hending h
  | answered m r h => exact hending h
  | told m r result h => exact hending h

end Move

section Result

/-- Lost ACKs cost no data: while only ACKs are lost, and the sender's clock runs out only when
nothing else is on the way, every run is bounded, no frame is written twice, no block is stored
twice, and a run that cannot go on has verified and saved the file. -/
theorem lost_acks_cost_nothing
    (job : Job) (cfg : ClientConfig) (hpair : Paired job.session cfg)
    (hflow : job.session.flow = true) (hprobes : 0 < job.session.config.probe_retries)
    (hsize : job.size ≤ Const.MAX_FILE_SIZE)
    (hspace : ∀ space, cfg.free_space = some space → job.size ≤ space)
    (dir : Directory) (barrier_id : Nat) (reset_token : Option Line) :
    (∀ events s,
      Transition.exec (Transfer.step job) (fun s e => s.sparing e = true)
        (Transfer.start cfg job barrier_id reset_token) events = some s →
          events.length ≤ 13 * job.blocks + 21) ∧
    ∀ s, Transition.Steps (Transfer.step job) (fun s e => s.sparing e = true)
        (Transfer.start cfg job barrier_id reset_token) s →
      (s.sender.retransmits = 0 ∧
        (∃ n ≤ job.blocks, s.written.filter Command.isFrame = (List.range n).map job.frame) ∧
        ∃ n ≤ job.blocks, writtenBlocks s.trace = List.range n) ∧
      (s.Spotless job dir ∨ ∃ e s', s.sparing e = true ∧ s.step job e = some s') := by
  have hmove : ∀ (s : Transfer cfg) e s', Spared job s → s.sparing e = true →
      s.step job e = some s' → Nears job s s' :=
    fun s e s' hs he hstep => hs.move hpair hflow hprobes hsize hspace he hstep
  constructor
  · intro events s hexec
    have hle := Transition.exec_length_le (Spared job) (Transfer.stepsLeft job) hmove
      (spared_start cfg job barrier_id reset_token) hexec
    have hstart : (Transfer.start cfg job barrier_id reset_token).stepsLeft job =
        13 * job.blocks + 21 := by
      simp [Transfer.stepsLeft, Transfer.start, Client.saved, Sender.start, SendPhase.weight]
      omega
    omega
  · intro s hsteps
    have hspared : Spared job s :=
      Transition.Steps.invariant (Spared job) (fun s e s' hs he h => (hmove s e s' hs he h).1)
        hsteps (spared_start cfg job barrier_id reset_token)
    exact ⟨hspared.once, hspared.spotless_or_step hpair hflow hsize hspace dir⟩

/-- A file of two blocks, with both ACKs lost. -/
theorem lost_acks_cost_nothing_two_blocks :
    ∃ s : Transfer smallClient, s.Spotless (smallJob [65, 66]) (fun _ => none) := by
  let asked : List Event :=
    [.run, .run, .command, .loseReply 0, .timeout, .timeout, .command, .reply false, .command,
      .reply false]
  let events : List Event :=
    [.command, .reply false] ++ asked ++ asked ++ [.run, .command, .commit, .reply false]
  let stuck : Transfer smallClient → Bool := fun s =>
    s.commands.isEmpty && s.replies.isEmpty && (s.step (smallJob [65, 66]) .run).isNone &&
      (s.step (smallJob [65, 66]) .timeout).isNone && (s.step (smallJob [65, 66]) .commit).isNone
  have hrun : (Transition.exec (Transfer.step (smallJob [65, 66])) (fun s e => s.sparing e = true)
      (Transfer.start smallClient (smallJob [65, 66]) 0 none) events).any stuck = true := by
    decide +kernel
  rw [Option.any_eq_true] at hrun
  obtain ⟨s, hexec, hstuck⟩ := hrun
  have hend := ((lost_acks_cost_nothing (smallJob [65, 66]) smallClient small_paired rfl
    (by decide) (by decide) (by simp [smallClient]) (fun _ => none) 0 none).2 s (.of_exec hexec)).2
  refine ⟨s, hend.resolve_right ?_⟩
  rintro ⟨e, s', he, hstep⟩
  simp only [stuck, Bool.and_eq_true, List.isEmpty_iff, Option.isNone_iff_eq_none] at hstuck
  obtain ⟨⟨⟨⟨hcommands, hreplies⟩, hrun⟩, htimeout⟩, hcommit⟩ := hstuck
  rcases Transfer.sparing_cases he hstep with ⟨rfl, _⟩ | ⟨rfl, _⟩ | ⟨late, rfl, hsome⟩ |
    ⟨rfl, hsome⟩ | rfl | ⟨i, a, rfl, hi⟩
  · cases hrun.symm.trans hstep
  · cases htimeout.symm.trans hstep
  · exact hsome hreplies
  · exact hsome hcommands
  · cases hcommit.symm.trans hstep
  · rw [hreplies] at hi
    cases hi

end Result

end Pcutp
