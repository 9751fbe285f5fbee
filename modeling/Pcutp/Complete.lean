import Pcutp.Integrity

/-!
# A transfer without faults completes

When nothing is lost and no clock runs out, the two ends walk through one
course: META, READY, the blocks in order with at most a window of them under
way, DONE and OK.  `Course` describes every state of it, with FLOW and without.
`remaining` counts the steps that are left, so every run ends, and it ends with
the file saved and verified.
-/

namespace Pcutp

/-- A line without faults, and a clock that never runs out. -/
def Faults.none : Faults where
  loss := false
  duplication := false
  reordering := false
  damage := false
  timeouts := false

/-- The frame in which a block is first sent. -/
def Job.sentFrame (job : Job) (seq : Nat) : Command :=
  if job.session.flow = true then job.frame seq else job.rawFrame seq

theorem Job.sentFrame_isFrameOf (job : Job) (seq : Nat) :
    job.IsFrameOf seq (job.sentFrame seq) := by
  rw [sentFrame]
  split
  · exact Or.inr rfl
  · exact Or.inl rfl

section Sending

variable {job : Job} {s : Sender} {late : Bool}

theorem Sender.step_ready
    (hphase : s.phase = .ready) :
    s.step job (.line Reply.ready.line late) = some ({ s with phase := .fill }, []) := by
  rw [step, if_neg (by rw [Reply.isRmb_line (r := .ready) trivial]; simp), onLine, hphase]
  exact if_pos rfl

/-- The ACK of a block in flight moves the window. -/
theorem Sender.step_ack
    {a : Nat} (hphase : s.phase = .reply) (hbase : s.base ≤ a) (hsent : a < s.next_seq) :
    s.step job (.line (Reply.ack a).line late) = some (s.advance job a, []) := by
  rw [step, if_neg (by rw [Reply.isRmb_line (r := .ack a) trivial]; simp), onLine, hphase]
  simp only [Reply.split_line (r := .ack a) trivial, Option.some.injEq]
  rw [onReply, if_neg (by simp [Reply.words]), dispatch_ack, if_neg (by omega),
    if_neg (by omega)]

/-- Only a sender that waits for a reply reads. -/
theorem Sender.not_fill_of_ack
    {a : Nat} {p : Sender × List Command}
    (h : s.step job (.line (Reply.ack a).line late) = some p) :
    s.phase ≠ .fill := by
  intro hphase
  rw [step, if_neg (by rw [Reply.isRmb_line (r := .ack _) trivial]; simp), onLine, hphase] at h
  cases h

/-- The ACK of the block that `_send_block` has sent ends it. -/
theorem Sender.step_block_ack
    {attempt timeouts : Nat} (hphase : s.phase = .block attempt timeouts) :
    s.step job (.line (Reply.ack s.base).line late) =
      some ({ s with
        phase := .fill, base := s.base + 1, retransmits := s.retransmits + attempt }, []) := by
  rw [step, if_neg (by rw [Reply.isRmb_line (r := .ack s.base) trivial]; simp), onLine, hphase]
  simp [Reply.split_line (r := .ack s.base) trivial, onBlock, Reply.words]

theorem Sender.step_ok
    (hphase : s.phase = .final) :
    s.step job (.line (Reply.ok job.crc).line late) =
      some ({ s with phase := .returned (some (s.result job true)) }, []) := by
  have hprintable : (Reply.ok job.crc).Printable := isWord_crc32_hex _
  rw [step, if_neg (by rw [Reply.isRmb_line hprintable]; simp), onLine, hphase]
  simp [Reply.split_line hprintable, onFinal, Reply.words, oldResume]

end Sending

section Receiving

variable {cfg : ClientConfig} {job : Job}

/-- The receiver accepts META when the file has room. -/
theorem accept_announcement
    (hpair : Paired job.session cfg) (hsize : job.size ≤ Const.MAX_FILE_SIZE)
    (hspace : ∀ space, cfg.free_space = some space → job.size ≤ space) :
    ∃ m : AcceptedMeta cfg, m.Matches job ∧
      Client.onMeta cfg true job.announcement.line =
        (.receiving m Recv.start, Recv.startEffects m) := by
  have hflight : job.InFlight job.announcement := Or.inl rfl
  rcases onMeta_cases hpair hflight with ⟨m, _, hm, hmeta⟩ | ⟨exc, effects, hmeta, _⟩
  · exact ⟨m, hm, hmeta⟩
  · exfalso
    have herr : (split job.announcement.line).take 1 ≠ ["ERR".toList] := by
      rw [Command.split_line job.announcement_printable]
      simp [Job.announcement, Command.words]
    have hcrc : (parse_hex job.crc).isSome = true := by
      rw [Job.crc, crc32_hex, parse_hex_to_hex]
    have hdims : (1 ≤ job.block_size ∧ job.block_size ≤ cfg.max_block_size) ∧
        job.size ≤ Const.MAX_FILE_SIZE ∧ job.blocks = blockCount job.size job.block_size :=
      ⟨⟨job.block_size_pos, job.block_size_le.trans hpair.block⟩, hsize, rfl⟩
    rw [Client.onMeta, if_neg herr, if_neg (by simp), parse_announcement] at hmeta
    dsimp only at hmeta
    split at hmeta
    · rename_i reply exc' haccept
      unfold acceptMeta at haccept
      dsimp only at haccept
      split at haccept
      · rename_i hname
        rw [job.filename.sanitize_text] at hname
        cases hname
      · rw [dif_pos hcrc, dif_pos hdims, dif_pos hspace] at haccept
        cases haccept
    · cases hmeta

variable {m : AcceptedMeta cfg} {r : Recv}

/-- The next block is stored. -/
theorem Recv.read_sent
    (hm : m.Matches job) (hphase : r.phase = .header)
    (hreceived : r.received = min (r.expected * m.blocksize) m.size)
    (hlt : r.expected < job.blocks) :
    r.read m (job.sentFrame r.expected) =
      some (r.onBlock m r.expected (job.chunk r.expected)) := by
  have hof := job.sentFrame_isFrameOf r.expected
  obtain ⟨r', effects, hread, hkind⟩ := read_frame hm hphase hreceived (hof.carries hlt)
  rw [hread]
  cases hkind with
  | nak why hwhy hdamaged => exact absurd hof.intact hdamaged
  | old hlt => exact absurd hlt (Nat.lt_irrefl _)
  | gap hlt => exact absurd hlt (Nat.lt_irrefl _)
  | store => rfl

end Receiving

section Course

variable {cfg : ClientConfig} {job : Job} {s s' : Transfer cfg}

/-- What a receiver has done that stored every frame it read. -/
structure Kept (job : Job) (s : Transfer cfg) (m : AcceptedMeta cfg) (r : Recv) : Prop where
  client : s.client = .receiving m r
  agrees : m.Matches job
  run : ∃ events, Recv.run m events = some (r, s.trace)
  bytes : writtenBytes (sinceRestart s.trace) = job.data.take (r.expected * job.block_size)
  replied : ∀ reply, Effect.send reply ∈ s.trace →
    reply = .ready ∨ (∃ seq, reply = .ack seq) ∨ reply = .ok job.crc

/-- The lines written when `n` blocks have been sent. -/
def Job.transcript (job : Job) (n : Nat) : List Command :=
  job.announcement :: (List.range n).map job.sentFrame

/-- The sender has sent `n` blocks, and is about to send or to read. -/
def Sender.HasSent (job : Job) (s : Sender) (n : Nat) : Prop :=
  if job.session.flow = true then
    n = s.next_seq ∧ 1 ≤ s.cwnd ∧ (∀ seq, n ≤ seq → s.attempts seq = 0) ∧
      (∀ seq c, s.frames seq = some c → c = job.frame seq) ∧
      (s.phase = .fill ∨ s.phase = .reply ∧ s.base < n)
  else
    s.phase = .fill ∧ n = s.base ∨ s.phase = .block 0 0 ∧ n = s.base + 1

/-- The blocks `e` to `n` are on the way to the receiver, the ACKs of the blocks `base` to `e`
on the way back. -/
structure Sending (job : Job) (s : Transfer cfg) (r : Recv) (n : Nat) : Prop where
  header : r.phase = .header
  base_le : s.sender.base ≤ r.expected
  le_sent : r.expected ≤ n
  sent_le : n ≤ job.blocks
  commands : s.commands = (List.range' r.expected (n - r.expected)).map job.sentFrame
  replies : s.replies =
    (List.range' s.sender.base (r.expected - s.sender.base)).map Reply.ack
  written : s.written = job.transcript n
  clean : s.sender.retransmits = 0
  sender : s.sender.HasSent job n

/-- The states of a transfer without faults. -/
inductive Course (job : Job) (s : Transfer cfg) : Prop
  | opening (barrier_id : Nat) (reset_token : Option Line)
      (hsender : s.sender = Sender.start barrier_id reset_token)
      (hclient : s.client = .awaiting true) (hcommands : s.commands = [job.announcement])
      (hreplies : s.replies = []) (hwritten : s.written = [job.announcement])
      (htrace : s.trace = [])
  | greeted (barrier_id : Nat) (reset_token : Option Line) (m : AcceptedMeta cfg)
      (hsender : s.sender = Sender.start barrier_id reset_token)
      (hkept : Kept job s m Recv.start) (hcommands : s.commands = [])
      (hreplies : s.replies = [.ready]) (hwritten : s.written = [job.announcement])
  | sending (m : AcceptedMeta cfg) (r : Recv) (n : Nat) (hkept : Kept job s m r)
      (hsending : Sending job s r n)
  | asked (m : AcceptedMeta cfg) (r : Recv) (hkept : Kept job s m r)
      (hphase : s.sender.phase = .final) (hheader : r.phase = .header)
      (hblocks : r.expected = job.blocks) (hclean : s.sender.retransmits = 0)
      (hcommands : s.commands = [.done job.crc]) (hreplies : s.replies = [])
      (hwritten : s.written = job.transcript job.blocks ++ [.done job.crc])
  | answered (m : AcceptedMeta cfg) (r : Recv) (hkept : Kept job s m r)
      (hphase : s.sender.phase = .final) (hend : r.phase = .commit ∨ r.phase = .returned true)
      (hblocks : r.expected = job.blocks) (hclean : s.sender.retransmits = 0)
      (hcommands : s.commands = []) (hreplies : s.replies = [.ok job.crc])
      (hwritten : s.written = job.transcript job.blocks ++ [.done job.crc])
  | told (m : AcceptedMeta cfg) (r : Recv) (result : TransferResult) (hkept : Kept job s m r)
      (hphase : s.sender.phase = .returned (some result))
      (hresult : result = s.sender.result job true)
      (hend : r.phase = .commit ∨ r.phase = .returned true)
      (hblocks : r.expected = job.blocks) (hclean : s.sender.retransmits = 0)
      (hcommands : s.commands = []) (hreplies : s.replies = [])
      (hwritten : s.written = job.transcript job.blocks ++ [.done job.crc])

/-- The receiver reads a frame, and stores its block. -/
theorem Kept.store
    {m : AcceptedMeta cfg} {r : Recv} (hk : Kept job s m r) {commands : List Command}
    (hread : r.read m (job.sentFrame r.expected) =
      some (r.onBlock m r.expected (job.chunk r.expected))) :
    Kept job
      ({ s with commands }.received (.receiving m (r.onBlock m r.expected (job.chunk r.expected)).1,
        (r.onBlock m r.expected (job.chunk r.expected)).2)) m
      (r.onBlock m r.expected (job.chunk r.expected)).1 where
  client := rfl
  agrees := hk.agrees
  run := by
    obtain ⟨events, hrun⟩ := hk.run
    exact run_read hrun hread
  bytes := by
    have hone : ∀ rest, Effect.truncate ∉ rest → writtenBytes rest = [] →
        writtenBytes (sinceRestart (s.trace ++
          ([.write r.expected (job.chunk r.expected), .send (.ack r.expected)] ++ rest))) =
          job.data.take ((r.expected + 1) * job.block_size) := by
      intro rest htruncate hnone
      rw [sinceRestart_append (by simpa using htruncate), writtenBytes_append,
        writtenBytes_append, hnone, hk.bytes, ← job.take_append_chunk]
      simp [writtenBytes]
    simp only [Transfer.received, Recv.onBlock]
    apply hone
    · split <;> simp
    · split <;> rfl
  replied := by
    intro reply hmem
    simp only [Transfer.received, Recv.onBlock] at hmem
    rcases List.mem_append.mp hmem with hmem | hmem
    · exact hk.replied reply hmem
    · right; left
      rcases List.mem_append.mp hmem with hmem | hmem
      · exact ⟨r.expected, by simpa using hmem⟩
      · split at hmem <;> simp at hmem

/-- A receiver that has stored all blocks agrees with META. -/
theorem Recv.agrees_of_stored
    {m : AcceptedMeta cfg} {r : Recv} {events : List RecvEvent} {trace : List Effect}
    (hm : m.Matches job) (hrun : Recv.run m events = some (r, trace))
    (hbytes : writtenBytes (sinceRestart trace) = job.data.take (r.expected * job.block_size))
    (hheader : r.phase = .header) (hblocks : r.expected = job.blocks) :
    to_hex r.running = m.crc32 ∧ r.received = m.size := by
  have hcounts := Recv.counts_run hrun
  obtain ⟨good, bad, hsplit, _, hlen, hrunning, hbad⟩ := hcounts.stored
  have hnil : bad = [] := by
    by_contra hne
    have hfailed := (hbad hne).1
    rw [Recv.WriteFailed, hheader] at hfailed
    cases hfailed
  have hdata : writtenBytes good = job.data := by
    rw [← job.take_blocks, ← hblocks, ← hbytes, hsplit, hnil, List.append_nil]
  constructor
  · rw [hrunning, hdata, hm.crc32, Job.crc, crc32_hex]
  · rw [← hlen, hdata, hm.size, Job.size]

/-- A receiver that has stored all blocks confirms the file. -/
theorem Recv.read_done_stored
    {m : AcceptedMeta cfg} {r : Recv} {events : List RecvEvent} {trace : List Effect}
    (hm : m.Matches job) (hrun : Recv.run m events = some (r, trace))
    (hbytes : writtenBytes (sinceRestart trace) = job.data.take (r.expected * job.block_size))
    (hheader : r.phase = .header) (hblocks : r.expected = job.blocks) :
    r.read m (.done job.crc) = some ({ r with phase := .commit }, [.send (.ok job.crc)]) := by
  obtain ⟨hrunning, hreceived⟩ := Recv.agrees_of_stored hm hrun hbytes hheader hblocks
  have hcrc : m.crc32 = job.crc := hm.crc32
  have hupper : upper job.crc = job.crc := by
    rw [Job.crc, upper_crc32_hex]
  have hword : IsWord job.crc := isWord_crc32_hex _
  rw [Recv.read_done hheader hword, if_neg (not_not.mpr (hblocks.trans hm.blocks.symm)),
    if_neg (by simp [hupper, hrunning, hcrc, hreceived]), hrunning, hcrc]

/-- The sender has moved. -/
theorem Kept.sent
    {m : AcceptedMeta cfg} {r : Recv} (hk : Kept job s m r) (p : Sender × List Command)
    (replies : List Reply) :
    Kept job ({ s with replies }.sent p) m r :=
  { hk with }

/-- The rename keeps what was stored. -/
theorem Kept.commit
    {m : AcceptedMeta cfg} {r : Recv} (hk : Kept job s m r) (hphase : r.phase = .commit) :
    Kept job (s.received (.receiving m { r with phase := .returned true }, [.replace, .unlink])) m
      { r with phase := .returned true } where
  client := rfl
  agrees := hk.agrees
  run := by
    obtain ⟨events, hrun⟩ := hk.run
    have hstep : r.step m (.commit true) =
        some ({ r with phase := .returned true }, [.replace, .unlink]) := by
      simp [Recv.step, hphase]
    exact run_step hrun hstep
  bytes := by
    rw [Transfer.received, sinceRestart_append (by simp), writtenBytes_append, hk.bytes]
    simp [writtenBytes]
  replied := fun reply hmem => hk.replied reply (by simpa [Transfer.received] using hmem)

/-- The answer to DONE keeps what was stored. -/
theorem Kept.confirm
    {m : AcceptedMeta cfg} {r : Recv} (hk : Kept job s m r) {commands : List Command}
    (hread : r.read m (.done job.crc) = some ({ r with phase := .commit }, [.send (.ok job.crc)])) :
    Kept job ({ s with commands }.received
      (.receiving m { r with phase := .commit }, [.send (.ok job.crc)])) m
      { r with phase := .commit } where
  client := rfl
  agrees := hk.agrees
  run := by
    obtain ⟨events, hrun⟩ := hk.run
    exact run_read hrun hread
  bytes := by
    rw [Transfer.received, sinceRestart_append (by simp), writtenBytes_append, hk.bytes]
    simp [writtenBytes]
  replied := by
    intro reply hmem
    rcases List.mem_append.mp hmem with hmem | hmem
    · exact hk.replied reply hmem
    · exact Or.inr (Or.inr (by simpa using hmem))

/-- The receiver confirms a file whose blocks it has stored. -/
theorem Kept.read_done
    {m : AcceptedMeta cfg} {r : Recv} (hk : Kept job s m r) (hheader : r.phase = .header)
    (hblocks : r.expected = job.blocks) :
    r.read m (.done job.crc) = some ({ r with phase := .commit }, [.send (.ok job.crc)]) := by
  obtain ⟨events, hrun⟩ := hk.run
  exact Recv.read_done_stored hk.agrees hrun hk.bytes hheader hblocks

theorem Faults.none_cases
    {e : Event} (he : Faults.none.permit e = true) :
    e = .run ∨ e = .reply false ∨ e = .command ∨ e = .commit := by
  cases e with
  | reply late =>
      cases late with
      | true => cases he
      | false => simp
  | _ => first | simp; done | cases he

/-- How many steps are left: lines to write, lines to read in both directions, the rename. -/
def Transfer.remaining (job : Job) (s : Transfer cfg) : Nat :=
  (job.blocks + 2 - s.written.length) * 4 + s.commands.length * 3 + s.replies.length * 2 +
    (!s.client.saved).toNat + (decide (s.sender.phase = .fill)).toNat

/-- A step along the course. -/
def Advances (job : Job) (s s' : Transfer cfg) : Prop :=
  Course job s' ∧ s'.remaining job < s.remaining job

theorem Job.length_transcript (job : Job) (n : Nat) :
    (job.transcript n).length = n + 1 := by
  simp [transcript]

theorem not_saved_of_header
    {m : AcceptedMeta cfg} {r : Recv} (hheader : ∀ ok, r.phase ≠ .returned ok) :
    (Client.receiving m r).saved = false := by
  unfold Client.saved
  dsimp only
  split
  · rename_i ok hphase
    exact absurd hphase (hheader ok)
  · rfl

section Sending

variable {m : AcceptedMeta cfg} {r : Recv} {n : Nat}

theorem Sending.length_written
    (hs : Sending job s r n) :
    s.written.length = n + 1 := by
  rw [hs.written, job.length_transcript]

theorem transcript_succ (job : Job) (n : Nat) :
    job.transcript (n + 1) = job.transcript n ++ [job.sentFrame n] := by
  simp [Job.transcript, List.range_succ]

theorem range'_append_next
    {e n : Nat} (h : e ≤ n) :
    List.range' e (n + 1 - e) = List.range' e (n - e) ++ [n] := by
  rw [Nat.succ_sub h, List.range'_1_concat, Nat.add_sub_cancel' h]

/-- A frame more is on the way. -/
theorem Sending.frame
    (hs : Sending job s r n) (hlt : n < job.blocks) {t : Sender}
    (hbase : t.base = s.sender.base) (hclean : t.retransmits = 0)
    (hsender : t.HasSent job (n + 1)) :
    Sending job (s.sent (t, [job.sentFrame n])) r (n + 1) where
  header := hs.header
  base_le := hbase ▸ hs.base_le
  le_sent := hs.le_sent.trans (Nat.le_succ n)
  sent_le := hlt
  commands := by
    rw [Transfer.sent, hs.commands, range'_append_next hs.le_sent, List.map_append]
    rfl
  replies := by
    rw [Transfer.sent, hbase]
    exact hs.replies
  written := by
    rw [Transfer.sent, hs.written, transcript_succ]
  clean := hclean
  sender := hsender

/-- All blocks are acknowledged: nothing is on the way, and DONE goes out. -/
theorem Sending.done
    (hk : Kept job s m r) (hs : Sending job s r n) (hphase : s.sender.phase = .fill)
    (hblocks : job.blocks ≤ s.sender.base) :
    Advances job s (s.sent ({ s.sender with phase := .final }, [.done job.crc])) := by
  have hn := hs.sent_le
  have hle := hs.le_sent
  have hbase := hs.base_le
  have hlength := hs.length_written
  have hall : r.expected = job.blocks ∧ n = job.blocks := by omega
  obtain ⟨hexpected, rfl⟩ := hall
  refine ⟨.asked m r (hk.sent _ _) rfl hs.header hexpected hs.clean ?_ ?_ ?_, ?_⟩
  · simp [Transfer.sent, hs.commands, hexpected]
  · have : r.expected - s.sender.base = 0 := by omega
    simp [Transfer.sent, hs.replies, this]
  · simp [Transfer.sent, hs.written]
  · simp [Transfer.remaining, Transfer.sent, hphase]
    omega

/-- The window takes the next frame, waits, or is through. -/
theorem Sending.fillWindow
    (hk : Kept job s m r) (hs : Sending job s r n) (hflow : job.session.flow = true)
    (hphase : s.sender.phase = .fill) :
    Advances job s (s.sent (s.sender.fillWindow job)) := by
  have hle := hs.le_sent
  have hbase := hs.base_le
  have hlength := hs.length_written
  have hclean := hs.clean
  have hsender := hs.sender
  rw [Sender.HasSent, if_pos hflow] at hsender
  obtain ⟨rfl, hcwnd, hattempts, hcache, _⟩ := hsender
  rw [Sender.fillWindow, hattempts _ (Nat.le_refl _)]
  split
  · rename_i hlt
    split
    · rename_i hroom
      have hframe : (s.sender.frames s.sender.next_seq).getD (job.frame s.sender.next_seq) =
          job.sentFrame s.sender.next_seq := by
        rw [Job.sentFrame, if_pos hflow]
        cases hold : s.sender.frames s.sender.next_seq with
        | none => rfl
        | some c => exact hcache _ c hold
      rw [if_neg (Nat.not_lt_zero _), hframe]
      have hblocks : s.sender.next_seq < job.blocks := hroom.trans_le (Nat.min_le_left _ _)
      refine ⟨.sending m r _ (hk.sent _ _) (hs.frame hblocks rfl ?_ ?_), ?_⟩
      · simp [Sender.writeFrame, hclean, hattempts _ (Nat.le_refl _)]
      · rw [Sender.HasSent, if_pos hflow]
        refine ⟨rfl, hcwnd, ?_, ?_, Or.inl hphase⟩
        · intro seq hseq
          have hne : seq ≠ s.sender.next_seq := by omega
          simp [Sender.writeFrame, Function.update_of_ne hne, hattempts seq (by omega)]
        · intro seq c hc
          simp only [Sender.writeFrame] at hc
          by_cases hseq : seq = s.sender.next_seq
          · subst hseq
            rw [Function.update_self] at hc
            cases hc
            rw [Job.sentFrame, if_pos hflow]
          · rw [Function.update_of_ne hseq] at hc
            exact hcache seq c hc
      · simp [Transfer.remaining, Transfer.sent, Sender.writeFrame, hlength]
        omega
    · rename_i hfull
      refine ⟨.sending m r s.sender.next_seq (hk.sent _ _) ?_, ?_⟩
      · refine
          { header := hs.header
            base_le := hbase
            le_sent := hle
            sent_le := hs.sent_le
            commands := by simpa [Transfer.sent] using hs.commands
            replies := hs.replies
            written := by simpa [Transfer.sent] using hs.written
            clean := hclean
            sender := ?_ }
        rw [Sender.HasSent, if_pos hflow]
        refine ⟨rfl, hcwnd, hattempts, hcache, Or.inr ⟨rfl, ?_⟩⟩
        show s.sender.base < s.sender.next_seq
        omega
      · simp [Transfer.remaining, Transfer.sent, hphase]
  · rename_i hblocks
    exact hs.done hk hphase (Nat.not_lt.mp hblocks)

/-- Without FLOW the next block goes out, or all are through. -/
theorem Sending.fillBlock
    (hk : Kept job s m r) (hs : Sending job s r n) (hflow : ¬ job.session.flow = true)
    (hphase : s.sender.phase = .fill) :
    Advances job s (s.sent (s.sender.fillBlock job)) := by
  have hlength := hs.length_written
  have hsender := hs.sender
  rw [Sender.HasSent, if_neg hflow] at hsender
  have heq : n = s.sender.base := by
    rcases hsender with ⟨_, heq⟩ | ⟨hblock, _⟩
    · exact heq
    · rw [hphase] at hblock
      cases hblock
  rw [Sender.fillBlock]
  split
  · rename_i hlt
    have hframe : job.rawFrame s.sender.base = job.sentFrame n := by
      rw [Job.sentFrame, if_neg hflow, heq]
    rw [Sender.sendBlock, hframe]
    refine ⟨.sending m r (n + 1) (hk.sent _ _) (hs.frame (heq ▸ hlt) rfl hs.clean ?_), ?_⟩
    · rw [Sender.HasSent, if_neg hflow]
      exact Or.inr ⟨rfl, by rw [heq]⟩
    · simp [Transfer.remaining, Transfer.sent, hphase, hlength]
      omega
  · rename_i hblocks
    exact hs.done hk hphase (Nat.not_lt.mp hblocks)

/-- The sender writes a frame, waits, or writes DONE. -/
theorem Sending.run
    (hk : Kept job s m r) (hs : Sending job s r n) (h : s.step job .run = some s') :
    Advances job s s' := by
  rw [Transfer.step, Option.map_eq_some_iff] at h
  obtain ⟨p, hp, rfl⟩ := h
  rw [Sender.step] at hp
  split at hp
  · rename_i hphase
    split at hp
    · rename_i hflow
      cases hp
      exact hs.fillWindow hk hflow hphase
    · rename_i hflow
      cases hp
      exact hs.fillBlock hk hflow hphase
  · cases hp

/-- The receiver stores the oldest frame. -/
theorem Sending.command
    (hk : Kept job s m r) (hs : Sending job s r n) (h : s.step job .command = some s') :
    Advances job s s' := by
  have hn := hs.sent_le
  have hbase := hs.base_le
  have hcommands := hs.commands
  obtain ⟨k, hk'⟩ : ∃ k, n - r.expected = k + 1 := by
    cases hzero : n - r.expected with
    | zero =>
        rw [hzero] at hcommands
        rw [Transfer.step, hcommands] at h
        cases h
    | succ k => exact ⟨k, rfl⟩
  rw [hk', List.range'_succ, List.map_cons] at hcommands
  obtain ⟨events, hrun⟩ := hk.run
  have hread := Recv.read_sent hk.agrees hs.header (Recv.counts_run hrun).received_eq
    (show r.expected < job.blocks by omega)
  rw [Transfer.step, hcommands, Option.map_eq_some_iff] at h
  obtain ⟨p, hp, rfl⟩ := h
  rw [hk.client, Client.read, hread] at hp
  cases hp
  have hsends : sends (r.onBlock m r.expected (job.chunk r.expected)).2 = [.ack r.expected] := by
    simp only [Recv.onBlock]
    split <;> rfl
  have hunsaved := not_saved_of_header (m := m) (r := r) (by rw [hs.header]; simp)
  have hunsaved' := not_saved_of_header (m := m)
    (r := (r.onBlock m r.expected (job.chunk r.expected)).1) (by simp [Recv.onBlock, hs.header])
  refine ⟨.sending m _ n (hk.store hread) ?_, ?_⟩
  · refine
      { header := by simp [Recv.onBlock, hs.header]
        base_le := ?_
        le_sent := ?_
        sent_le := hn
        commands := ?_
        replies := ?_
        written := hs.written
        clean := hs.clean
        sender := hs.sender }
    · show s.sender.base ≤ r.expected + 1
      omega
    · show r.expected + 1 ≤ n
      omega
    · show (List.range' (r.expected + 1) k).map job.sentFrame =
        (List.range' (r.expected + 1) (n - (r.expected + 1))).map job.sentFrame
      congr 2
      omega
    · show s.replies ++ sends (r.onBlock m r.expected (job.chunk r.expected)).2 =
        (List.range' s.sender.base (r.expected + 1 - s.sender.base)).map Reply.ack
      rw [hsends, hs.replies, range'_append_next hbase, List.map_append]
      rfl
  · simp only [Transfer.remaining, Transfer.received, hcommands, hsends, hk.client, hunsaved,
      hunsaved', List.length_append, List.length_cons, List.length_nil]
    omega

/-- The sender reads the oldest ACK. -/
theorem Sending.reply
    (hk : Kept job s m r) (hs : Sending job s r n) (h : s.step job (.reply false) = some s') :
    Advances job s s' := by
  have hle := hs.le_sent
  have hreplies := hs.replies
  have hsender := hs.sender
  obtain ⟨k, hk'⟩ : ∃ k, r.expected - s.sender.base = k + 1 := by
    cases hzero : r.expected - s.sender.base with
    | zero =>
        rw [hzero] at hreplies
        rw [Transfer.step, hreplies] at h
        cases h
    | succ k => exact ⟨k, rfl⟩
  rw [hk', List.range'_succ, List.map_cons] at hreplies
  rw [Transfer.step, hreplies, Option.map_eq_some_iff] at h
  obtain ⟨p, hp, rfl⟩ := h
  have hfill : s.sender.phase ≠ .fill := Sender.not_fill_of_ack hp
  have hstep : ∀ {t : Sender}, p = (t, []) → t.phase = .fill → t.base = s.sender.base + 1 →
      t.retransmits = 0 → t.HasSent job n →
      Advances job s ({ s with
        replies := (List.range' (s.sender.base + 1) k).map Reply.ack }.sent p) := by
    rintro t rfl hphase hbase hclean hsent
    refine ⟨.sending m r n (hk.sent _ _) ?_, ?_⟩
    · refine
        { header := hs.header
          base_le := ?_
          le_sent := hle
          sent_le := hs.sent_le
          commands := by simpa [Transfer.sent] using hs.commands
          replies := ?_
          written := by simpa [Transfer.sent] using hs.written
          clean := hclean
          sender := hsent }
      · show t.base ≤ r.expected
        omega
      · show (List.range' (s.sender.base + 1) k).map Reply.ack =
          (List.range' t.base (r.expected - t.base)).map Reply.ack
        rw [hbase]
        congr 2
        omega
    · simp only [Transfer.remaining, Transfer.sent, hreplies, List.append_nil, List.length_cons,
        List.length_map, List.length_range', hphase, hfill, decide_true, decide_false,
        Bool.toNat_true, Bool.toNat_false]
      omega
  rw [Sender.HasSent] at hsender
  split at hsender
  · rename_i hflow
    obtain ⟨hnext, hcwnd, hattempts, hcache, hphase⟩ := hsender
    obtain ⟨hphase, hlt⟩ := hphase.resolve_left hfill
    rw [Sender.step_ack hphase (Nat.le_refl _) (by omega)] at hp
    refine hstep (Option.some.inj hp).symm rfl rfl hs.clean ?_
    rw [Sender.HasSent, if_pos hflow]
    refine ⟨hnext, ?_, ?_, ?_, Or.inl rfl⟩
    · simp only [Sender.advance]
      split
      · exact job.session.window_ok.1
      · exact hcwnd
    · intro seq hseq
      simp [Sender.advance, Sender.dropBelow, hattempts seq hseq]
    · intro seq c hc
      exact hcache seq c (Sender.dropBelow_some hc)
  · rename_i hflow
    obtain ⟨hphase, heq⟩ := hsender.resolve_left fun h => hfill h.1
    rw [Sender.step_block_ack hphase] at hp
    refine hstep (Option.some.inj hp).symm rfl rfl hs.clean ?_
    rw [Sender.HasSent, if_neg hflow]
    exact Or.inl ⟨rfl, heq⟩

end Sending

theorem Transfer.phase_of_run
    (h : s.step job .run = some s') :
    s.sender.phase = .fill := by
  by_contra hphase
  rw [Transfer.step, Sender.step, if_neg hphase] at h
  cases h

theorem Transfer.replies_of_reply
    {late : Bool} (h : s.step job (.reply late) = some s') :
    s.replies ≠ [] := by
  intro hnil
  rw [Transfer.step, hnil] at h
  cases h

theorem Transfer.commands_of_command
    (h : s.step job .command = some s') :
    s.commands ≠ [] := by
  intro hnil
  rw [Transfer.step, hnil] at h
  cases h

theorem Transfer.of_commit
    {m : AcceptedMeta cfg} {r : Recv} (hclient : s.client = .receiving m r)
    (h : s.step job .commit = some s') :
    r.phase = .commit ∧
      s' = s.received (.receiving m { r with phase := .returned true }, [.replace, .unlink]) := by
  rw [Transfer.step, hclient, Client.act, Recv.step] at h
  split at h
  · rename_i hphase
    simp at h
    exact ⟨hphase, h.symm⟩
  · cases h

section Stages

variable {barrier_id : Nat} {reset_token : Option Line} {m : AcceptedMeta cfg} {r : Recv}

/-- The receiver reads META. -/
theorem Transfer.accepted
    (hpair : Paired job.session cfg) (hsize : job.size ≤ Const.MAX_FILE_SIZE)
    (hspace : ∀ space, cfg.free_space = some space → job.size ≤ space)
    (hsender : s.sender = Sender.start barrier_id reset_token)
    (hclient : s.client = .awaiting true) (hcommands : s.commands = [job.announcement])
    (hreplies : s.replies = []) (hwritten : s.written = [job.announcement])
    (htrace : s.trace = []) (h : s.step job .command = some s') :
    Advances job s s' := by
  obtain ⟨m, hm, hmeta⟩ := accept_announcement hpair hsize hspace
  rw [Transfer.step, hcommands, Option.map_eq_some_iff] at h
  obtain ⟨p, hp, rfl⟩ := h
  rw [hclient, Client.read, hmeta] at hp
  cases hp
  refine ⟨.greeted barrier_id reset_token m hsender ?_ rfl ?_ hwritten, ?_⟩
  · exact
      { client := rfl
        agrees := hm
        run := ⟨[], by simp [Transfer.received, htrace, Recv.run, Machine.run]⟩
        bytes := by
          simp [Transfer.received, htrace, Recv.startEffects, sinceRestart, writtenBytes,
            Recv.start]
        replied := by simp [Transfer.received, htrace, Recv.startEffects] }
  · simp [Transfer.received, hreplies, Recv.startEffects, sends]
  · simp [Transfer.remaining, Transfer.received, hcommands, hreplies, hclient,
      Recv.startEffects, sends, Client.saved, Recv.start]

/-- The sender reads READY. -/
theorem Kept.begin
    (hk : Kept job s m Recv.start) (hsender : s.sender = Sender.start barrier_id reset_token)
    (hcommands : s.commands = []) (hreplies : s.replies = [.ready])
    (hwritten : s.written = [job.announcement]) (h : s.step job (.reply false) = some s') :
    Advances job s s' := by
  rw [Transfer.step, hreplies, Option.map_eq_some_iff] at h
  obtain ⟨p, hp, rfl⟩ := h
  have hphase : s.sender.phase = .ready := by rw [hsender]; rfl
  rw [Sender.step_ready hphase] at hp
  cases hp
  refine ⟨.sending m Recv.start 0 (hk.sent _ _) ?_, ?_⟩
  · refine
      { header := rfl
        base_le := by simp [Transfer.sent, hsender, Sender.start]
        le_sent := Nat.zero_le _
        sent_le := Nat.zero_le _
        commands := by simp [Transfer.sent, hcommands, Recv.start]
        replies := by simp [Transfer.sent, Recv.start]
        written := by simp [Transfer.sent, hwritten, Job.transcript]
        clean := by simp [Transfer.sent, hsender, Sender.start]
        sender := ?_ }
    rw [Sender.HasSent]
    split
    · simp [Transfer.sent, hsender, Sender.start]
    · simp [Transfer.sent, hsender, Sender.start]
  · simp [Transfer.remaining, Transfer.sent, hcommands, hreplies, hphase]
    omega

/-- The receiver reads DONE. -/
theorem Kept.readDone
    (hk : Kept job s m r) (hphase : s.sender.phase = .final) (hheader : r.phase = .header)
    (hblocks : r.expected = job.blocks) (hclean : s.sender.retransmits = 0)
    (hcommands : s.commands = [.done job.crc]) (hreplies : s.replies = [])
    (hwritten : s.written = job.transcript job.blocks ++ [.done job.crc])
    (h : s.step job .command = some s') :
    Advances job s s' := by
  have hread := hk.read_done hheader hblocks
  have hunsaved := not_saved_of_header (m := m) (r := r) (by rw [hheader]; simp)
  have hunsaved' := not_saved_of_header (m := m) (r := { r with phase := .commit }) (by simp)
  rw [Transfer.step, hcommands, Option.map_eq_some_iff] at h
  obtain ⟨p, hp, rfl⟩ := h
  rw [hk.client, Client.read, hread] at hp
  cases hp
  refine ⟨.answered m _ (hk.confirm hread) hphase (Or.inl rfl) hblocks hclean rfl ?_ hwritten, ?_⟩
  · simp [Transfer.received, hreplies]
  · simp [Transfer.remaining, Transfer.received, hcommands, hreplies, hk.client, hunsaved,
      hunsaved']

/-- The sender reads OK. -/
theorem Kept.readOk
    (hk : Kept job s m r) (hphase : s.sender.phase = .final)
    (hend : r.phase = .commit ∨ r.phase = .returned true) (hblocks : r.expected = job.blocks)
    (hclean : s.sender.retransmits = 0) (hcommands : s.commands = [])
    (hreplies : s.replies = [.ok job.crc])
    (hwritten : s.written = job.transcript job.blocks ++ [.done job.crc])
    (h : s.step job (.reply false) = some s') :
    Advances job s s' := by
  rw [Transfer.step, hreplies, Option.map_eq_some_iff] at h
  obtain ⟨p, hp, rfl⟩ := h
  rw [Sender.step_ok hphase] at hp
  cases hp
  refine ⟨.told m r _ (hk.sent _ _) rfl rfl hend hblocks hclean ?_ rfl ?_, ?_⟩
  · simp [Transfer.sent, hcommands]
  · simp [Transfer.sent, hwritten]
  · simp [Transfer.remaining, Transfer.sent, hcommands, hreplies, hphase]

/-- The receiver renames the file. -/
theorem Kept.saves
    (hk : Kept job s m r) (h : s.step job .commit = some s') :
    s' = s.received (.receiving m { r with phase := .returned true }, [.replace, .unlink]) ∧
      Kept job s' m { r with phase := .returned true } ∧ s'.replies = s.replies ∧
        s'.remaining job < s.remaining job := by
  obtain ⟨hcommit, rfl⟩ := Transfer.of_commit hk.client h
  refine ⟨rfl, hk.commit hcommit, by simp [Transfer.received, sends], ?_⟩
  simp [Transfer.remaining, Transfer.received, sends, hk.client, hcommit, Client.saved]

end Stages

/-- Without faults a transfer stays on its course, and every step brings it nearer to its end. -/
theorem Course.move
    (hpair : Paired job.session cfg) (hsize : job.size ≤ Const.MAX_FILE_SIZE)
    (hspace : ∀ space, cfg.free_space = some space → job.size ≤ space)
    (hs : Course job s) {e : Event} (he : Faults.none.permit e = true)
    (h : s.step job e = some s') :
    Advances job s s' := by
  have hnoRun : s.sender.phase ≠ .fill → s.step job .run ≠ some s' :=
    fun hphase hrun => hphase (Transfer.phase_of_run hrun)
  have hnoReply : s.replies = [] → s.step job (.reply false) ≠ some s' :=
    fun hnil hreply => Transfer.replies_of_reply hreply hnil
  have hnoCommand : s.commands = [] → s.step job .command ≠ some s' :=
    fun hnil hcommand => Transfer.commands_of_command hcommand hnil
  have hnoCommit : ∀ {m r}, s.client = .receiving m r → r.phase ≠ .commit →
      s.step job .commit ≠ some s' :=
    fun hclient hphase hcommit => hphase (Transfer.of_commit hclient hcommit).1
  cases hs with
  | opening barrier_id reset_token hsender hclient hcommands hreplies hwritten htrace =>
      rcases Faults.none_cases he with rfl | rfl | rfl | rfl
      · exact absurd h (hnoRun (by rw [hsender]; simp [Sender.start]))
      · exact absurd h (hnoReply hreplies)
      · exact Transfer.accepted hpair hsize hspace hsender hclient hcommands hreplies hwritten
          htrace h
      · rw [Transfer.step, hclient] at h
        cases h
  | greeted barrier_id reset_token m hsender hkept hcommands hreplies hwritten =>
      rcases Faults.none_cases he with rfl | rfl | rfl | rfl
      · exact absurd h (hnoRun (by rw [hsender]; simp [Sender.start]))
      · exact hkept.begin hsender hcommands hreplies hwritten h
      · exact absurd h (hnoCommand hcommands)
      · exact absurd h (hnoCommit hkept.client (by simp [Recv.start]))
  | sending m r n hkept hsending =>
      rcases Faults.none_cases he with rfl | rfl | rfl | rfl
      · exact hsending.run hkept h
      · exact hsending.reply hkept h
      · exact hsending.command hkept h
      · exact absurd h (hnoCommit hkept.client (by rw [hsending.header]; simp))
  | asked m r hkept hphase hheader hblocks hclean hcommands hreplies hwritten =>
      rcases Faults.none_cases he with rfl | rfl | rfl | rfl
      · exact absurd h (hnoRun (by rw [hphase]; simp))
      · exact absurd h (hnoReply hreplies)
      · exact hkept.readDone hphase hheader hblocks hclean hcommands hreplies hwritten h
      · exact absurd h (hnoCommit hkept.client (by rw [hheader]; simp))
  | answered m r hkept hphase hend hblocks hclean hcommands hreplies hwritten =>
      rcases Faults.none_cases he with rfl | rfl | rfl | rfl
      · exact absurd h (hnoRun (by rw [hphase]; simp))
      · exact hkept.readOk hphase hend hblocks hclean hcommands hreplies hwritten h
      · exact absurd h (hnoCommand hcommands)
      · obtain ⟨rfl, hsaved, hsame, hless⟩ := hkept.saves h
        exact ⟨.answered m _ hsaved hphase (Or.inr rfl) hblocks hclean hcommands
          (hsame.trans hreplies) hwritten, hless⟩
  | told m r result hkept hphase hresult hend hblocks hclean hcommands hreplies hwritten =>
      rcases Faults.none_cases he with rfl | rfl | rfl | rfl
      · exact absurd h (hnoRun (by rw [hphase]; simp))
      · exact absurd h (hnoReply hreplies)
      · exact absurd h (hnoCommand hcommands)
      · obtain ⟨rfl, hsaved, hsame, hless⟩ := hkept.saves h
        exact ⟨.told m _ result hsaved hphase hresult (Or.inr rfl) hblocks hclean hcommands
          (hsame.trans hreplies) hwritten, hless⟩

/-- The course begins when META has been written. -/
theorem course_start (barrier_id : Nat) (reset_token : Option Line) :
    Course job (Transfer.start cfg job barrier_id reset_token) :=
  .opening barrier_id reset_token rfl rfl rfl rfl rfl rfl

/-- What a transfer that ended well leaves behind. -/
structure Transfer.Finished (job : Job) (dir : Directory) (s : Transfer cfg) : Prop where
  result : ∃ result, s.sender.phase = .returned (some result) ∧ result.verified = true ∧
    result.retransmits = 0 ∧
    result.blocks = max 1 ((job.size + job.block_size - 1) / job.block_size)
  written : s.written =
    job.announcement :: (List.range job.blocks).map job.sentFrame ++ [.done job.crc]
  idle : s.commands = [] ∧ s.replies = []
  saved : applyEffects job.filename.text dir s.trace job.filename.text = some (.bytes job.data)

/-- On its course a transfer is finished, or can go on. -/
theorem Course.finished_or_step
    (hpair : Paired job.session cfg) (hsize : job.size ≤ Const.MAX_FILE_SIZE)
    (hspace : ∀ space, cfg.free_space = some space → job.size ≤ space)
    (dir : Directory) (hs : Course job s) :
    s.Finished job dir ∨ ∃ e s', Faults.none.permit e = true ∧ s.step job e = some s' := by
  have hsome : ∀ {e : Event}, Faults.none.permit e = true → (s.step job e).isSome = true →
      ∃ e s', Faults.none.permit e = true ∧ s.step job e = some s' :=
    fun he h => ⟨_, _, he, (Option.some_get h).symm⟩
  cases hs with
  | opening barrier_id reset_token hsender hclient hcommands =>
      obtain ⟨m, _, hmeta⟩ := accept_announcement hpair hsize hspace
      refine Or.inr (hsome (e := .command) rfl ?_)
      rw [Transfer.step, hcommands, hclient]
      simp only [Client.read, hmeta, Option.map_some]
      rfl
  | greeted barrier_id reset_token m hsender hkept hcommands hreplies =>
      have hphase : s.sender.phase = .ready := by rw [hsender]; rfl
      refine Or.inr (hsome (e := .reply false) rfl ?_)
      rw [Transfer.step, hreplies]
      simp only [Sender.step_ready hphase, Option.map_some]
      rfl
  | sending m r n hkept hs =>
      right
      have hle := hs.le_sent
      have hsent := hs.sent_le
      by_cases hfill : s.sender.phase = .fill
      · refine hsome (e := .run) rfl ?_
        rw [Transfer.step, Sender.step, if_pos hfill]
        rfl
      · by_cases hread : r.expected < n
        · -- A frame is on the way.
          obtain ⟨events, hrun⟩ := hkept.run
          have hread' := Recv.read_sent hkept.agrees hs.header
            (Recv.counts_run hrun).received_eq (hread.trans_le hsent)
          obtain ⟨k, hk⟩ := Nat.exists_eq_add_of_lt hread
          have hcommands := hs.commands
          rw [show n - r.expected = k + 1 by omega, List.range'_succ, List.map_cons] at hcommands
          refine hsome (e := .command) rfl ?_
          rw [Transfer.step, hcommands, hkept.client]
          simp only [Client.read, hread', Option.map_some]
          rfl
        · -- All frames were read, so an ACK is.
          have hreplies := hs.replies
          have hsender := hs.sender
          rw [Sender.HasSent] at hsender
          split at hsender
          · obtain ⟨hnext, _, _, _, hphase⟩ := hsender
            obtain ⟨hphase, hlt⟩ := hphase.resolve_left hfill
            rw [show r.expected - s.sender.base = (r.expected - s.sender.base - 1) + 1 by omega,
              List.range'_succ, List.map_cons] at hreplies
            refine hsome (e := .reply false) rfl ?_
            rw [Transfer.step, hreplies]
            simp only [Sender.step_ack hphase (Nat.le_refl _) (hnext ▸ hlt), Option.map_some]
            rfl
          · obtain ⟨hphase, heq⟩ := hsender.resolve_left fun h => hfill h.1
            rw [show r.expected - s.sender.base = (r.expected - s.sender.base - 1) + 1 by omega,
              List.range'_succ, List.map_cons] at hreplies
            refine hsome (e := .reply false) rfl ?_
            rw [Transfer.step, hreplies]
            simp only [Sender.step_block_ack hphase, Option.map_some]
            rfl
  | asked m r hkept hphase hheader hblocks hclean hcommands =>
      refine Or.inr (hsome (e := .command) rfl ?_)
      rw [Transfer.step, hcommands, hkept.client]
      simp only [Client.read, hkept.read_done hheader hblocks, Option.map_some]
      rfl
  | answered m r hkept hphase hend hblocks hclean hcommands hreplies =>
      refine Or.inr (hsome (e := .reply false) rfl ?_)
      rw [Transfer.step, hreplies]
      simp only [Sender.step_ok hphase, Option.map_some]
      rfl
  | told m r result hkept hphase hresult hend hblocks hclean hcommands hreplies hwritten =>
      rcases hend with hend | hend
      · refine Or.inr (hsome (e := .commit) rfl ?_)
        rw [Transfer.step, hkept.client]
        simp [Client.act, Recv.step, hend]
      · left
        refine ⟨⟨result, hphase, ?_, ?_, ?_⟩, hwritten, ⟨hcommands, hreplies⟩, ?_⟩
        · rw [hresult, Sender.result]
        · rw [hresult, Sender.result]
          exact hclean
        · rw [hresult, Sender.result]
          rfl
        · obtain ⟨events, hrun⟩ := hkept.run
          have hbytes := hkept.bytes
          rw [hblocks, job.take_blocks] at hbytes
          rw [← hkept.agrees.target, Recv.final_of_returned dir hrun hend, hbytes]

theorem Course.replied
    (hs : Course job s) :
    ∀ reply, Effect.send reply ∈ s.trace →
      reply = .ready ∨ (∃ seq, reply = .ack seq) ∨ reply = .ok job.crc := by
  cases hs with
  | opening barrier_id reset_token hsender hclient hcommands hreplies hwritten htrace =>
      simp [htrace]
  | greeted barrier_id reset_token m hsender hkept => exact hkept.replied
  | sending m r n hkept => exact hkept.replied
  | asked m r hkept => exact hkept.replied
  | answered m r hkept => exact hkept.replied
  | told m r result hkept => exact hkept.replied

end Course

section Result

/-- Without faults every run is bounded, only READY, ACK and OK come back, and a run that cannot
go on has verified and saved the file. -/
theorem fault_free_completes
    (job : Job) (cfg : ClientConfig) (hpair : Paired job.session cfg)
    (hsize : job.size ≤ Const.MAX_FILE_SIZE)
    (hspace : ∀ space, cfg.free_space = some space → job.size ≤ space)
    (dir : Directory) (barrier_id : Nat) (reset_token : Option Line) :
    (∀ events s,
      (Transfer.start cfg job barrier_id reset_token).exec .none job events = some s →
        events.length ≤ 4 * job.blocks + 8) ∧
    ∀ s, Transfer.Leads .none job (Transfer.start cfg job barrier_id reset_token) s →
      (∀ reply, Effect.send reply ∈ s.trace →
        reply = .ready ∨ (∃ seq, reply = .ack seq) ∨ reply = .ok job.crc) ∧
      (s.Finished job dir ∨ ∃ e s', Faults.none.permit e = true ∧ s.step job e = some s') := by
  have hmove : ∀ (s : Transfer cfg) e s', Course job s → Faults.none.permit e = true →
      s.step job e = some s' → Course job s' ∧ s'.remaining job < s.remaining job :=
    fun s e s' hs he hstep => hs.move hpair hsize hspace he hstep
  constructor
  · intro events s hexec
    have hle := Transition.exec_length_le (Course job) (Transfer.remaining job) hmove
      (course_start barrier_id reset_token) hexec
    have hstart : (Transfer.start cfg job barrier_id reset_token).remaining job =
        4 * job.blocks + 8 := by
      simp [Transfer.remaining, Transfer.start, Client.saved, Sender.start]
      omega
    omega
  · intro s hleads
    have hcourse : Course job s :=
      Transition.Steps.invariant (Course job) (fun s e s' hs he h => (hmove s e s' hs he h).1)
        hleads (course_start barrier_id reset_token)
    exact ⟨hcourse.replied, hcourse.finished_or_step hpair hsize hspace dir⟩

/-- A file of two bytes, in two blocks. -/
theorem fault_free_completes_two_blocks :
    ∃ s : Transfer smallClient, s.Finished (smallJob [65, 66]) (fun _ => none) := by
  let events : List Event :=
    [.command, .reply false, .run, .run, .command, .reply false, .run, .run, .command,
      .reply false, .run, .command, .commit, .reply false]
  let stuck : Transfer smallClient → Bool := fun s =>
    (s.step (smallJob [65, 66]) .run).isNone &&
      (s.step (smallJob [65, 66]) (.reply false)).isNone &&
      (s.step (smallJob [65, 66]) .command).isNone && (s.step (smallJob [65, 66]) .commit).isNone
  have hrun : ((Transfer.start smallClient (smallJob [65, 66]) 0 none).exec .none
      (smallJob [65, 66]) events).any stuck = true := by
    decide +kernel
  rw [Option.any_eq_true] at hrun
  obtain ⟨s, hexec, hstuck⟩ := hrun
  refine ⟨s, (((fault_free_completes (smallJob [65, 66]) smallClient small_paired (by decide)
    (by simp [smallClient]) (fun _ => none) 0 none).2 s (.of_exec hexec)).2).resolve_right ?_⟩
  rintro ⟨e, s', he, hstep⟩
  rcases Faults.none_cases he with rfl | rfl | rfl | rfl <;> simp [stuck, hstep] at hstuck

end Result

end Pcutp
