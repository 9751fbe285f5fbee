import Pcutp.Followed
import Pcutp.LostAcks

/-!
# A lost payload byte

A frame that has lost a byte and has nothing behind it is mended: `recv_exact` gives
up, the receiver discards what it has and answers `DROP n RAW`, and after
BARRIER and RESUME the sender sends the block again.  `Mends` describes every state
of such a transfer, and counts the steps that are left.

With a frame behind it the receiver takes the first letter of that frame for the
missing byte, and the rest of the header for a line that is none.
-/

namespace Pcutp

section Stages

/-- Everything below block `k` is acknowledged, and block `k` is the last that was sent. -/
structure Sender.Behind (job : Job) (k : Nat) (s : Sender) : Prop where
  base : s.base = k
  next : s.next_seq = k + 1
  attempts : ∀ seq, s.attempts seq ≤ 1
  cached : ∀ seq c, s.frames seq = some c → c = job.frame seq
  recoveries : s.recoveries = 0

/-- The frames of the blocks from `e` to `k`, the last one without byte `j` of its payload. -/
def Job.shortFlight (job : Job) (e k j : Nat) : List Command :=
  (List.range' e (k - e)).map job.sentFrame ++ [(job.sentFrame k).without j]

variable {cfg : ClientConfig}

/-- The frame of block `k` has lost a byte, and is the last on the line.  But for this byte the
line carries what the transfer `t` has on it. -/
structure ByteLine.Short (job : Job) (w : ByteLine cfg) (t : Transfer cfg) (m : AcceptedMeta cfg)
    (r : Recv) (k j lag : Nat) : Prop where
  kept : Kept job t m r
  sending : Sending job t r (k + 1)
  twin : w.sender.Twin 0 t.sender
  alone : w.sender.cwnd = 1 ∧ w.sender.base = k ∨ k + 1 = job.blocks
  ahead : r.expected ≤ k
  stands : w.Stands t.client (job.shortFlight r.expected k j) lag
  inside : j < (job.sentFrame k).payload.length
  replies : w.replies = t.replies
  lost : w.lost = some k
  written : w.written = job.transcript (k + 1)
  trace : w.trace = t.trace
  recoveries : w.sender.recoveries = 0

/-- The receiver has stored what the transfer `t` has stored, and lacks block `k`. -/
structure ByteLine.Lacks (job : Job) (w : ByteLine cfg) (t : Transfer cfg) (m : AcceptedMeta cfg)
    (r : Recv) (k : Nat) : Prop where
  kept : Kept job t m r
  header : r.phase = .header
  expected : r.expected = k
  lt_blocks : k < job.blocks
  behind : w.sender.Behind job k
  lost : w.lost = some k

/-- More steps than a transfer without faults takes. -/
def Job.patience (job : Job) : Nat :=
  2 * (4 * job.blocks + 8) + 1

/-- The states of a transfer that loses one byte of the last frame on the line, with a bound on
the steps that are left. -/
inductive ByteLine.Mends (job : Job) (w : ByteLine cfg) : Nat → Prop
  | whole (t : Transfer cfg) (lag : Nat) (h : w.Follows job 0 t lag) (hlost : w.lost = none)
      (hwritten : w.written = t.written) (htrace : w.trace = t.trace)
      (hrecoveries : w.sender.recoveries = 0) :
      Mends job w (job.patience + 4 + (2 * t.remaining job + lag))
  | short (t : Transfer cfg) (m : AcceptedMeta cfg) (r : Recv) (k j lag : Nat)
      (h : w.Short job t m r k j lag) :
      Mends job w (job.patience + 4 + (2 * t.remaining job + lag))
  /-- The sender has waited for an ACK as long as it does, and the receiver still waits. -/
  | starving (t : Transfer cfg) (m : AcceptedMeta cfg) (r : Recv) (k : Nat) (h : DataHeader)
      (hlacks : w.Lacks job t m r k) (hphase : w.sender.phase = .guard false)
      (hclient : w.client = .receiving m { r with phase := .payload h })
      (hstream : w.stream.length < h.length) (hreplies : w.replies = [])
      (hwritten : w.written = job.transcript (k + 1)) (htrace : w.trace = t.trace) :
      Mends job w (job.patience + 4)
  | dropped (t : Transfer cfg) (m : AcceptedMeta cfg) (r : Recv) (k : Nat)
      (hlacks : w.Lacks job t m r k)
      (hphase : w.sender.phase = .reply ∨ w.sender.phase = .guard false)
      (hclient : w.client = .receiving m r) (hstream : w.stream = [])
      (hreplies : w.replies = [.drop k "RAW".toList])
      (hwritten : w.written = job.transcript (k + 1))
      (htrace : w.trace = t.trace ++ [.send (.drop k "RAW".toList)]) :
      Mends job w (job.patience + 3)
  | asked (t : Transfer cfg) (m : AcceptedMeta cfg) (r : Recv) (k left : Nat)
      (hlacks : w.Lacks job t m r k) (hphase : w.sender.phase = .barrier false left)
      (hcwnd : w.sender.cwnd = 1) (hclient : w.client = .receiving m r)
      (hstream : w.stream = (Command.barrier w.sender.barrier_id).bytes)
      (hreplies : w.replies = [])
      (hwritten : w.written = job.transcript (k + 1) ++ [.barrier w.sender.barrier_id])
      (htrace : w.trace = t.trace ++ [.send (.drop k "RAW".toList)]) :
      Mends job w (job.patience + 2)
  | resumed (t : Transfer cfg) (m : AcceptedMeta cfg) (r : Recv) (k left : Nat)
      (hlacks : w.Lacks job t m r k) (hphase : w.sender.phase = .barrier false left)
      (hcwnd : w.sender.cwnd = 1) (hclient : w.client = .receiving m r)
      (hstream : w.stream = []) (hreplies : w.replies = [.resume (dec w.sender.barrier_id) k])
      (hwritten : w.written = job.transcript (k + 1) ++ [.barrier w.sender.barrier_id])
      (htrace : w.trace = t.trace ++ [.send (.drop k "RAW".toList),
        .send (.resume (dec w.sender.barrier_id) k)]) :
      Mends job w (job.patience + 1)
  /-- The transfer goes on as if the frame had not been sent before. -/
  | again (t : Transfer cfg) (lag k id : Nat) (before after : List Effect) (rest : List Command)
      (h : w.Follows job 1 t lag) (hlt : k < job.blocks) (hlost : w.lost = some k)
      (hwritten : w.written = job.transcript (k + 1) ++ [.barrier id] ++ rest)
      (hwritten' : t.written = job.transcript k ++ rest)
      (htrace : w.trace = before ++ [.send (.drop k "RAW".toList), .send (.resume (dec id) k)] ++
        after)
      (htrace' : t.trace = before ++ after) :
      Mends job w (2 * t.remaining job + lag)

/-- What is left of a transfer that ended well: the file, and after a lost byte the answers of the
receiver and the block that was sent again behind a BARRIER. -/
structure ByteLine.Mended (job : Job) (dir : Directory) (w : ByteLine cfg) : Prop where
  result : ∃ result, w.sender.phase = .returned (some result) ∧ result.verified = true
  saved : applyEffects job.filename.text dir w.trace job.filename.text = some (.bytes job.data)
  idle : w.stream = [] ∧ w.replies = []
  again : ∀ k, w.lost = some k → ∃ id before after,
    w.trace = before ++ [.send (.drop k "RAW".toList), .send (.resume (dec id) k)] ++ after ∧
      w.written = job.transcript (k + 1) ++ [.barrier id] ++
        ((List.range' k (job.blocks - k)).map job.sentFrame ++ [.done job.crc])

end Stages

section Sender

variable {job : Job} {s : Sender} {late : Bool}

/-- A DROP starts a recovery, in time or in the guard. -/
theorem Sender.step_drop
    {e : Nat} {why : Line} (hwhy : IsWord why)
    (hphase : s.phase = .reply ∨ s.phase = .guard false) :
    s.step job (.line (Reply.drop e why).line late) =
      some (({ s with cwnd := 1, clean_acks := 0 } : Sender).recover job false) := by
  have hprintable : (Reply.drop e why).Printable := hwhy
  have hwords := Reply.split_line hprintable
  have hgap : ∀ late, s.dispatch job (Reply.drop e why).words late =
      ({ s with cwnd := 1, clean_acks := 0 } : Sender).recover job false :=
    fun late => dispatch_gap job s late (Or.inr rfl)
  rw [step, if_neg (by rw [Reply.isRmb_line hprintable]; simp), onLine]
  rcases hphase with hphase | hphase <;> rw [hphase]
  · simp only [hwords, onReply]
    rw [if_neg (by simp [Reply.words]), hgap, hphase]
  · simp only [onGuard, hwords]
    rw [if_neg (Reply.line_ne_nil hprintable), if_neg (by simp [Reply.words]), hgap, hphase]

/-- RESUME names the block that was sent last: it will be sent again. -/
theorem Sender.Behind.step_resume
    {k left : Nat} (h : s.Behind job k) (hphase : s.phase = .barrier false left)
    (hretries : 1 ≤ job.session.config.max_retries) :
    s.step job (.line (Reply.resume (dec s.barrier_id) k).line late) =
      some ({ s with
        phase := .fill
        base := k
        next_seq := k
        recoveries := 1
        attempts := dropBelow k 0 s.attempts
        frames := dropBelow k none s.frames }, []) := by
  have hprintable : (Reply.resume (dec s.barrier_id) k).Printable := isWord_dec _
  rw [step, if_neg (by rw [Reply.isRmb_line hprintable]; simp), onLine, hphase]
  simp only [Reply.split_line hprintable, Option.some.injEq]
  rw [onBarrier, if_pos (by simp [Reply.words])]
  have hle : ¬ job.session.config.max_retries < 1 := Nat.not_lt.mpr hretries
  simp [Reply.words, resume, h.base, h.next, h.recoveries, hle]

/-- With all blocks of the window written the sender waits. -/
theorem Sender.step_full
    (hflow : job.session.flow = true) (hphase : s.phase = .fill) (hbase : s.base < job.blocks)
    (hfull : ¬ s.next_seq < min job.blocks (s.base + s.cwnd)) :
    s.step job .run = some ({ s with phase := .reply }, []) := by
  rw [step, if_pos hphase, if_pos hflow, fillWindow, if_pos hbase, if_neg hfull]

end Sender

section Losing

variable {cfg : ClientConfig} {job : Job} {w w' : ByteLine cfg} {t : Transfer cfg}
  {m : AcceptedMeta cfg} {r : Recv} {k j lag : Nat}

theorem Command.line_without (c : Command) (j : Nat) :
    (c.without j).line = c.line := by
  cases c <;> rfl

theorem Command.length_payload_without
    {c : Command} {j : Nat} (h : j < c.payload.length) :
    (c.without j).payload.length + 1 = c.payload.length := by
  have herase := List.length_eraseIdx_add_one h
  cases c with
  | data => exact herase
  | zdata => exact herase
  | _ => cases h

theorem Job.seq_sentFrame
    (job : Job) {k : Nat} (hk : k < job.blocks) :
    (job.sentFrame k).seq? = some k :=
  ((job.sentFrame_isFrameOf k).carries hk).isFrame.2

/-- The line loses a byte of a frame for which the window has room. -/
theorem ByteLine.of_lose
    (hflow : job.session.flow = true) (hstep : w.step job (.lose j) = some w') :
    ∃ c, w.sender.phase = .fill ∧ w.sender.next_seq < job.blocks ∧
      w.sender.next_seq < w.sender.base + w.sender.cwnd ∧ j < c.payload.length ∧
      w.sender.step job .run = some (w.sender.writeFrame c, [c]) ∧
      w' = { w with
        sender := w.sender.writeFrame c
        stream := w.stream ++ (c.without j).bytes
        written := w.written ++ [c]
        lost := c.seq? } := by
  rw [ByteLine.step] at hstep
  split at hstep
  swap
  · cases hstep
  rename_i sender c hlost hrun
  split at hstep
  swap
  · cases hstep
  rename_i hinside
  cases hstep
  obtain ⟨hphase, hkind⟩ := Sender.fill_kind hflow hrun
  -- Only a frame has a payload.
  generalize hwrote : [c] = out at hkind
  cases hkind with
  | wait => cases hwrote
  | done =>
      cases hwrote
      cases hinside
  | failed =>
      cases hwrote
      cases hinside
  | frame frame hframe hblocks hroom hbase =>
      cases hwrote
      exact ⟨c, hphase, hblocks, hroom, hinside, hrun, rfl⟩

/-- The next frame of a transfer on its course is that of the next block. -/
theorem Sending.write
    {n : Nat} {q : Sender × List Command} {c : Command} (hkept : Kept job t m r)
    (hsending : Sending job t r n) (hcourse : Course job (t.sent q)) (hfill : q.1.phase = .fill)
    (hout : q.2 = [c]) :
    c = job.sentFrame n ∧ Kept job (t.sent q) m r ∧ Sending job (t.sent q) r (n + 1) := by
  obtain ⟨m', r', n', hkept', hsending'⟩ := hcourse.sending_of (Or.inl hfill)
  have hclient : Client.receiving m' r' = .receiving m r :=
    hkept'.client.symm.trans hkept.client
  cases hclient
  have hlength : (t.sent q).written.length = t.written.length + 1 := by
    simp [Transfer.sent, hout]
  rw [hsending'.length_written, hsending.length_written] at hlength
  obtain rfl : n' = n + 1 := by omega
  have hcommands : (t.sent q).commands = t.commands ++ [c] := by rw [Transfer.sent, hout]
  rw [hsending'.commands, range'_append_next hsending.le_sent, List.map_append, hsending.commands]
    at hcommands
  exact ⟨(List.singleton_inj.mp (List.append_cancel_left hcommands)).symm, hkept', hsending'⟩

/-- A byte is lost from the frame that goes out. -/
theorem ByteLine.Follows.lose
    (hpair : Paired job.session cfg) (hflow : job.session.flow = true)
    (hsize : job.size ≤ Const.MAX_FILE_SIZE)
    (hspace : ∀ space, cfg.free_space = some space → job.size ≤ space)
    (h : w.Follows job 0 t lag) (hwritten : w.written = t.written) (htrace : w.trace = t.trace)
    (hrecoveries : w.sender.recoveries = 0) (halone : w.Alone job (.lose j))
    (hstep : w.step job (.lose j) = some w') :
    ∃ t' m r k, w'.Short job t' m r k j lag ∧ t'.remaining job < t.remaining job := by
  obtain ⟨c, hphase, hblocks, hroom, hinside, hrun, rfl⟩ := ByteLine.of_lose hflow hstep
  have hfill := (h.twin.phase_eq_left (by rw [hphase]; simp)).symm.trans hphase
  obtain ⟨m, r, n, hkept, hsending⟩ := h.course.sending_of (Or.inl hfill)
  have hsender := hsending.sender
  rw [Sender.HasSent, if_pos hflow] at hsender
  obtain ⟨rfl, _, huntried, _⟩ := hsender
  obtain ⟨q, hq, hout, htwin, hsame⟩ := h.twin.run hflow (Nat.zero_le _) huntried hrun
  have ht : t.step job .run = some (t.sent q) := by rw [Transfer.step, hq]; rfl
  obtain ⟨hcourse, hless⟩ := h.course.move hpair hsize hspace rfl ht
  have hfill' : q.1.phase = .fill :=
    (htwin.phase_eq_left (by simp [Sender.writeFrame, hphase])).symm.trans hphase
  obtain ⟨rfl, hkept', hsending'⟩ := Sending.write hkept hsending hcourse hfill' hout
  have hfields := h.twin.window_eq
  refine ⟨t.sent q, m, r, t.sender.next_seq, ?_, hless⟩
  exact
    { kept := hkept'
      sending := hsending'
      twin := htwin
      alone := by
        rcases halone with hone | hlast
        · have hstart := hsending.base_le
          have hle := hsending.le_sent
          refine Or.inl ⟨hone, ?_⟩
          show w.sender.base = t.sender.next_seq
          omega
        · exact Or.inr (hfields.2 ▸ hlast)
      ahead := hsending.le_sent
      stands := by
        have hs : ({ w with
            stream := w.stream ++ ((job.sentFrame t.sender.next_seq).without j).bytes }).Stands
            t.client (_ ++ [(job.sentFrame t.sender.next_seq).without j]) lag :=
          h.stands.append rfl (by simp)
        rw [hsending.commands] at hs
        exact hs.of_eq rfl rfl
      inside := hinside
      replies := h.replies
      lost := job.seq_sentFrame (hfields.2 ▸ hblocks)
      written := by rw [hwritten, hsending.written, transcript_succ]
      trace := htrace.trans rfl
      recoveries := hsame.trans hrecoveries }

end Losing

section ShortFrame

variable {cfg : ClientConfig} {job : Job} {w w' : ByteLine cfg} {t : Transfer cfg}
  {m : AcceptedMeta cfg} {r : Recv} {k j lag : Nat}

theorem Job.shortFlight_self (job : Job) (k j : Nat) :
    job.shortFlight k k j = [(job.sentFrame k).without j] := by
  simp [shortFlight]

theorem Job.shortFlight_of_lt
    (job : Job) {e k : Nat} (h : e < k) (j : Nat) :
    job.shortFlight e k j = job.sentFrame e :: job.shortFlight (e + 1) k j := by
  rw [shortFlight, show k - e = k - (e + 1) + 1 by omega, List.range'_succ]
  rfl

namespace ByteLine.Short

theorem course
    (h : w.Short job t m r k j lag) :
    Course job t :=
  .sending m r (k + 1) h.kept h.sending

theorem phase
    (h : w.Short job t m r k j lag) (hflow : job.session.flow = true) :
    w.sender.phase = t.sender.phase ∧
      (t.sender.phase = .fill ∨ t.sender.phase = .reply) := by
  have hsender := h.sending.sender
  rw [Sender.HasSent, if_pos hflow] at hsender
  obtain ⟨_, _, _, _, hphase⟩ := hsender
  refine ⟨h.twin.phase_eq ?_, hphase.imp_right And.left⟩
  rcases hphase with hphase | ⟨hphase, _⟩ <;> simp [hphase]

theorem behind
    (h : w.Short job t m r k j lag) (hflow : job.session.flow = true)
    (hbase : t.sender.base = k) :
    w.sender.Behind job k := by
  have hsender := h.sending.sender
  rw [Sender.HasSent, if_pos hflow] at hsender
  obtain ⟨hnext, _, _, hcached, _⟩ := hsender
  have hattempts := h.twin.attempts
  have hrecoveries := h.recoveries
  obtain ⟨_, _, _, heq⟩ := h.twin.same
  rw [heq] at hbase hnext hcached
  exact ⟨hbase, hnext.symm, fun seq => hattempts seq, hcached, hrecoveries⟩

/-- What the receiver takes while the frame is short: a header, or a whole frame before it.  Then
it waits. -/
theorem take_cases
    (h : w.Short job t m r k j lag) :
    (lag = 1 ∧ w.client.starves w.stream = false ∧ ∃ client' stream',
      w.client.take w.stream = some (stream', client', []) ∧
        ({ w with client := client', stream := stream' }).Stands t.client
          (job.shortFlight r.expected k j) 0) ∨
    (r.expected < k ∧ w.client.starves w.stream = false ∧
      w.client.take w.stream = (t.client.read (job.sentFrame r.expected)).map
        fun p => ((job.shortFlight (r.expected + 1) k j).flatMap Command.bytes, p)) ∨
    (r.expected = k ∧ lag = 0 ∧ w.client.take w.stream = none ∧ ∃ hd : DataHeader,
      w.client = .receiving m { r with phase := .payload hd } ∧
        w.stream.length < hd.length) := by
  have hlt : k < job.blocks := h.sending.sent_le
  have hlegible : ∀ {n}, n < job.blocks → Legible (job.sentFrame n).line := fun hn =>
    (@Picocalc.Written.frame _ 0 _ _ ((job.sentFrame_isFrameOf _).carries hn)).legible
  have hs := h.stands
  rcases h.ahead.lt_or_eq with hahead | hlast
  · rw [job.shortFlight_of_lt hahead] at hs
    have hlt' : r.expected < job.blocks := hahead.trans hlt
    obtain ⟨hd, hlength, hline⟩ := Recv.onLine_sentFrame h.kept.agrees hlt' r
    have htakes : t.client.Takes (job.sentFrame r.expected) :=
      h.kept.client ▸ .frame m r _ hd h.sending.header hline hlength
    have hfed := hs.not_starves htakes
    rcases hs.take_cases htakes (hlegible hlt') with ⟨hlag, client', htaken, hwithin⟩ | htaken
    · rw [← job.shortFlight_of_lt hahead] at hwithin
      exact Or.inl ⟨hlag, hfed, client', _, htaken, hwithin⟩
    · exact Or.inr (Or.inl ⟨hahead, hfed, htaken⟩)
  · rw [hlast, job.shortFlight_self, h.kept.client] at hs
    obtain ⟨hd, hlength, hline⟩ := Recv.onLine_sentFrame h.kept.agrees hlt r
    rw [← Command.line_without _ j] at hline
    have hshort : ((job.sentFrame k).without j).payload.length < hd.length := by
      have := Command.length_payload_without h.inside
      omega
    have hlegible' := hlegible hlt
    rw [← Command.line_without _ j] at hlegible'
    rcases hs.take_short h.sending.header hline hlegible' hshort with
      ⟨hlag, hfed, client', htaken, hwithin⟩ | ⟨hlag, hnone, hclient, hstream⟩
    · rw [← job.shortFlight_self, ← h.kept.client] at hwithin
      exact Or.inl ⟨hlag, hfed, client', _, htaken, hlast ▸ hwithin⟩
    · exact Or.inr (Or.inr ⟨hlast, hlag, hnone, hd, hclient, hstream⟩)

/-- When nothing is on its way both ends wait, the receiver for a payload. -/
theorem of_still
    (h : w.Short job t m r k j lag) (hflow : job.session.flow = true) (hstill : w.still = true) :
    lag = 0 ∧ w.replies = [] ∧ w.sender.phase = .reply ∧ w.Lacks job t m r k ∧
      ∃ hd : DataHeader, w.client = .receiving m { r with phase := .payload hd } ∧
        w.stream.length < hd.length := by
  simp only [still, Bool.and_eq_true, List.isEmpty_iff, decide_eq_true_eq,
    Option.isNone_iff_eq_none] at hstill
  obtain ⟨⟨hreplies, hfill⟩, htake⟩ := hstill
  have hphase := h.phase hflow
  rcases h.take_cases with ⟨_, _, client', _, htaken, _⟩ | ⟨hahead, _, htaken⟩ |
    ⟨hlast, hlag, _, hd, hclient, hstream⟩
  · rw [htake] at htaken
    cases htaken
  · obtain ⟨events, hrun⟩ := h.kept.run
    have hlt : k < job.blocks := h.sending.sent_le
    have hread := Recv.read_sent h.kept.agrees h.sending.header
      (Recv.counts_run hrun).received_eq (hahead.trans hlt)
    rw [htake, h.kept.client, Client.read, hread] at htaken
    cases htaken
  · have hacks := h.sending.replies
    rw [← h.replies, hreplies] at hacks
    have hbase : t.sender.base = k := by
      have hle := h.sending.base_le
      have hnone := congrArg List.length hacks
      rw [List.length_map, List.length_range', List.length_nil] at hnone
      omega
    refine ⟨hlag, hreplies, ?_, ?_, hd, hclient, hstream⟩
    · rw [hphase.1]
      exact hphase.2.resolve_left fun heq => hfill (hphase.1.trans heq)
    · exact ⟨h.kept, h.sending.header, hlast, h.sending.sent_le, h.behind hflow hbase, h.lost⟩

/-- The sender and `t` have moved, and the line still ends in the short frame. -/
theorem next
    (h : w.Short job t m r k j lag) {t' : Transfer cfg} {m' : AcceptedMeta cfg} {r' : Recv}
    {lag' : Nat} (hkept : Kept job t' m' r') (hsending : Sending job t' r' (k + 1))
    (htwin : w'.sender.Twin 0 t'.sender)
    (halone : w'.sender.cwnd = 1 ∧ w'.sender.base = k ∨ k + 1 = job.blocks)
    (hahead : r'.expected ≤ k)
    (hstands : w'.Stands t'.client (job.shortFlight r'.expected k j) lag')
    (hreplies : w'.replies = t'.replies) (hlost : w'.lost = w.lost)
    (hwritten : w'.written = w.written) (htrace : w'.trace = t'.trace)
    (hrecoveries : w'.sender.recoveries ≤ w.sender.recoveries) :
    w'.Short job t' m' r' k j lag' :=
  { kept := hkept
    sending := hsending
    twin := htwin
    alone := halone
    ahead := hahead
    stands := hstands
    inside := h.inside
    replies := hreplies
    lost := hlost.trans h.lost
    written := hwritten.trans h.written
    trace := htrace
    recoveries := Nat.le_zero.mp (hrecoveries.trans h.recoveries.le) }

/-- A transfer that still sends block `k` last has the same blocks on the way. -/
theorem sending_of_course
    (h : w.Short job t m r k j lag) {t' : Transfer cfg} (hcourse : Course job t')
    (hphase : t'.sender.phase = .fill ∨ t'.sender.phase = .reply)
    (hwritten : t'.written = t.written) :
    ∃ m' r', Kept job t' m' r' ∧ Sending job t' r' (k + 1) := by
  obtain ⟨m', r', n, hkept, hsending⟩ := hcourse.sending_of hphase
  have hlength := congrArg List.length hwritten
  rw [hsending.length_written, h.sending.length_written] at hlength
  obtain rfl : n = k + 1 := by omega
  exact ⟨m', r', hkept, hsending⟩

/-- Nothing is written behind the short frame. -/
theorem run
    (hpair : Paired job.session cfg) (hflow : job.session.flow = true)
    (hsize : job.size ≤ Const.MAX_FILE_SIZE)
    (hspace : ∀ space, cfg.free_space = some space → job.size ≤ space)
    (h : w.Short job t m r k j lag) (hstep : w.step job .run = some w') :
    ∃ t', w'.Short job t' m r k j lag ∧ t'.remaining job < t.remaining job := by
  rw [step, Option.map_eq_some_iff] at hstep
  obtain ⟨p, hp, rfl⟩ := hstep
  have hfill : w.sender.phase = .fill := by
    by_contra hne
    rw [Sender.step, if_neg hne] at hp
    cases hp
  have hphase := h.phase hflow
  have hlt : k < job.blocks := h.sending.sent_le
  have hbase := h.sending.base_le
  have hahead := h.ahead
  have hsender := h.sending.sender
  rw [Sender.HasSent, if_pos hflow] at hsender
  obtain ⟨hnext, _, huntried, _⟩ := hsender
  have hfields := h.twin.window_eq
  have hfull : ¬ w.sender.next_seq < min job.blocks (w.sender.base + w.sender.cwnd) := by
    rcases h.alone with ⟨hone, hstart⟩ | hlast <;> omega
  rw [Sender.step_full hflow hfill (by omega) hfull] at hp
  cases hp
  obtain ⟨q, hq, hout, htwin, hsame⟩ := h.twin.run hflow (Nat.zero_le _)
    (fun seq hseq => huntried seq (hnext ▸ hseq)) (Sender.step_full hflow hfill (by omega) hfull)
  have ht : t.step job .run = some (t.sent q) := by rw [Transfer.step, hq]; rfl
  obtain ⟨hcourse, hless⟩ := h.course.move hpair hsize hspace rfl ht
  have hquiet : (t.sent q).written = t.written := by simp [Transfer.sent, hout]
  have hreply : q.1.phase = .reply := (htwin.phase_eq_left (by simp)).symm
  obtain ⟨m', r', hkept, hsending⟩ := h.sending_of_course hcourse (Or.inr hreply) hquiet
  have hclient : Client.receiving m' r' = .receiving m r := hkept.client.symm.trans h.kept.client
  cases hclient
  refine ⟨t.sent q, ?_, hless⟩
  exact h.next hkept hsending htwin h.alone hahead
    (h.stands.of_eq rfl (List.append_nil _)) h.replies rfl (List.append_nil _) h.trace hsame.le

/-- The sender reads an ACK for a block before the short frame. -/
theorem reply
    (hpair : Paired job.session cfg) (hflow : job.session.flow = true)
    (hsize : job.size ≤ Const.MAX_FILE_SIZE)
    (hspace : ∀ space, cfg.free_space = some space → job.size ≤ space)
    (h : w.Short job t m r k j lag) {late : Bool} (hstep : w.step job (.reply late) = some w') :
    ∃ t', w'.Short job t' m r k j lag ∧ t'.remaining job < t.remaining job := by
  rw [step] at hstep
  split at hstep
  · cases hstep
  rename_i first replies hreplies
  rw [Option.map_eq_some_iff] at hstep
  obtain ⟨p, hp, rfl⟩ := hstep
  have hreplies' : t.replies = first :: replies := h.replies ▸ hreplies
  have hphase := h.phase hflow
  have hreply : t.sender.phase = .reply := by
    refine hphase.2.resolve_left fun hfill => ?_
    have hnone : w.sender.step job (.line first.line late) = none := by
      rw [Sender.step, Sender.reads, Sender.onLine, hphase.1, hfill]
      simp
    rw [hnone] at hp
    cases hp
  obtain ⟨q, hq, hout, htwin, hrecoveries, hadvance⟩ :=
    h.course.reply_twin hflow h.twin hreplies' hp
  obtain ⟨hfill, hquiet⟩ := hadvance hreply
  have ht : t.step job (.reply false) = some ({ t with replies }.sent q) := by
    rw [Transfer.step, hreplies']
    simp only [hq, Option.map_some]
  obtain ⟨hcourse, hless⟩ := h.course.move hpair hsize hspace rfl ht
  have hwritten : ({ t with replies }.sent q).written = t.written := by
    simp [Transfer.sent, hquiet]
  obtain ⟨m', r', hkept, hsending⟩ := h.sending_of_course hcourse (Or.inl hfill) hwritten
  have hclient : Client.receiving m' r' = .receiving m r := hkept.client.symm.trans h.kept.client
  cases hclient
  -- A reply is on its way, so the base is not at the short frame.
  have hlast : k + 1 = job.blocks := by
    refine h.alone.resolve_left fun hone => ?_
    have hstart := hone.2
    have hacks := congrArg List.length (h.sending.replies.symm.trans hreplies')
    have hahead := h.ahead
    have hbase := h.twin.window_eq.1
    rw [List.length_map, List.length_range', List.length_cons] at hacks
    omega
  refine ⟨_, h.next hkept hsending htwin (Or.inr hlast) h.ahead ?_ rfl rfl ?_ h.trace hrecoveries,
    hless⟩
  · refine h.stands.of_eq rfl ?_
    rw [sent, ← hout, hquiet]
    exact List.append_nil _
  · rw [sent, ← hout, hquiet]
    exact List.append_nil _

/-- The receiver takes a header, or stores a block before the short frame. -/
theorem read
    (hpair : Paired job.session cfg) (hflow : job.session.flow = true)
    (hsize : job.size ≤ Const.MAX_FILE_SIZE)
    (hspace : ∀ space, cfg.free_space = some space → job.size ≤ space)
    (h : w.Short job t m r k j lag) (hstep : w.step job .read = some w') :
    ∃ t' m' r' lag', w'.Short job t' m' r' k j lag' ∧
      2 * t'.remaining job + lag' < 2 * t.remaining job + lag := by
  rw [step, Option.map_eq_some_iff] at hstep
  obtain ⟨q, hq, rfl⟩ := hstep
  rcases h.take_cases with ⟨rfl, _, client', stream', htaken, hwithin⟩ | ⟨hahead, _, htaken⟩ |
    ⟨_, _, hnone, _⟩
  · rw [htaken] at hq
    cases hq
    refine ⟨t, m, r, 0, h.next h.kept h.sending h.twin h.alone h.ahead (hwithin.of_eq rfl rfl)
      ?_ rfl rfl ?_ le_rfl, by omega⟩
    · rw [received, sends_nil, List.append_nil]
      exact h.replies
    · rw [received, List.append_nil]
      exact h.trace
  · rw [htaken, Option.map_eq_some_iff] at hq
    obtain ⟨p, hp, rfl⟩ := hq
    have hcommands := h.sending.commands
    rw [show k + 1 - r.expected = k - r.expected + 1 by omega, List.range'_succ, List.map_cons]
      at hcommands
    have ht : t.step job .command = some ({ t with
        commands := (List.range' (r.expected + 1) (k - r.expected)).map job.sentFrame }.received
          p) := by
      rw [Transfer.step, hcommands]
      simp only [hp, Option.map_some]
    obtain ⟨hcourse, hless⟩ := h.course.move hpair hsize hspace rfl ht
    have hphase := (h.phase hflow).2
    obtain ⟨m', r', hkept, hsending⟩ := h.sending_of_course hcourse hphase rfl
    have hexpected : r'.expected = r.expected + 1 := by
      have hrest := congrArg List.length hsending.commands
      have hle := hsending.le_sent
      simp only [Transfer.received, List.length_map, List.length_range'] at hrest
      omega
    refine ⟨_, m', r', 1, h.next hkept hsending h.twin h.alone (by omega) ?_ ?_ rfl rfl ?_ le_rfl,
      by omega⟩
    · rw [hexpected]
      exact .atLine _ rfl
    · rw [received, h.replies]
      rfl
    · rw [received, h.trace]
      rfl
  · rw [hnone] at hq
    cases hq

/-- The receiver gives up on the payload. -/
theorem rawTimeout
    (hflow : job.session.flow = true) (hpair : Paired job.session cfg)
    (h : w.Short job t m r k j lag) (hstill : w.still = true)
    (hstep : w.step job .rawTimeout = some w') :
    w'.Mends job (job.patience + 3) := by
  obtain ⟨_, hreplies, hphase, hlacks, hd, hclient, hstream⟩ := h.of_still hflow hstill
  have hback : ({ r with phase := .header } : Recv) = r := by rw [← hlacks.header]
  have hstarves : w.client.starves w.stream = true := by
    rw [hclient]
    exact decide_eq_true hstream
  rw [step, if_pos hstarves, hclient] at hstep
  simp only [Client.act, Recv.step, Recv.onRawTimeout, hpair.flow.trans hflow, if_true, hback,
    Option.map_some] at hstep
  cases hstep
  refine .dropped t m r k ?_ (Or.inl hphase) rfl rfl ?_ h.written ?_
  · exact { hlacks with }
  · rw [received, hreplies, hlacks.expected]
    rfl
  · rw [received, h.trace, hlacks.expected]

end ByteLine.Short

end ShortFrame

section Mending

variable {cfg : ClientConfig} {job : Job} {w w' : ByteLine cfg} {t : Transfer cfg}
  {m : AcceptedMeta cfg} {r : Recv} {k : Nat}

/-- The sender has moved, and still waits for what becomes of block `k`. -/
theorem ByteLine.Lacks.of_eq
    (h : w.Lacks job t m r k) (hlost : w'.lost = w.lost) (hbehind : w'.sender.Behind job k) :
    w'.Lacks job t m r k :=
  { h with
    behind := hbehind
    lost := hlost.trans h.lost }

theorem Client.not_starves
    (hheader : r.phase = .header) (stream : Bytes) :
    (Client.receiving m r).starves stream = false := by
  simp [starves, hheader]

theorem Client.act_commit
    (hheader : r.phase = .header) :
    (Client.receiving m r).act (.commit true) = none := by
  simp [act, Recv.step, hheader]

/-- A line that has lost a byte loses no other. -/
theorem ByteLine.step_lose
    {j : Nat} (hlost : w.lost = some k) :
    w.step job (.lose j) = none := by
  simp [step, hlost]

/-- A sender that waits writes nothing. -/
theorem ByteLine.step_run
    (hphase : w.sender.phase ≠ .fill) :
    w.step job .run = none := by
  simp [step, Sender.step, hphase]

namespace ByteLine

/-- A step while the frame is short. -/
theorem Short.move
    (hpair : Paired job.session cfg) (hflow : job.session.flow = true)
    (hsize : job.size ≤ Const.MAX_FILE_SIZE)
    (hspace : ∀ space, cfg.free_space = some space → job.size ≤ space)
    {j lag : Nat} (h : w.Short job t m r k j lag) {e : ByteEvent} (he : w.permit e = true)
    (hstep : w.step job e = some w') :
    ∃ n < job.patience + 4 + (2 * t.remaining job + lag), w'.Mends job n := by
  cases e with
  | run =>
      obtain ⟨t', hshort, hless⟩ := h.run hpair hflow hsize hspace hstep
      exact ⟨_, by omega, .short t' m r k j lag hshort⟩
  | lose i =>
      rw [step_lose h.lost] at hstep
      cases hstep
  | timeout =>
      simp only [permit, Bool.and_eq_true] at he
      obtain ⟨rfl, hreplies, hphase, hlacks, hd, hclient, hstream⟩ := h.of_still hflow he.1
      rw [step, Sender.step, Sender.onTimeout, hphase] at hstep
      cases hstep
      have hframes : 0 < t.commands.length := by
        rw [h.sending.commands, List.length_map, List.length_range', hlacks.expected]
        omega
      refine ⟨job.patience + 4, ?_, .starving t m r k hd (hlacks.of_eq rfl ?_) rfl hclient ?_
        hreplies ?_ h.trace⟩
      · rw [Transfer.remaining]
        omega
      · exact { hlacks.behind with }
      · rw [sent, List.flatMap_nil, List.append_nil]
        exact hstream
      · rw [sent, List.append_nil]
        exact h.written
  | reply late =>
      obtain ⟨t', hshort, hless⟩ := h.reply hpair hflow hsize hspace hstep
      exact ⟨_, by omega, .short t' m r k j lag hshort⟩
  | read =>
      obtain ⟨t', m', r', lag', hshort, hless⟩ := h.read hpair hflow hsize hspace hstep
      exact ⟨_, by omega, .short t' m' r' k j lag' hshort⟩
  | rawTimeout => exact ⟨_, by omega, h.rawTimeout hflow hpair he hstep⟩
  | commit =>
      rw [step] at hstep
      rcases h.stands.client_cases with hclient | ⟨m', r', hd, _, _, hclient⟩
      · rw [hclient, h.kept.client, Client.act_commit h.sending.header] at hstep
        cases hstep
      · rw [hclient] at hstep
        cases hstep
  | giveUp =>
      obtain ⟨_, _, _, _, hd, hclient, _⟩ := h.of_still hflow he
      rw [step, hclient] at hstep
      cases hstep

/-- Both ends wait, and the receiver gives up first. -/
theorem Lacks.move_starving
    (hpair : Paired job.session cfg) (hflow : job.session.flow = true) {h : DataHeader}
    (hlacks : w.Lacks job t m r k) (hphase : w.sender.phase = .guard false)
    (hclient : w.client = .receiving m { r with phase := .payload h })
    (hstream : w.stream.length < h.length) (hreplies : w.replies = [])
    (hwritten : w.written = job.transcript (k + 1)) (htrace : w.trace = t.trace)
    {e : ByteEvent} (he : w.permit e = true) (hstep : w.step job e = some w') :
    w'.Mends job (job.patience + 3) := by
  have hback : ({ r with phase := .header } : Recv) = r := by rw [← hlacks.header]
  have hstarves : w.client.starves w.stream = true := by
    rw [hclient]
    exact decide_eq_true hstream
  cases e with
  | run =>
      rw [step_run (by rw [hphase]; simp)] at hstep
      cases hstep
  | lose j =>
      rw [step_lose hlacks.lost] at hstep
      cases hstep
  | timeout => simp [permit, hstarves, hphase] at he
  | reply late =>
      rw [step, hreplies] at hstep
      cases hstep
  | read =>
      rw [step, hclient, Client.take_short hstream] at hstep
      cases hstep
  | rawTimeout =>
      rw [step, if_pos hstarves, hclient] at hstep
      simp only [Client.act, Recv.step, Recv.onRawTimeout, hpair.flow.trans hflow, if_true, hback,
        Option.map_some] at hstep
      cases hstep
      refine .dropped t m r k (hlacks.of_eq rfl hlacks.behind) (Or.inr hphase) rfl rfl ?_
        hwritten ?_
      · rw [received, hreplies, hlacks.expected]
        rfl
      · rw [received, htrace, hlacks.expected]
  | commit =>
      rw [step, hclient] at hstep
      cases hstep
  | giveUp =>
      rw [step, hclient] at hstep
      cases hstep

/-- The sender reads DROP, and writes BARRIER. -/
theorem Lacks.move_dropped
    (hlacks : w.Lacks job t m r k)
    (hphase : w.sender.phase = .reply ∨ w.sender.phase = .guard false)
    (hclient : w.client = .receiving m r) (hstream : w.stream = [])
    (hreplies : w.replies = [.drop k "RAW".toList])
    (hwritten : w.written = job.transcript (k + 1))
    (htrace : w.trace = t.trace ++ [.send (.drop k "RAW".toList)])
    {e : ByteEvent} (he : w.permit e = true) (hstep : w.step job e = some w') :
    w'.Mends job (job.patience + 2) := by
  have hword : IsWord "RAW".toList := isWord_of_check (by decide)
  have hstill : w.still = false := by simp [still, hreplies]
  cases e with
  | run =>
      rw [step_run (by rcases hphase with hphase | hphase <;> rw [hphase] <;> simp)] at hstep
      cases hstep
  | lose j =>
      rw [step_lose hlacks.lost] at hstep
      cases hstep
  | timeout => simp [permit, hstill] at he
  | reply late =>
      rw [step, hreplies] at hstep
      simp only [Sender.step_drop hword hphase, Option.map_some] at hstep
      cases hstep
      refine .asked t m r k job.session.config.max_retries (hlacks.of_eq rfl ?_) rfl rfl hclient
        ?_ rfl ?_ htrace
      · exact { hlacks.behind with }
      · simp [sent, Sender.recover, hstream]
      · simp [sent, Sender.recover, hwritten]
  | read =>
      rw [step, hclient, hstream, Client.take_nil hlacks.header] at hstep
      cases hstep
  | rawTimeout => simp [permit, hstill] at he
  | commit =>
      rw [step, hclient, Client.act_commit hlacks.header] at hstep
      cases hstep
  | giveUp => simp [permit, hstill] at he

/-- A BARRIER comes off the stream, and the answer names block `k`. -/
theorem Lacks.take_barrier
    (hpair : Paired job.session cfg) (hflow : job.session.flow = true)
    (hlacks : w.Lacks job t m r k) {n : Nat} :
    (Client.receiving m r).take (Command.barrier n).bytes =
      some ([], .receiving m r, [.send (.resume (dec n) k)]) := by
  have hread : (Client.receiving m r).take ((Command.barrier n).bytes ++ []) = _ :=
    Client.take_header hlacks.header (@Picocalc.Written.barrier job _ n le_rfl).legible
  rw [List.append_nil, Recv.onLine_barrier (hpair.flow.trans hflow), hlacks.expected] at hread
  exact hread

/-- The receiver reads BARRIER, and answers RESUME. -/
theorem Lacks.move_asked
    (hpair : Paired job.session cfg) (hflow : job.session.flow = true) {left : Nat}
    (hlacks : w.Lacks job t m r k) (hphase : w.sender.phase = .barrier false left)
    (hcwnd : w.sender.cwnd = 1) (hclient : w.client = .receiving m r)
    (hstream : w.stream = (Command.barrier w.sender.barrier_id).bytes) (hreplies : w.replies = [])
    (hwritten : w.written = job.transcript (k + 1) ++ [.barrier w.sender.barrier_id])
    (htrace : w.trace = t.trace ++ [.send (.drop k "RAW".toList)])
    {e : ByteEvent} (he : w.permit e = true) (hstep : w.step job e = some w') :
    w'.Mends job (job.patience + 1) := by
  have htake : w.client.take w.stream =
      some ([], .receiving m r, [.send (.resume (dec w.sender.barrier_id) k)]) := by
    rw [hclient, hstream, hlacks.take_barrier hpair hflow]
  have hstill : w.still = false := by simp [still, htake]
  cases e with
  | run =>
      rw [step_run (by rw [hphase]; simp)] at hstep
      cases hstep
  | lose j =>
      rw [step_lose hlacks.lost] at hstep
      cases hstep
  | timeout => simp [permit, hstill] at he
  | reply late =>
      rw [step, hreplies] at hstep
      cases hstep
  | read =>
      rw [step, htake, Option.map_some, Option.some.injEq] at hstep
      subst hstep
      refine .resumed t m r k left (hlacks.of_eq rfl hlacks.behind) hphase hcwnd rfl rfl ?_ hwritten
        ?_
      · rw [received, hreplies]
        rfl
      · rw [received, htrace, List.append_assoc]
        rfl
  | rawTimeout => simp [permit, hstill] at he
  | commit =>
      rw [step, hclient, Client.act_commit hlacks.header] at hstep
      cases hstep
  | giveUp => simp [permit, hstill] at he

/-- Behind a RESUME the line carries what a transfer has on it that has not sent block `k`. -/
theorem Lacks.follows_resume
    (hflow : job.session.flow = true) (hlacks : w.Lacks job t m r k) (hcwnd : w.sender.cwnd = 1)
    (hsender : w'.sender = { w.sender with
      phase := .fill
      base := k
      next_seq := k
      recoveries := 1
      attempts := Sender.dropBelow k 0 w.sender.attempts
      frames := Sender.dropBelow k none w.sender.frames })
    (hclient : w'.client = .receiving m r) (hstream : w'.stream = []) (hreplies : w'.replies = []) :
    ∃ t₀ : Transfer cfg, w'.Follows job 1 t₀ 1 ∧ t₀.written = job.transcript k ∧
      t₀.trace = t.trace ∧ 2 * t₀.remaining job < job.patience := by
  have hexpected := hlacks.expected
  have hlt := hlacks.lt_blocks
  have hdrop : ∀ seq, Sender.dropBelow k 0 w.sender.attempts seq ≤ 1 := by
    intro seq
    rw [Sender.dropBelow]
    split
    · exact hlacks.behind.attempts seq
    · exact Nat.zero_le _
  let t₀ : Transfer cfg := { t with
    sender := { w.sender with
      phase := .fill
      base := k
      next_seq := k
      recoveries := 1
      attempts := fun _ => 0
      frames := Sender.dropBelow k none w.sender.frames
      retransmits := 0 }
    commands := []
    replies := []
    written := job.transcript k }
  have hkept : Kept job t₀ m r := { hlacks.kept with }
  have hsent : t₀.sender.HasSent job k := by
    rw [Sender.HasSent, if_pos hflow]
    refine ⟨rfl, hcwnd.ge, fun _ _ => rfl, ?_, Or.inl rfl⟩
    exact fun seq c hc => hlacks.behind.cached seq c (Sender.dropBelow_some hc)
  have hsending : Sending job t₀ r k :=
    { header := hlacks.header
      base_le := hexpected.ge
      le_sent := hexpected.le
      sent_le := hlt.le
      commands := by rw [hexpected, Nat.sub_self]; rfl
      replies := by
        show [] = (List.range' k (r.expected - k)).map Reply.ack
        rw [hexpected, Nat.sub_self]
        rfl
      written := rfl
      clean := rfl
      sender := hsent }
  have htwin : w'.sender.Twin 1 t₀.sender := by
    rw [hsender]
    exact ⟨⟨_, _, _, rfl⟩, Or.inl rfl, fun seq _ => hdrop seq,
      fun seq => (hdrop seq).trans (Nat.le_succ 1)⟩
  refine ⟨t₀, ⟨.sending m r k hkept hsending, htwin, ?_, hreplies⟩, rfl, rfl, ?_⟩
  · exact .here (hclient.trans hlacks.kept.client.symm) (by rw [hstream]; rfl)
  · have hlength := hsending.length_written
    have hone : (!t₀.client.saved).toNat ≤ 1 := Bool.toNat_le _
    have hfill : (decide (t₀.sender.phase = .fill)).toNat ≤ 1 := Bool.toNat_le _
    rw [Transfer.remaining, hlength, Job.patience]
    show 2 * ((job.blocks + 2 - (k + 1)) * 4 + 0 * 3 + 0 * 2 + _ + _) < _
    omega

/-- The sender reads RESUME, and is before block `k` as if it had not sent it. -/
theorem Lacks.move_resumed
    (hflow : job.session.flow = true) (hretries : 1 ≤ job.session.config.max_retries) {left : Nat}
    (hlacks : w.Lacks job t m r k) (hphase : w.sender.phase = .barrier false left)
    (hcwnd : w.sender.cwnd = 1) (hclient : w.client = .receiving m r) (hstream : w.stream = [])
    (hreplies : w.replies = [.resume (dec w.sender.barrier_id) k])
    (hwritten : w.written = job.transcript (k + 1) ++ [.barrier w.sender.barrier_id])
    (htrace : w.trace = t.trace ++ [.send (.drop k "RAW".toList),
      .send (.resume (dec w.sender.barrier_id) k)])
    {e : ByteEvent} (he : w.permit e = true) (hstep : w.step job e = some w') :
    ∃ n < job.patience + 1, w'.Mends job n := by
  have hstill : w.still = false := by simp [still, hreplies]
  cases e with
  | run =>
      rw [step_run (by rw [hphase]; simp)] at hstep
      cases hstep
  | lose j =>
      rw [step_lose hlacks.lost] at hstep
      cases hstep
  | timeout => simp [permit, hstill] at he
  | reply late =>
      rw [step, hreplies] at hstep
      simp only [hlacks.behind.step_resume hphase hretries, Option.map_some,
        Option.some.injEq] at hstep
      obtain ⟨t₀, hfollows, hwritten', htrace', hless⟩ :=
        @Lacks.follows_resume cfg job w w' t m r k hflow hlacks hcwnd (by rw [← hstep]; rfl)
          (by rw [← hstep]; exact hclient) (by rw [← hstep, sent, hstream]; rfl)
          (by rw [← hstep]; rfl)
      subst hstep
      refine ⟨_, Nat.succ_lt_succ hless, .again t₀ 1 k w.sender.barrier_id t.trace [] [] hfollows
        hlacks.lt_blocks hlacks.lost ?_ (hwritten'.trans (List.append_nil _).symm) ?_
        (htrace'.trans (List.append_nil _).symm)⟩
      · rw [sent, hwritten]
      · rw [sent, htrace, List.append_nil]
  | read =>
      rw [step, hclient, hstream, Client.take_nil hlacks.header] at hstep
      cases hstep
  | rawTimeout => simp [permit, hstill] at he
  | commit =>
      rw [step, hclient, Client.act_commit hlacks.header] at hstep
      cases hstep
  | giveUp => simp [permit, hstill] at he

/-- Every step keeps the transfer on the way to its end. -/
theorem Mends.move
    (hpair : Paired job.session cfg) (hflow : job.session.flow = true)
    (hsize : job.size ≤ Const.MAX_FILE_SIZE)
    (hspace : ∀ space, cfg.free_space = some space → job.size ≤ space)
    (hretries : 1 ≤ job.session.config.max_retries) {n : Nat} (h : w.Mends job n) {e : ByteEvent}
    (he : w.permit e = true) (halone : w.Alone job e) (hstep : w.step job e = some w') :
    ∃ n' < n, w'.Mends job n' := by
  cases h with
  | whole t lag h hlost hwritten htrace hrecoveries =>
      by_cases hlose : ∃ j, e = .lose j
      · obtain ⟨j, rfl⟩ := hlose
        obtain ⟨t', m, r, k, hshort, hless⟩ :=
          h.lose hpair hflow hsize hspace hwritten htrace hrecoveries halone hstep
        exact ⟨_, by omega, .short t' m r k j lag hshort⟩
      · obtain ⟨t', lag', out, effects, h', hkeeps, hless⟩ :=
          h.move hpair hflow hsize hspace (Nat.zero_le _) he (fun j hj => hlose ⟨j, hj⟩) hstep
        refine ⟨_, by omega, .whole t' lag' h' (hkeeps.lost.trans hlost) ?_ ?_ ?_⟩
        · rw [hkeeps.written, hkeeps.writtenToo, hwritten]
        · rw [hkeeps.trace, hkeeps.traceToo, htrace]
        · exact Nat.le_zero.mp (hkeeps.recoveries.trans hrecoveries.le)
  | short t m r k j lag h => exact h.move hpair hflow hsize hspace he hstep
  | starving t m r k hd hlacks hphase hclient hstream hreplies hwritten htrace =>
      exact ⟨_, by omega, hlacks.move_starving hpair hflow hphase hclient hstream hreplies hwritten
        htrace he hstep⟩
  | dropped t m r k hlacks hphase hclient hstream hreplies hwritten htrace =>
      exact ⟨_, by omega, hlacks.move_dropped hphase hclient hstream hreplies hwritten htrace he
        hstep⟩
  | asked t m r k left hlacks hphase hcwnd hclient hstream hreplies hwritten htrace =>
      exact ⟨_, by omega, hlacks.move_asked hpair hflow hphase hcwnd hclient hstream hreplies
        hwritten htrace he hstep⟩
  | resumed t m r k left hlacks hphase hcwnd hclient hstream hreplies hwritten htrace =>
      exact hlacks.move_resumed hflow hretries hphase hcwnd hclient hstream hreplies hwritten
        htrace he hstep
  | again t lag k id before after rest h hlt hlost hwritten hwritten' htrace htrace' =>
      have hlose : ∀ j, e ≠ .lose j := by
        rintro j rfl
        rw [step_lose hlost] at hstep
        cases hstep
      obtain ⟨t', lag', out, effects, h', hkeeps, hless⟩ :=
        h.move hpair hflow hsize hspace hretries he hlose hstep
      refine ⟨_, hless, .again t' lag' k id before (after ++ effects) (rest ++ out) h' hlt
        (hkeeps.lost.trans hlost) ?_ ?_ ?_ ?_⟩
      · rw [hkeeps.written, hwritten, List.append_assoc _ rest]
      · rw [hkeeps.writtenToo, hwritten', List.append_assoc]
      · rw [hkeeps.trace, htrace, List.append_assoc _ after]
      · rw [hkeeps.traceToo, htrace', List.append_assoc]

end ByteLine

end Mending

section Ends

variable {cfg : ClientConfig} {job : Job} {w : ByteLine cfg} {t : Transfer cfg} {tried lag : Nat}

/-- A sender that reads takes every line. -/
theorem Sender.step_line_isSome
    {s : Sender} {text : Line} {late : Bool} :
    (s.step job (.line text late)).isSome = s.reads := by
  rw [step]
  cases hphase : s.phase <;> simp only [reads, hphase, onLine, onTimeout] <;> split_ifs <;>
    first | contradiction | simp

namespace ByteLine

/-- The receiver has raised no exception. -/
theorem Mends.not_raised
    {n : Nat} (h : w.Mends job n) :
    w.client.raised = none := by
  have hreading : ∀ {m : AcceptedMeta cfg} {r : Recv}, w.client = .receiving m r →
      r.phase = .header ∨ (∃ hd, r.phase = .payload hd) ∨ r.phase = .commit ∨
        r.phase = .returned true → w.client.raised = none := by
    rintro m r hclient (hphase | ⟨hd, hphase⟩ | hphase | hphase) <;>
      simp [Client.raised, hclient, hphase]
  have hcourse : ∀ {t : Transfer cfg} {items : List Command} {lag : Nat}, Course job t →
      w.Stands t.client items lag → w.client.raised = none := by
    intro t items lag hcourse hs
    rcases hs.client_cases with hclient | ⟨m, r, hd, _, _, hclient⟩
    · rcases hcourse.client_cases with heq | ⟨m, r, heq, hphase⟩
      · simp [Client.raised, hclient, heq]
      · exact hreading (hclient.trans heq) (hphase.imp_right Or.inr)
    · exact hreading hclient (Or.inr (Or.inl ⟨hd, rfl⟩))
  cases h with
  | whole t lag h => exact hcourse h.course h.stands
  | short t m r k j lag h => exact hcourse h.course h.stands
  | starving t m r k hd hlacks hphase hclient =>
      exact hreading hclient (Or.inr (Or.inl ⟨hd, rfl⟩))
  | dropped t m r k hlacks hphase hclient => exact hreading hclient (Or.inl hlacks.header)
  | asked t m r k left hlacks hphase hcwnd hclient =>
      exact hreading hclient (Or.inl hlacks.header)
  | resumed t m r k left hlacks hphase hcwnd hclient =>
      exact hreading hclient (Or.inl hlacks.header)
  | again t lag k id before after rest h => exact hcourse h.course h.stands

/-- An event that is possible leads somewhere. -/
theorem exists_step_of
    {e : ByteEvent} (he : w.permit e = true) (halone : w.Alone job e)
    (hstep : (w.step job e).isSome = true) :
    ∃ e w', w.permit e = true ∧ w.Alone job e ∧ w.step job e = some w' :=
  ⟨_, _, he, halone, (Option.some_get hstep).symm⟩

/-- A transfer that follows its course is finished, or can go on. -/
theorem Follows.finished_or_step
    (hpair : Paired job.session cfg) (hsize : job.size ≤ Const.MAX_FILE_SIZE)
    (hspace : ∀ space, cfg.free_space = some space → job.size ≤ space)
    (dir : Directory) (h : w.Follows job tried t lag) :
    (t.Finished job dir ∧ (w.stream = [] ∧ w.replies = []) ∧
      ∃ result, w.sender.phase = .returned (some result) ∧ result.verified = true) ∨
    ∃ e w', w.permit e = true ∧ w.Alone job e ∧ w.step job e = some w' := by
  rcases h.course.finished_or_step hpair hsize hspace dir with hfinished | ⟨e, t', he, hstep⟩
  · left
    refine ⟨hfinished, ?_, ?_⟩
    · have hs := h.stands
      rw [hfinished.idle.1] at hs
      generalize t.client = client at hs
      cases hs with
      | atLine _ hstream => exact ⟨hstream, h.replies.trans hfinished.idle.2⟩
    · obtain ⟨result, hreturned, hverified, _⟩ := hfinished.result
      rcases h.twin.phase with heq | ⟨hdone, _⟩
      · exact ⟨result, heq.trans hreturned, hverified⟩
      · exact hdone
  · right
    rcases Faults.none_cases he with rfl | rfl | rfl | rfl
    · have hfill := Transfer.phase_of_run hstep
      refine exists_step_of (e := .run) rfl trivial ?_
      rw [step, Sender.step, if_pos ((h.twin.phase_eq (by rw [hfill]; simp)).trans hfill)]
      rfl
    · rw [Transfer.step] at hstep
      split at hstep
      · cases hstep
      · rename_i r replies hreplies
        rw [Option.map_eq_some_iff] at hstep
        obtain ⟨p, hp, _⟩ := hstep
        have hreads : t.sender.reads = true := by
          rw [← Sender.step_line_isSome, hp]
          rfl
        have hsame := h.twin.phase_eq (by
          intro result hreturned
          rw [Sender.reads, hreturned] at hreads
          cases hreads)
        refine exists_step_of (e := .reply false) rfl trivial ?_
        rw [step, h.replies.trans hreplies, Option.isSome_map, Sender.step_line_isSome,
          Sender.reads, hsame]
        exact hreads
    · rw [Transfer.step] at hstep
      split at hstep
      · cases hstep
      · rename_i c rest hcommands
        rw [Option.map_eq_some_iff] at hstep
        obtain ⟨p, hp, _⟩ := hstep
        have hs := h.stands
        rw [hcommands] at hs
        obtain ⟨htakes, hlegible⟩ := h.course.takes hcommands
        refine exists_step_of (e := .read) rfl trivial ?_
        rw [step, Option.isSome_map]
        rcases hs.take_cases htakes hlegible with ⟨_, client', htaken, _⟩ | htaken
        · rw [htaken]
          rfl
        · rw [htaken, hp]
          rfl
    · refine exists_step_of (e := .commit) rfl trivial ?_
      rcases h.stands.client_cases with hclient | ⟨m, r, hd, hclient, hheader, _⟩
      · rw [step, hclient, Option.isSome_map]
        rw [Transfer.step, Option.map_eq_some_iff] at hstep
        obtain ⟨p, hp, _⟩ := hstep
        rw [hp]
        rfl
      · have hcommit := (Transfer.of_commit hclient hstep).1
        rw [hheader] at hcommit
        cases hcommit

/-- With a short frame on the line there is always a step. -/
theorem Short.exists_step
    (hflow : job.session.flow = true) {m : AcceptedMeta cfg} {r : Recv} {k j : Nat}
    (h : w.Short job t m r k j lag) :
    ∃ e w', w.permit e = true ∧ w.Alone job e ∧ w.step job e = some w' := by
  have hphase := h.phase hflow
  rcases h.take_cases with ⟨_, _, client', stream', htaken, _⟩ | ⟨hahead, _, htaken⟩ |
    ⟨_, _, hnone, hd, hclient, hstream⟩
  · refine exists_step_of (e := .read) rfl trivial ?_
    rw [step, htaken]
    rfl
  · obtain ⟨events, hrun⟩ := h.kept.run
    have hlt : k < job.blocks := h.sending.sent_le
    have hread := Recv.read_sent h.kept.agrees h.sending.header
      (Recv.counts_run hrun).received_eq (hahead.trans hlt)
    refine exists_step_of (e := .read) rfl trivial ?_
    rw [step, htaken, h.kept.client, Client.read, hread]
    rfl
  · rcases hphase.2 with hfill | hreply
    · refine exists_step_of (e := .run) rfl trivial ?_
      rw [step, Sender.step, if_pos (hphase.1.trans hfill)]
      rfl
    · cases hreplies : w.replies with
      | nil =>
          refine exists_step_of (e := .rawTimeout) ?_ trivial ?_
          · simp [permit, still, hreplies, hnone, hphase.1, hreply]
          · rw [step, if_pos (by rw [hclient]; exact decide_eq_true hstream), hclient]
            rfl
      | cons r replies =>
          refine exists_step_of (e := .reply false) rfl trivial ?_
          rw [step, hreplies, Option.isSome_map, Sender.step_line_isSome, Sender.reads, hphase.1,
            hreply]

/-- Answers alone change no file. -/
theorem applyEffects_answers
    (f : Line) (dir : Directory) (before after : List Effect) (a b : Reply) :
    applyEffects f dir (before ++ [.send a, .send b] ++ after) =
      applyEffects f dir (before ++ after) := by
  simp [applyEffects, List.foldl_append, Effect.apply]

theorem transcript_split
    (job : Job) {k : Nat} (hk : k ≤ job.blocks) :
    job.transcript job.blocks =
      job.transcript k ++ (List.range' k (job.blocks - k)).map job.sentFrame := by
  have hrange : List.range job.blocks = List.range k ++ List.range' k (job.blocks - k) := by
    have happend : List.range' 0 k ++ List.range' (0 + k) (job.blocks - k) =
        List.range' 0 (k + (job.blocks - k)) :=
      List.range'_append_1
    rw [Nat.zero_add, Nat.add_sub_cancel' hk] at happend
    rw [List.range_eq_range', List.range_eq_range', happend]
  rw [Job.transcript, hrange, List.map_append]
  rfl

/-- A transfer that loses one byte at most, and that from the last frame on the line, has ended well
or can go on. -/
theorem Mends.mended_or_step
    (hpair : Paired job.session cfg) (hflow : job.session.flow = true)
    (hsize : job.size ≤ Const.MAX_FILE_SIZE)
    (hspace : ∀ space, cfg.free_space = some space → job.size ≤ space)
    (dir : Directory) {n : Nat} (h : w.Mends job n) :
    w.Mended job dir ∨ ∃ e w', w.permit e = true ∧ w.Alone job e ∧ w.step job e = some w' := by
  have hreply : ∀ {r : Reply}, w.replies = [r] → w.sender.reads = true →
      ∃ e w', w.permit e = true ∧ w.Alone job e ∧ w.step job e = some w' := by
    intro r hreplies hreads
    refine exists_step_of (e := .reply false) rfl trivial ?_
    rw [step, hreplies, Option.isSome_map, Sender.step_line_isSome, hreads]
  cases h with
  | whole t lag h hlost hwritten htrace hrecoveries =>
      refine (h.finished_or_step hpair hsize hspace dir).imp_left ?_
      rintro ⟨hfinished, hidle, hresult⟩
      refine ⟨hresult, htrace ▸ hfinished.saved, hidle, fun k hk => ?_⟩
      rw [hlost] at hk
      cases hk
  | short t m r k j lag h => exact Or.inr (h.exists_step hflow)
  | starving t m r k hd hlacks hphase hclient hstream hreplies hwritten htrace =>
      right
      have hnone : w.client.take w.stream = none := by
        rw [hclient, Client.take_short hstream]
      refine exists_step_of (e := .rawTimeout) ?_ trivial ?_
      · simp [permit, still, hreplies, hnone, hphase]
      · rw [step, if_pos (by rw [hclient]; exact decide_eq_true hstream), hclient]
        rfl
  | dropped t m r k hlacks hphase hclient hstream hreplies hwritten htrace =>
      refine Or.inr (hreply hreplies ?_)
      rcases hphase with hphase | hphase <;> simp [Sender.reads, hphase]
  | asked t m r k left hlacks hphase hcwnd hclient hstream hreplies hwritten htrace =>
      right
      refine exists_step_of (e := .read) rfl trivial ?_
      rw [step, hclient, hstream, hlacks.take_barrier hpair hflow]
      rfl
  | resumed t m r k left hlacks hphase hcwnd hclient hstream hreplies hwritten htrace =>
      exact Or.inr (hreply hreplies (by simp [Sender.reads, hphase]))
  | again t lag k id before after rest h hlt hlost hwritten hwritten' htrace htrace' =>
      refine (h.finished_or_step hpair hsize hspace dir).imp_left ?_
      rintro ⟨hfinished, hidle, hresult⟩
      refine ⟨hresult, ?_, hidle, ?_⟩
      · rw [htrace, applyEffects_answers, ← htrace']
        exact hfinished.saved
      · intro k' hk
        rw [hlost] at hk
        cases hk
        refine ⟨id, before, after, htrace, ?_⟩
        have hall : job.transcript job.blocks ++ [.done job.crc] = job.transcript k ++ rest :=
          hfinished.written.symm.trans hwritten'
        rw [transcript_split job hlt.le, List.append_assoc] at hall
        rw [hwritten, List.append_cancel_left hall]

/-- The transfer begins with nothing lost. -/
theorem mends_start
    (cfg : ClientConfig) (job : Job) (barrier_id : Nat) (reset_token : Option Line) :
    (ByteLine.start cfg job barrier_id reset_token).Mends job (16 * job.blocks + 38) := by
  have hstart : (Transfer.start cfg job barrier_id reset_token).remaining job =
      4 * job.blocks + 8 := by
    simp [Transfer.remaining, Transfer.start, Client.saved, Sender.start]
    omega
  have hfollows : (ByteLine.start cfg job barrier_id reset_token).Follows job 0
      (Transfer.start cfg job barrier_id reset_token) 1 :=
    { course := course_start barrier_id reset_token
      twin := .refl (fun _ _ => le_rfl) fun _ => Nat.zero_le _
      stands := .here rfl (by simp [start, Transfer.start])
      replies := rfl }
  have hmends := Mends.whole _ 1 hfollows rfl rfl rfl rfl
  rw [hstart] at hmends
  have hcount : job.patience + 4 + (2 * (4 * job.blocks + 8) + 1) = 16 * job.blocks + 38 := by
    rw [Job.patience]
    omega
  exact hcount ▸ hmends

end ByteLine

end Ends

section Result

variable (job : Job) (cfg : ClientConfig)

/-- A byte lost from a frame that nothing follows is mended. -/
theorem lost_byte_mended
    (hpair : Paired job.session cfg) (hflow : job.session.flow = true)
    (hsize : job.size ≤ Const.MAX_FILE_SIZE)
    (hspace : ∀ space, cfg.free_space = some space → job.size ≤ space)
    (hretries : 1 ≤ job.session.config.max_retries) (dir : Directory) (barrier_id : Nat)
    (reset_token : Option Line) :
    (∀ events w, (ByteLine.start cfg job barrier_id reset_token).execAlone job events = some w →
      events.length ≤ 16 * job.blocks + 38) ∧
    ∀ w, ByteLine.LeadsAlone job (ByteLine.start cfg job barrier_id reset_token) w →
      w.client.raised = none ∧
      (w.Mended job dir ∨
        ∃ e w', w.permit e = true ∧ w.Alone job e ∧ w.step job e = some w') := by
  have hmove : ∀ n (w : ByteLine cfg) e w', w.Mends job n →
      w.permit e = true ∧ w.Alone job e → w.step job e = some w' → ∃ n' < n, w'.Mends job n' :=
    fun n w e w' h he hstep => h.move hpair hflow hsize hspace hretries he.1 he.2 hstep
  have hstart := ByteLine.mends_start cfg job barrier_id reset_token
  constructor
  · intro events w hexec
    exact Transition.exec_length_le_ranked (fun n w => w.Mends job n) hmove hstart hexec
  · intro w hleads
    have hkeeps : ∀ (w : ByteLine cfg) e w', (∃ n, w.Mends job n) →
        w.permit e = true ∧ w.Alone job e → w.step job e = some w' → ∃ n, w'.Mends job n := by
      rintro w e w' ⟨n, hn⟩ he hstep
      obtain ⟨n', _, hn'⟩ := hmove n w e w' hn he hstep
      exact ⟨n', hn'⟩
    obtain ⟨n, hn⟩ := Transition.Steps.invariant _ hkeeps hleads ⟨_, hstart⟩
    exact ⟨hn.not_raised, hn.mended_or_step hpair hflow hsize hspace dir⟩

/-- With a frame behind it the byte is taken from there: block 8 of ten has lost its only byte, the
`D` of the next header takes its place, and the rest of that header is no command. -/
theorem lost_byte_misread :
    ∃ w : ByteLine smallClient,
      ByteLine.Leads (smallJob [65, 66, 67, 68, 69, 70, 71, 72, 73, 74])
        (ByteLine.start smallClient (smallJob [65, 66, 67, 68, 69, 70, 71, 72, 73, 74]) 0 none) w ∧
      w.lost = some 8 ∧ w.replies = [.nak 8 "CRC".toList] ∧
      w.client.raised = some (.pcutp (ProtocolError "expected DATA")) := by
  let job := smallJob [65, 66, 67, 68, 69, 70, 71, 72, 73, 74]
  -- After eight ACKs the window is 2.
  let block : List ByteEvent := [.run, .run, .read, .read, .reply false]
  let events : List ByteEvent := [.read, .reply false] ++ (List.replicate 8 block).flatten ++
    [.lose 0, .run, .run, .read, .read, .read]
  have hrun : ((ByteLine.start smallClient job 0 none).exec job events).any (fun w =>
      decide (w.lost = some 8 ∧ w.replies = [.nak 8 "CRC".toList] ∧
        w.client.raised = some (.pcutp (ProtocolError "expected DATA")))) = true := by
    decide +kernel
  rw [Option.any_eq_true] at hrun
  obtain ⟨w, hexec, hmisread⟩ := hrun
  exact ⟨w, .of_exec hexec, of_decide_eq_true hmisread⟩

/-- The first of two blocks loses its byte. -/
theorem lost_byte_mended_first :
    ∃ w : ByteLine smallClient,
      ByteLine.LeadsAlone (smallJob [65, 66])
        (ByteLine.start smallClient (smallJob [65, 66]) 0 none) w ∧
      w.lost = some 0 ∧ w.Mended (smallJob [65, 66]) (fun _ => none) := by
  let events : List ByteEvent :=
    [.read, .reply false, .lose 0, .run, .read, .timeout, .rawTimeout, .reply true, .read,
      .reply false, .run, .run, .read, .read, .reply false, .run, .run, .read, .read, .reply false,
      .run, .read, .reply false, .commit]
  let kinds : List ByteEvent :=
    [.run, .timeout, .reply false, .reply true, .read, .rawTimeout, .commit, .giveUp]
  let stuck : ByteLine smallClient → Bool := fun w =>
    kinds.all fun e => (w.step (smallJob [65, 66]) e).isNone
  have hrun : ((ByteLine.start smallClient (smallJob [65, 66]) 0 none).execAlone
      (smallJob [65, 66]) events).any (fun w => decide (w.lost = some 0) && stuck w) = true := by
    decide +kernel
  rw [Option.any_eq_true] at hrun
  obtain ⟨w, hexec, hend⟩ := hrun
  rw [Bool.and_eq_true] at hend
  have hlost := of_decide_eq_true hend.1
  have hstuck := List.all_eq_true.mp hend.2
  refine ⟨w, .of_exec hexec, hlost, ?_⟩
  have hends := ((lost_byte_mended (smallJob [65, 66]) smallClient small_paired rfl (by decide)
    (by simp [smallClient]) (by decide) (fun _ => none) 0 none).2 w (.of_exec hexec)).2
  refine hends.resolve_right ?_
  rintro ⟨e, w', _, _, hstep⟩
  by_cases hmem : e ∈ kinds
  · have hnone := hstuck e hmem
    rw [hstep] at hnone
    cases hnone
  · cases e with
    | lose j =>
        rw [ByteLine.step_lose hlost] at hstep
        cases hstep
    | reply late => cases late <;> exact absurd (by simp [kinds]) hmem
    | run | timeout | read | rawTimeout | commit | giveUp => exact absurd (by simp [kinds]) hmem

end Result

end Pcutp
