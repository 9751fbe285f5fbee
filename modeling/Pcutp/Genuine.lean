import Pcutp.ClientInvariant
import Pcutp.Transfer

/-!
# Everything on the line is genuine

In a FLOW transfer every command in flight is the META of the transfer, a frame
of one of its blocks, or a control line, whatever the line loses, repeats,
reorders or damages.  `Move` lists the steps of the system under this
invariant, and `step_move` is the inversion the later modules start from.
-/

namespace Pcutp

open Channel (copyAt swapAt)

section Meta

variable {cfg : ClientConfig} {job : Job}

/-- The receiver reads in META what the sender wrote. -/
theorem parse_announcement (job : Job) :
    parseMeta job.announcement.line =
      .ok
        { filename := job.filename.text
          size := job.size
          blocksize := job.block_size
          blocks := job.blocks
          crc32 := job.crc } := by
  have hupper : upper job.crc = job.crc := upper_crc32_hex _
  have hhex : (parse_hex job.crc).isSome = true := by
    rw [Job.crc, crc32_hex, parse_hex_to_hex]
  rw [parseMeta, Command.split_line job.announcement_printable]
  simp [Job.announcement, Command.words, hupper, hhex, job.filename.sanitize_text]

theorem acceptMeta_meta
    {meta' : Meta} {m : AcceptedMeta cfg}
    (h : acceptMeta cfg meta' = .ok m) :
    m.toMeta = meta' := by
  unfold acceptMeta at h
  split at h
  · cases h
  · split at h
    · split at h
      · split at h
        · cases h
          rfl
        · cases h
      · cases h
    · cases h

theorem acceptMeta_refusal
    {meta' : Meta} {reply : Reply} {exc : PcutpError}
    (h : acceptMeta cfg meta' = .error (reply, exc)) :
    ∃ code, IsWord code ∧ reply = .err code := by
  unfold acceptMeta at h
  have hprotocol : IsWord "PROTOCOL".toList := isWord_of_check (by decide)
  have hstorage : IsWord "STORAGE".toList := isWord_of_check (by decide)
  split at h
  · cases h
    exact ⟨_, hprotocol, rfl⟩
  · split at h
    · split at h
      · split at h
        · cases h
        · cases h
          exact ⟨_, hstorage, rfl⟩
      · cases h
        exact ⟨_, hprotocol, rfl⟩
    · cases h
      exact ⟨_, hprotocol, rfl⟩

theorem Paired.matches
    (hpair : Paired job.session cfg) {m : AcceptedMeta cfg}
    (h : m.toMeta =
      { filename := job.filename.text
        size := job.size
        blocksize := job.block_size
        blocks := job.blocks
        crc32 := job.crc }) :
    m.Matches job where
  flow := hpair.flow
  compression := hpair.compression
  target := by
    have htarget := m.target_eq
    rw [h, job.filename.sanitize_text] at htarget
    exact (Except.ok.inj htarget).symm
  size := congrArg Meta.size h
  blocksize := congrArg Meta.blocksize h
  blocks := congrArg Meta.blocks h
  crc32 := congrArg Meta.crc32 h

theorem parseMeta_other
    {c : Command} (hc : c.Printable)
    (hother : ∀ f size bs n crc, c ≠ .fileMeta f size bs n crc) :
    ∃ exc, parseMeta c.line = .error exc := by
  refine ⟨ProtocolError "expected META", ?_⟩
  rw [parseMeta, Command.split_line hc]
  cases c with
  | fileMeta f size bs n crc => exact absurd rfl (hother _ _ _ _ _)
  | _ => simp [Command.words]

theorem Job.InFlight.printable
    {c : Command} (h : job.InFlight c) :
    c.Printable := by
  rcases h with rfl | ⟨seq, hc⟩ | hc
  · exact job.announcement_printable
  · exact hc.printable
  · cases c with
    | done crc =>
        obtain rfl : crc = job.crc := hc
        exact isWord_crc32_hex _
    | err => exact hc
    | rmbAck => exact hc
    | ayt => trivial
    | rst => trivial
    | barrier => trivial
    | _ => cases hc

/-- What a receiver that waits for META does with anything that is on the line. -/
theorem onMeta_cases
    (hpair : Paired job.session cfg) {c : Command} (hc : job.InFlight c) :
    (∃ m : AcceptedMeta cfg, c = job.announcement ∧ m.Matches job ∧
      Client.onMeta cfg true c.line = (.receiving m Recv.start, Recv.startEffects m)) ∨
    ∃ exc effects, Client.onMeta cfg true c.line = (.stopped exc, effects) ∧
      (effects = [] ∨ c = job.announcement ∧
        ∃ code, IsWord code ∧ effects = [.send (.err code)]) := by
  unfold Client.onMeta
  split
  · exact Or.inr ⟨_, _, rfl, Or.inl rfl⟩
  · rw [if_neg (by simp)]
    by_cases hmeta : c = job.announcement
    · subst hmeta
      rw [parse_announcement]
      dsimp only
      split
      · rename_i reply exc haccept
        obtain ⟨code, hcode, rfl⟩ := acceptMeta_refusal haccept
        exact Or.inr ⟨_, _, rfl, Or.inr ⟨rfl, code, hcode, rfl⟩⟩
      · rename_i m haccept
        exact Or.inl ⟨m, rfl, hpair.matches (acceptMeta_meta haccept), rfl⟩
    · have hother : ∀ f size bs n crc, c ≠ .fileMeta f size bs n crc := by
        rintro f size bs n crc rfl
        rcases hc with heq | ⟨seq, hc⟩ | hc
        · exact hmeta heq
        · have := hc.isFrame.1
          cases this
        · cases hc
      obtain ⟨exc, hexc⟩ := parseMeta_other hc.printable hother
      rw [hexc]
      exact Or.inr ⟨_, _, rfl, Or.inl rfl⟩

end Meta

section Invariant

variable {cfg : ClientConfig}

/-- What holds of everything on the line and of both ends, in every FLOW transfer. -/
structure Genuine (job : Job) (s : Transfer cfg) : Prop where
  commands : ∀ c ∈ s.commands, job.InFlight c
  replies : ∀ r ∈ s.replies, r.Printable
  frames : (∀ exc, s.sender.phase ≠ .raised exc) →
    ∀ seq c, s.sender.frames seq = some c → job.IsFrameOf seq c
  block : ∀ attempt timeouts, s.sender.phase ≠ .block attempt timeouts
  awaiting : ∀ fetching, s.client = .awaiting fetching → fetching = true ∧ s.trace = []
  receiving : ∀ m r, s.client = .receiving m r →
    m.Matches job ∧ ∃ events, Recv.run m events = some (r, s.trace)

/-- The steps of a FLOW transfer. -/
inductive Move (job : Job) (s : Transfer cfg) : Event → Transfer cfg → Prop
  | fill (p : Sender × List Command) (hphase : s.sender.phase = .fill)
      (hkind : Sender.FillKind job s.sender p.1 p.2) :
      Move job s .run (s.sent p)
  | timeout (p : Sender × List Command)
      (hkind : Sender.ReadKind job s.sender none p.1 p.2) :
      Move job s .timeout (s.sent p)
  | reply (late : Bool) (r : Reply) (replies : List Reply) (p : Sender × List Command)
      (hreplies : s.replies = r :: replies)
      (hkind : Sender.ReadKind job s.sender (some r) p.1 p.2) :
      Move job s (.reply late) ({ s with replies }.sent p)
  | command (m : AcceptedMeta cfg) (r : Recv) (c : Command) (commands : List Command)
      (p : Recv × List Effect) (hclient : s.client = .receiving m r)
      (hcommands : s.commands = c :: commands) (hphase : r.phase = .header)
      (hread : r.read m c = some p) (hturn : Recv.Turn m job r c p.1 p.2) :
      Move job s .command ({ s with commands }.received (.receiving m p.1, p.2))
  | accept (m : AcceptedMeta cfg) (commands : List Command)
      (hclient : s.client = .awaiting true) (hcommands : s.commands = job.announcement :: commands)
      (hm : m.Matches job) :
      Move job s .command
        ({ s with commands }.received (.receiving m Recv.start, Recv.startEffects m))
  | refuse (c : Command) (commands : List Command) (exc : Raised) (effects : List Effect)
      (hclient : s.client = .awaiting true) (hcommands : s.commands = c :: commands)
      (heffects : effects = [] ∨ c = job.announcement ∧
        ∃ code, IsWord code ∧ effects = [.send (.err code)]) :
      Move job s .command ({ s with commands }.received (.stopped exc, effects))
  | commit (m : AcceptedMeta cfg) (r : Recv) (hclient : s.client = .receiving m r)
      (hphase : r.phase = .commit) :
      Move job s .commit
        (s.received (.receiving m { r with phase := .returned true }, [.replace, .unlink]))
  | giveUp (m : AcceptedMeta cfg) (r : Recv) (exc : PcutpError)
      (hclient : s.client = .receiving m r) (hphase : r.phase = .header)
      (hstep : r.step m .timeout = some (r.raise exc, []))
      (hmessage : exc.message ≠ "DONE before all blocks arrived") :
      Move job s .giveUp (s.received (.receiving m (r.raise exc), []))
  | giveUpMeta (exc : Raised) (hclient : s.client = .awaiting true) :
      Move job s .giveUp (s.received (.stopped exc, []))
  | loseCommand (i : Nat) :
      Move job s (.loseCommand i) { s with commands := s.commands.eraseIdx i }
  | loseReply (i : Nat) :
      Move job s (.loseReply i) { s with replies := s.replies.eraseIdx i }
  | copyCommand (i : Nat) (hi : i < s.commands.length) :
      Move job s (.copyCommand i) { s with commands := copyAt s.commands i }
  | copyReply (i : Nat) (hi : i < s.replies.length) :
      Move job s (.copyReply i) { s with replies := copyAt s.replies i }
  | swapCommands (i : Nat) :
      Move job s (.swapCommands i) { s with commands := swapAt s.commands i }
  | swapReplies (i : Nat) :
      Move job s (.swapReplies i) { s with replies := swapAt s.replies i }
  | damage (i : Nat) (bytes : Bytes) (c : Command) (hc : s.commands[i]? = some c)
      (hframe : c.isFrame = true) (hlength : bytes.length = c.payload.length)
      (hdamage : ¬ (c.withPayload bytes).Intact) :
      Move job s (.damage i bytes)
        { s with commands := s.commands.set i (c.withPayload bytes) }

variable {job : Job} {s s' : Transfer cfg}

/-- A receiver counts the bytes of the blocks it has. -/
theorem Genuine.received
    (hs : Genuine job s) {m : AcceptedMeta cfg} {r : Recv}
    (hclient : s.client = .receiving m r) :
    r.received = min (r.expected * m.blocksize) m.size := by
  obtain ⟨_, events, hrun⟩ := hs.receiving m r hclient
  exact (Recv.counts_run hrun).received_eq

/-- The steps of a FLOW transfer are the moves. -/
theorem step_move
    (hpair : Paired job.session cfg) (hflow : job.session.flow = true)
    (hs : Genuine job s) {e : Event} (h : s.step job e = some s') :
    Move job s e s' := by
  cases e with
  | run =>
      rw [Transfer.step, Option.map_eq_some_iff] at h
      obtain ⟨p, hp, rfl⟩ := h
      obtain ⟨hphase, hkind⟩ := Sender.fill_kind hflow hp
      exact .fill p hphase hkind
  | timeout =>
      rw [Transfer.step, Option.map_eq_some_iff] at h
      obtain ⟨p, hp, rfl⟩ := h
      exact .timeout p (Sender.timeout_kind hs.block hp)
  | reply late =>
      rw [Transfer.step] at h
      split at h
      · cases h
      · rename_i r replies hreplies
        rw [Option.map_eq_some_iff] at h
        obtain ⟨p, hp, rfl⟩ := h
        have hr : r.Printable := hs.replies r (hreplies ▸ List.mem_cons_self)
        exact .reply late r replies p hreplies (Sender.reply_kind hr hs.block hp)
  | command =>
      rw [Transfer.step] at h
      split at h
      · cases h
      · rename_i c commands hcommands
        have hc : job.InFlight c := hs.commands c (hcommands ▸ List.mem_cons_self)
        rw [Option.map_eq_some_iff] at h
        obtain ⟨p, hp, rfl⟩ := h
        cases hclient : s.client with
        | awaiting fetching =>
            obtain rfl := (hs.awaiting fetching hclient).1
            rw [hclient, Client.read] at hp
            rcases onMeta_cases hpair hc with ⟨m, rfl, hm, hmeta⟩ | ⟨exc, effects, hmeta, heffects⟩
            · rw [hmeta] at hp
              cases hp
              exact .accept m commands hclient hcommands hm
            · rw [hmeta] at hp
              cases hp
              exact .refuse c commands exc effects hclient hcommands heffects
        | receiving m r =>
            rw [hclient, Client.read, Option.map_eq_some_iff] at hp
            obtain ⟨q, hq, rfl⟩ := hp
            have hm := (hs.receiving m r hclient).1
            obtain ⟨hphase, hturn⟩ :=
              Recv.read_turn hm (hpair.flow.trans hflow) (hs.received hclient) hc hq
            exact .command m r c commands q hclient hcommands hphase hq hturn
        | stopped exc =>
            rw [hclient, Client.read] at hp
            cases hp
  | commit =>
      rw [Transfer.step, Option.map_eq_some_iff] at h
      obtain ⟨p, hp, rfl⟩ := h
      cases hclient : s.client with
      | awaiting fetching =>
          simp [hclient, Client.act] at hp
      | receiving m r =>
          rw [hclient, Client.act, Option.map_eq_some_iff] at hp
          obtain ⟨q, hq, rfl⟩ := hp
          rw [Recv.step] at hq
          split at hq
          · rename_i hphase
            cases hq
            exact .commit m r hclient hphase
          · cases hq
      | stopped exc =>
          simp [hclient, Client.act] at hp
  | giveUp =>
      rw [Transfer.step, Option.map_eq_some_iff] at h
      obtain ⟨p, hp, rfl⟩ := h
      cases hclient : s.client with
      | awaiting fetching =>
          obtain rfl := (hs.awaiting fetching hclient).1
          rw [hclient, Client.act] at hp
          cases hp
          exact .giveUpMeta _ hclient
      | receiving m r =>
          rw [hclient, Client.act, Option.map_eq_some_iff] at hp
          obtain ⟨q, hq, rfl⟩ := hp
          rw [Recv.step] at hq
          split at hq
          · rename_i hphase
            cases hq
            exact .giveUp m r _ hclient hphase (by simp [Recv.step, hphase]) (by decide)
          · cases hq
      | stopped exc =>
          simp [hclient, Client.act] at hp
  | loseCommand i =>
      rw [Transfer.step] at h
      split at h <;> cases h
      exact .loseCommand i
  | loseReply i =>
      rw [Transfer.step] at h
      split at h <;> cases h
      exact .loseReply i
  | copyCommand i =>
      rw [Transfer.step] at h
      split at h <;> cases h
      exact .copyCommand i ‹_›
  | copyReply i =>
      rw [Transfer.step] at h
      split at h <;> cases h
      exact .copyReply i ‹_›
  | swapCommands i =>
      rw [Transfer.step] at h
      split at h <;> cases h
      exact .swapCommands i
  | swapReplies i =>
      rw [Transfer.step] at h
      split at h <;> cases h
      exact .swapReplies i
  | damage i bytes =>
      rw [Transfer.step] at h
      split at h
      · cases h
      · rename_i c hc
        split at h <;> cases h
        rename_i hdamage
        exact .damage i bytes c hc hdamage.1 hdamage.2.1 hdamage.2.2

/-- Reading a command continues a run of `_receive`. -/
theorem run_read
    {m : AcceptedMeta cfg} {events : List RecvEvent} {r r' : Recv} {c : Command}
    {trace effects : List Effect}
    (hrun : Recv.run m events = some (r, trace)) (hread : r.read m c = some (r', effects)) :
    ∃ events', Recv.run m events' = some (r', trace ++ effects) := by
  rw [Recv.run] at hrun
  simp only [Recv.read] at hread
  split at hread
  · cases hread
  · rename_i r₁ effects₁ hstep
    have hline : Recv.run m (events ++ [.line c.line true]) = some (r₁, trace ++ effects₁) := by
      simp [Recv.run, Machine.run_append, hrun, Machine.run, hstep]
    split at hread
    · rw [Option.map_eq_some_iff] at hread
      obtain ⟨q, hq, heq⟩ := hread
      cases heq
      refine ⟨events ++ [.line c.line true] ++ [.payload c.payload none], ?_⟩
      rw [Recv.run] at hline ⊢
      rw [Machine.run_append, hline]
      simp [Machine.run, hq, List.append_assoc]
    · cases hread
      exact ⟨_, hline⟩

/-- One more event continues a run of `_receive`. -/
theorem run_step
    {m : AcceptedMeta cfg} {events : List RecvEvent} {r r' : Recv} {ev : RecvEvent}
    {trace effects : List Effect}
    (hrun : Recv.run m events = some (r, trace)) (hstep : r.step m ev = some (r', effects)) :
    ∃ events', Recv.run m events' = some (r', trace ++ effects) := by
  refine ⟨events ++ [ev], ?_⟩
  rw [Recv.run] at hrun ⊢
  simp [Machine.run_append, hrun, Machine.run, hstep]

/-- What the receiver answers is well formed. -/
theorem turn_printable
    {m : AcceptedMeta cfg} {r r' : Recv} {c : Command} {effects : List Effect}
    (h : Recv.Turn m job r c r' effects) :
    ∀ reply ∈ sends effects, reply.Printable := by
  have hone : ∀ {reply : Reply}, reply.Printable → ∀ reply' ∈ [reply], reply'.Printable := by
    intro reply hreply reply' hmem
    rwa [List.mem_singleton.mp hmem]
  cases h with
  | ayt t => exact hone (isWord_dec t)
  | rst t => exact hone (isWord_dec t)
  | barrier t => exact hone (isWord_dec t)
  | early => exact fun _ hmem => absurd hmem List.not_mem_nil
  | refused => exact hone (isWord_hex8 _)
  | verified => exact hone (isWord_hex8 _)
  | raised => exact fun _ hmem => absurd hmem List.not_mem_nil
  | frame seq c hc hkind =>
      cases hkind with
      | nak why hwhy => exact hone hwhy
      | old => exact hone trivial
      | gap hseq =>
          simp only [Recv.onGap]
          split
          · split
            · exact hone (isWord_of_check (by decide))
            · exact hone trivial
          · exact hone (isWord_dec seq)
      | store hseq =>
          simp only [Recv.onBlock]
          split <;> exact hone trivial

theorem Genuine.sent
    (hs : Genuine job s) {p : Sender × List Command}
    (hout : ∀ c ∈ p.2, job.InFlight c)
    (hframes : (∀ exc, p.1.phase ≠ .raised exc) →
      ∀ seq c, p.1.frames seq = some c → job.IsFrameOf seq c)
    (hblock : ∀ attempt timeouts, p.1.phase ≠ .block attempt timeouts) :
    Genuine job (s.sent p) where
  commands := fun c hc => (List.mem_append.mp hc).elim (hs.commands c) (hout c)
  replies := hs.replies
  frames := hframes
  block := hblock
  awaiting := hs.awaiting
  receiving := hs.receiving

theorem Genuine.read
    (hs : Genuine job s) {r : Option Reply} {p : Sender × List Command}
    (hkind : Sender.ReadKind job s.sender r p.1 p.2) :
    Genuine job (s.sent p) := by
  refine hs.sent (fun c hc => Or.inr (Or.inr (hkind.control c hc))) ?_ hkind.not_block
  intro hraised seq c hc
  refine hs.frames ?_ seq c (hkind.frames hraised seq c hc)
  -- An exception is final.
  intro exc hphase
  exact hkind.not_raised exc hphase

theorem Genuine.pop
    (hs : Genuine job s) {commands : List Command} (hrest : ∀ c ∈ commands, c ∈ s.commands) :
    Genuine job { s with commands } :=
  { hs with commands := fun c hc => hs.commands c (hrest c hc) }

theorem Genuine.popReply
    (hs : Genuine job s) {replies : List Reply} (hrest : ∀ r ∈ replies, r ∈ s.replies) :
    Genuine job { s with replies } :=
  { hs with replies := fun r hr => hs.replies r (hrest r hr) }

/-- The sender writes a frame or DONE, begins to wait, or gives up. -/
theorem Genuine.fill
    (hs : Genuine job s) (hphase : s.sender.phase = .fill) {p : Sender × List Command}
    (hkind : Sender.FillKind job s.sender p.1 p.2) :
    Genuine job (s.sent p) := by
  have hframes := hs.frames (by rw [hphase]; simp)
  obtain ⟨t, out⟩ := p
  cases hkind with
  | frame frame hframe hblocks hroom hbase =>
      have hof := hframe ▸ isFrameOf_cached hframes
      refine hs.sent ?_ ?_ ?_
      · intro c hc
        rw [List.mem_singleton.mp hc]
        exact Or.inr (Or.inl ⟨_, hof.carries hblocks⟩)
      · intro _ seq c hc
        dsimp only at hc
        by_cases hseq : seq = s.sender.next_seq
        · subst hseq
          rw [Function.update_self] at hc
          cases hc
          exact hof
        · rw [Function.update_of_ne hseq] at hc
          exact hframes seq c hc
      · simp [hphase]
  | wait => exact hs.sent (fun c hc => absurd hc List.not_mem_nil) (fun _ => hframes) (by simp)
  | done =>
      refine hs.sent (fun c hc => ?_) (fun _ => hframes) (by simp)
      rw [List.mem_singleton.mp hc]
      exact Or.inr (Or.inr rfl)
  | failed exc hcls hmessage hcode =>
      refine hs.sent (fun c hc => ?_) (fun _ => hframes) (by simp)
      rw [List.mem_singleton.mp hc]
      refine Or.inr (Or.inr ?_)
      rw [Job.Control, hcode]
      exact Sender.isWord_code _

/-- A receiver at work goes on. -/
theorem Genuine.receiver
    (hs : Genuine job s) {m : AcceptedMeta cfg} {p : Recv × List Effect} (hm : m.Matches job)
    (hrun : ∃ events, Recv.run m events = some (p.1, s.trace ++ p.2))
    (hreplies : ∀ r ∈ sends p.2, r.Printable) :
    Genuine job (s.received (.receiving m p.1, p.2)) where
  commands := hs.commands
  replies := fun r hr => (List.mem_append.mp hr).elim (hs.replies r) (hreplies r)
  frames := hs.frames
  block := hs.block
  awaiting := fun fetching heq => by cases heq
  receiving := fun m' r' heq => by
    cases heq
    exact ⟨hm, hrun⟩

/-- A receiver that waits for META stops. -/
theorem Genuine.stopped
    (hs : Genuine job s) {exc : Raised} {effects : List Effect}
    (hreplies : ∀ r ∈ sends effects, r.Printable) :
    Genuine job (s.received (.stopped exc, effects)) where
  commands := hs.commands
  replies := fun r hr => (List.mem_append.mp hr).elim (hs.replies r) (hreplies r)
  frames := hs.frames
  block := hs.block
  awaiting := fun fetching heq => by cases heq
  receiving := fun m' r' heq => by cases heq

/-- Every move keeps the line genuine. -/
theorem Genuine.move
    (hs : Genuine job s) {e : Event} (h : Move job s e s') :
    Genuine job s' := by
  have hnothing : ∀ r ∈ ([] : List Reply), r.Printable := fun _ hr => absurd hr List.not_mem_nil
  cases h with
  | fill p hphase hkind => exact hs.fill hphase hkind
  | timeout p hkind => exact hs.read hkind
  | reply late r replies p hreplies hkind =>
      exact (hs.popReply fun r' hr' => hreplies ▸ List.mem_cons_of_mem _ hr').read hkind
  | command m r c commands p hclient hcommands hphase hread hturn =>
      obtain ⟨hm, events, hrun⟩ := hs.receiving m r hclient
      exact (hs.receiver hm (run_read hrun hread) (turn_printable hturn)).pop
        fun c' hc' => hcommands ▸ List.mem_cons_of_mem _ hc'
  | accept m commands hclient hcommands hm =>
      have htrace := (hs.awaiting true hclient).2
      have hready : ∀ r ∈ sends (Recv.startEffects m), r.Printable := fun r hr => by
        rw [List.mem_singleton.mp hr]
        trivial
      exact (hs.receiver (p := (Recv.start, Recv.startEffects m)) hm
        ⟨[], by simp [htrace, Recv.run, Machine.run]⟩ hready).pop
        fun c' hc' => hcommands ▸ List.mem_cons_of_mem _ hc'
  | refuse c commands exc effects hclient hcommands heffects =>
      have herr : ∀ r ∈ sends effects, r.Printable := fun r hr => by
        rcases heffects with rfl | ⟨_, code, hcode, rfl⟩
        · exact absurd hr List.not_mem_nil
        · rw [List.mem_singleton.mp hr]
          exact hcode
      exact (hs.stopped herr).pop fun c' hc' => hcommands ▸ List.mem_cons_of_mem _ hc'
  | commit m r hclient hphase =>
      obtain ⟨hm, events, hrun⟩ := hs.receiving m r hclient
      have hstep : r.step m (.commit true) =
          some ({ r with phase := .returned true }, [.replace, .unlink]) := by
        simp [Recv.step, hphase]
      exact hs.receiver (p := (_, [.replace, .unlink])) hm (run_step hrun hstep) hnothing
  | giveUp m r exc hclient hphase hstep =>
      obtain ⟨hm, events, hrun⟩ := hs.receiving m r hclient
      exact hs.receiver (p := (_, [])) hm (run_step hrun hstep) hnothing
  | giveUpMeta exc hclient => exact hs.stopped hnothing
  | loseCommand i => exact hs.pop fun c hc => List.mem_of_mem_eraseIdx hc
  | loseReply i => exact hs.popReply fun r hr => List.mem_of_mem_eraseIdx hr
  | copyCommand i hi => exact hs.pop fun c hc => Channel.mem_of_mem_copyAt hc
  | copyReply i hi => exact hs.popReply fun r hr => Channel.mem_of_mem_copyAt hr
  | swapCommands i => exact hs.pop fun c hc => Channel.mem_of_mem_swapAt hc
  | swapReplies i => exact hs.popReply fun r hr => Channel.mem_of_mem_swapAt hr
  | damage i bytes c hc hframe hlength hdamage =>
      refine { hs with commands := fun c' hc' => ?_ }
      rcases List.mem_or_eq_of_mem_set hc' with hc' | rfl
      · exact hs.commands c' hc'
      · exact (hs.commands c (List.mem_of_getElem? hc)).damage hframe hlength hdamage

/-- The line is genuine when META has been written. -/
theorem genuine_start (barrier_id : Nat) (reset_token : Option Line) :
    Genuine job (Transfer.start cfg job barrier_id reset_token) where
  commands := fun c hc => Or.inl (List.mem_singleton.mp hc)
  replies := fun r hr => absurd hr List.not_mem_nil
  frames := fun _ _ _ hc => by cases hc
  block := by simp [Transfer.start, Sender.start]
  awaiting := fun fetching heq => by
    cases heq
    exact ⟨rfl, rfl⟩
  receiving := fun m r heq => by cases heq

end Invariant

end Pcutp
