import Pcutp.Integrity
import Pcutp.Stages

/-!
# Exact recovery

Over channels that keep the order, and as long as the receiver has not started
over by itself, the sender's window always encloses the receiver's position,
and a barrier that is answered finds the line without data frames.
-/

namespace Pcutp

open Channel (Epoch copyAt swapAt)

/-- A line that loses, repeats and damages, but keeps the order. -/
def Faults.fifo : Faults where
  loss := true
  duplication := true
  reordering := false
  damage := true
  timeouts := true

section Line

variable {commands : List Command} {replies : List Reply}

theorem Weathered.loseCommand (i : Nat) :
    Weathered commands replies (commands.eraseIdx i) replies where
  command := fun _ hc => Or.inl (List.mem_of_mem_eraseIdx hc)
  reply := fun _ hr => hr
  epoch := fun _ _ _ h => h.loseBack i

theorem Weathered.loseReply (i : Nat) :
    Weathered commands replies commands (replies.eraseIdx i) where
  command := fun _ hc => Or.inl hc
  reply := fun _ hr => List.mem_of_mem_eraseIdx hr
  epoch := fun _ _ _ h => h.loseFront i

theorem Weathered.copyCommand {i : Nat} (hi : i < commands.length) :
    Weathered commands replies (copyAt commands i) replies where
  command := fun _ hc => Or.inl (Channel.mem_of_mem_copyAt hc)
  reply := fun _ hr => hr
  epoch := fun _ _ _ h => h.copyBack hi

theorem Weathered.copyReply {i : Nat} (hi : i < replies.length) :
    Weathered commands replies commands (copyAt replies i) where
  command := fun _ hc => Or.inl hc
  reply := fun _ hr => Channel.mem_of_mem_copyAt hr
  epoch := fun _ _ _ h => h.copyFront hi

theorem Weathered.damage
    {i : Nat} {c : Command} (bytes : Bytes) (hc : commands[i]? = some c)
    (hframe : c.isFrame = true) :
    Weathered commands replies (commands.set i (c.withPayload bytes)) replies where
  command := by
    intro c' hc'
    rcases List.mem_or_eq_of_mem_set hc' with hc' | rfl
    · exact Or.inl hc'
    · exact Or.inr ⟨c, List.mem_of_getElem? hc, hframe, bytes, rfl⟩
  reply := fun _ hr => hr
  epoch := fun _ _ hkind h => h.set hc (hkind c hframe bytes)

end Line

section Tokens

theorem Command.TokenLe.mono
    {a b : Nat} {c : Command} (h : c.TokenLe a) (hab : a ≤ b) :
    c.TokenLe b := by
  cases c <;> first | trivial | exact Nat.le_trans h hab

theorem Reply.TokenLe.mono
    {a b : Nat} {r : Reply} (h : r.TokenLe a) (hab : a ≤ b) :
    r.TokenLe b := by
  cases r <;> first | trivial | exact h.imp fun _ ht => ⟨ht.1.trans hab, ht.2⟩

/-- A frame carries no token. -/
theorem tokenLe_of_frame
    {id : Nat} {c : Command} (hframe : c.isFrame = true) :
    c.TokenLe id := by
  cases c <;> trivial

/-- The counter never goes back, and what is written carries at most its value. -/
theorem Sender.ReadKind.tokens
    {job : Job} {s s' : Sender} {r : Option Reply} {out : List Command}
    (h : Sender.ReadKind job s r s' out) :
    s.barrier_id ≤ s'.barrier_id ∧ ∀ c ∈ out, c.TokenLe s'.barrier_id := by
  have hone : ∀ {c : Command} {id : Nat}, c.TokenLe id → ∀ c' ∈ [c], c'.TokenLe id := by
    intro c id hc c' hc'
    rwa [List.mem_singleton.mp hc']
  have hnil : ∀ {id : Nat}, ∀ c ∈ ([] : List Command), c.TokenLe id :=
    fun c hc => absurd hc List.not_mem_nil
  cases h with
  | failed r s' exc out hphase hphase' hmessage hcode hid hout =>
      refine ⟨hid.ge, ?_⟩
      rcases hout with rfl | rfl
      · exact hnil
      · exact hone trivial
  | askAlive => exact ⟨Nat.le_succ _, hone (Nat.le_refl _)⟩
  | askRestart => exact ⟨Nat.le_succ _, hone (Nat.le_refl _)⟩
  | askReset => exact ⟨Nat.le_refl _, hone (Nat.le_refl _)⟩
  | askBarrier => exact ⟨Nat.le_refl _, hone (Nat.le_refl _)⟩
  | gap => exact ⟨Nat.le_succ _, hone (Nat.le_refl _)⟩
  | restarted => exact ⟨Nat.le_succ _, hone (Nat.le_refl _)⟩
  | resetDone => exact ⟨Nat.le_succ _, hone (Nat.le_refl _)⟩
  | unsent => exact ⟨Nat.le_refl _, hone trivial⟩
  | badReset => exact ⟨Nat.le_refl _, hone trivial⟩
  | badResume => exact ⟨Nat.le_refl _, hone trivial⟩
  | _ => exact ⟨Nat.le_refl _, hnil⟩

theorem Turned.tokens
    {blocks id : Nat} {c : Command} {p p' : Nat × Nat} {out : List Reply}
    (h : Turned blocks c p p' out) (hc : c.TokenLe id) :
    ∀ r ∈ out, r.TokenLe id := by
  have hone : ∀ {r : Reply}, r.TokenLe id → ∀ r' ∈ [r], r'.TokenLe id := by
    intro r hr r' hr'
    rwa [List.mem_singleton.mp hr']
  cases h with
  | ayt t => exact hone ⟨t, hc, rfl⟩
  | rst t => exact hone ⟨t, hc, rfl⟩
  | barrier t => exact hone ⟨t, hc, rfl⟩
  | answer c e d reply hprobe hreply =>
      rcases hreply with rfl | ⟨w, rfl | rfl | rfl⟩ <;> exact hone trivial
  | silent => exact fun r hr => absurd hr List.not_mem_nil
  | _ => exact hone trivial

end Tokens

section Invariant

variable {cfg : ClientConfig} {job : Job} {s s' : Transfer cfg}

/-- The invariant of a transfer over a line that keeps the order, while the receiver has not
started over by itself. -/
structure Tracked (job : Job) (s : Transfer cfg) : Prop where
  told : ∀ r ∈ s.replies, Effect.send r ∈ s.trace
  commandTokens : ∀ c ∈ s.commands, c.TokenLe s.sender.barrier_id
  replyTokens : ∀ r ∈ s.replies, r.TokenLe s.sender.barrier_id
  stage : StageInv s.sender job.blocks s.client.expected s.commands s.replies
  done : ∀ crc, Command.done crc ∈ s.commands →
    s.client.expected = job.blocks ∧ (∀ t, Command.rst t ∉ s.commands) ∧
      (s.sender.phase = .final ∨ (∃ result, s.sender.phase = .returned result) ∨
        ∃ exc, s.sender.phase = .raised exc)
  accused : ∀ exc, s.sender.phase = .raised exc → exc.message ∉ Sender.seriousMessages
  early : ∀ m r exc, s.client = .receiving m r → r.phase = .raised (.pcutp exc) →
    exc.message ≠ "DONE before all blocks arrived"

theorem Tracked.weathered
    (hs : Tracked job s) {commands : List Command} {replies : List Reply}
    (h : Weathered s.commands s.replies commands replies) :
    Tracked job { s with commands, replies } where
  told := fun r hr => hs.told r (h.reply r hr)
  commandTokens := by
    intro c hc
    rcases h.command c hc with hc | ⟨c₀, hc₀, hframe, bytes, rfl⟩
    · exact hs.commandTokens c hc
    · exact tokenLe_of_frame (withPayload_control hframe bytes).1
  replyTokens := fun r hr => hs.replyTokens r (h.reply r hr)
  stage := hs.stage.weathered h
  done := by
    intro crc hcrc
    obtain ⟨hblocks, hrst, hphase⟩ := hs.done crc (h.control rfl hcrc)
    exact ⟨hblocks, fun t hmem => hrst t (h.control rfl hmem), hphase⟩
  accused := hs.accused
  early := hs.early

/-- A read of the sender keeps the invariant. -/
theorem Tracked.read
    {r : Option Reply} {replies : List Reply} {p : Sender × List Command}
    (hs : Tracked job s) (hreplies : s.replies = r.toList ++ replies)
    (hnone : Effect.send .rst ∉ s.trace)
    (hkind : Sender.ReadKind job s.sender r p.1 p.2) :
    Tracked job ({ s with replies }.sent p) := by
  have hmem : ∀ r' ∈ replies, r' ∈ s.replies :=
    fun r' hr' => hreplies ▸ List.mem_append_right _ hr'
  obtain ⟨hstage, haccused⟩ := (hreplies ▸ hs.stage).read (hreplies ▸ hs.replyTokens)
    hs.commandTokens (fun hrst => hnone (hs.told _ (hreplies ▸ hrst))) hkind
  obtain ⟨hid, hout⟩ := hkind.tokens
  refine
    { told := fun r' hr' => hs.told r' (hmem r' hr')
      commandTokens := fun c hc => ?_
      replyTokens := fun r' hr' => (hs.replyTokens r' (hmem r' hr')).mono hid
      stage := hstage
      done := fun crc hcrc => ?_
      accused := haccused
      early := hs.early }
  · exact (List.mem_append.mp hc).elim (fun hc => (hs.commandTokens c hc).mono hid) (hout c)
  · rcases List.mem_append.mp hcrc with hcrc | hcrc
    · obtain ⟨hblocks, hrst, hphase⟩ := hs.done crc hcrc
      obtain ⟨hnil, hphase'⟩ := hkind.after_done hphase
      refine ⟨hblocks, ?_, hphase'⟩
      simpa [Transfer.sent, hnil] using hrst
    · exact absurd hcrc (hkind.no_done crc)

theorem Tracked.not_done
    (hs : Tracked job s) (hphase : s.sender.phase = .fill) :
    ∀ crc, Command.done crc ∉ s.commands := by
  intro crc hcrc
  have hlast := (hs.done crc hcrc).2.2
  rw [hphase] at hlast
  simp at hlast

/-- What the sender does without reading keeps the invariant. -/
theorem Tracked.fill
    {p : Sender × List Command}
    (hg : Genuine job s) (hs : Tracked job s) (hphase : s.sender.phase = .fill)
    (hkind : Sender.FillKind job s.sender p.1 p.2) :
    Tracked job (s.sent p) := by
  have hframes := hg.frames (by rw [hphase]; simp)
  obtain ⟨hstage, haccused⟩ := hs.stage.fill hphase hframes hkind
  have ha := hs.stage.aligned (Or.inr (Or.inl hphase))
  have hnot := hs.not_done hphase
  obtain ⟨t, out⟩ := p
  -- What is left to show: the tokens of the new command, and DONE when it is one.
  have hrest : t.barrier_id = s.sender.barrier_id ∧ (∀ c ∈ out, c.TokenLe s.sender.barrier_id) ∧
      ∀ crc, Command.done crc ∈ out →
        s.client.expected = job.blocks ∧ t.phase = .final ∧ out = [.done crc] := by
    cases hkind with
    | frame frame hcache hblocks hroom hbase =>
        have hc := ((hcache ▸ isFrameOf_cached hframes).carries hblocks).isFrame.1
        refine ⟨rfl, fun c hc' => ?_, fun crc hcrc => ?_⟩
        · rw [List.mem_singleton.mp hc']
          exact tokenLe_of_frame hc
        · rw [← List.mem_singleton.mp hcrc] at hc
          cases hc
    | wait => exact ⟨rfl, by simp, by simp⟩
    | done hblocks =>
        refine ⟨rfl, by simp [Command.TokenLe], fun crc hcrc => ⟨?_, rfl, ?_⟩⟩
        · exact Nat.le_antisymm (ha.le_next.trans ha.next_le) (hblocks.trans ha.base_le)
        · cases List.mem_singleton.mp hcrc
          rfl
    | failed => exact ⟨rfl, by simp [Command.TokenLe], by simp⟩
  obtain ⟨hid, htoken, hdone⟩ := hrest
  refine
    { told := hs.told
      commandTokens := fun c hc => ?_
      replyTokens := fun r hr => ?_
      stage := hstage
      done := fun crc hcrc => ?_
      accused := haccused
      early := hs.early }
  · rw [Transfer.sent, hid]
    exact (List.mem_append.mp hc).elim (hs.commandTokens c) (htoken c)
  · rw [Transfer.sent, hid]
    exact hs.replyTokens r hr
  · rcases List.mem_append.mp hcrc with hcrc | hcrc
    · exact absurd hcrc (hnot crc)
    · obtain ⟨hblocks, hfinal, rfl⟩ := hdone crc hcrc
      refine ⟨hblocks, fun t' hmem => ?_, Or.inl hfinal⟩
      rcases List.mem_append.mp hmem with hmem | hmem
      · exact ha.noRst t' hmem
      · simp at hmem

/-- A turn of the receiver keeps the invariant. -/
theorem Tracked.turned
    {c : Command} {commands : List Command} {p : Client cfg × List Effect}
    (hs : Tracked job s) (hcommands : s.commands = c :: commands)
    (hnone : Effect.send .rst ∉ p.2)
    (hturn : Turned job.blocks c (s.client.expected, s.client.drops)
      (p.1.expected, p.1.drops) (sends p.2))
    (hearly : ∀ m r exc, p.1 = .receiving m r → r.phase = .raised (.pcutp exc) →
      exc.message ≠ "DONE before all blocks arrived") :
    Tracked job ({ s with commands }.received p) := by
  have hmem : ∀ c' ∈ commands, c' ∈ s.commands :=
    fun c' hc' => hcommands ▸ List.mem_cons_of_mem _ hc'
  have hnone' : Reply.rst ∉ sends p.2 := fun h => hnone (mem_sends.mp h)
  refine
    { told := fun r hr => ?_
      commandTokens := fun c' hc' => hs.commandTokens c' (hmem c' hc')
      replyTokens := fun r hr => ?_
      stage := (hcommands ▸ hs.stage).turned hturn hnone'
      done := fun crc hcrc => ?_
      accused := hs.accused
      early := hearly }
  · rcases List.mem_append.mp hr with hr | hr
    · exact List.mem_append_left _ (hs.told r hr)
    · exact List.mem_append_right _ (mem_sends.mp hr)
  · have hc := hs.commandTokens c (hcommands ▸ List.mem_cons_self)
    exact (List.mem_append.mp hr).elim (hs.replyTokens r) (hturn.tokens hc r)
  · obtain ⟨hblocks, hrst, hphase⟩ := hs.done crc (hmem _ hcrc)
    refine ⟨?_, fun t hmem' => hrst t (hmem _ hmem'), hphase⟩
    show p.1.expected = job.blocks
    rcases hturn.moves hnone' with heq | ⟨t, rfl, _⟩ | ⟨_, hlt, _⟩
    · rw [heq, hblocks]
    · exact absurd (hcommands ▸ List.mem_cons_self) (hrst t)
    · omega

/-- Only a DONE that comes too early makes the receiver say so. -/
theorem Recv.Turn.early_of_raised
    {m : AcceptedMeta cfg} {r r' : Recv} {c : Command} {effects : List Effect} {exc : PcutpError}
    (h : Recv.Turn m job r c r' effects) (hphase : r.phase = .header)
    (hraised : r'.phase = .raised (.pcutp exc))
    (hmessage : exc.message = "DONE before all blocks arrived") :
    c = .done job.crc ∧ r.expected ≠ m.blocks := by
  cases h with
  | early hshort => exact ⟨rfl, hshort⟩
  | raised c exc' hframe hc hother =>
      cases hraised
      exact absurd hmessage hother
  | frame seq c hc hkind =>
      cases hkind with
      | gap hseq =>
          simp only [Recv.onGap] at hraised
          split at hraised
          · split at hraised
            · cases hraised
              exact absurd hmessage (by decide)
            · rw [hphase] at hraised
              cases hraised
          · rw [hphase] at hraised
            cases hraised
      | store hseq =>
          rw [Recv.onBlock, hphase] at hraised
          cases hraised
      | _ =>
          rw [hphase] at hraised
          cases hraised
  | refused => cases hraised
  | verified => cases hraised
  | rst =>
      rw [Recv.restart, hphase] at hraised
      cases hraised
  | _ =>
      rw [hphase] at hraised
      cases hraised

theorem Tracked.received
    {p : Client cfg × List Effect}
    (hs : Tracked job s) (hexpected : p.1.expected = s.client.expected) (hsends : sends p.2 = [])
    (hearly : ∀ m r exc, p.1 = .receiving m r → r.phase = .raised (.pcutp exc) →
      exc.message ≠ "DONE before all blocks arrived") :
    Tracked job (s.received p) where
  told := by
    intro r hr
    rw [Transfer.received, hsends, List.append_nil] at hr
    exact List.mem_append_left _ (hs.told r hr)
  commandTokens := hs.commandTokens
  replyTokens := by
    rw [Transfer.received, hsends, List.append_nil]
    exact hs.replyTokens
  stage := by
    rw [Transfer.received, hsends, List.append_nil, hexpected]
    exact hs.stage
  done := by
    rw [Transfer.received, hexpected]
    exact hs.done
  accused := hs.accused
  early := hearly

/-- Every move over such a line keeps the invariant. -/
theorem Tracked.move
    (hflow : job.session.flow = true) (hpair : Paired job.session cfg)
    (hg : Genuine job s) (hs : Tracked job s) {e : Event} (he : Faults.fifo.permit e = true)
    (h : Move job s e s') (hnone : Effect.send .rst ∉ s'.trace) :
    Tracked job s' := by
  cases h with
  | fill p hphase hkind => exact hs.fill hg hphase hkind
  | timeout p hkind => exact hs.read (r := none) rfl hnone hkind
  | reply late r replies p hreplies hkind => exact hs.read (r := some r) hreplies hnone hkind
  | command m r c commands p hclient hcommands hphase hread hturn =>
      have hm := (hg.receiving m r hclient).1
      have hturn' := turned_of_turn (hpair.flow.trans hflow) hturn
      refine hs.turned hcommands (fun hmem => hnone (List.mem_append_right _ hmem)) ?_ ?_
      · rw [hclient]
        exact hturn'
      · intro m' r' exc heq hraised hmessage
        cases heq
        obtain ⟨rfl, hshort⟩ := hturn.early_of_raised hphase hraised hmessage
        have hblocks := (hs.done _ (hcommands ▸ List.mem_cons_self)).1
        rw [hclient] at hblocks
        exact hshort (hblocks.trans hm.blocks.symm)
  | accept m commands hclient hcommands hm =>
      refine hs.turned hcommands (by simp [Recv.startEffects]) ?_ ?_
      · rw [hclient]
        exact .answer _ _ _ _ (by simp [Job.announcement]) (Or.inl rfl)
      · intro m' r' exc heq hraised
        cases heq
        cases hraised
  | refuse c commands exc effects hclient hcommands heffects =>
      refine hs.turned hcommands ?_ ?_ ?_
      · rcases heffects with rfl | ⟨_, code, _, rfl⟩ <;> simp
      · rw [hclient]
        rcases heffects with rfl | ⟨rfl, code, _, rfl⟩
        · exact .silent _ _ _
        · exact .answer _ _ _ _ (by simp [Job.announcement]) (Or.inr ⟨code, Or.inr (Or.inr rfl)⟩)
      · intro m' r' exc' heq
        cases heq
  | commit m r hclient hphase =>
      refine hs.received (by rw [hclient]; rfl) rfl ?_
      intro m' r' exc heq hraised
      cases heq
      cases hraised
  | giveUp m r exc hclient hphase hstep hmessage =>
      refine hs.received (by rw [hclient]; rfl) rfl ?_
      intro m' r' exc' heq hraised
      cases heq
      cases hraised
      exact hmessage
  | giveUpMeta exc hclient =>
      refine hs.received (by rw [hclient]; rfl) rfl ?_
      intro m' r' exc' heq
      cases heq
  | loseCommand i => exact hs.weathered (.loseCommand i)
  | loseReply i => exact hs.weathered (.loseReply i)
  | copyCommand i hi => exact hs.weathered (.copyCommand hi)
  | copyReply i hi => exact hs.weathered (.copyReply hi)
  | swapCommands i => cases he
  | swapReplies i => cases he
  | damage i bytes c hc hframe => exact hs.weathered (.damage bytes hc hframe)

/-- The invariant holds when META has been written. -/
theorem tracked_start (barrier_id : Nat) (reset_token : Option Line) :
    Tracked job (Transfer.start cfg job barrier_id reset_token) where
  told := fun r hr => absurd hr List.not_mem_nil
  commandTokens := by simp [Transfer.start, Job.announcement, Command.TokenLe]
  replyTokens := fun r hr => absurd hr List.not_mem_nil
  stage := by
    exact
      { base_le := Nat.le_refl _
        le_next := Nat.le_refl _
        next_le := Nat.zero_le _
        frames := by simp [Transfer.start, Job.announcement, Command.seq?]
        noRst := by simp [Transfer.start, Job.announcement]
        noRstAck := by simp [Transfer.start]
        acks := by simp [Transfer.start] }
  done := by simp [Transfer.start, Job.announcement]
  accused := by simp [Transfer.start, Sender.start]
  early := by
    intro m r exc heq
    cases heq

/-- The effects of a run are never taken back. -/
theorem trace_starts
    {e : Event} (h : Move job s e s') :
    s.trace <+: s'.trace := by
  cases h <;> first | exact List.prefix_refl _ | exact List.prefix_append _ _

/-- A run that has not restarted keeps the invariant. -/
theorem tracked_leads
    {faults : Faults} (hflow : job.session.flow = true) (hpair : Paired job.session cfg)
    (hfaults : ∀ e, faults.permit e = true → Faults.fifo.permit e = true)
    (hleads : Transfer.Leads faults job s s') (hg : Genuine job s) (hs : Tracked job s)
    (hnone : Effect.send .rst ∉ s'.trace) :
    Genuine job s' ∧ Tracked job s' := by
  have hinv : Genuine job s' ∧ (Effect.send .rst ∉ s'.trace → Tracked job s') := by
    refine Transition.Steps.invariant
      (fun s => Genuine job s ∧ (Effect.send .rst ∉ s.trace → Tracked job s)) ?_ hleads
      ⟨hg, fun _ => hs⟩
    rintro s e s' ⟨hg, hs⟩ he hstep
    have hmove := step_move hpair hflow hg hstep
    refine ⟨hg.move hmove, fun hnone => ?_⟩
    exact (hs fun hmem => hnone ((trace_starts hmove).subset hmem)).move hflow hpair hg
      (hfaults e he) hmove hnone
  exact ⟨hinv.1, hinv.2 hnone⟩

end Invariant

section Result

variable {cfg : ClientConfig} {job : Job} {s s' : Transfer cfg}

/-- The sender is in a reset that it has asked for, up to the end of the barrier after it. -/
def Sender.InReset (s : Sender) : Prop :=
  (∃ left, s.phase = .rst left) ∨ ∃ left, s.phase = .barrier true left

/-- `send_file` is over. -/
def Sender.Over (s : Sender) : Prop :=
  (∃ result, s.phase = .returned result) ∨ ∃ exc, s.phase = .raised exc

/-- The next read makes `_recover_window` return `n`. -/
def Transfer.Recovers (s : Transfer cfg) (reset : Bool) (n : Nat) : Prop :=
  (∃ left, s.sender.phase = .barrier reset left) ∧
    s.replies.head? = some (.resume (dec s.sender.barrier_id) n)

/-- `_send_window` goes on after a barrier only with what `_recover_window` returned. -/
theorem Transfer.Recovers.of_fill
    {e : Event} {reset : Bool} {left : Nat} (hphase : s.sender.phase = .barrier reset left)
    (h : Move job s e s') (hphase' : s'.sender.phase = .fill) :
    s.Recovers reset s'.sender.base ∧ s'.sender.next_seq = s'.sender.base := by
  cases h with
  | fill p hfill => rw [hphase] at hfill; cases hfill
  | timeout p hkind =>
      obtain ⟨t, out⟩ := p
      have hraise : t.phase = .fill := hphase'
      cases hkind with
      | failed r s' exc out hbusy hraised =>
          rw [hraised] at hraise
          cases hraise
      | _ => simp_all
  | reply late r replies p hreplies hkind =>
      obtain ⟨t, out⟩ := p
      have hraise : t.phase = .fill := hphase'
      cases hkind with
      | failed r s' exc out hbusy hraised =>
          rw [hraised] at hraise
          cases hraise
      | resumed left n hphase₁ =>
          rw [hphase₁] at hphase
          cases hphase
          exact ⟨⟨⟨_, hphase₁⟩, by rw [hreplies]; rfl⟩, rfl⟩
      | resumedReset left hphase₁ =>
          rw [hphase₁] at hphase
          cases hphase
          exact ⟨⟨⟨_, hphase₁⟩, by rw [hreplies]; rfl⟩, rfl⟩
      | wait r phase hwait =>
          have hto : phase = .fill := hraise
          rw [hto, hphase] at hwait
          cases hwait
      | _ => simp_all [Sender.Listening]
  | _ =>
      have hsame : s.sender.phase = .fill := hphase'
      rw [hphase] at hsame
      cases hsame

/-- Recovery is exact. -/
theorem recovery_exact
    (job : Job) (cfg : ClientConfig) (hflow : job.session.flow = true)
    (hpair : Paired job.session cfg)
    (barrier_id : Nat) (reset_token : Option Line) (s : Transfer cfg)
    (hleads : Transfer.Leads .fifo job (Transfer.start cfg job barrier_id reset_token) s)
    (hnone : Effect.send .rst ∉ s.trace) :
    (¬ s.sender.InReset → ¬ s.sender.Over →
      s.sender.base ≤ s.client.expected ∧ s.client.expected ≤ s.sender.next_seq) ∧
    (∀ reset n, s.Recovers reset n →
      n = s.client.expected ∧ (∀ c ∈ s.commands, c.isFrame = false) ∧ (reset = true → n = 0)) ∧
    (∀ e s' reset left, s.step job e = some s' → s.sender.phase = .barrier reset left →
      s'.sender.phase = .fill →
        s.Recovers reset s'.sender.base ∧ s'.sender.next_seq = s'.sender.base) ∧
    (∀ exc, s.sender.phase = .raised exc →
      exc.message ∉
        ["ACK for unsent block", "invalid recovery sequence",
          "receiver did not reset to sequence zero"]) ∧
    (∀ m r exc, s.client = .receiving m r → r.phase = .raised (.pcutp exc) →
      exc.message ≠ "DONE before all blocks arrived") := by
  obtain ⟨hg, hs⟩ := tracked_leads hflow hpair (fun _ he => he) hleads
    (genuine_start barrier_id reset_token) (tracked_start barrier_id reset_token) hnone
  refine ⟨fun hreset hover => ?_, ?_, fun e s' reset left hstep hphase => ?_, hs.accused, hs.early⟩
  · have ha : Aligned s.sender job.blocks s.client.expected s.commands s.replies := by
      apply hs.stage.aligned
      cases hphase : s.sender.phase with
      | rst left => exact absurd (Or.inl ⟨left, hphase⟩) hreset
      | barrier reset left =>
          cases reset with
          | true => exact absurd (Or.inr ⟨left, hphase⟩) hreset
          | false => simp
      | block attempt timeouts => exact absurd hphase (hg.block attempt timeouts)
      | returned result => exact absurd (Or.inl ⟨result, hphase⟩) hover
      | raised exc => exact absurd (Or.inr ⟨exc, hphase⟩) hover
      | _ => simp [Sender.Listening, hphase]
    exact ⟨ha.base_le, ha.le_next⟩
  · rintro reset n ⟨⟨left, hphase⟩, hhead⟩
    obtain ⟨replies, hreplies⟩ := List.head?_eq_some_iff.mp hhead
    have hstage := hreplies ▸ hs.stage
    have hdrained : ∀ {id}, (∀ c ∈ s.commands, c = .barrier id) →
        ∀ c ∈ s.commands, c.isFrame = false := by
      intro id hcommands c hc
      rw [hcommands c hc]
      rfl
    cases reset with
    | true =>
        have hr := hstage.of_barrier_true hphase
        obtain ⟨rfl, hcommands, _⟩ := hr.answered
        exact ⟨hr.zero.symm, hdrained hcommands, fun _ => rfl⟩
    | false =>
        obtain ⟨hn, hcommands, _⟩ := (hstage.of_barrier_false hphase).2.answered
        exact ⟨hn, hdrained hcommands, fun heq => by cases heq⟩
  · exact Transfer.Recovers.of_fill hphase (step_move hpair hflow hg hstep)

/-- The only frame of a file is lost, and the barrier after it arrives twice. -/
theorem recovery_exact_lost_frame :
    ∃ s : Transfer smallClient,
      s.Recovers false 0 ∧ s.client.expected = 0 ∧ ∀ c ∈ s.commands, c.isFrame = false := by
  let events : List Event :=
    [.command, .reply false, .run, .run, .loseCommand 0, .timeout, .timeout, .command,
      .reply false, .copyCommand 0, .command]
  have hrun : ((Transfer.start smallClient (smallJob [65]) 0 none).exec .fifo (smallJob [65])
      events).any (fun s => decide (s.sender.phase = .barrier false 5 ∧
        s.replies.head? = some (.resume (dec s.sender.barrier_id) 0) ∧
        Effect.send .rst ∉ s.trace)) = true := by
    decide +kernel
  rw [Option.any_eq_true] at hrun
  obtain ⟨s, hexec, hat⟩ := hrun
  obtain ⟨hphase, hhead, hnone⟩ := of_decide_eq_true hat
  have hrecovers : s.Recovers false 0 := ⟨⟨5, hphase⟩, hhead⟩
  obtain ⟨hn, hdrained, _⟩ := (recovery_exact (smallJob [65]) smallClient rfl small_paired 0 none s
    (.of_exec hexec) hnone).2.1 false 0 hrecovers
  exact ⟨s, hrecovers, hn.symm, hdrained⟩

end Result

end Pcutp
