import Pcutp.Adrift
import Pcutp.Polite

/-!
# A whole transfer, with restarts of the receiver

`Charted` is the invariant of every run over a line that loses and repeats but
keeps the order: the tokens in flight are ones the sender has used, the two ends
are in a known standing, and before DONE no reply is a verdict on the file.
-/

namespace Pcutp

section Invariant

variable {cfg : ClientConfig} {job : Job} {s s' : Transfer cfg}

/-- A reply that is no verdict on the file. -/
def Reply.NoVerdict : Reply → Prop
  | .ok _ => False
  | .failCrc _ => False
  | .bye => False
  | .resume w _ => ∃ t, w = dec t ∧ 0 < t
  | _ => True

/-- The invariant of a transfer over a line that keeps the order, whatever the receiver does. -/
structure Charted (job : Job) (s : Transfer cfg) : Prop where
  commandTokens : ∀ c ∈ s.commands, c.TokenLe s.sender.barrier_id
  replyTokens : ∀ r ∈ s.replies, r.TokenLe s.sender.barrier_id
  standing : Standing s.sender job.blocks s.client.expected s.commands s.replies
  counted : ¬ s.sender.Over → Counters s.sender job.blocks
  done : ∀ crc, Command.done crc ∈ s.commands → s.sender.phase = .final ∨ s.sender.Over
  replies : s.sender.phase ≠ .final → ¬ s.sender.Over → ∀ r ∈ s.replies, r.NoVerdict
  barriers : ∀ t, Command.barrier t ∈ s.commands → 0 < t
  counter : ∀ reset left, s.sender.phase = .barrier reset left → 0 < s.sender.barrier_id

theorem Charted.weathered
    (hs : Charted job s) {commands : List Command} {replies : List Reply}
    (h : Weathered s.commands s.replies commands replies)
    (hsorted : s.commands.Pairwise Command.Before → commands.Pairwise Command.Before) :
    Charted job { s with commands, replies } where
  commandTokens := by
    intro c hc
    rcases h.command c hc with hc | ⟨c₀, hc₀, hframe, bytes, rfl⟩
    · exact hs.commandTokens c hc
    · exact tokenLe_of_frame (withPayload_control hframe bytes).1
  replyTokens := fun r hr => hs.replyTokens r (h.reply r hr)
  standing := hs.standing.weathered h hsorted
  counted := hs.counted
  done := fun crc hmem => hs.done crc (h.control rfl hmem)
  replies := fun hfinal hover r hr => hs.replies hfinal hover r (h.reply r hr)
  barriers := fun t hmem => hs.barriers t (h.control rfl hmem)
  counter := hs.counter

/-- A read of the sender keeps the invariant. -/
theorem Charted.read
    {r : Option Reply} {replies : List Reply} {p : Sender × List Command}
    (hs : Charted job s) (hreplies : s.replies = r.toList ++ replies)
    (hkind : Sender.ReadKind job s.sender r p.1 p.2) :
    Charted job ({ s with replies }.sent p) := by
  have hmem : ∀ r' ∈ replies, r' ∈ s.replies :=
    fun r' hr' => hreplies ▸ List.mem_append_right _ hr'
  have hover : ¬ s.sender.Over := hkind.not_over
  obtain ⟨hid, hout⟩ := hkind.tokens
  obtain ⟨hbarriers, hcounter, _, _⟩ := hkind.barriers hs.counter
  -- DONE is only followed by the end.
  have hended : s.sender.phase = .final → p.1.phase = .final ∨ p.1.Over := fun hphase =>
    (hkind.after_done (Or.inl hphase)).2
  refine
    { commandTokens := fun c hc => (List.mem_append.mp hc).elim
        (fun hc => (hs.commandTokens c hc).mono hid) (hout c)
      replyTokens := fun r' hr' => (hs.replyTokens r' (hmem r' hr')).mono hid
      standing := (hreplies ▸ hs.standing).read (hreplies ▸ hs.replyTokens) hs.commandTokens hkind
      counted := (hs.counted hover).read hkind
      done := fun crc hcrc => ?_
      replies := fun hfinal hover' r' hr' => ?_
      barriers := fun t ht => (List.mem_append.mp ht).elim (hs.barriers t) (hbarriers t)
      counter := hcounter }
  · rcases List.mem_append.mp hcrc with hcrc | hcrc
    · exact hended ((hs.done crc hcrc).resolve_right hover)
    · exact absurd hcrc (hkind.no_done crc)
  · refine hs.replies (fun hphase => ?_) hover r' (hmem r' hr')
    exact (hended hphase).elim hfinal hover'

/-- What the sender does without reading keeps the invariant. -/
theorem Charted.fill
    {p : Sender × List Command} (hg : Genuine job s) (hs : Charted job s)
    (hphase : s.sender.phase = .fill) (hkind : Sender.FillKind job s.sender p.1 p.2) :
    Charted job (s.sent p) := by
  have hframes := hg.frames (by rw [hphase]; simp)
  have hover : ¬ s.sender.Over := by simp [Sender.Over, hphase]
  have hfinal : s.sender.phase ≠ .final := by simp [hphase]
  have hstanding := hs.standing.fill hphase hframes hkind
  have hcounted := (hs.counted hover).fill hphase hkind
  obtain ⟨t, out⟩ := p
  -- What is left to show: the tokens of the new command, and DONE when it is one.
  have hrest : t.barrier_id = s.sender.barrier_id ∧
      (∀ c ∈ out, c.TokenLe s.sender.barrier_id ∧ ∀ n, c ≠ .barrier n) ∧
      (∀ crc, Command.done crc ∈ out → t.phase = .final) ∧
      ∀ reset left, t.phase ≠ .barrier reset left := by
    cases hkind with
    | frame frame hcache hblocks hroom hbase =>
        have hc := ((hcache ▸ isFrameOf_cached hframes).carries hblocks).isFrame.1
        refine ⟨rfl, fun c hc' => ?_, fun crc hcrc => ?_, by simp [hphase]⟩
        · rw [List.mem_singleton.mp hc']
          refine ⟨tokenLe_of_frame hc, ?_⟩
          rintro n heq
          rw [heq] at hc
          cases hc
        · rw [← List.mem_singleton.mp hcrc] at hc
          cases hc
    | wait => simp
    | done hblocks => simp [Command.TokenLe]
    | failed => simp [Command.TokenLe]
  obtain ⟨hid, hout, hdone, hbarrier⟩ := hrest
  have hnot : ∀ crc, Command.done crc ∉ s.commands :=
    fun crc hmem => (hs.done crc hmem).elim hfinal hover
  refine
    { commandTokens := fun c hc => ?_
      replyTokens := fun r hr => ?_
      standing := hstanding
      counted := hcounted
      done := fun crc hcrc => ?_
      replies := fun _ _ => hs.replies hfinal hover
      barriers := fun n hmem => (List.mem_append.mp hmem).elim (hs.barriers n)
        fun hmem => absurd rfl ((hout _ hmem).2 n)
      counter := fun reset left h => absurd h (hbarrier reset left) }
  · show c.TokenLe t.barrier_id
    rw [hid]
    exact (List.mem_append.mp hc).elim (hs.commandTokens c) fun hc => (hout c hc).1
  · show r.TokenLe t.barrier_id
    rw [hid]
    exact hs.replyTokens r hr
  · rcases List.mem_append.mp hcrc with hcrc | hcrc
    · exact absurd hcrc (hnot crc)
    · exact Or.inl (hdone crc hcrc)

/-- Before DONE, a receiver gives no verdict on the file. -/
theorem Recv.Turn.noVerdict
    {m : AcceptedMeta cfg} {r r' : Recv} {c : Command} {effects : List Effect}
    (h : Recv.Turn m job r c r' effects) (hdone : ∀ crc, c ≠ .done crc)
    (hbarrier : ∀ t, c = .barrier t → 0 < t) :
    ∀ reply ∈ sends effects, reply.NoVerdict := by
  have hone : ∀ {reply : Reply}, reply.NoVerdict → ∀ reply' ∈ [reply], reply'.NoVerdict := by
    intro reply hreply reply' hmem
    rwa [List.mem_singleton.mp hmem]
  cases h with
  | ayt t => exact hone trivial
  | rst t => exact hone trivial
  | barrier t => exact hone ⟨t, rfl, hbarrier t rfl⟩
  | early | refused | verified => exact absurd rfl (hdone _)
  | raised => exact fun _ hmem => absurd hmem List.not_mem_nil
  | frame seq c hc hkind =>
      cases hkind with
      | nak why => exact hone trivial
      | old => exact hone trivial
      | gap hseq =>
          simp only [Recv.onGap]
          split
          · split <;> exact hone trivial
          · exact hone trivial
      | store hseq =>
          simp only [Recv.onBlock]
          split <;> exact hone trivial

/-- A turn of the receiver keeps the invariant. -/
theorem Charted.turned
    {c : Command} {commands : List Command} {p : Client cfg × List Effect}
    (hs : Charted job s) (hcommands : s.commands = c :: commands)
    (hturn : Turned job.blocks c (s.client.expected, s.client.drops)
      (p.1.expected, p.1.drops) (sends p.2))
    (hverdict : s.sender.phase ≠ .final → ¬ s.sender.Over → ∀ r ∈ sends p.2, r.NoVerdict) :
    Charted job ({ s with commands }.received p) := by
  have hmem : ∀ c' ∈ commands, c' ∈ s.commands :=
    fun c' hc' => hcommands ▸ List.mem_cons_of_mem _ hc'
  refine
    { commandTokens := fun c' hc' => hs.commandTokens c' (hmem c' hc')
      replyTokens := fun r hr => ?_
      standing := (hcommands ▸ hs.standing).turned hs.counted hturn
      counted := hs.counted
      done := fun crc hcrc => hs.done crc (hmem _ hcrc)
      replies := fun hfinal hover r hr => (List.mem_append.mp hr).elim
        (hs.replies hfinal hover r) (hverdict hfinal hover r)
      barriers := fun t ht => hs.barriers t (hmem _ ht)
      counter := hs.counter }
  have hc := hs.commandTokens c (hcommands ▸ List.mem_cons_self)
  exact (List.mem_append.mp hr).elim (hs.replyTokens r) (hturn.tokens hc r)

theorem Charted.received
    {p : Client cfg × List Effect}
    (hs : Charted job s) (hexpected : p.1.expected = s.client.expected)
    (hsends : sends p.2 = []) :
    Charted job (s.received p) := by
  have heq : (s.received p).replies = s.replies := by
    rw [Transfer.received, hsends, List.append_nil]
  refine { hs with replyTokens := ?_, standing := ?_, replies := ?_ }
  · rw [heq]
    exact hs.replyTokens
  · rw [heq]
    show Standing s.sender job.blocks p.1.expected s.commands s.replies
    rw [hexpected]
    exact hs.standing
  · rw [heq]
    exact hs.replies

/-- Every move over a line that loses and repeats keeps the invariant. -/
theorem Charted.move
    (hflow : job.session.flow = true) (hpair : Paired job.session cfg)
    (hg : Genuine job s) (hs : Charted job s) {e : Event} (he : Faults.copying.permit e = true)
    (h : Move job s e s') :
    Charted job s' := by
  cases h with
  | fill p hphase hkind => exact hs.fill hg hphase hkind
  | timeout p hkind => exact hs.read (r := none) rfl hkind
  | reply late r replies p hreplies hkind => exact hs.read (r := some r) hreplies hkind
  | command m r c commands p hclient hcommands hphase hread hturn =>
      have hmem : c ∈ s.commands := hcommands ▸ List.mem_cons_self
      have hturn' := turned_of_turn (hpair.flow.trans hflow) hturn
      refine hs.turned hcommands ?_ fun hfinal hover => hturn.noVerdict ?_ ?_
      · rw [hclient]
        exact hturn'
      · rintro crc rfl
        exact (hs.done crc hmem).elim hfinal hover
      · rintro t rfl
        exact hs.barriers t hmem
  | accept m commands hclient hcommands hm =>
      refine hs.turned hcommands ?_ fun _ _ => ?_
      · rw [hclient]
        exact .answer _ _ _ _ (by simp [Job.announcement]) (Or.inl rfl)
      · intro r hr
        rw [List.mem_singleton.mp hr]
        trivial
  | refuse c commands exc effects hclient hcommands heffects =>
      refine hs.turned hcommands ?_ fun _ _ => ?_
      · rw [hclient]
        rcases heffects with rfl | ⟨rfl, code, _, rfl⟩
        · exact .silent _ _ _
        · exact .answer _ _ _ _ (by simp [Job.announcement]) (Or.inr ⟨code, Or.inr (Or.inr rfl)⟩)
      · rcases heffects with rfl | ⟨_, code, _, rfl⟩ <;> simp [Reply.NoVerdict]
  | commit m r hclient hphase => exact hs.received (by rw [hclient]; rfl) rfl
  | giveUp m r exc hclient hphase hstep hmessage => exact hs.received (by rw [hclient]; rfl) rfl
  | giveUpMeta exc hclient => exact hs.received (by rw [hclient]; rfl) rfl
  | loseCommand i =>
      exact hs.weathered (.loseCommand i) fun h => h.sublist (List.eraseIdx_sublist _ _)
  | loseReply i => exact hs.weathered (.loseReply i) id
  | copyCommand i hi =>
      exact hs.weathered (.copyCommand hi) (Channel.pairwise_copyAt Command.before_refl hi)
  | copyReply i hi => exact hs.weathered (.copyReply hi) id
  | swapCommands | swapReplies | damage => cases he

/-- The invariant holds when META has been written. -/
theorem charted_start (barrier_id : Nat) (reset_token : Option Line) :
    Charted job (Transfer.start cfg job barrier_id reset_token) where
  commandTokens := by simp [Transfer.start, Job.announcement, Command.TokenLe]
  replyTokens := fun r hr => absurd hr List.not_mem_nil
  standing := Or.inl
    { stage := (tracked_start barrier_id reset_token).stage
      sorted := fun _ => List.pairwise_singleton _ _
      noRestart := fun _ => List.not_mem_nil }
  counted := fun _ =>
    { base_le := Nat.le_refl _
      next_le := Nat.zero_le _
      narrow := fun _ => ⟨rfl, Nat.zero_le 1⟩
      ready := fun _ => rfl
      final := fun h => by cases h }
  done := by simp [Transfer.start, Job.announcement]
  replies := fun _ _ r hr => absurd hr List.not_mem_nil
  barriers := by simp [Transfer.start, Job.announcement]
  counter := by simp [Transfer.start, Sender.start]

end Invariant

end Pcutp
