import Pcutp.Credit

/-!
# What the sender can still read

Over a line that only loses and delays, META and its answer are alone on the
line, and from then to DONE every reply is one the receiver sends during a
window: nothing refuses, aborts or confirms the file.
-/

namespace Pcutp

/-- A line that loses and delays. -/
def Faults.lossy : Faults where
  loss := true
  duplication := false
  reordering := false
  damage := false
  timeouts := true

theorem Faults.lossy_once
    (e : Event) (he : Faults.lossy.permit e = true) :
    Faults.once.permit e = true := by
  cases e <;> first | rfl | cases he | simp [Faults.permit, Faults.once]

/-- The replies a receiver sends before DONE. -/
def Reply.Windowed : Reply → Prop
  | .ack _ => True
  | .nak _ _ => True
  | .drop _ _ => True
  | .here _ _ => True
  | .rstAck _ => True
  | .resume w _ => ∃ t, w = dec t ∧ 0 < t
  | _ => False

section Receiver

variable {cfg : ClientConfig} {job : Job}

/-- Before DONE, a receiver with room for another gap answers a window. -/
theorem Recv.Turn.windowed
    {m : AcceptedMeta cfg} {r r' : Recv} {c : Command} {effects : List Effect}
    (h : Recv.Turn m job r c r' effects) (hdrops : r.drops ≤ 1) (hdone : ∀ crc, c ≠ .done crc)
    (hbarrier : ∀ t, c = .barrier t → 0 < t) :
    ∀ reply ∈ sends effects, reply.Windowed := by
  have hone : ∀ {reply : Reply}, reply.Windowed → ∀ reply' ∈ [reply], reply'.Windowed := by
    intro reply hreply reply' hmem
    rwa [List.mem_singleton.mp hmem]
  cases h with
  | ayt t => exact hone trivial
  | rst t => exact hone trivial
  | barrier t => exact hone ⟨t, rfl, hbarrier t rfl⟩
  | early | refused | verified => exact absurd rfl (hdone _)
  | raised => exact fun _ hmem => absurd hmem List.not_mem_nil
  | frame seq c hc hkind =>
      cases hkind with
      | nak why => exact hone trivial
      | old => exact hone trivial
      | gap hseq =>
          have hroom : ¬ r.drops + 1 ≥ Const.MAX_DROPS := by
            simp only [Const.MAX_DROPS]
            omega
          simp only [Recv.onGap]
          rw [if_neg hroom]
          exact hone trivial
      | store hseq =>
          simp only [Recv.onBlock]
          split <;> exact hone trivial

end Receiver

section Invariant

variable {cfg : ClientConfig} {job : Job} {s s' : Transfer cfg}

/-- What the sender can still read. -/
structure Polite (job : Job) (s : Transfer cfg) : Prop where
  opening : s.sender.phase = .ready → s.commands = [job.announcement] ∧ s.replies = [] ∨
    s.commands = [] ∧ s.replies.length ≤ 1
  replies : s.sender.phase ≠ .ready → s.sender.phase ≠ .final → ¬ s.sender.Over →
    ∀ r ∈ s.replies, r.Windowed
  opened : s.sender.phase ≠ .ready → ¬ s.sender.Over → job.announcement ∉ s.commands
  greeted : s.sender.phase ≠ .ready → ¬ s.sender.Over → ∀ fetching, s.client ≠ .awaiting fetching
  barriers : ∀ t, Command.barrier t ∈ s.commands → 0 < t
  counter : ∀ reset left, s.sender.phase = .barrier reset left → 0 < s.sender.barrier_id

/-- Barriers carry positive tokens, and no read writes META. -/
theorem Sender.ReadKind.barriers
    {t t' : Sender} {r : Option Reply} {out : List Command}
    (h : Sender.ReadKind job t r t' out)
    (hcounter : ∀ reset left, t.phase = .barrier reset left → 0 < t.barrier_id) :
    (∀ n, Command.barrier n ∈ out → 0 < n) ∧
      (∀ reset left, t'.phase = .barrier reset left → 0 < t'.barrier_id) ∧
      t'.phase ≠ .ready ∧ job.announcement ∉ out := by
  refine ⟨?_, ?_, ?_, fun hmem => h.control _ hmem⟩
  · intro n hmem
    cases h with
    | askBarrier r reset left hphase =>
        cases List.mem_singleton.mp hmem
        exact hcounter _ _ hphase
    | failed r s' exc out hphase hphase' hmessage hcode hid hout =>
        rcases hout with rfl | rfl <;> simp at hmem
    | gap | restarted | resetDone =>
        cases List.mem_singleton.mp hmem
        exact Nat.succ_pos _
    | _ => simp [Sender.fail] at hmem
  · intro reset left hphase'
    cases h with
    | askBarrier r reset left hphase => exact hcounter _ _ hphase
    | failed r s' exc out hphase hraised =>
        rw [hraised] at hphase'
        cases hphase'
    | wait r phase hwait =>
        have hto : phase = .barrier reset left := hphase'
        rw [hto] at hwait
        generalize hp : t.phase = p at hwait
        cases hwait
        exact hcounter _ _ hp
    | gap | restarted | resetDone => exact Nat.succ_pos _
    | ended r phase hphase hend =>
        have hto : phase = .barrier reset left := hphase'
        subst hto
        rcases hend with ⟨_, heq, _⟩ | ⟨_, heq⟩ <;> cases heq
    | _ => cases hphase'
  · intro hready
    cases h with
    | failed r s' exc out hphase hraised =>
        rw [hraised] at hready
        cases hready
    | wait r phase hwait =>
        have hto : phase = .ready := hready
        rw [hto] at hwait
        generalize hp : t.phase = p at hwait
        cases hwait
    | ended r phase hphase hend =>
        have hto : phase = .ready := hready
        subst hto
        rcases hend with ⟨_, heq, _⟩ | ⟨_, heq⟩ <;> cases heq
    | _ => cases hready

/-- While the window is open a receiver has counted at most one gap. -/
theorem CreditInv.drops_le
    {t : Sender} {window e d : Nat} {commands : List Command} {replies : List Reply}
    (hs : CreditInv t window e d commands replies) (hover : ¬ t.Over)
    (hblock : ∀ attempt timeouts, t.phase ≠ .block attempt timeouts) :
    d ≤ 1 := by
  have hone : Credited t window e d (frameSeqs commands) → d ≤ 1 := by
    intro hc
    rcases hc.gap with hd | ⟨hd, _⟩ <;> omega
  cases hphase : t.phase with
  | rst left =>
      rcases (hs.of_rst hphase).1 with ⟨hc, _⟩ | ⟨hd, _⟩
      · exact hone hc
      · omega
  | barrier reset left =>
      cases reset with
      | true => exact (hs.of_barrier_true hphase).1.le.trans (Nat.zero_le _)
      | false => exact hone (hs.of_barrier_false hphase).1
  | block attempt timeouts => exact absurd hphase (hblock _ _)
  | returned result => exact absurd (Or.inl ⟨_, hphase⟩) hover
  | raised exc => exact absurd (Or.inr ⟨_, hphase⟩) hover
  | _ => exact hone (hs.credited (by simp [hphase, Sender.Listening]))

theorem Polite.of_over
    (hover : s.sender.Over) (hbarriers : ∀ t, Command.barrier t ∈ s.commands → 0 < t) :
    Polite job s where
  opening := by
    intro h
    rcases hover with ⟨_, hphase⟩ | ⟨_, hphase⟩ <;> rw [hphase] at h <;> cases h
  replies := fun _ _ hnot => absurd hover hnot
  opened := fun _ hnot => absurd hover hnot
  greeted := fun _ hnot => absurd hover hnot
  barriers := hbarriers
  counter := by
    intro reset left h
    rcases hover with ⟨_, hphase⟩ | ⟨_, hphase⟩ <;> rw [hphase] at h <;> cases h

/-- A read of the sender. -/
theorem Polite.read
    {r : Option Reply} {replies : List Reply} {p : Sender × List Command}
    (hg : Genuine job s) (ht : Tracked job s) (hs : Polite job s)
    (hreplies : s.replies = r.toList ++ replies)
    (hkind : Sender.ReadKind job s.sender r p.1 p.2) :
    Polite job ({ s with replies }.sent p) := by
  obtain ⟨hbarriers, hcounter, hready, hmeta⟩ := hkind.barriers hs.counter
  have hbarriers' : ∀ t, Command.barrier t ∈ s.commands ++ p.2 → 0 < t := fun t hmem =>
    (List.mem_append.mp hmem).elim (hs.barriers t) (hbarriers t)
  by_cases hphase : s.sender.phase = .ready
  · have hbegin : p.1.Over ∨ p.1.phase = .fill ∧ r = some .ready ∧ p.2 = [] := by
      obtain ⟨t, out⟩ := p
      cases hkind with
      | begin => exact Or.inr ⟨rfl, rfl, rfl⟩
      | refused => exact Or.inl (Or.inl ⟨_, rfl⟩)
      | failed r s' exc out hbusy hraised => exact Or.inl (Or.inr ⟨exc, hraised⟩)
      | wait r phase hwait =>
          rw [hphase] at hwait
          cases hwait
      | _ => simp_all [Sender.Listening]
    rcases hbegin with hover | ⟨hfill, rfl, hout⟩
    · exact .of_over hover hbarriers'
    · rcases hs.opening hphase with ⟨_, hnil⟩ | ⟨hnil, hlen⟩
      · rw [hreplies] at hnil
        cases hnil
      · have hrest : replies = [] := by
          rw [hreplies] at hlen
          cases replies with
          | nil => rfl
          | cons r' replies => simp at hlen
        refine
          { opening := fun h => absurd h hready
            replies := by simp [Transfer.sent, hrest]
            opened := by simp [Transfer.sent, hnil, hout]
            greeted := fun _ _ fetching hclient => ?_
            barriers := hbarriers'
            counter := hcounter }
        -- A receiver that has answered META does not wait for it.
        have htold := ht.told .ready (hreplies ▸ List.mem_cons_self)
        rw [(hg.awaiting fetching hclient).2] at htold
        cases htold
  · have hover : ¬ s.sender.Over := hkind.not_over
    refine
      { opening := fun h => absurd h hready
        replies := fun _ hfinal hnot r' hr' => ?_
        opened := fun _ hnot hmem => ?_
        greeted := fun _ _ => hs.greeted hphase hover
        barriers := hbarriers'
        counter := hcounter }
    · refine hs.replies hphase ?_ hover r' (hreplies ▸ List.mem_append_right _ hr')
      intro hphase'
      rcases (hkind.after_done (Or.inl hphase')).2 with h | ⟨_, h⟩ | ⟨_, h⟩
      · exact hfinal h
      · exact hnot (Or.inl ⟨_, h⟩)
      · exact hnot (Or.inr ⟨_, h⟩)
    · exact (List.mem_append.mp hmem).elim (hs.opened hphase hover) hmeta

/-- A turn of the receiver. -/
theorem Polite.received
    {commands : List Command} {p : Client cfg × List Effect}
    (hs : Polite job s) (hcommands : commands.Sublist s.commands)
    (hfirst : commands = s.commands ∧ sends p.2 = [] ∨
      ∃ c, s.commands = c :: commands ∧ (sends p.2).length ≤ 1)
    (hgreeted : (∀ fetching, s.client ≠ .awaiting fetching) →
      ∀ fetching, p.1 ≠ .awaiting fetching)
    (hwindowed : s.sender.phase ≠ .ready → s.sender.phase ≠ .final → ¬ s.sender.Over →
      ∀ r ∈ sends p.2, r.Windowed) :
    Polite job ({ s with commands }.received p) where
  opening := by
    intro hphase
    rcases hfirst with ⟨rfl, hnil⟩ | ⟨c, hcons, hlen⟩
    · simpa [Transfer.received, hnil] using hs.opening hphase
    · rcases hs.opening hphase with ⟨hone, hnil⟩ | ⟨hnone, _⟩
      · rw [hone] at hcons
        cases hcons
        exact Or.inr ⟨rfl, by simpa [Transfer.received, hnil] using hlen⟩
      · rw [hnone] at hcons
        cases hcons
  replies := by
    intro hready hfinal hover r hr
    rcases List.mem_append.mp hr with hr | hr
    · exact hs.replies hready hfinal hover r hr
    · exact hwindowed hready hfinal hover r hr
  opened := fun hready hover hmem => hs.opened hready hover (hcommands.subset hmem)
  greeted := fun hready hover => hgreeted (hs.greeted hready hover)
  barriers := fun t hmem => hs.barriers t (hcommands.subset hmem)
  counter := hs.counter

/-- The line has lost something. -/
theorem Polite.lose
    {commands : List Command} {replies : List Reply}
    (hs : Polite job s) (hcommands : commands.Sublist s.commands)
    (hreplies : replies.Sublist s.replies) :
    Polite job { s with commands, replies } where
  opening := by
    intro hphase
    rcases hs.opening hphase with ⟨hone, hnil⟩ | ⟨hnone, hlen⟩
    · rw [hone] at hcommands
      rw [hnil] at hreplies
      have hnil' : replies = [] := List.sublist_nil.mp hreplies
      cases hcommands with
      | cons _ h => exact Or.inr ⟨List.sublist_nil.mp h, by simp [hnil']⟩
      | cons_cons _ h => exact Or.inl ⟨by rw [List.sublist_nil.mp h], hnil'⟩
    · rw [hnone] at hcommands
      exact Or.inr ⟨List.sublist_nil.mp hcommands, hreplies.length_le.trans hlen⟩
  replies := fun hready hfinal hover r hr => hs.replies hready hfinal hover r (hreplies.subset hr)
  opened := fun hready hover hmem => hs.opened hready hover (hcommands.subset hmem)
  greeted := hs.greeted
  barriers := fun t hmem => hs.barriers t (hcommands.subset hmem)
  counter := hs.counter

/-- What the sender does without reading. -/
theorem Polite.fill
    {p : Sender × List Command} (hg : Genuine job s) (hs : Polite job s)
    (hphase : s.sender.phase = .fill) (hkind : Sender.FillKind job s.sender p.1 p.2) :
    Polite job (s.sent p) := by
  have hframes := hg.frames (by rw [hphase]; simp)
  have hready : s.sender.phase ≠ .ready := by rw [hphase]; simp
  have hfinal : s.sender.phase ≠ .final := by rw [hphase]; simp
  have hover : ¬ s.sender.Over := by simp [Sender.Over, hphase]
  obtain ⟨t, out⟩ := p
  have hout : t.phase ≠ .ready ∧ (∀ c ∈ out, c ≠ job.announcement ∧ ∀ n, c ≠ .barrier n) ∧
      ∀ reset left, t.phase ≠ .barrier reset left := by
    cases hkind with
    | frame frame hcache hblocks =>
        have hframe := ((hcache ▸ isFrameOf_cached hframes).carries hblocks).isFrame.1
        refine ⟨by simp [hphase], ?_, by simp [hphase]⟩
        intro c hc
        rw [List.mem_singleton.mp hc]
        constructor
        · intro heq
          rw [heq] at hframe
          cases hframe
        · intro n heq
          rw [heq] at hframe
          cases hframe
    | wait => simp
    | done => simp [Job.announcement]
    | failed => simp [Job.announcement]
  obtain ⟨hready', hcommands, hbarrier⟩ := hout
  refine
    { opening := fun h => absurd h hready'
      replies := fun _ _ _ => hs.replies hready hfinal hover
      opened := fun _ _ hmem => ?_
      greeted := fun _ _ => hs.greeted hready hover
      barriers := fun n hmem => ?_
      counter := fun reset left h => absurd h (hbarrier reset left) }
  · exact (List.mem_append.mp hmem).elim (hs.opened hready hover)
      fun h => (hcommands _ h).1 rfl
  · exact (List.mem_append.mp hmem).elim (hs.barriers n) fun h => absurd rfl ((hcommands _ h).2 n)

/-- Every move over a line that loses and delays keeps what the sender can read. -/
theorem Polite.move
    (hpair : Paired job.session cfg) (hflow : job.session.flow = true)
    (hg : Genuine job s) (hw : Thrifty job s) (hs : Polite job s)
    {e : Event} (he : Faults.lossy.permit e = true) (h : Move job s e s') :
    Polite job s' := by
  cases h with
  | fill p hphase hkind => exact hs.fill hg hphase hkind
  | timeout p hkind =>
      exact hs.read (r := none) hg (hw.live hkind.not_over).2.1 rfl hkind
  | reply late r replies p hreplies hkind =>
      exact hs.read (r := some r) hg (hw.live hkind.not_over).2.1 hreplies hkind
  | command m r c commands p hclient hcommands hphase hread hturn =>
      have hlen := (turned_of_turn (hpair.flow.trans hflow) hturn).length_le
      refine hs.received (p := (.receiving m p.1, p.2)) (hcommands ▸ List.sublist_cons_self _ _)
        (Or.inr ⟨c, hcommands, hlen⟩) (fun _ _ h => by cases h) fun hready hfinal hover => ?_
      obtain ⟨_, ht, hc⟩ := hw.live hover
      have hdrops := hc.drops_le hover hg.block
      rw [hclient] at hdrops
      refine hturn.windowed hdrops ?_ ?_
      · rintro crc rfl
        rcases (ht.done crc (hcommands ▸ List.mem_cons_self)).2.2 with h | h
        · exact hfinal h
        · exact hover h
      · rintro t rfl
        exact hs.barriers t (hcommands ▸ List.mem_cons_self)
  | accept m commands hclient hcommands hm =>
      refine hs.received (p := (.receiving m Recv.start, Recv.startEffects m))
        (hcommands ▸ List.sublist_cons_self _ _)
        (Or.inr ⟨_, hcommands, by simp [Recv.startEffects, sends]⟩) (fun _ _ h => by cases h)
        fun hready _ hover => ?_
      exact absurd hclient (hs.greeted hready hover true)
  | refuse c commands exc effects hclient hcommands heffects =>
      refine hs.received (p := (.stopped exc, effects)) (hcommands ▸ List.sublist_cons_self _ _)
        (Or.inr ⟨c, hcommands, ?_⟩) (fun _ _ h => by cases h) fun hready _ hover => ?_
      · rcases heffects with rfl | ⟨_, code, _, rfl⟩ <;> simp
      · exact absurd hclient (hs.greeted hready hover true)
  | commit m r hclient hphase =>
      exact hs.received (p := (_, [.replace, .unlink])) (List.Sublist.refl _) (Or.inl ⟨rfl, rfl⟩)
        (fun _ _ h => by cases h) (by simp [sends])
  | giveUp m r exc hclient hphase hstep hmessage =>
      exact hs.received (p := (_, [])) (List.Sublist.refl _) (Or.inl ⟨rfl, rfl⟩)
        (fun _ _ h => by cases h) (by simp)
  | giveUpMeta exc hclient =>
      exact hs.received (p := (_, [])) (List.Sublist.refl _) (Or.inl ⟨rfl, rfl⟩)
        (fun _ _ h => by cases h) (by simp)
  | loseCommand i => exact hs.lose (List.eraseIdx_sublist _ _) (List.Sublist.refl _)
  | loseReply i => exact hs.lose (List.Sublist.refl _) (List.eraseIdx_sublist _ _)
  | copyCommand | copyReply | swapCommands | swapReplies | damage => cases he

theorem polite_start (barrier_id : Nat) (reset_token : Option Line) :
    Polite job (Transfer.start cfg job barrier_id reset_token) where
  opening := fun _ => Or.inl ⟨rfl, rfl⟩
  replies := fun h => absurd rfl h
  opened := fun h => absurd rfl h
  greeted := fun h => absurd rfl h
  barriers := by simp [Transfer.start, Job.announcement]
  counter := by simp [Transfer.start, Sender.start]

end Invariant

end Pcutp
