import Pcutp.Lossless

/-!
# The verdict after DONE

Over a line that only delays, the wait for the final reply skips late ACKs and
late answers to barriers.  It does not skip a HERE, so the two ends agree on
the outcome exactly when no probe is open at the moment DONE is written.
-/

namespace Pcutp

section Final

/-- The lines the wait for the final reply skips. -/
def Sender.Skips (job : Job) (s : Sender) : Reply → Prop
  | .ack a => a < job.blocks
  | .resume w _ => isdecimal w = true ∧ 0 < int w ∧ int w ≤ s.barrier_id
  | _ => False

variable {job : Job} {s s' : Sender} {late : Bool} {out : List Command}

/-- The outcomes of a reply after DONE. -/
theorem Sender.final_reply
    {r : Reply} (hr : r.Printable) (hflow : job.session.flow = true) (hphase : s.phase = .final)
    (h : s.step job (.line r.line late) = some (s', out)) :
    out = [] ∧ s'.barrier_id = s.barrier_id ∧
      (s.Skips job r → s'.phase = .final ∨ ∃ exc, s'.phase = .raised exc) ∧
      (¬ s.Skips job r → ∃ result, s'.phase = .returned (some result) ∧
        (result.verified = true ↔ r = .ok job.crc)) := by
  rw [step, if_neg (by rw [Reply.isRmb_line hr]; simp), onLine] at h
  simp only [hphase, Reply.split_line hr, Option.some.injEq] at h
  have hskips : s.Skips job r ↔ job.session.flow = true ∧
      ((r.words.length = 2 ∧ word r.words 0 = "ACK".toList ∧ isdecimal (word r.words 1) = true ∧
          int (word r.words 1) < job.blocks) ∨ s.oldResume r.words = true) := by
    cases r <;> simp [Skips, hflow, oldResume, Reply.words]
  have hverified : r.words.take 2 = ["OK".toList, job.crc] ↔ r = .ok job.crc := by
    cases r <;> simp [Reply.words]
  rw [onFinal] at h
  split at h
  · rename_i hskip
    have hs := hskips.mpr hskip
    split at h <;> cases h
    · exact ⟨rfl, rfl, fun _ => Or.inr ⟨_, rfl⟩, fun hno => absurd hs hno⟩
    · exact ⟨rfl, rfl, fun _ => Or.inl hphase, fun hno => absurd hs hno⟩
  · rename_i hskip
    cases h
    refine ⟨rfl, rfl, fun hs => absurd (hskips.mp hs) hskip, fun _ => ⟨_, rfl, ?_⟩⟩
    rw [Sender.result, decide_eq_true_iff]
    exact hverified

end Final

/-- The command asks a receiver where it stands. -/
def Command.isProbe : Command → Bool
  | .ayt _ => true
  | _ => false

/-- The reply answers a probe. -/
def Reply.isHere : Reply → Bool
  | .here _ _ => true
  | _ => false

/-- When the next step writes DONE, no probe is on the line and no answer to one. -/
def Transfer.quiet {cfg : ClientConfig} (job : Job) (s : Transfer cfg) : Event → Bool
  | .run =>
      decide (s.sender.phase = .fill ∧ job.blocks ≤ s.sender.base →
        (∀ c ∈ s.commands, c.isProbe = false) ∧ ∀ r ∈ s.replies, r.isHere = false)
  | _ => true

section Invariant

variable {cfg : ClientConfig} {job : Job} {s s' : Transfer cfg}

/-- The line after a DONE that no probe accompanies. -/
inductive Ending (job : Job) (s : Transfer cfg) : Prop
  | waiting (before : List Command)
      (hcommands : s.commands = before ++ [.done job.crc])
      (hbefore : ∀ c ∈ before, (∃ t, c = .barrier t ∧ 0 < t ∧ t ≤ s.sender.barrier_id) ∨
        (∃ report, c = .err report) ∨ ∃ bit, c = .rmbAck bit)
      (hskips : ∀ r ∈ s.replies, s.sender.Skips job r)
      (hnone : ∀ w, Effect.send (.ok w) ∉ s.trace)
  | answered (before : List Reply) (verdict : Reply)
      (hcommands : s.commands = [])
      (hreplies : s.replies = before ++ [verdict])
      (hskips : ∀ r ∈ before, s.sender.Skips job r)
      (hverdict : verdict = .ok job.crc ∨
        (∃ w, verdict = .failCrc w) ∧ ∀ w, Effect.send (.ok w) ∉ s.trace)

/-- What both ends think of the file. -/
structure Verdict (job : Job) (s : Transfer cfg) : Prop where
  before : s.sender.phase ≠ .final → ¬ s.sender.Over → ∀ w, Effect.send (.ok w) ∉ s.trace
  final : s.sender.phase = .final → Ending job s
  returned : ∀ result, s.sender.phase = .returned (some result) →
    s.commands = [] ∧ s.replies = [] ∧
      ((∃ w, Effect.send (.ok w) ∈ s.trace) → result.verified = true)

/-- The receiver confirms a file only in answer to DONE. -/
theorem Recv.Turn.done_of_ok
    {m : AcceptedMeta cfg} {r r' : Recv} {c : Command} {effects : List Effect} {w : Line}
    (h : Recv.Turn m job r c r' effects) (hok : Reply.ok w ∈ sends effects) :
    c = .done job.crc ∧ r'.phase = .commit := by
  cases h with
  | verified => exact ⟨rfl, rfl⟩
  | frame seq c hc hkind =>
      cases hkind with
      | gap =>
          simp only [Recv.onGap] at hok
          split at hok
          · split at hok <;> simp at hok
          · simp at hok
      | store =>
          simp only [Recv.onBlock] at hok
          split at hok <;> simp at hok
      | _ => simp at hok
  | _ => simp at hok

/-- DONE, at a receiver that has all blocks, is answered by the verdict. -/
theorem Recv.Turn.verdict
    {m : AcceptedMeta cfg} {r r' : Recv} {crc : Line} {effects : List Effect}
    (hm : m.Matches job) (h : Recv.Turn m job r (.done crc) r' effects)
    (hblocks : r.expected = m.blocks) :
    ∃ verdict, sends effects = [verdict] ∧ effects = [.send verdict] ∧
      (verdict = .ok job.crc ∨ ∃ w, verdict = .failCrc w) := by
  cases h with
  | early hshort => exact absurd hblocks hshort
  | refused => exact ⟨_, rfl, rfl, Or.inr ⟨_, rfl⟩⟩
  | verified hblocks hgood => exact ⟨_, rfl, rfl, Or.inl (by rw [hgood.1, hm.crc32])⟩
  | raised c exc hframe hc =>
      rcases hc with hc | ⟨_, hc⟩ | ⟨_, hc⟩ <;> cases hc
  | frame seq c hc =>
      have := hc.isFrame.1
      cases this

/-- DONE goes out behind barriers only, when no probe is open. -/
theorem ending_of_done
    (hg : Genuine job s) (ht : Tracked job s) (hp : Polite job s) (hl : Lossless job s)
    (hv : Verdict job s) (hphase : s.sender.phase = .fill) (hblocks : job.blocks ≤ s.sender.base)
    (hquiet : s.quiet job .run = true) :
    Ending job (s.sent ({ s.sender with phase := .final }, [.done job.crc])) := by
  have hready : s.sender.phase ≠ .ready := by rw [hphase]; simp
  have hfinal : s.sender.phase ≠ .final := by rw [hphase]; simp
  have hover : ¬ s.sender.Over := by simp [Sender.Over, hphase]
  have ha := ht.stage.aligned (Or.inr (Or.inl hphase))
  obtain ⟨hprobe, hhere⟩ := of_decide_eq_true hquiet ⟨hphase, hblocks⟩
  have hnil : frameSeqs s.commands = [] := by
    have h1 := ha.base_le
    have h2 := ha.next_le
    rw [hl.row.of_open (by simp [Sender.InReset, hphase]), Nat.sub_eq_zero_of_le (by omega)]
    rfl
  refine .waiting s.commands rfl ?_ ?_ (hv.before hfinal hover)
  · intro c hc
    have hseq : c.seq? = none := List.filterMap_eq_nil_iff.mp hnil c hc
    rcases hg.commands c hc with rfl | ⟨seq, hcarries⟩ | hcontrol
    · exact absurd hc (hp.opened hready hover)
    · rw [hcarries.isFrame.2] at hseq
      cases hseq
    · cases c with
      | ayt t =>
          have hno := hprobe _ hc
          cases hno
      | rst t => exact absurd hc (ha.noRst t)
      | barrier t => exact Or.inl ⟨t, rfl, hp.barriers t hc, ht.commandTokens _ hc⟩
      | done crc => exact absurd hc (ht.not_done hphase crc)
      | err report => exact Or.inr (Or.inl ⟨report, rfl⟩)
      | rmbAck bit => exact Or.inr (Or.inr ⟨bit, rfl⟩)
      | _ => cases hcontrol
  · intro r hr
    have hwindowed := hp.replies hready hfinal hover r hr
    cases r with
    | ack a =>
        have h1 := ha.acks a hr
        have h2 := ha.le_next
        have h3 := ha.next_le
        show a < job.blocks
        omega
    | resume w n =>
        obtain ⟨t, rfl, hpos⟩ := hwindowed
        obtain ⟨t', hle, heq⟩ := ht.replyTokens _ hr
        obtain rfl := dec_injective heq
        exact ⟨isdecimal_dec _, by rwa [int_dec], by rwa [int_dec]⟩
    | here w n =>
        have hno := hhere _ hr
        cases hno
    | rstAck w => exact absurd hr (ha.noRstAck w)
    | nak e why => exact absurd trivial (hl.content _ hr)
    | drop e why => exact absurd trivial (hl.content _ hr)
    | _ => cases hwindowed

/-- The sender reads on, or has its verdict. -/
theorem Ending.reply
    (hflow : job.session.flow = true) (hg : Genuine job s)
    (hs : Ending job s) (hphase : s.sender.phase = .final)
    {late : Bool} {r : Reply} {replies : List Reply} {p : Sender × List Command}
    (hreplies : s.replies = r :: replies)
    (hstep : s.sender.step job (.line r.line late) = some p) :
    p.1.phase = .final ∧ Ending job ({ s with replies }.sent p) ∨
      (∃ exc, p.1.phase = .raised exc) ∨
      ∃ result, p.1.phase = .returned (some result) ∧ s.commands ++ p.2 = [] ∧ replies = [] ∧
        ((∃ w, Effect.send (.ok w) ∈ s.trace) → result.verified = true) := by
  have hr : r.Printable := hg.replies r (hreplies ▸ List.mem_cons_self)
  obtain ⟨t, out⟩ := p
  obtain ⟨rfl, hid, hskip, hanswer⟩ := Sender.final_reply hr hflow hphase hstep
  have hkeep : ∀ {r'}, s.sender.Skips job r' → t.Skips job r' := by
    intro r' h
    cases r' <;> simp_all [Sender.Skips]
  cases hs with
  | waiting before hcommands hbefore hskips hnone =>
      rcases hskip (hskips r (hreplies ▸ List.mem_cons_self)) with hfinal | hraised
      · left
        refine ⟨hfinal, .waiting before ?_ ?_ ?_ hnone⟩
        · simpa [Transfer.sent] using hcommands
        · intro c hc
          simpa [Transfer.sent, hid] using hbefore c hc
        · intro r' hr'
          exact hkeep (hskips r' (hreplies ▸ List.mem_cons_of_mem _ hr'))
      · exact Or.inr (Or.inl hraised)
  | answered before verdict hcommands hlist hskips hverdict =>
      rw [hreplies] at hlist
      cases before with
      | nil =>
          obtain ⟨rfl, rfl⟩ := List.cons.inj hlist
          have hno : ¬ s.sender.Skips job r := by
            rcases hverdict with rfl | ⟨⟨w, rfl⟩, _⟩ <;> exact not_false
          obtain ⟨result, hreturned, hverified⟩ := hanswer hno
          refine Or.inr (Or.inr ⟨result, hreturned, by simp [hcommands], rfl, ?_⟩)
          rintro ⟨w, hok⟩
          rcases hverdict with heq | ⟨_, hnone⟩
          · exact hverified.mpr heq
          · exact absurd hok (hnone w)
      | cons r' before =>
          obtain ⟨rfl, rfl⟩ := List.cons.inj hlist
          rcases hskip (hskips r List.mem_cons_self) with hfinal | hraised
          · left
            refine ⟨hfinal, .answered before verdict ?_ rfl ?_ hverdict⟩
            · simpa [Transfer.sent] using hcommands
            · exact fun r' hr' => hkeep (hskips r' (List.mem_cons_of_mem _ hr'))
          · exact Or.inr (Or.inl hraised)

/-- The receiver answers a barrier, or gives its verdict. -/
theorem Ending.command
    (ht : Tracked job s) (hs : Ending job s)
    {m : AcceptedMeta cfg} {r : Recv} {c : Command} {commands : List Command}
    {p : Recv × List Effect} (hm : m.Matches job) (hclient : s.client = .receiving m r)
    (hcommands : s.commands = c :: commands) (hturn : Recv.Turn m job r c p.1 p.2) :
    Ending job ({ s with commands }.received (.receiving m p.1, p.2)) := by
  cases hs with
  | answered before verdict hnil => rw [hnil] at hcommands; cases hcommands
  | waiting before hlist hbefore hskips hnone =>
      rw [hcommands] at hlist
      cases before with
      | nil =>
          obtain ⟨rfl, rfl⟩ := List.cons.inj hlist
          have hblocks := (ht.done _ (hcommands ▸ List.mem_cons_self)).1
          rw [hclient] at hblocks
          obtain ⟨verdict, hsends, heffects, hverdict⟩ :=
            hturn.verdict hm (hblocks.trans hm.blocks.symm)
          refine .answered s.replies verdict rfl ?_ hskips ?_
          · simp [Transfer.received, hsends]
          · rcases hverdict with rfl | ⟨w, rfl⟩
            · exact Or.inl rfl
            · refine Or.inr ⟨⟨w, rfl⟩, fun w' hmem => ?_⟩
              rcases List.mem_append.mp hmem with hmem | hmem
              · exact hnone w' hmem
              · rw [heffects] at hmem
                simp at hmem
      | cons c' before =>
          obtain ⟨rfl, rfl⟩ := List.cons.inj hlist
          have hout : (∀ reply ∈ sends p.2, s.sender.Skips job reply) ∧
              ∀ w, Reply.ok w ∉ sends p.2 := by
            obtain ⟨r', effects⟩ := p
            have hturn : Recv.Turn m job r c r' effects := hturn
            rcases hbefore c List.mem_cons_self with ⟨t, rfl, hpos, hle⟩ | ⟨report, rfl⟩ |
              ⟨bit, rfl⟩
            · cases hturn with
              | barrier t => simp [Sender.Skips, hpos, hle]
              | raised c exc hframe hc =>
                  rcases hc with hc | ⟨_, hc⟩ | ⟨_, hc⟩ <;> cases hc
              | frame seq c hc => have := hc.isFrame.1; cases this
            · cases hturn with
              | raised => simp
              | frame seq c hc => have := hc.isFrame.1; cases this
            · cases hturn with
              | raised => simp
              | frame seq c hc => have := hc.isFrame.1; cases this
          refine .waiting before rfl (fun c hc => hbefore c (List.mem_cons_of_mem _ hc)) ?_ ?_
          · intro reply hreply
            exact (List.mem_append.mp hreply).elim (hskips reply) (hout.1 reply)
          · intro w hmem
            rcases List.mem_append.mp hmem with hmem | hmem
            · exact hnone w hmem
            · exact hout.2 w (mem_sends.mpr hmem)

/-- What the receiver does without reading changes nothing about the ending. -/
theorem Ending.received
    {p : Client cfg × List Effect} (hs : Ending job s) (hsends : sends p.2 = []) :
    Ending job (s.received p) := by
  have htrace : (∀ w, Effect.send (.ok w) ∉ s.trace) →
      ∀ w, Effect.send (.ok w) ∉ s.trace ++ p.2 := by
    intro hnone w hmem
    rcases List.mem_append.mp hmem with hmem | hmem
    · exact hnone w hmem
    · rw [← mem_sends, hsends] at hmem
      cases hmem
  cases hs with
  | waiting before hcommands hbefore hskips hnone =>
      exact .waiting before hcommands hbefore (by simpa [Transfer.received, hsends] using hskips)
        (htrace hnone)
  | answered before verdict hcommands hreplies hskips hverdict =>
      exact .answered before verdict hcommands (by simpa [Transfer.received, hsends] using hreplies)
        hskips (hverdict.imp_right fun h => ⟨h.1, htrace h.2⟩)

/-- A transfer that is over for the sender stays so, and a verdict stands. -/
theorem Verdict.of_over
    (hs : Verdict job s) (hover : s.sender.Over) (hsender : s'.sender = s.sender)
    (hcommands : s.commands = [] → s'.commands = [])
    (hreplies : s.commands = [] → s.replies = [] → s'.replies = [])
    (htrace : s.commands = [] → ∀ w, Effect.send (.ok w) ∈ s'.trace →
      Effect.send (.ok w) ∈ s.trace) :
    Verdict job s' where
  before := fun _ hnot => absurd (hsender ▸ hover) hnot
  final := by
    intro hphase
    rcases hover with ⟨_, h⟩ | ⟨_, h⟩ <;> rw [hsender, h] at hphase <;> cases hphase
  returned := by
    intro result hphase
    obtain ⟨hnil, hread, hok⟩ := hs.returned result (hsender ▸ hphase)
    exact ⟨hcommands hnil, hreplies hnil hread, fun ⟨w, hmem⟩ => hok ⟨w, htrace hnil w hmem⟩⟩

/-- An exception or a refusal of META settles nothing. -/
theorem Verdict.of_ended
    (h : (∃ exc, s.sender.phase = .raised exc) ∨ s.sender.phase = .returned none) :
    Verdict job s where
  before := by
    intro _ hnot
    rcases h with h | h
    · exact absurd (Or.inr h) hnot
    · exact absurd (Or.inl ⟨_, h⟩) hnot
  final := by
    intro hphase
    rcases h with ⟨_, h⟩ | h <;> rw [hphase] at h <;> cases h
  returned := by
    intro result hphase
    rcases h with ⟨_, h⟩ | h <;> rw [hphase] at h <;> cases h

/-- A read before DONE does not settle the file. -/
theorem Verdict.read
    {r : Option Reply} {replies : List Reply} {p : Sender × List Command}
    (hs : Verdict job s) (hphase : s.sender.phase ≠ .final)
    (hkind : Sender.ReadKind job s.sender r p.1 p.2) :
    Verdict job ({ s with replies }.sent p) := by
  have hover : ¬ s.sender.Over := hkind.not_over
  have hnone := hs.before hphase hover
  have hto : (∃ exc, p.1.phase = .raised exc) ∨ p.1.phase = .returned none ∨
      p.1.phase ≠ .final ∧ ∀ result, p.1.phase ≠ .returned result := by
    obtain ⟨t, out⟩ := p
    cases hkind with
    | failed r s' exc out hbusy hraised => exact Or.inl ⟨exc, hraised⟩
    | ended r phase hfinal => exact absurd hfinal hphase
    | refused => exact Or.inr (Or.inl rfl)
    | unsent | badReset | badResume => exact Or.inl ⟨_, rfl⟩
    | wait r phase hwait =>
        right; right
        generalize hp : s.sender.phase = q at hwait hphase
        cases hwait <;> simp_all
    | _ => simp
  rcases hto with h | h | ⟨hfinal, hreturned⟩
  · exact .of_ended (Or.inl h)
  · exact .of_ended (Or.inr h)
  · exact
      { before := fun _ _ => hnone
        final := fun h => absurd h hfinal
        returned := fun result h => absurd h (hreturned _) }

/-- What the receiver does without reading changes nothing about the verdict. -/
theorem Verdict.received
    {p : Client cfg × List Effect} (hs : Verdict job s) (hsends : sends p.2 = []) :
    Verdict job (s.received p) := by
  have htrace : ∀ w, Effect.send (.ok w) ∈ s.trace ++ p.2 → Effect.send (.ok w) ∈ s.trace := by
    intro w hmem
    refine (List.mem_append.mp hmem).resolve_right fun hmem => ?_
    rw [← mem_sends, hsends] at hmem
    cases hmem
  exact
    { before := fun hfinal hover w hmem => hs.before hfinal hover w (htrace w hmem)
      final := fun hphase => (hs.final hphase).received hsends
      returned := fun result hphase => by
        obtain ⟨hnil, hread, hok⟩ := hs.returned result hphase
        exact ⟨hnil, by simpa [Transfer.received, hsends] using hread,
          fun ⟨w, hmem⟩ => hok ⟨w, htrace w hmem⟩⟩ }

/-- The sender writes a frame or DONE, begins to wait, or gives up. -/
theorem Verdict.fill
    (hs : Verdict job s) (hg : Genuine job s) (hw : Thrifty job s) (hp : Polite job s)
    (hl : ¬ s.sender.Over → Lossless job s) (hphase : s.sender.phase = .fill)
    (hquiet : s.quiet job .run = true) {p : Sender × List Command}
    (hkind : Sender.FillKind job s.sender p.1 p.2) :
    Verdict job (s.sent p) := by
  have hover : ¬ s.sender.Over := by simp [Sender.Over, hphase]
  have hnone := hs.before (by rw [hphase]; simp) hover
  obtain ⟨t, out⟩ := p
  cases hkind with
  | frame =>
      exact
        { before := fun _ _ => hnone
          final := fun h => absurd (hphase.symm.trans h) (by simp)
          returned := fun result h => absurd (hphase.symm.trans h) (by simp) }
  | wait =>
      exact
        { before := fun _ _ => hnone
          final := fun h => by cases h
          returned := fun result h => by cases h }
  | done hblocks =>
      exact
        { before := fun h => absurd rfl h
          final := fun _ =>
            ending_of_done hg (hw.live hover).2.1 hp (hl hover) hs hphase hblocks hquiet
          returned := fun result h => by cases h }
  | failed => exact .of_ended (Or.inl ⟨_, rfl⟩)

/-- A read after DONE settles the file, or leaves the ending as it is. -/
theorem Verdict.reply
    (hs : Verdict job s) (hflow : job.session.flow = true) (hg : Genuine job s)
    (hphase : s.sender.phase = .final) {late : Bool} {r : Reply} {replies : List Reply}
    {q : Sender × List Command} (hreplies : s.replies = r :: replies)
    (hq : s.sender.step job (.line r.line late) = some q) :
    Verdict job ({ s with replies }.sent q) := by
  rcases (hs.final hphase).reply hflow hg hphase hreplies hq with
    ⟨hfinal, hending⟩ | hraised | ⟨result, hreturned, hnil, hread, hok⟩
  · exact
      { before := fun h => absurd hfinal h
        final := fun _ => hending
        returned := fun result h => by
          have hto : q.1.phase = .returned (some result) := h
          rw [hfinal] at hto
          cases hto }
  · exact .of_ended (Or.inl hraised)
  · exact
      { before := fun _ hnot => absurd (Or.inl ⟨_, hreturned⟩) hnot
        final := fun h => by
          have hto : q.1.phase = .final := h
          rw [hreturned] at hto
          cases hto
        returned := fun result' h => by
          have hto : q.1.phase = .returned (some result') := h
          rw [hreturned] at hto
          cases hto
          exact ⟨hnil, hread, hok⟩ }

/-- Nothing is read once the transfer is over for the sender and a result was returned. -/
theorem Verdict.of_read
    {c : Command} {commands : List Command} {p : Client cfg × List Effect} (hs : Verdict job s)
    (hover : s.sender.Over) (hcommands : s.commands = c :: commands) :
    Verdict job ({ s with commands }.received p) := by
  refine hs.of_over hover rfl ?_ ?_ ?_ <;> intro hnil <;> rw [hnil] at hcommands <;>
    cases hcommands

/-- The receiver reads. -/
theorem Verdict.command
    (hs : Verdict job s) (hg : Genuine job s) (hw : Thrifty job s) {m : AcceptedMeta cfg}
    {r : Recv} {c : Command} {commands : List Command} {p : Recv × List Effect}
    (hclient : s.client = .receiving m r) (hcommands : s.commands = c :: commands)
    (hturn : Recv.Turn m job r c p.1 p.2) :
    Verdict job ({ s with commands }.received (.receiving m p.1, p.2)) := by
  by_cases hover : s.sender.Over
  · exact hs.of_read hover hcommands
  · have ht := (hw.live hover).2.1
    refine
      { before := fun hfinal _ w hmem => ?_
        final := fun hfinal => ?_
        returned := fun result h => absurd (Or.inl ⟨_, h⟩) hover }
    · rcases List.mem_append.mp hmem with hmem | hmem
      · exact hs.before hfinal hover w hmem
      · obtain ⟨rfl, _⟩ := hturn.done_of_ok (mem_sends.mpr hmem)
        rcases (ht.done _ (hcommands ▸ List.mem_cons_self)).2.2 with h | h
        · exact hfinal h
        · exact hover h
    · exact (hs.final hfinal).command ht (hg.receiving m r hclient).1 hclient hcommands hturn

/-- META is read, and confirms nothing. -/
theorem Verdict.opening
    (hs : Verdict job s) (hp : Polite job s) (hclient : s.client = .awaiting true)
    {c : Command} {commands : List Command} {p : Client cfg × List Effect}
    (hcommands : s.commands = c :: commands) (hnone : ∀ w, Effect.send (.ok w) ∉ p.2) :
    Verdict job ({ s with commands }.received p) := by
  by_cases hover : s.sender.Over
  · exact hs.of_read hover hcommands
  · have hready : s.sender.phase = .ready := by
      by_contra hready
      exact hp.greeted hready hover true hclient
    exact
      { before := fun hfinal _ w hmem =>
          (List.mem_append.mp hmem).elim (hs.before hfinal hover w) (hnone w)
        final := fun h => absurd (hready.symm.trans h) (by simp)
        returned := fun result h => absurd (Or.inl ⟨_, h⟩) hover }

/-- Every move over a line that only delays keeps the verdict, when no probe is open at DONE. -/
theorem Verdict.move
    (hpair : Paired job.session cfg) (hflow : job.session.flow = true)
    (hg : Genuine job s) (hw : Thrifty job s) (hp : Polite job s)
    (hl : ¬ s.sender.Over → Lossless job s) (hs : Verdict job s)
    {e : Event} (he : Faults.delayed.permit e = true) (hquiet : s.quiet job e = true)
    (hstep : s.step job e = some s') :
    Verdict job s' := by
  cases step_move hpair hflow hg hstep with
  | fill p hphase hkind => exact hs.fill hg hw hp hl hphase hquiet hkind
  | timeout p hkind =>
      by_cases hphase : s.sender.phase = .final
      · rw [Transfer.step, Option.map_eq_some_iff] at hstep
        obtain ⟨q, hq, heq⟩ := hstep
        have hsender : q.1 = p.1 := congrArg Transfer.sender heq
        refine .of_ended (Or.inl ?_)
        rw [Sender.step, Sender.onTimeout, hphase] at hq
        cases hq
        exact ⟨TimeoutError_ "timed out waiting for a control line",
          congrArg Sender.phase hsender.symm⟩
      · exact hs.read hphase hkind
  | reply late r replies p hreplies hkind =>
      by_cases hphase : s.sender.phase = .final
      · rw [Transfer.step, hreplies, Option.map_eq_some_iff] at hstep
        obtain ⟨q, hq, heq⟩ := hstep
        rw [← heq]
        exact hs.reply hflow hg hphase hreplies hq
      · exact hs.read hphase hkind
  | command m r c commands p hclient hcommands hphase hread hturn =>
      exact hs.command hg hw hclient hcommands hturn
  | accept m commands hclient hcommands hm =>
      exact hs.opening hp hclient hcommands fun w => by simp [Recv.startEffects]
  | refuse c commands exc effects hclient hcommands heffects =>
      refine hs.opening hp hclient hcommands fun w => ?_
      rcases heffects with rfl | ⟨_, code, _, rfl⟩ <;> simp
  | commit m r hclient hphase => exact hs.received rfl
  | giveUp m r exc hclient hphase => exact hs.received rfl
  | giveUpMeta exc hclient => exact hs.received rfl
  | _ => cases he

theorem verdict_start (barrier_id : Nat) (reset_token : Option Line) :
    Verdict job (Transfer.start cfg job barrier_id reset_token) where
  before := by simp [Transfer.start]
  final := nofun
  returned := nofun

/-- An open probe after DONE: its answer will be read before the verdict. -/
inductive Doomed (s : Transfer cfg) : Prop
  | probe (before after : List Command) (t : Nat) (hphase : s.sender.phase = .final)
      (hcommands : s.commands = before ++ .ayt t :: after)
      (hbefore : ∀ c ∈ before, ∀ crc, c ≠ .done crc) (hreplies : ∀ r ∈ s.replies, ∀ w, r ≠ .ok w)
  | here (before after : List Reply) (w : Line) (n : Nat) (hphase : s.sender.phase = .final)
      (hreplies : s.replies = before ++ .here w n :: after)
      (hbefore : ∀ r ∈ before, ∀ w, r ≠ .ok w)
  | raised (exc : PcutpError) (hphase : s.sender.phase = .raised exc)
  | returned (result : TransferResult) (hphase : s.sender.phase = .returned (some result))
      (hverified : result.verified = false)

/-- Until its answer is read, an open probe leads to no other verdict. -/
theorem Doomed.reply
    (hflow : job.session.flow = true) (hg : Genuine job s) (hs : Doomed s)
    {late : Bool} {r : Reply} {replies : List Reply} {p : Sender × List Command}
    (hreplies : s.replies = r :: replies)
    (hstep : s.sender.step job (.line r.line late) = some p) :
    Doomed ({ s with replies }.sent p) := by
  have hr : r.Printable := hg.replies r (hreplies ▸ List.mem_cons_self)
  -- A reply other than OK is skipped, or taken for a refusal.
  have hcases : s.sender.phase = .final → (∀ w, r ≠ .ok w) →
      (p.2 = [] ∧ p.1.phase = .final ∧ s.sender.Skips job r) ∨
        Doomed ({ s with replies }.sent p) := by
    intro hphase hnot
    obtain ⟨hout, _, hskip, hanswer⟩ := Sender.final_reply hr hflow hphase hstep
    by_cases hs : s.sender.Skips job r
    · rcases hskip hs with hfinal | ⟨exc, hraised⟩
      · exact Or.inl ⟨hout, hfinal, hs⟩
      · exact Or.inr (.raised exc hraised)
    · obtain ⟨result, hreturned, hverified⟩ := hanswer hs
      refine Or.inr (.returned result hreturned ?_)
      rw [Bool.eq_false_iff]
      exact fun h => hnot _ (hverified.mp h)
  cases hs with
  | probe before after t hphase hcommands hbefore hnot =>
      rcases hcases hphase (hnot r (hreplies ▸ List.mem_cons_self)) with ⟨hout, hfinal, _⟩ | h
      · refine .probe before after t hfinal ?_ hbefore ?_
        · simpa [Transfer.sent, hout] using hcommands
        · exact fun r' hr' => hnot r' (hreplies ▸ List.mem_cons_of_mem _ hr')
      · exact h
  | here before after w n hphase hlist hbefore =>
      rw [hreplies] at hlist
      cases before with
      | nil =>
          obtain ⟨rfl, rfl⟩ := List.cons.inj hlist
          rcases hcases hphase (by simp) with ⟨_, _, hskip⟩ | h
          · cases hskip
          · exact h
      | cons r' before =>
          obtain ⟨rfl, rfl⟩ := List.cons.inj hlist
          rcases hcases hphase (hbefore r List.mem_cons_self) with ⟨_, hfinal, _⟩ | h
          · exact .here before after w n hfinal rfl
              fun r' hr' => hbefore r' (List.mem_cons_of_mem _ hr')
          · exact h
  | raised exc hphase =>
      rw [Sender.step, if_neg (by rw [Reply.isRmb_line hr]; simp), Sender.onLine, hphase] at hstep
      cases hstep
  | returned result hphase =>
      rw [Sender.step, if_neg (by rw [Reply.isRmb_line hr]; simp), Sender.onLine, hphase] at hstep
      cases hstep

theorem Doomed.move
    (hpair : Paired job.session cfg) (hflow : job.session.flow = true)
    (hg : Genuine job s) (hp : Polite job s) (hs : Doomed s)
    {e : Event} (he : Faults.delayed.permit e = true) (hstep : s.step job e = some s') :
    Doomed s' := by
  have h := step_move hpair hflow hg hstep
  have hnotFill : s.sender.phase ≠ .fill := by
    cases hs <;> simp_all
  have hgreeted : s.commands ≠ [] → (∃ exc, s.sender.phase = .raised exc) ∨
      (∃ result, s.sender.phase = .returned (some result) ∧ result.verified = false) ∨
      ∀ fetching, s.client ≠ .awaiting fetching := by
    intro _
    have hawake : s.sender.phase = .final → ∀ fetching, s.client ≠ .awaiting fetching := fun h =>
      hp.greeted (by rw [h]; simp) (by simp [Sender.Over, h])
    cases hs with
    | probe before after t hphase => exact Or.inr (Or.inr (hawake hphase))
    | here before after w n hphase => exact Or.inr (Or.inr (hawake hphase))
    | raised exc hphase => exact Or.inl ⟨exc, hphase⟩
    | returned result hphase hverified => exact Or.inr (Or.inl ⟨result, hphase, hverified⟩)
  have hsame : ∀ {p : Client cfg × List Effect}, sends p.2 = [] → Doomed (s.received p) := by
    intro p hsends
    cases hs with
    | probe before after t hphase hcommands hbefore hreplies =>
        exact .probe before after t hphase hcommands hbefore
          (by simpa [Transfer.received, hsends] using hreplies)
    | here before after w n hphase hreplies hbefore =>
        exact .here before after w n hphase (by simpa [Transfer.received, hsends] using hreplies)
          hbefore
    | raised exc hphase => exact .raised exc hphase
    | returned result hphase hverified => exact .returned result hphase hverified
  have hrefused : ∀ {s' : Transfer cfg} {fetching : Bool}, s.client = .awaiting fetching →
      s.commands ≠ [] → s'.sender = s.sender → Doomed s' := by
    intro s' fetching hclient hne hsender
    rcases hgreeted hne with ⟨exc, h⟩ | ⟨result, h, hverified⟩ | h
    · exact .raised exc (hsender ▸ h)
    · exact .returned result (hsender ▸ h) hverified
    · exact absurd hclient (h fetching)
  cases h with
  | fill p hphase => exact absurd hphase hnotFill
  | timeout p hkind =>
      rw [Transfer.step, Option.map_eq_some_iff] at hstep
      obtain ⟨q, hq, heq⟩ := hstep
      rw [← heq]
      rw [Sender.step, Sender.onTimeout] at hq
      cases hs with
      | raised exc hphase => rw [hphase] at hq; cases hq
      | returned result hphase => rw [hphase] at hq; cases hq
      | probe before after t hphase =>
          rw [hphase] at hq
          cases hq
          exact .raised _ rfl
      | here before after w n hphase =>
          rw [hphase] at hq
          cases hq
          exact .raised _ rfl
  | reply late r replies p hreplies hkind =>
      rw [Transfer.step, hreplies, Option.map_eq_some_iff] at hstep
      obtain ⟨q, hq, heq⟩ := hstep
      rw [← heq]
      exact hs.reply hflow hg hreplies hq
  | command m r c commands p hclient hcommands hphase hread hturn =>
      obtain ⟨r', effects⟩ := p
      have hturn : Recv.Turn m job r c r' effects := hturn
      cases hs with
      | probe before after t hfinal hlist hbefore hnot =>
          rw [hcommands] at hlist
          cases before with
          | nil =>
              obtain ⟨rfl, rfl⟩ := List.cons.inj hlist
              cases hturn with
              | ayt t => exact .here s.replies [] _ _ hfinal rfl hnot
              | raised c exc hframe hc =>
                  rcases hc with hc | ⟨_, hc⟩ | ⟨_, hc⟩ <;> cases hc
              | frame seq c hc => have := hc.isFrame.1; cases this
          | cons c' before =>
              obtain ⟨rfl, rfl⟩ := List.cons.inj hlist
              refine .probe before after t hfinal rfl
                (fun c hc => hbefore c (List.mem_cons_of_mem _ hc)) ?_
              rintro reply hreply w rfl
              rcases List.mem_append.mp hreply with hreply | hreply
              · exact hnot _ hreply w rfl
              · exact hbefore c List.mem_cons_self _ (hturn.done_of_ok hreply).1
      | here before after w n hfinal hlist hbefore =>
          refine .here before (after ++ sends effects) w n hfinal ?_ hbefore
          simp [Transfer.received, hlist]
      | raised exc hphase => exact .raised exc hphase
      | returned result hphase hverified => exact .returned result hphase hverified
  | accept m commands hclient hcommands hm =>
      exact hrefused hclient (by rw [hcommands]; simp) rfl
  | refuse c commands exc effects hclient hcommands heffects =>
      exact hrefused hclient (by rw [hcommands]; simp) rfl
  | commit m r hclient hphase => exact hsame rfl
  | giveUp m r exc hclient hphase => exact hsame rfl
  | giveUpMeta exc hclient => exact hsame rfl
  | _ => cases he

/-- DONE goes out while a probe is open. -/
theorem doomed_of_done
    (ht : Tracked job s) (hv : Verdict job s)
    (hphase : s.sender.phase = .fill) (hquiet : s.quiet job .run = false)
    {p : Sender × List Command} (hkind : Sender.FillKind job s.sender p.1 p.2) :
    Doomed (s.sent p) := by
  have hover : ¬ s.sender.Over := by simp [Sender.Over, hphase]
  have hnone := hv.before (by rw [hphase]; simp) hover
  have hno : ∀ r ∈ s.replies, ∀ w, r ≠ .ok w := by
    rintro r hr w rfl
    exact hnone w (ht.told _ hr)
  have hquiet := of_decide_eq_false hquiet
  simp only [Classical.not_imp, not_and_or, not_forall] at hquiet
  obtain ⟨⟨_, hblocks⟩, hopen⟩ := hquiet
  obtain ⟨t, out⟩ := p
  cases hkind with
  | done =>
      rcases hopen with ⟨c, hc, hprobe⟩ | ⟨r, hr, hhere⟩
      · obtain ⟨before, after, hsplit⟩ := List.append_of_mem hc
        cases c with
        | ayt t =>
            refine .probe before (after ++ [.done job.crc]) t rfl ?_ ?_ hno
            · simp [Transfer.sent, hsplit]
            · rintro c hc crc rfl
              exact ht.not_done hphase crc (hsplit ▸ List.mem_append_left _ hc)
        | _ => simp [Command.isProbe] at hprobe
      · obtain ⟨before, after, hsplit⟩ := List.append_of_mem hr
        cases r with
        | here w n =>
            refine .here before after w n rfl hsplit fun r hr => hno r ?_
            exact hsplit ▸ List.mem_append_left _ hr
        | _ => simp [Reply.isHere] at hhere
  | failed exc => exact .raised exc rfl
  | frame frame hcache hlt hroom hbase => omega
  | wait hbase => omega

end Invariant

section Result

variable {cfg : ClientConfig} {job : Job}

/-- The two ends agree on the outcome exactly when no probe is open at DONE. -/
theorem verdict_agrees_iff_quiet
    (job : Job) (cfg : ClientConfig) (hflow : job.session.flow = true)
    (hpair : Paired job.session cfg)
    (barrier_id : Nat) (reset_token : Option Line) (s : Transfer cfg)
    (hleads : Transition.Steps (Transfer.step job)
      (fun s e => Faults.delayed.permit e = true ∧ s.quiet job e = true)
      (Transfer.start cfg job barrier_id reset_token) s) :
    (∀ result, s.sender.phase = .returned (some result) →
      (∃ crc, Effect.send (.ok crc) ∈ s.trace) → result.verified = true ∧ s.replies = []) ∧
    ∀ e s₁ s₂ result, Faults.delayed.permit e = true → s.step job e = some s₁ →
      s.quiet job e = false → Transfer.Leads .delayed job s₁ s₂ →
        s₂.sender.phase = .returned (some result) → result.verified = false := by
  have hmove : ∀ {s s' : Transfer cfg} {e : Event}, Genuine job s → Thrifty job s →
      Polite job s → Faults.delayed.permit e = true → s.step job e = some s' →
      Genuine job s' ∧ Thrifty job s' ∧ Polite job s' := by
    intro s s' e hg hw hp he hstep
    have hmove := step_move hpair hflow hg hstep
    have hlossy := Faults.delayed_lossy e he
    exact ⟨hg.move hmove, hw.move hflow hpair hg (Faults.lossy_once e hlossy) hmove,
      hp.move hpair hflow hg hw hlossy hmove⟩
  have hinv : Genuine job s ∧ Thrifty job s ∧ Polite job s ∧
      (¬ s.sender.Over → Lossless job s) ∧ Verdict job s := by
    refine Transition.Steps.invariant
      (fun s => Genuine job s ∧ Thrifty job s ∧ Polite job s ∧
        (¬ s.sender.Over → Lossless job s) ∧ Verdict job s) ?_ hleads
      ⟨genuine_start barrier_id reset_token, thrifty_start barrier_id reset_token,
        polite_start barrier_id reset_token, fun _ => lossless_start barrier_id reset_token,
        verdict_start barrier_id reset_token⟩
    rintro s e s' ⟨hg, hw, hp, hl, hv⟩ ⟨he, hquiet⟩ hstep
    have hmoved := step_move hpair hflow hg hstep
    obtain ⟨hg', hw', hp'⟩ := hmove hg hw hp he hstep
    refine ⟨hg', hw', hp', fun hover' => ?_, hv.move hpair hflow hg hw hp hl he hquiet hstep⟩
    have hover : ¬ s.sender.Over := fun hover => hover' (hmoved.over hover)
    obtain ⟨hnone, ht, _⟩ := hw.live hover
    exact (hl hover).move hg ht hp hnone hover hover' he hmoved
  obtain ⟨hg, hw, hp, _, hv⟩ := hinv
  refine ⟨fun result hphase hok => ?_, fun e s₁ s₂ result he hstep hquiet hleads' hphase => ?_⟩
  · obtain ⟨_, hread, hverified⟩ := hv.returned result hphase
    exact ⟨hverified hok, hread⟩
  · cases e with
    | run =>
        have hmoved := step_move hpair hflow hg hstep
        have hdoomed : Doomed s₁ := by
          cases hmoved with
          | fill p hfill hkind =>
              have hover : ¬ s.sender.Over := by simp [Sender.Over, hfill]
              exact doomed_of_done (hw.live hover).2.1 hv hfill hquiet hkind
        obtain ⟨hg₁, hw₁, hp₁⟩ := hmove hg hw hp he hstep
        have hend : Genuine job s₂ ∧ Thrifty job s₂ ∧ Polite job s₂ ∧ Doomed s₂ := by
          refine Transition.Steps.invariant
            (fun s => Genuine job s ∧ Thrifty job s ∧ Polite job s ∧ Doomed s) ?_ hleads'
            ⟨hg₁, hw₁, hp₁, hdoomed⟩
          rintro s e s' ⟨hg, hw, hp, hd⟩ he hstep
          obtain ⟨hg', hw', hp'⟩ := hmove hg hw hp he hstep
          exact ⟨hg', hw', hp', hd.move hpair hflow hg hp he hstep⟩
        cases hend.2.2.2 with
        | probe before after t hfinal => rw [hphase] at hfinal; cases hfinal
        | here before after w n hfinal => rw [hphase] at hfinal; cases hfinal
        | raised exc hraised => rw [hphase] at hraised; cases hraised
        | returned result' hreturned hverified =>
            rw [hphase] at hreturned
            cases hreturned
            exact hverified
    | _ => cases hquiet

/-- The ACK of the last block comes while a probe is out: the answer to the probe is taken for
the verdict, and OK is left unread. -/
theorem verdict_differs_after_probe :
    ∃ (s : Transfer smallClient) (result : TransferResult),
      Transfer.Leads .delayed (smallJob [65]) (Transfer.start smallClient (smallJob [65]) 0 none)
          s ∧
        s.sender.phase = .returned (some result) ∧ Effect.send (.ok (smallJob [65]).crc) ∈ s.trace ∧
        result.verified = false ∧ s.replies = [.ok (smallJob [65]).crc] := by
  let events : List Event :=
    [.command, .reply false, .run, .run, .timeout, .timeout, .command, .reply false, .run,
      .command, .command, .reply false]
  have hrun : ((Transfer.start smallClient (smallJob [65]) 0 none).exec .delayed (smallJob [65])
      events).any (fun s => s.returns fun result => decide
        (Effect.send (.ok (smallJob [65]).crc) ∈ s.trace ∧ result.verified = false ∧
          s.replies = [.ok (smallJob [65]).crc])) = true := by
    decide +kernel
  rw [Option.any_eq_true] at hrun
  obtain ⟨s, hexec, hend⟩ := hrun
  obtain ⟨result, hphase, hresult⟩ := Transfer.exists_of_returns hend
  exact ⟨s, result, .of_exec hexec, hphase, of_decide_eq_true hresult⟩

/-- The first ACK of a file of two blocks is late, so a probe goes out; its HERE is read before
DONE is written. -/
theorem verdict_agrees_probed :
    ∃ (s : Transfer smallClient) (result : TransferResult),
      s.sender.barrier_id = 1 ∧ s.sender.phase = .returned (some result) ∧
        result.verified = true ∧ s.replies = [] := by
  let events : List Event :=
    [.command, .reply false, .run, .run, .timeout, .timeout, .command, .command, .reply false,
      .run, .run, .command, .reply false, .reply false, .run, .command, .reply false]
  have hrun : (Transition.exec (Transfer.step (smallJob [65, 66]))
      (fun s e => Faults.delayed.permit e = true ∧ s.quiet (smallJob [65, 66]) e = true)
      (Transfer.start smallClient (smallJob [65, 66]) 0 none) events).any
        (fun s => s.returns fun _ => decide
          (s.sender.barrier_id = 1 ∧ Effect.send (.ok (smallJob [65, 66]).crc) ∈ s.trace)) =
        true := by
    decide +kernel
  rw [Option.any_eq_true] at hrun
  obtain ⟨s, hexec, hend⟩ := hrun
  obtain ⟨result, hphase, hboth⟩ := Transfer.exists_of_returns hend
  obtain ⟨hasked, hok⟩ := of_decide_eq_true hboth
  exact ⟨s, result, hasked, hphase, (verdict_agrees_iff_quiet (smallJob [65, 66]) smallClient rfl
    small_paired 0 none s (.of_exec hexec)).1 result hphase ⟨_, hok⟩⟩

end Result

end Pcutp
