import Pcutp.Polite

/-!
# A line that only delays

When nothing is lost or damaged, the frames in flight are consecutive blocks
from the receiver's position on.  The receiver stores each of them, so it never
reports damage or a gap, whenever the sender's clock runs out.
-/

namespace Pcutp

/-- A line that only delays. -/
def Faults.delayed : Faults where
  loss := false
  duplication := false
  reordering := false
  damage := false
  timeouts := true

theorem Faults.delayed_lossy
    (e : Event) (he : Faults.delayed.permit e = true) :
    Faults.lossy.permit e = true := by
  cases e <;> first | rfl | cases he | simp [Faults.permit, Faults.lossy]

/-- The replies that report damage or a gap. -/
def Reply.Complains : Reply → Prop
  | .nak _ _ => True
  | .drop _ _ => True
  | _ => False

/-- The frames in flight are the blocks from the receiver's position on, until a reset has
made them void. -/
def InRow (s : Sender) (e : Nat) (commands : List Command) : Prop :=
  frameSeqs commands = List.range' e (s.next_seq - e) ∨ frameSeqs commands = [] ∧ s.InReset

section Row

variable {job : Job} {s s' : Sender} {blocks e : Nat} {commands : List Command}
  {replies : List Reply}

theorem InRow.of_open
    (h : InRow s e commands) (hopen : ¬ s.InReset) :
    frameSeqs commands = List.range' e (s.next_seq - e) :=
  h.resolve_right fun hreset => hopen hreset.2

/-- A frame that comes out is the block the receiver waits for. -/
theorem InRow.pop
    {c : Command} {seq : Nat} (h : InRow s e (c :: commands)) (hseq : c.seq? = some seq) :
    seq = e ∧ InRow s (e + 1) commands := by
  rw [InRow, frameSeqs_cons_frame hseq] at h
  rcases h with h | ⟨h, _⟩
  · obtain ⟨k, hk⟩ : ∃ k, s.next_seq - e = k + 1 := by
      cases hk : s.next_seq - e with
      | zero =>
          rw [hk] at h
          cases h
      | succ k => exact ⟨k, rfl⟩
    rw [hk, List.range'_succ] at h
    obtain ⟨rfl, hrest⟩ := List.cons.inj h
    refine ⟨rfl, Or.inl ?_⟩
    rw [hrest]
    congr 1
    omega
  · cases h

theorem frameSeqs_cons_control
    {c : Command} (hseq : c.seq? = none) :
    frameSeqs (c :: commands) = frameSeqs commands :=
  List.filterMap_cons_none hseq

theorem InRow.pop_control
    {c : Command} (h : InRow s e (c :: commands)) (hseq : c.seq? = none) :
    InRow s e commands := by
  rwa [InRow, frameSeqs_cons_control hseq] at h

/-- A request of the sender that comes out leaves no frame behind it. -/
theorem StageInv.reset_of_rst
    {t : Nat} (hs : StageInv s blocks e (.rst t :: commands) replies) (hover : ¬ s.Over)
    (hblock : ∀ attempt timeouts, s.phase ≠ .block attempt timeouts) :
    frameSeqs commands = [] ∧ s.InReset := by
  cases hphase : s.phase with
  | rst left =>
      have hr := hs.of_rst hphase
      obtain rfl := hr.rst t List.mem_cons_self
      refine ⟨frameSeqs_eq_nil fun c hc => ?_, Or.inl ⟨left, hphase⟩⟩
      have hback := (Channel.epoch_iff.mp hr.epoch).2.1
      rw [(List.pairwise_cons.mp hback).1 c hc rfl]
      rfl
  | barrier reset left =>
      cases reset with
      | true =>
          refine ⟨frameSeqs_eq_nil fun c hc => ?_, Or.inr ⟨left, hphase⟩⟩
          rcases (hs.of_barrier_true hphase).command c (List.mem_cons_of_mem _ hc) with
            ⟨t, rfl, _⟩ | rfl <;> rfl
      | false =>
          exact absurd List.mem_cons_self ((hs.of_barrier_false hphase).1.noRst t)
  | block attempt timeouts => exact absurd hphase (hblock _ _)
  | returned result => exact absurd (Or.inl ⟨_, hphase⟩) hover
  | raised exc => exact absurd (Or.inr ⟨_, hphase⟩) hover
  | _ =>
      exact absurd List.mem_cons_self
        ((hs.aligned (by simp [hphase, Sender.Listening])).noRst t)

/-- A read of the sender keeps the row. -/
theorem InRow.read
    {r : Option Reply} {out : List Command} (h : InRow s e commands)
    (hstage : StageInv s job.blocks e commands (r.toList ++ replies))
    (hnone : Reply.rst ∉ r.toList ++ replies)
    (hover : ¬ s'.Over)
    (hkind : Sender.ReadKind job s r s' out) :
    InRow s' e (commands ++ out) := by
  have hout : frameSeqs (commands ++ out) = frameSeqs commands :=
    frameSeqs_append_control fun c hc => seq_eq_none_of_control (hkind.control c hc)
  rw [InRow, hout]
  have hbarriers : ∀ {id : Nat}, (∀ c ∈ commands, c = .barrier id) → frameSeqs commands = [] := by
    intro id hcommands
    refine frameSeqs_eq_nil fun c hc => ?_
    rw [hcommands c hc]
    rfl
  cases hkind with
  | askReset r left hphase => exact h.imp_right fun h => ⟨h.1, Or.inl ⟨left, rfl⟩⟩
  | askBarrier r reset left hphase =>
      refine h.imp_right fun h => ⟨h.1, ?_⟩
      rcases h.2 with ⟨_, h⟩ | ⟨_, h⟩ <;> rw [hphase] at h <;> cases h
      exact Or.inr ⟨left, rfl⟩
  | wait r phase hwait =>
      refine h.imp_right fun h => ⟨h.1, ?_⟩
      rcases h.2 with ⟨left, h⟩ | ⟨left, h⟩ <;> rw [h] at hwait <;> cases hwait
      · exact Or.inl ⟨left, rfl⟩
      · exact Or.inr ⟨left, rfl⟩
  | resetDone left hphase =>
      right
      refine ⟨frameSeqs_eq_nil fun c hc => ?_, Or.inr ⟨_, rfl⟩⟩
      rw [(hstage.of_rst hphase).epoch.back_of_mem List.mem_cons_self rfl c hc]
      rfl
  | resumed left n hphase hlo hhi =>
      left
      obtain ⟨rfl, hcommands, _⟩ := (hstage.of_barrier_false hphase).2.answered
      simp [hbarriers hcommands]
  | resumedReset left hphase =>
      left
      have hr := hstage.of_barrier_true hphase
      obtain ⟨_, hcommands, _⟩ := hr.answered
      simp [hbarriers hcommands]
  | restarted hphase => simp at hnone
  | failed r s' exc out hphase hphase' => exact absurd (Or.inr ⟨exc, hphase'⟩) hover
  | refused => exact absurd (Or.inl ⟨_, rfl⟩) hover
  | ended r phase hphase hphase' =>
      rcases hphase' with ⟨exc, rfl, _⟩ | ⟨result, rfl⟩
      · exact absurd (Or.inr ⟨_, rfl⟩) hover
      · exact absurd (Or.inl ⟨_, rfl⟩) hover
  | unsent | badReset | badResume => exact absurd (Or.inr ⟨_, rfl⟩) hover
  | begin hphase => exact Or.inl (h.of_open (by simp [Sender.InReset, hphase]))
  | probe hphase => exact Or.inl (h.of_open (by simp [Sender.InReset, hphase]))
  | advance a hphase =>
      refine Or.inl (h.of_open ?_)
      rcases hphase with h | ⟨_, h⟩ | ⟨_, h⟩ <;> simp [Sender.InReset, h]
  | gap r hphase =>
      refine Or.inl (h.of_open ?_)
      rcases hphase with h | ⟨_, h⟩ | ⟨_, h⟩ <;> simp [Sender.InReset, h]
  | askAlive r left hphase =>
      refine Or.inl (h.of_open ?_)
      rcases hphase with ⟨_, h⟩ | ⟨_, h⟩ <;> simp [Sender.InReset, h]
  | askRestart r hphase =>
      refine Or.inl (h.of_open ?_)
      rcases hphase with ⟨_, h⟩ | ⟨_, h⟩ <;> simp [Sender.InReset, h]

end Row

section Invariant

variable {cfg : ClientConfig} {job : Job} {s s' : Transfer cfg}

/-- What a line that only delays adds, while the sender is at work. -/
structure Lossless (job : Job) (s : Transfer cfg) : Prop where
  intact : ∀ c ∈ s.commands, c.isFrame = true → c.Intact
  row : InRow s.sender s.client.expected s.commands
  content : ∀ r ∈ s.replies, ¬ r.Complains

/-- Frames that come in a row are stored. -/
theorem Recv.Turn.content
    {m : AcceptedMeta cfg} {r r' : Recv} {c : Command} {effects : List Effect}
    (h : Recv.Turn m job r c r' effects)
    (hseq : ∀ seq, c.seq? = some seq → seq = r.expected) (hintact : c.isFrame = true → c.Intact) :
    (∀ reply ∈ sends effects, ¬ reply.Complains) ∧
      (c.isFrame = true → r'.expected = r.expected + 1) ∧
      (c.isFrame = false → (∀ t, c ≠ .rst t) → r'.expected = r.expected) := by
  have hone : ∀ {reply : Reply}, ¬ reply.Complains → ∀ reply' ∈ [reply], ¬ reply'.Complains := by
    intro reply hreply reply' hmem
    rwa [List.mem_singleton.mp hmem]
  have hnil : ∀ reply ∈ ([] : List Reply), ¬ reply.Complains := fun _ h =>
    absurd h List.not_mem_nil
  cases h with
  | ayt t => exact ⟨hone not_false, nofun, fun _ _ => rfl⟩
  | rst t => exact ⟨hone not_false, nofun, fun _ h => absurd rfl (h t)⟩
  | barrier t => exact ⟨hone not_false, nofun, fun _ _ => rfl⟩
  | early => exact ⟨hnil, nofun, fun _ _ => rfl⟩
  | refused | verified => exact ⟨hone not_false, nofun, fun _ _ => rfl⟩
  | raised c exc hframe hc =>
      refine ⟨hnil, fun h => ?_, fun _ _ => rfl⟩
      rw [hframe] at h
      cases h
  | frame seq c hc hkind =>
      obtain ⟨hframe, hnumber⟩ := hc.isFrame
      obtain rfl := hseq seq hnumber
      have hno : c.isFrame = false → False := by
        rw [hframe]
        simp
      cases hkind with
      | nak why hwhy hdamaged => exact absurd (hintact hframe) hdamaged
      | old hlt => omega
      | gap hlt => omega
      | store =>
          refine ⟨?_, fun _ => rfl, fun h => (hno h).elim⟩
          simp only [Recv.onBlock]
          split <;> exact hone not_false

/-- What the receiver has read keeps the row. -/
theorem InRow.turn
    {t : Sender} {m : AcceptedMeta cfg} {r r' : Recv} {c : Command} {commands : List Command}
    {effects : List Effect} (h : InRow t r.expected (c :: commands))
    (hturn : Recv.Turn m job r c r' effects) (hintact : c.isFrame = true → c.Intact)
    (hrst : ∀ id, c = .rst id → frameSeqs commands = [] ∧ t.InReset) :
    InRow t r'.expected commands := by
  obtain ⟨_, hframe, hcontrol⟩ := hturn.content (fun seq hseq => (h.pop hseq).1) hintact
  cases hc : c.isFrame with
  | true =>
      obtain ⟨seq, hseq⟩ := (isFrame_iff_seq c).mp hc
      rw [hframe hc]
      exact (h.pop hseq).2
  | false =>
      have hseq : c.seq? = none := by
        cases hseq : c.seq? with
        | none => rfl
        | some seq =>
            rw [(isFrame_iff_seq c).mpr ⟨seq, hseq⟩] at hc
            cases hc
      by_cases hreset : ∃ id, c = .rst id
      · obtain ⟨id, heq⟩ := hreset
        exact Or.inr (hrst id heq)
      · rw [hcontrol hc fun id heq => hreset ⟨id, heq⟩]
        exact h.pop_control hseq

/-- A line that the sender writes is no frame. -/
theorem Lossless.sent_control
    (hs : Lossless job s) {p : Sender × List Command}
    (hrow : InRow p.1 s.client.expected (s.commands ++ p.2))
    (hcontrol : ∀ c ∈ p.2, c.isFrame = false) :
    Lossless job (s.sent p) where
  intact c hc hframe := by
    rcases List.mem_append.mp hc with hc | hc
    · exact hs.intact c hc hframe
    · rw [hcontrol c hc] at hframe
      cases hframe
  row := hrow
  content := hs.content

/-- The sender reads, or its clock runs out. -/
theorem Lossless.read
    (hs : Lossless job s) (ht : Tracked job s) (hnone : Effect.send .rst ∉ s.trace)
    {r : Option Reply} {replies : List Reply} {p : Sender × List Command}
    (hreplies : s.replies = r.toList ++ replies) (hover : ¬ p.1.Over)
    (hkind : Sender.ReadKind job s.sender r p.1 p.2) :
    Lossless job ({ s with replies }.sent p) := by
  have hrest : Lossless job { s with replies } :=
    { hs with content := fun r' hr' => hs.content r' (hreplies ▸ List.mem_append_right _ hr') }
  have hrow := hs.row.read (hreplies ▸ ht.stage)
    (fun hrst => hnone (ht.told _ (hreplies ▸ hrst))) hover hkind
  exact hrest.sent_control hrow fun c hc => (hkind.control c hc).isFrame

/-- The sender writes the next frame, or DONE, or begins to wait. -/
theorem Lossless.fill
    (hs : Lossless job s) (hg : Genuine job s) (ht : Tracked job s)
    (hphase : s.sender.phase = .fill) {p : Sender × List Command} (hover : ¬ p.1.Over)
    (hkind : Sender.FillKind job s.sender p.1 p.2) :
    Lossless job (s.sent p) := by
  have hframes := hg.frames (by rw [hphase]; simp)
  have hrow := hs.row.of_open (by simp [Sender.InReset, hphase])
  obtain ⟨t, out⟩ := p
  cases hkind with
  | frame frame hcache hblocks =>
      have hof := hcache ▸ isFrameOf_cached hframes
      have hseq : frame.seq? = some s.sender.next_seq := (hof.carries hblocks).isFrame.2
      have hle := (ht.stage.aligned (Or.inr (Or.inl hphase))).le_next
      refine
        { intact := fun c hc hframe => ?_
          row := Or.inl ?_
          content := hs.content }
      · rcases List.mem_append.mp hc with hc | hc
        · exact hs.intact c hc hframe
        · rw [List.mem_singleton.mp hc]
          exact hof.intact
      · show frameSeqs (s.commands ++ [frame]) =
          List.range' s.client.expected (s.sender.next_seq + 1 - s.client.expected)
        rw [frameSeqs_append_frame hseq, hrow, Nat.succ_sub hle, List.range'_1_concat,
          Nat.add_sub_cancel' hle]
  | wait =>
      exact hs.sent_control (Or.inl (by simpa using hrow)) fun c hc => absurd hc List.not_mem_nil
  | done =>
      refine hs.sent_control (Or.inl ?_) (by simp [Command.isFrame])
      rw [frameSeqs_append_control (by simp [Command.seq?])]
      exact hrow
  | failed => exact absurd (Or.inr ⟨_, rfl⟩) hover

/-- A line that is no frame comes out. -/
theorem Lossless.pop
    (hs : Lossless job s) {c : Command} {commands : List Command}
    (hcommands : s.commands = c :: commands) (hseq : c.seq? = none) :
    Lossless job { s with commands } where
  intact c' hc' := hs.intact c' (hcommands ▸ List.mem_cons_of_mem _ hc')
  row := (hcommands ▸ hs.row : InRow s.sender s.client.expected (c :: commands)).pop_control hseq
  content := hs.content

/-- The receiver moves without a block. -/
theorem Lossless.received
    (hs : Lossless job s) {p : Client cfg × List Effect}
    (hexpected : p.1.expected = s.client.expected) (hsends : ∀ r ∈ sends p.2, ¬ r.Complains) :
    Lossless job (s.received p) where
  intact := hs.intact
  row := (hexpected ▸ hs.row : InRow s.sender p.1.expected s.commands)
  content r hr := (List.mem_append.mp hr).elim (hs.content r) (hsends r)

/-- The receiver reads. -/
theorem Lossless.command
    (hs : Lossless job s) (hg : Genuine job s) (ht : Tracked job s) (hover : ¬ s.sender.Over)
    {m : AcceptedMeta cfg} {r : Recv} {c : Command} {commands : List Command}
    {p : Recv × List Effect} (hclient : s.client = .receiving m r)
    (hcommands : s.commands = c :: commands) (hturn : Recv.Turn m job r c p.1 p.2) :
    Lossless job ({ s with commands }.received (.receiving m p.1, p.2)) := by
  have hrow : InRow s.sender r.expected (c :: commands) := by
    have := hcommands ▸ hs.row
    rwa [hclient] at this
  have hintact := hs.intact c (hcommands ▸ List.mem_cons_self)
  obtain ⟨hcontent, _⟩ := hturn.content (fun seq hseq => (hrow.pop hseq).1) hintact
  exact
    { intact := fun c' hc' => hs.intact c' (hcommands ▸ List.mem_cons_of_mem _ hc')
      row := hrow.turn hturn hintact fun id heq =>
        (heq ▸ hcommands ▸ ht.stage :
          StageInv s.sender _ _ (.rst id :: commands) _).reset_of_rst hover hg.block
      content := fun r' hr' => (List.mem_append.mp hr').elim (hs.content r') (hcontent r') }

/-- What waits for a receiver that has not read META is META. -/
theorem Polite.announcement
    (hp : Polite job s) (hover : ¬ s.sender.Over) (hclient : s.client = .awaiting true)
    {c : Command} {commands : List Command} (hcommands : s.commands = c :: commands) :
    c = job.announcement ∧ commands = [] := by
  have hphase : s.sender.phase = .ready := by
    by_contra hready
    exact hp.greeted hready hover true hclient
  rcases hp.opening hphase with ⟨hone, _⟩ | ⟨hnil, _⟩
  · rw [hone] at hcommands
    cases hcommands
    exact ⟨rfl, rfl⟩
  · rw [hnil] at hcommands
    cases hcommands

/-- What a step does to a line that only delays, while the sender is at work. -/
theorem Lossless.move
    (hg : Genuine job s) (ht : Tracked job s) (hp : Polite job s)
    (hnone : Effect.send .rst ∉ s.trace) (hover : ¬ s.sender.Over) (hover' : ¬ s'.sender.Over)
    (hs : Lossless job s)
    {e : Event} (he : Faults.delayed.permit e = true) (h : Move job s e s') :
    Lossless job s' := by
  have hnothing : ∀ r ∈ ([] : List Reply), ¬ r.Complains := fun _ hr => absurd hr List.not_mem_nil
  cases h with
  | fill p hphase hkind => exact hs.fill hg ht hphase hover' hkind
  | timeout p hkind => exact hs.read ht hnone (r := none) rfl hover' hkind
  | reply late r replies p hreplies hkind =>
      exact hs.read ht hnone (r := some r) hreplies hover' hkind
  | command m r c commands p hclient hcommands hphase hreads hturn =>
      exact hs.command hg ht hover hclient hcommands hturn
  | accept m commands hclient hcommands hm =>
      refine (hs.pop hcommands rfl).received (by rw [hclient]; rfl) fun r hr => ?_
      have hready : r = .ready := by simpa [Recv.startEffects, sends] using hr
      rw [hready]
      exact not_false
  | refuse c commands exc effects hclient hcommands heffects =>
      obtain ⟨rfl, _⟩ := hp.announcement hover hclient hcommands
      refine (hs.pop hcommands rfl).received (by rw [hclient]; rfl) fun r hr => ?_
      rcases heffects with rfl | ⟨_, code, _, rfl⟩
      · cases hr
      · rw [List.mem_singleton.mp hr]
        exact not_false
  | commit m r hclient hphase => exact hs.received (by rw [hclient]; rfl) hnothing
  | giveUp m r exc hclient hphase hstep hmessage => exact hs.received (by rw [hclient]; rfl) hnothing
  | giveUpMeta exc hclient => exact hs.received (by rw [hclient]; rfl) hnothing
  | _ => cases he

theorem lossless_start (barrier_id : Nat) (reset_token : Option Line) :
    Lossless job (Transfer.start cfg job barrier_id reset_token) where
  intact := by simp [Transfer.start, Job.announcement, Command.isFrame]
  row := Or.inl rfl
  content := by simp [Transfer.start]

end Invariant

end Pcutp
