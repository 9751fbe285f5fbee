import Pcutp.Credit

/-!
# A receiver that starts the file again by itself

When too many frames skip a block, `_receive` goes back to the start and says so
with an RST 0.  Until the sender hears of it the two ends are adrift: the
receiver waits for block 0, the window lies above it, and nothing in flight can
bring them together.  `Standing` says that the ends are abreast, as in `StageInv`,
or adrift, and that every move over a line that keeps the order keeps this.
-/

namespace Pcutp

open Channel (Epoch copyAt)

/-- A line that loses and repeats, but keeps the order. -/
def Faults.copying : Faults where
  loss := true
  duplication := true
  reordering := false
  damage := false
  timeouts := true

/-- The phases in which the sender takes the receiver to be in its window. -/
def Sender.Aligns (s : Sender) : Prop :=
  s.phase = .ready ∨ s.phase = .fill ∨ s.phase = .final ∨ s.Listening ∨
    ∃ left, s.phase = .barrier false left

theorem Sender.Aligns.not_over
    {s : Sender} (h : s.Aligns) :
    ¬ s.Over := by
  rintro (⟨_, hphase⟩ | ⟨_, hphase⟩) <;>
    simp [Sender.Aligns, Sender.Listening, hphase] at h

theorem Sender.Listening.aligns
    {s : Sender} (h : s.Listening) :
    s.Aligns :=
  Or.inr (Or.inr (Or.inr (Or.inl h)))

/-- The frame of a block is written after those of the blocks before it. -/
def Command.Before (c c' : Command) : Prop :=
  ∀ seq seq', c.seq? = some seq → c'.seq? = some seq' → seq ≤ seq'

theorem Command.before_refl (c : Command) :
    c.Before c := by
  intro seq seq' h h'
  rw [h] at h'
  exact (Option.some.inj h').le

section Standing

/-- The ends are abreast: what is in flight is what the stage of the sender promises, the frames
are in the order of their blocks, and no RST 0 is on its way. -/
structure Abreast (s : Sender) (blocks e : Nat) (commands : List Command)
    (replies : List Reply) : Prop where
  stage : StageInv s blocks e commands replies
  sorted : s.Aligns → commands.Pairwise Command.Before
  noRestart : s.Aligns → Reply.rst ∉ replies

/-- The ends are adrift: the receiver waits for block 0, and every frame in flight is one of a
later block.  `reached` is where the receiver was before. -/
structure Adrift (s : Sender) (blocks e : Nat) (commands : List Command)
    (replies : List Reply) : Prop where
  phase : s.phase = .fill ∨ s.Listening ∨ ∃ reset left, s.phase = .barrier reset left
  zero : e = 0
  base_pos : 0 < s.base
  reached : ∃ k, s.base ≤ k ∧ k < s.next_seq ∧ ∀ a, Reply.ack a ∈ replies → a < k
  next_le : s.next_seq ≤ blocks
  frames : ∀ c ∈ commands, ∀ seq, c.seq? = some seq → 0 < seq ∧ seq < s.next_seq
  noRst : ∀ t, Command.rst t ∉ commands
  noRstAck : ∀ w, Reply.rstAck w ∉ replies
  epoch : ∀ reset left, s.phase = .barrier reset left →
    Epoch (fun r => ∃ n, r = Reply.resume (dec s.barrier_id) n)
      (fun c => c = Command.barrier s.barrier_id) replies commands
  resume : ∀ reset left, s.phase = .barrier reset left →
    ∀ n, Reply.resume (dec s.barrier_id) n ∈ replies → n = 0

/-- Where the two ends stand to each other. -/
def Standing (s : Sender) (blocks e : Nat) (commands : List Command) (replies : List Reply) :
    Prop :=
  Abreast s blocks e commands replies ∨ Adrift s blocks e commands replies

/-- What the counters of `_send_window` say by themselves. -/
structure Counters (s : Sender) (blocks : Nat) : Prop where
  base_le : s.base ≤ s.next_seq
  next_le : s.next_seq ≤ blocks
  narrow : s.base = 0 → s.cwnd = 1 ∧ s.next_seq ≤ 1
  ready : s.phase = .ready → s.next_seq = 0
  final : s.phase = .final → blocks ≤ s.base

end Standing

section Counters

variable {job : Job} {s s' : Sender} {out : List Command}

/-- A read keeps the counters in order, unless it ends the transfer. -/
theorem Counters.read
    {r : Option Reply} (h : Counters s job.blocks)
    (hkind : Sender.ReadKind job s r s' out) (hover : ¬ s'.Over) :
    Counters s' job.blocks := by
  cases hkind with
  | begin hphase => exact { h with ready := by simp, final := by simp }
  | refused r hphase => exact absurd (Or.inl ⟨_, rfl⟩) hover
  | advance a hphase hbase hsent =>
      exact
        { base_le := hsent
          next_le := h.next_le
          narrow := fun hzero => absurd hzero (Nat.succ_ne_zero a)
          ready := by simp [Sender.advance]
          final := by simp [Sender.advance] }
  | unsent => exact absurd (Or.inr ⟨_, rfl⟩) hover
  | wait r phase hwait =>
      generalize hp : s.phase = p at hwait
      cases hwait with
      | final => exact { h with ready := by simp, final := fun _ => h.final hp }
      | _ => exact { h with ready := by simp, final := by simp }
  | probe hphase =>
      exact
        { base_le := h.base_le
          next_le := h.next_le
          narrow := fun hzero => ⟨rfl, (h.narrow hzero).2⟩
          ready := by simp
          final := by simp }
  | gap r hphase hgap =>
      exact
        { base_le := h.base_le
          next_le := h.next_le
          narrow := fun hzero => ⟨rfl, (h.narrow hzero).2⟩
          ready := by simp
          final := by simp }
  | resumed left n hphase hlo hhi =>
      refine
        { base_le := Nat.le_refl _
          next_le := hhi.trans h.next_le
          narrow := fun hzero => ?_
          ready := by simp
          final := by simp }
      have hn : n = 0 := hzero
      exact ⟨(h.narrow (Nat.le_zero.mp (hn ▸ hlo))).1, hn.le.trans (Nat.zero_le 1)⟩
  | resumedReset left hphase =>
      exact
        { base_le := Nat.le_refl _
          next_le := Nat.zero_le _
          narrow := fun _ => ⟨rfl, Nat.zero_le 1⟩
          ready := by simp
          final := by simp }
  | badReset => exact absurd (Or.inr ⟨_, rfl⟩) hover
  | badResume => exact absurd (Or.inr ⟨_, rfl⟩) hover
  | failed r s' exc out hphase hphase' => exact absurd (Or.inr ⟨exc, hphase'⟩) hover
  | ended r phase hphase hphase' =>
      rcases hphase' with ⟨exc, rfl, _⟩ | ⟨result, rfl⟩
      · exact absurd (Or.inr ⟨_, rfl⟩) hover
      · exact absurd (Or.inl ⟨_, rfl⟩) hover
  | _ => exact { h with ready := by simp, final := by simp }

/-- What `_send_window` does without reading keeps the counters in order. -/
theorem Counters.fill
    (h : Counters s job.blocks) (hphase : s.phase = .fill)
    (hkind : Sender.FillKind job s s' out) (hover : ¬ s'.Over) :
    Counters s' job.blocks := by
  cases hkind with
  | frame frame hframe hblocks hroom hbase =>
      refine
        { base_le := h.base_le.trans (Nat.le_succ _)
          next_le := hblocks
          narrow := fun hzero => ?_
          ready := by simp [Sender.writeFrame, hphase]
          final := by simp [Sender.writeFrame, hphase] }
      have hzero' : s.base = 0 := hzero
      obtain ⟨hcwnd, _⟩ := h.narrow hzero'
      rw [hzero', hcwnd] at hroom
      exact ⟨hcwnd, hroom⟩
  | wait => exact { h with ready := by simp, final := by simp }
  | done hblocks => exact { h with ready := by simp, final := fun _ => hblocks }
  | failed exc => exact absurd (Or.inr ⟨_, rfl⟩) hover

end Counters

section Turns

variable {s : Sender} {blocks e d e' d' : Nat} {c : Command} {commands : List Command}
  {replies out : List Reply}

/-- The receiver restarts the file by itself only on a frame beyond the block it waits for. -/
theorem Turned.restarts
    (h : Turned blocks c (e, d) (e', d') out) (hrst : Reply.rst ∈ out) :
    e' = 0 ∧ out = [.rst] ∧ ∃ seq, c.seq? = some seq ∧ e < seq := by
  cases h with
  | restart c seq e d hseq hlt => exact ⟨rfl, rfl, seq, hseq, hlt⟩
  | answer c e d reply hprobe hreply =>
      rcases hreply with rfl | ⟨w, rfl | rfl | rfl⟩ <;> simp at hrst
  | _ => simp at hrst

/-- A receiver that restarts while an RST request is out is where the request wants it. -/
theorem Resetting.restart
    (hs : Resetting s blocks e (c :: commands) replies) {seq : Nat} (hseq : c.seq? = some seq) :
    Resetting s blocks 0 commands (replies ++ [.rst]) where
  le_next := Nat.zero_le _
  next_le := hs.next_le
  frames := fun c' hc' => hs.frames c' (List.mem_cons_of_mem _ hc')
  rst := fun t hmem => hs.rst t (List.mem_cons_of_mem _ hmem)
  rstAck := fun w hmem => hs.rstAck w (by simpa using hmem)
  epoch := hs.epoch.turn (by simp) (by simp [ne_of_seq (b := .rst s.barrier_id) hseq rfl])
  zero := fun _ => rfl

/-- A sender that is about to restart, or is over, takes the restart of the receiver. -/
theorem StageInv.restart
    (hs : StageInv s blocks e (c :: commands) replies) (haligns : ¬ s.Aligns)
    {seq : Nat} (hseq : c.seq? = some seq) :
    StageInv s blocks 0 commands (replies ++ [.rst]) := by
  cases hphase : s.phase with
  | rst left =>
      rw [StageInv, hphase]
      exact (hs.of_rst hphase).restart hseq
  | barrier reset left =>
      cases reset with
      | true =>
          -- Only the request and the barrier are on the way.
          rcases (hs.of_barrier_true hphase).command c List.mem_cons_self with ⟨t, rfl, _⟩ | rfl <;>
            cases hseq
      | false => exact absurd (by simp [Sender.Aligns, hphase]) haligns
  | block attempt timeouts =>
      rw [StageInv, hphase]
      trivial
  | returned result =>
      rw [StageInv, hphase]
      trivial
  | raised exc =>
      rw [StageInv, hphase]
      trivial
  | _ => exact absurd (by simp [Sender.Aligns, Sender.Listening, hphase]) haligns

/-- A receiver that restarts below an open window goes adrift. -/
theorem Abreast.adrift
    (hs : Abreast s blocks e (c :: commands) replies) (haligns : s.Aligns)
    (hc : Counters s blocks) {seq : Nat} (hseq : c.seq? = some seq) (hlt : e < seq) :
    Adrift s blocks 0 commands (replies ++ [.rst]) := by
  have ha := hs.stage.aligned haligns
  have hseq' := ha.frames c List.mem_cons_self seq hseq
  have hsorted := List.pairwise_cons.mp (hs.sorted haligns)
  have hpos : 0 < s.base := by
    -- A window at the start of the file holds one block.
    rcases Nat.eq_zero_or_pos s.base with hzero | hpos
    · have := (hc.narrow hzero).2
      omega
    · exact hpos
  have hphase : s.phase = .fill ∨ s.Listening ∨ ∃ reset left, s.phase = .barrier reset left := by
    rcases haligns with h | h | h | h | ⟨left, h⟩
    · have := hc.ready h
      omega
    · exact Or.inl h
    · have := hc.final h
      have := ha.base_le
      have := ha.next_le
      omega
    · exact Or.inr (Or.inl h)
    · exact Or.inr (Or.inr ⟨false, left, h⟩)
  have hdraining : ∀ {reset left}, s.phase = .barrier reset left →
      Epoch (fun r => ∃ n, r = Reply.resume (dec s.barrier_id) n)
        (fun c => c = Command.barrier s.barrier_id) replies (c :: commands) := by
    intro reset left hbarrier
    cases reset with
    | false => exact (hs.stage.of_barrier_false hbarrier).2.epoch
    | true => simp [Sender.Aligns, Sender.Listening, hbarrier] at haligns
  refine
    { phase := hphase
      zero := rfl
      base_pos := hpos
      reached := ⟨e, ha.base_le, hlt.trans hseq', fun a hmem => ha.acks a (by simpa using hmem)⟩
      next_le := ha.next_le
      frames := fun c' hc' seq' hseq₂ => ?_
      noRst := fun t hmem => ha.noRst t (List.mem_cons_of_mem _ hmem)
      noRstAck := fun w hmem => ha.noRstAck w (by simpa using hmem)
      epoch := fun reset left hbarrier => (hdraining hbarrier).turn (by simp)
        (by simp [ne_of_seq (b := .barrier s.barrier_id) hseq rfl])
      resume := fun reset left hbarrier n hmem => ?_ }
  · have hle := hsorted.1 c' hc' seq seq' hseq hseq₂
    exact ⟨by omega, ha.frames c' (List.mem_cons_of_mem _ hc') seq' hseq₂⟩
  · -- Behind the answer to a barrier there is no frame to restart on.
    have hback := (hdraining hbarrier).back_of_mem (by simpa using hmem) ⟨n, rfl⟩ c
      List.mem_cons_self
    exact absurd hback (ne_of_seq hseq rfl)

/-- A turn of a receiver that is adrift leaves it where it is. -/
theorem Adrift.turned
    (hs : Adrift s blocks e (c :: commands) replies)
    (h : Turned blocks c (e, d) (e', d') out) :
    Adrift s blocks e' commands (replies ++ out) := by
  have hzero := hs.zero
  subst hzero
  have hnot : ∀ t, c ≠ .rst t := by
    rintro t rfl
    exact hs.noRst t List.mem_cons_self
  -- No frame is the one that the receiver waits for, or one that it has.
  have hout : e' = 0 ∧ (∀ a, Reply.ack a ∉ out) ∧ (∀ w, Reply.rstAck w ∉ out) ∧
      ∀ w n, Reply.resume w n ∈ out → n = 0 := by
    cases h with
    | rst t => exact absurd rfl (hnot t)
    | answer c e d reply hprobe hreply =>
        rcases hreply with rfl | ⟨w, rfl | rfl | rfl⟩ <;> simp
    | old c seq e d hseq hlt => exact absurd hlt (Nat.not_lt_zero _)
    | store c e d hseq =>
        exact absurd (hs.frames c List.mem_cons_self 0 hseq).1 (Nat.lt_irrefl 0)
    | _ => simp
  obtain ⟨rfl, hacks, hrstAcks, hresumes⟩ := hout
  obtain ⟨k, hbase, hnext, hold⟩ := hs.reached
  refine
    { phase := hs.phase
      zero := rfl
      base_pos := hs.base_pos
      reached := ⟨k, hbase, hnext, fun a hmem => ?_⟩
      next_le := hs.next_le
      frames := fun c' hc' => hs.frames c' (List.mem_cons_of_mem _ hc')
      noRst := fun t hmem => hs.noRst t (List.mem_cons_of_mem _ hmem)
      noRstAck := fun w hmem => ?_
      epoch := fun reset left hphase => (hs.epoch reset left hphase).turn h.length_le
        (h.resume_iff s.barrier_id)
      resume := fun reset left hphase n hmem => ?_ }
  · exact (List.mem_append.mp hmem).elim (hold a) fun hmem => absurd hmem (hacks a)
  · exact (List.mem_append.mp hmem).elim (hs.noRstAck w) (hrstAcks w)
  · exact (List.mem_append.mp hmem).elim (hs.resume reset left hphase n) (hresumes _ n)

/-- A turn of the receiver keeps the standing. -/
theorem Standing.turned
    (hs : Standing s blocks e (c :: commands) replies) (hcounted : ¬ s.Over → Counters s blocks)
    (h : Turned blocks c (e, d) (e', d') out) :
    Standing s blocks e' commands (replies ++ out) := by
  rcases hs with hs | hs
  · by_cases hrst : Reply.rst ∈ out
    · obtain ⟨rfl, rfl, seq, hseq, hlt⟩ := h.restarts hrst
      by_cases haligns : s.Aligns
      · exact Or.inr (hs.adrift haligns (hcounted haligns.not_over) hseq hlt)
      · exact Or.inl ⟨hs.stage.restart haligns hseq, fun h => absurd h haligns,
          fun h => absurd h haligns⟩
    · exact Or.inl
        { stage := hs.stage.turned h hrst
          sorted := fun haligns => (List.pairwise_cons.mp (hs.sorted haligns)).2
          noRestart := fun haligns hmem =>
            (List.mem_append.mp hmem).elim (hs.noRestart haligns) hrst }
  · exact Or.inr (hs.turned h)

end Turns

section Line

variable {s : Sender} {blocks e : Nat} {commands commands' : List Command}
  {replies replies' : List Reply}

/-- The standing survives a line that keeps the order. -/
theorem Standing.weathered
    (hs : Standing s blocks e commands replies) (h : Weathered commands replies commands' replies')
    (hsorted : commands.Pairwise Command.Before → commands'.Pairwise Command.Before) :
    Standing s blocks e commands' replies' := by
  rcases hs with hs | hs
  · exact Or.inl
      { stage := hs.stage.weathered h
        sorted := fun haligns => hsorted (hs.sorted haligns)
        noRestart := fun haligns hmem => hs.noRestart haligns (h.reply _ hmem) }
  · obtain ⟨k, hbase, hnext, hold⟩ := hs.reached
    exact Or.inr
      { hs with
        reached := ⟨k, hbase, hnext, fun a hmem => hold a (h.reply _ hmem)⟩
        frames := fun c hc seq hseq => by
          rcases h.command c hc with hc | ⟨c₀, hc₀, hframe, bytes, rfl⟩
          · exact hs.frames c hc seq hseq
          · exact hs.frames c₀ hc₀ seq ((withPayload_control hframe bytes).2 ▸ hseq)
        noRst := fun t hmem => hs.noRst t (h.control rfl hmem)
        noRstAck := fun w hmem => hs.noRstAck w (h.reply _ hmem)
        epoch := fun reset left hphase => h.epoch _ _
          (fun c hframe bytes => control_epoch rfl hframe bytes) (hs.epoch reset left hphase)
        resume := fun reset left hphase n hmem => hs.resume reset left hphase n (h.reply _ hmem) }

end Line

section Reads

variable {job : Job} {s s' : Sender} {e : Nat} {commands : List Command} {replies : List Reply}
  {r : Option Reply} {out : List Command}

/-- Control lines are written behind any frame. -/
theorem pairwise_before_append
    (h : commands.Pairwise Command.Before) (hout : ∀ c ∈ out, c.seq? = none)
    (hone : out.length ≤ 1) :
    (commands ++ out).Pairwise Command.Before := by
  refine List.pairwise_append.mpr ⟨h, ?_, fun c _ c' hc' seq seq' _ hseq' => ?_⟩
  · match out, hone with
    | [], _ => exact List.Pairwise.nil
    | [c], _ => exact List.pairwise_singleton _ _
  · rw [hout c' hc'] at hseq'
    cases hseq'

/-- Once only barriers are on the way, they are in order, and no RST 0 is behind them. -/
theorem abreast_of_drained
    {id : Nat} (hstage : StageInv s job.blocks e commands replies)
    (hcommands : ∀ c ∈ commands, c = .barrier id)
    (hreplies : ∀ r ∈ replies, ∃ n, r = .resume (dec id) n) :
    Abreast s job.blocks e commands replies where
  stage := hstage
  sorted := fun _ => List.pairwise_of_forall_mem_list fun c hc c' _ seq _ hseq => by
    rw [hcommands c hc] at hseq
    cases hseq
  noRestart := fun _ hmem => by
    obtain ⟨n, heq⟩ := hreplies _ hmem
    cases heq

theorem abreast_of_over
    (hover : s.Over) :
    Abreast s job.blocks e commands replies := by
  refine ⟨?_, fun h => absurd hover h.not_over, fun h => absurd hover h.not_over⟩
  rcases hover with ⟨_, hphase⟩ | ⟨_, hphase⟩ <;> rw [StageInv, hphase] <;> trivial

theorem Sender.ReadKind.length_le
    (h : Sender.ReadKind job s r s' out) :
    out.length ≤ 1 := by
  cases h with
  | failed r s' exc out hphase hphase' hmessage hcode hid hout =>
      rcases hout with rfl | rfl <;> simp
  | _ => simp [Sender.fail]

/-- The ends stay abreast in a read while the sender takes the receiver to be in its window. -/
theorem Abreast.read
    (hs : Abreast s job.blocks e commands (r.toList ++ replies)) (haligns : s.Aligns)
    (hreplies : ∀ r' ∈ r.toList ++ replies, r'.TokenLe s.barrier_id)
    (hcommands : ∀ c ∈ commands, c.TokenLe s.barrier_id)
    (hkind : Sender.ReadKind job s r s' out) :
    Abreast s' job.blocks e (commands ++ out) replies where
  stage := (hs.stage.read hreplies hcommands (hs.noRestart haligns) hkind).1
  sorted := fun _ => pairwise_before_append (hs.sorted haligns)
    (fun c hc => seq_eq_none_of_control (hkind.control c hc)) hkind.length_le
  noRestart := fun _ hmem => hs.noRestart haligns (List.mem_append_right _ hmem)

/-- While the sender restarts, the ends stay abreast in a read. -/
theorem Abreast.read_reset
    (hs : Abreast s job.blocks e commands (r.toList ++ replies)) (haligns : ¬ s.Aligns)
    (hreplies : ∀ r' ∈ r.toList ++ replies, r'.TokenLe s.barrier_id)
    (hcommands : ∀ c ∈ commands, c.TokenLe s.barrier_id)
    (hkind : Sender.ReadKind job s r s' out) :
    Abreast s' job.blocks e (commands ++ out) replies := by
  have hpop : StageInv s job.blocks e commands replies := by
    cases r with
    | none => exact hs.stage
    | some r => exact hs.stage.weathered (.pop rfl)
  have hrest : ∀ r' ∈ replies, r'.TokenLe s.barrier_id :=
    fun r' hr' => hreplies r' (List.mem_append_right _ hr')
  -- The reset is not over: neither the order of the frames nor an RST 0 matters.
  have hclosed : ∀ {t : Sender} {commands' : List Command}, ¬ t.Aligns →
      StageInv t job.blocks e commands' replies → Abreast t job.blocks e commands' replies :=
    fun hnot hstage => ⟨hstage, fun h => absurd h hnot, fun h => absurd h hnot⟩
  have hopen : s.Listening → False := fun h => haligns h.aligns
  cases hkind with
  | begin hphase => exact absurd (Or.inl hphase) haligns
  | refused r hphase => exact absurd (Or.inl hphase) haligns
  | advance a hphase => exact (hopen hphase).elim
  | unsent a hphase => exact (hopen hphase).elim
  | wait r phase hwait =>
      rw [List.append_nil]
      refine hclosed ?_ (hpop.wait hwait)
      generalize hp : s.phase = p at hwait
      cases hwait with
      | rst left => simp [Sender.Aligns, Sender.Listening]
      | barrier reset left =>
          cases reset with
          | true => simp [Sender.Aligns, Sender.Listening]
          | false => exact absurd (by simp [Sender.Aligns, hp]) haligns
      | _ => exact absurd (by simp [Sender.Aligns, Sender.Listening, hp]) haligns
  | probe hphase => exact (hopen (Or.inl hphase)).elim
  | askAlive r left hphase => exact (hopen (Or.inr hphase)).elim
  | askRestart r hphase => exact (hopen (Or.inr hphase)).elim
  | askReset r left hphase =>
      have hr := (hpop.of_rst hphase).push
      exact hclosed (by simp [Sender.Aligns, Sender.Listening]) { hr with }
  | askBarrier r reset left hphase =>
      cases reset with
      | true =>
          have hr := (hpop.of_barrier_true hphase).push
          exact hclosed (by simp [Sender.Aligns, Sender.Listening]) { hr with }
      | false => exact absurd (by simp [Sender.Aligns, hphase]) haligns
  | gap r hphase => exact (hopen hphase).elim
  | restarted hphase => exact (hopen hphase).elim
  | resetDone left hphase =>
      exact hclosed (by simp [Sender.Aligns, Sender.Listening])
        ((hs.stage.of_rst hphase).restarting hrest hcommands rfl rfl)
  | resumed left n hphase => exact absurd (by simp [Sender.Aligns, hphase]) haligns
  | resumedReset left hphase =>
      have hr := hs.stage.of_barrier_true hphase
      obtain ⟨_, hcommands', hreplies'⟩ := hr.answered
      rw [List.append_nil]
      exact abreast_of_drained (aligned_of_drained hcommands' hreplies' hr.zero.symm hr.zero.symm
        (hr.zero ▸ Nat.zero_le _)) hcommands' hreplies'
  | badReset => exact abreast_of_over (Or.inr ⟨_, rfl⟩)
  | badResume => exact abreast_of_over (Or.inr ⟨_, rfl⟩)
  | failed r s' exc out hphase hphase' => exact abreast_of_over (Or.inr ⟨exc, hphase'⟩)
  | ended r phase hphase => exact absurd (by simp [Sender.Aligns, hphase]) haligns

/-- A control line that is no RST request joins ends that are adrift, and the sender goes on
where its window is. -/
theorem Adrift.push
    (hs : Adrift s job.blocks e commands replies)
    (hphase : s'.phase = .fill ∨ s'.Listening ∨ ∃ reset left, s'.phase = .barrier reset left)
    (hbase : s'.base = s.base) (hnext : s'.next_seq = s.next_seq)
    (hframes : ∀ c ∈ out, c.seq? = none) (hrst : ∀ t, Command.rst t ∉ out)
    (hepoch : ∀ reset left, s'.phase = .barrier reset left →
      Epoch (fun r => ∃ n, r = Reply.resume (dec s'.barrier_id) n)
        (fun c => c = Command.barrier s'.barrier_id) replies (commands ++ out))
    (hresume : ∀ reset left, s'.phase = .barrier reset left →
      ∀ n, Reply.resume (dec s'.barrier_id) n ∈ replies → n = 0) :
    Adrift s' job.blocks e (commands ++ out) replies where
  phase := hphase
  zero := hs.zero
  base_pos := hbase ▸ hs.base_pos
  reached := by
    rw [hbase, hnext]
    exact hs.reached
  next_le := hnext ▸ hs.next_le
  frames := by
    intro c hc seq hseq
    rw [hnext]
    rcases List.mem_append.mp hc with hc | hc
    · exact hs.frames c hc seq hseq
    · rw [hframes c hc] at hseq
      cases hseq
  noRst := fun t hmem => (List.mem_append.mp hmem).elim (hs.noRst t) (hrst t)
  noRstAck := hs.noRstAck
  epoch := hepoch
  resume := hresume

/-- With its oldest reply read the line is still adrift. -/
theorem Adrift.pop
    (hs : Adrift s job.blocks e commands (r.toList ++ replies)) :
    Adrift s job.blocks e commands replies := by
  obtain ⟨k, hbase, hnext, hold⟩ := hs.reached
  exact
    { hs with
      reached := ⟨k, hbase, hnext, fun a hmem => hold a (List.mem_append_right _ hmem)⟩
      noRstAck := fun w hmem => hs.noRstAck w (List.mem_append_right _ hmem)
      epoch := fun reset left hphase => by
        have hepoch := hs.epoch reset left hphase
        cases r with
        | none => exact hepoch
        | some r => exact hepoch.pop
      resume := fun reset left hphase n hmem =>
        hs.resume reset left hphase n (List.mem_append_right _ hmem) }

theorem Adrift.phase_ne
    (hs : Adrift s job.blocks e commands replies) {phase : SendPhase} (hphase : s.phase = phase) :
    phase ≠ .ready ∧ phase ≠ .final ∧ ∀ left, phase ≠ .rst left := by
  rcases hs.phase with h | (h | ⟨_, h⟩ | ⟨_, h⟩) | ⟨_, _, h⟩ <;> rw [← hphase, h] <;> simp

/-- A fresh barrier begins an epoch, and no RESUME for it is on the way. -/
theorem Adrift.barrier
    (hs : Adrift s job.blocks e commands replies)
    (hreplies : ∀ r' ∈ replies, r'.TokenLe s.barrier_id)
    (hcommands : ∀ c ∈ commands, c.TokenLe s.barrier_id) {reset : Bool} {left : Nat}
    (hphase : s'.phase = .barrier reset left) (hid : s'.barrier_id = s.barrier_id + 1)
    (hbase : s'.base = s.base) (hnext : s'.next_seq = s.next_seq) :
    Adrift s' job.blocks e (commands ++ [.barrier (s.barrier_id + 1)]) replies := by
  refine hs.push (Or.inr (Or.inr ⟨reset, left, hphase⟩)) hbase hnext (by simp [Command.seq?])
    (by simp) (fun _ _ _ => ?_) (fun _ _ _ n hmem => ?_)
  · rw [hid]
    exact fresh_barrier hreplies hcommands
  · rw [hid] at hmem
    exact absurd ⟨n, rfl⟩ (resume_not_fresh hreplies _ hmem)

/-- The sender asks for a restart, and no other request for one is on the line. -/
theorem Adrift.askRestart
    (hs : Adrift s job.blocks e commands replies) (hnext : s'.next_seq = s.next_seq) :
    Resetting s' job.blocks e (commands ++ [.rst s'.barrier_id]) replies where
  le_next := hs.zero ▸ Nat.zero_le _
  next_le := hnext ▸ hs.next_le
  frames := by
    intro c hc seq hseq
    rw [hnext]
    rcases List.mem_append.mp hc with hc | hc
    · exact (hs.frames c hc seq hseq).2
    · rw [List.mem_singleton.mp hc] at hseq
      cases hseq
  rst := by
    intro t hmem
    rcases List.mem_append.mp hmem with hmem | hmem
    · exact absurd hmem (hs.noRst t)
    · cases List.mem_singleton.mp hmem
      rfl
  rstAck := fun w hmem => absurd hmem (hs.noRstAck w)
  epoch := by
    refine (Epoch.fresh ?_ ?_).push rfl
    · rintro r hr rfl
      exact hs.noRstAck _ hr
    · rintro c hc rfl
      exact hs.noRst _ hc
  zero := fun _ => hs.zero

/-- In a read the ends stay adrift, or the sender restarts, or it gives up. -/
theorem Adrift.read
    (hs : Adrift s job.blocks e commands (r.toList ++ replies))
    (hreplies : ∀ r' ∈ r.toList ++ replies, r'.TokenLe s.barrier_id)
    (hcommands : ∀ c ∈ commands, c.TokenLe s.barrier_id)
    (hkind : Sender.ReadKind job s r s' out) :
    Standing s' job.blocks e (commands ++ out) replies := by
  have hrest : ∀ r' ∈ replies, r'.TokenLe s.barrier_id :=
    fun r' hr' => hreplies r' (List.mem_append_right _ hr')
  have hpop := hs.pop
  cases hkind with
  | begin hphase => exact absurd rfl (hs.phase_ne hphase).1
  | refused r hphase => exact absurd rfl (hs.phase_ne hphase).1
  | advance a hphase hbase hsent =>
      obtain ⟨k, _, hnext, hold⟩ := hs.reached
      have hlt : a < k := hold a List.mem_cons_self
      rw [List.append_nil]
      exact Or.inr
        { hpop with
          phase := Or.inl rfl
          base_pos := Nat.succ_pos a
          reached := ⟨k, hlt, hnext, fun a' hmem => hold a' (List.mem_cons_of_mem _ hmem)⟩
          epoch := fun reset left hphase' => by cases hphase'
          resume := fun reset left hphase' => by cases hphase' }
  | unsent => exact Or.inl (abreast_of_over (Or.inr ⟨_, rfl⟩))
  | wait r phase hwait =>
      generalize hp : s.phase = p at hwait
      have hkeep : (∀ reset left, phase = .barrier reset left → s.phase = .barrier reset left) →
          (phase = .fill ∨ ({ s with phase } : Sender).Listening ∨
            ∃ reset left, phase = .barrier reset left) →
          Standing { s with phase } job.blocks e (commands ++ []) replies := fun hsame hphase =>
        Or.inr (hpop.push hphase rfl rfl (by simp) (by simp)
          (fun reset left h => by
            rw [List.append_nil]
            exact hpop.epoch reset left (hsame reset left h))
          fun reset left h => hpop.resume reset left (hsame reset left h))
      cases hwait with
      | rst left => exact absurd rfl ((hs.phase_ne hp).2.2 left)
      | final => exact absurd rfl (hs.phase_ne hp).2.1
      | barrier reset left =>
          exact hkeep (fun _ _ h => hp.trans h) (Or.inr (Or.inr ⟨reset, left, rfl⟩))
      | _ => exact hkeep (by simp) (Or.inr (Or.inl (by simp [Sender.Listening])))
  | probe hphase =>
      exact Or.inr (hpop.push (Or.inr (Or.inl (Or.inr (Or.inl ⟨false, rfl⟩)))) rfl rfl (by simp)
        (by simp) (by simp) (by simp))
  | askAlive r left hphase =>
      exact Or.inr (hpop.push (Or.inr (Or.inl (Or.inr (Or.inr ⟨left, rfl⟩)))) rfl rfl
        (by simp [Command.seq?]) (by simp) (by simp) (by simp))
  | askRestart r hphase =>
      exact Or.inl ⟨hpop.askRestart rfl, by simp [Sender.Aligns, Sender.Listening],
        by simp [Sender.Aligns, Sender.Listening]⟩
  | askReset r left hphase => exact absurd rfl ((hs.phase_ne hphase).2.2 _)
  | askBarrier r reset left hphase =>
      exact Or.inr (hpop.push (Or.inr (Or.inr ⟨reset, left, rfl⟩)) rfl rfl (by simp [Command.seq?])
        (by simp) (fun _ _ _ => (hpop.epoch _ _ hphase).push rfl)
        fun _ _ _ => hpop.resume _ _ hphase)
  | gap r hphase hgap => exact Or.inr (hpop.barrier hrest hcommands rfl rfl rfl rfl)
  | restarted hphase => exact Or.inr (hpop.barrier hrest hcommands rfl rfl rfl rfl)
  | resetDone left hphase => exact absurd rfl ((hs.phase_ne hphase).2.2 _)
  | resumed left n hphase hlo hhi =>
      have hn := hs.resume false left hphase n List.mem_cons_self
      have := hs.base_pos
      omega
  | resumedReset left hphase =>
      obtain ⟨hreplies', hcommands'⟩ := (hs.epoch true left hphase).after ⟨0, rfl⟩
      rw [List.append_nil]
      exact Or.inl (abreast_of_drained (aligned_of_drained hcommands' hreplies' hs.zero.symm
        hs.zero.symm (hs.zero ▸ Nat.zero_le _)) hcommands' hreplies')
  | badReset => exact Or.inl (abreast_of_over (Or.inr ⟨_, rfl⟩))
  | badResume => exact Or.inl (abreast_of_over (Or.inr ⟨_, rfl⟩))
  | failed r s' exc out hphase hphase' => exact Or.inl (abreast_of_over (Or.inr ⟨exc, hphase'⟩))
  | ended r phase hphase => exact absurd rfl (hs.phase_ne hphase).2.1

/-- A read keeps the standing. -/
theorem Standing.read
    (hs : Standing s job.blocks e commands (r.toList ++ replies))
    (hreplies : ∀ r' ∈ r.toList ++ replies, r'.TokenLe s.barrier_id)
    (hcommands : ∀ c ∈ commands, c.TokenLe s.barrier_id)
    (hkind : Sender.ReadKind job s r s' out) :
    Standing s' job.blocks e (commands ++ out) replies := by
  rcases hs with hs | hs
  · by_cases haligns : s.Aligns
    · exact Or.inl (hs.read haligns hreplies hcommands hkind)
    · exact Or.inl (hs.read_reset haligns hreplies hcommands hkind)
  · exact hs.read hreplies hcommands hkind

/-- What `_send_window` does without reading keeps the standing. -/
theorem Standing.fill
    (hs : Standing s job.blocks e commands replies) (hphase : s.phase = .fill)
    (hframes : ∀ seq c, s.frames seq = some c → job.IsFrameOf seq c)
    (hkind : Sender.FillKind job s s' out) :
    Standing s' job.blocks e (commands ++ out) replies := by
  rcases hs with hs | hs
  · have haligns : s.Aligns := Or.inr (Or.inl hphase)
    refine Or.inl ⟨(hs.stage.fill hphase hframes hkind).1, fun _ => ?_,
      fun _ => hs.noRestart haligns⟩
    have hsorted := hs.sorted haligns
    cases hkind with
    | frame frame hcache hblocks =>
        have hseq : frame.seq? = some s.next_seq :=
          ((hcache ▸ isFrameOf_cached hframes).carries hblocks).isFrame.2
        refine List.pairwise_append.mpr ⟨hsorted, List.pairwise_singleton _ _, ?_⟩
        intro c hc c' hc' seq seq' hc₁ hc₂
        rw [List.mem_singleton.mp hc', hseq] at hc₂
        cases hc₂
        exact ((hs.stage.aligned haligns).frames c hc seq hc₁).le
    | wait => exact pairwise_before_append hsorted (by simp) (by simp)
    | done => exact pairwise_before_append hsorted (by simp [Command.seq?]) (by simp)
    | failed =>
        exact pairwise_before_append hsorted (by simp [Command.seq?, Sender.fail])
          (by simp [Sender.fail])
  · obtain ⟨k, hbase, hnext, hold⟩ := hs.reached
    cases hkind with
    | frame frame hcache hblocks =>
        have hseq : frame.seq? = some s.next_seq :=
          ((hcache ▸ isFrameOf_cached hframes).carries hblocks).isFrame.2
        refine Or.inr
          { hs with
            phase := Or.inl hphase
            reached := ⟨k, hbase, hnext.trans (Nat.lt_succ_self _), hold⟩
            next_le := hblocks
            frames := fun c hc seq hc' => ?_
            noRst := fun t hmem => ?_
            epoch := fun reset left h => by
              have h' : s.phase = .barrier reset left := h
              rw [hphase] at h'
              cases h'
            resume := fun reset left h => by
              have h' : s.phase = .barrier reset left := h
              rw [hphase] at h'
              cases h' }
        · rcases List.mem_append.mp hc with hc | hc
          · obtain ⟨hpos, hlt⟩ := hs.frames c hc seq hc'
            exact ⟨hpos, hlt.trans (Nat.lt_succ_self _)⟩
          · rw [List.mem_singleton.mp hc, hseq] at hc'
            cases hc'
            exact ⟨hs.base_pos.trans_le (hbase.trans hnext.le), Nat.lt_succ_self _⟩
        · rcases List.mem_append.mp hmem with hmem | hmem
          · exact hs.noRst t hmem
          · rw [← List.mem_singleton.mp hmem] at hseq
            cases hseq
    | wait =>
        exact Or.inr (hs.push (Or.inr (Or.inl (Or.inl rfl))) rfl rfl (by simp) (by simp) (by simp)
          (by simp))
    | done hblocks =>
        have := hs.next_le
        omega
    | failed => exact Or.inl (abreast_of_over (Or.inr ⟨_, rfl⟩))

end Reads

end Pcutp
