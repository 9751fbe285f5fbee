import Mathlib.Algebra.Order.BigOperators.Group.List
import Mathlib.Algebra.Order.Ring.Nat
import Mathlib.Data.List.Perm.Subperm
import Pcutp.Recovery

/-!
# The credit of the receive buffer

Over a line that delivers every item at most once and in order, the frames in
flight are distinct blocks of the window, and the receiver counts at most one
gap before the sender drains the line.  So it never starts over by itself, and
its buffer is never asked to hold more than it announced.
-/

namespace Pcutp

/-- A line that delivers at most once and in order. -/
def Faults.once : Faults where
  loss := true
  duplication := false
  reordering := false
  damage := true
  timeouts := true

theorem Faults.once_fifo
    (e : Event) (he : Faults.once.permit e = true) :
    Faults.fifo.permit e = true := by
  cases e <;> first | rfl | cases he | simp [Faults.permit, Faults.fifo]

/-- The block numbers of the frames in a channel, oldest first. -/
def frameSeqs (commands : List Command) : List Nat :=
  commands.filterMap Command.seq?

section Frames

variable {commands : List Command}

theorem frameSeqs_cons_frame
    {c : Command} {seq : Nat} (hseq : c.seq? = some seq) :
    frameSeqs (c :: commands) = seq :: frameSeqs commands :=
  List.filterMap_cons_some hseq

theorem frameSeqs_cons_sublist (c : Command) :
    (frameSeqs commands).Sublist (frameSeqs (c :: commands)) :=
  (List.sublist_cons_self c commands).filterMap _

theorem frameSeqs_append_control
    {out : List Command} (hout : ∀ c ∈ out, c.seq? = none) :
    frameSeqs (commands ++ out) = frameSeqs commands := by
  rw [frameSeqs, List.filterMap_append, List.filterMap_eq_nil_iff.mpr hout, List.append_nil]
  rfl

theorem frameSeqs_append_frame
    {c : Command} {seq : Nat} (hseq : c.seq? = some seq) :
    frameSeqs (commands ++ [c]) = frameSeqs commands ++ [seq] := by
  simp [frameSeqs, List.filterMap_append, hseq]

theorem frameSeqs_eq_nil
    (h : ∀ c ∈ commands, c.seq? = none) :
    frameSeqs commands = [] :=
  List.filterMap_eq_nil_iff.mpr h

/-- Damage does not change the number of a block. -/
theorem frameSeqs_set
    {i : Nat} {c : Command} (bytes : Bytes) (hc : commands[i]? = some c)
    (hframe : c.isFrame = true) :
    frameSeqs (commands.set i (c.withPayload bytes)) = frameSeqs commands := by
  obtain ⟨hi, rfl⟩ := List.getElem?_eq_some_iff.mp hc
  have hseq := (withPayload_control hframe bytes).2
  have hsplit : commands = commands.take i ++ commands[i] :: commands.drop (i + 1) := by
    rw [← List.drop_eq_getElem_cons hi, List.take_append_drop]
  rw [List.set_eq_take_append_cons_drop, if_pos hi]
  conv => rhs; rw [hsplit]
  simp only [frameSeqs, List.filterMap_append, List.filterMap_cons, hseq]

theorem isFrame_iff_seq (c : Command) :
    c.isFrame = true ↔ ∃ seq, c.seq? = some seq := by
  cases c <;> simp [Command.isFrame, Command.seq?]

/-- There are as many frames as block numbers. -/
theorem length_filter_isFrame (commands : List Command) :
    (commands.filter Command.isFrame).length = (frameSeqs commands).length := by
  induction commands with
  | nil => rfl
  | cons c commands ih =>
      cases hseq : c.seq? with
      | none =>
          have hframe : ¬ c.isFrame = true := by
            rw [isFrame_iff_seq, hseq]
            simp
          rw [List.filter_cons_of_neg hframe, ih, frameSeqs, frameSeqs,
            List.filterMap_cons_none hseq]
      | some seq =>
          have hframe : c.isFrame = true := (isFrame_iff_seq c).mpr ⟨seq, hseq⟩
          rw [List.filter_cons_of_pos hframe, frameSeqs_cons_frame hseq, List.length_cons,
            List.length_cons, ih]

/-- Increasing numbers of an interval are no more than it has. -/
theorem length_le_of_increasing
    {seqs : List Nat} {lo hi : Nat}
    (hordered : seqs.Pairwise (· < ·)) (hrange : ∀ seq ∈ seqs, lo ≤ seq ∧ seq < hi) :
    seqs.length ≤ hi - lo := by
  have hnodup : seqs.Nodup := hordered.imp Nat.ne_of_lt
  have hsub : seqs ⊆ List.range' lo (hi - lo) := by
    intro seq hseq
    have := hrange seq hseq
    rw [List.mem_range'_1]
    omega
  simpa using (hnodup.subperm hsub).length_le

end Frames

section Window

/-- The frames in flight are distinct blocks of the window, and a gap of the receiver stops
the sender. -/
structure Credited (s : Sender) (window e d : Nat) (seqs : List Nat) : Prop where
  ordered : seqs.Pairwise (· < ·)
  fresh : ∀ seq ∈ seqs, e ≤ seq
  room : s.next_seq ≤ s.base + window
  cwnd : s.cwnd ≤ window
  gap : d = 0 ∨ d = 1 ∧ s.base = e ∧
    (s.next_seq = e + 2 ∧ seqs = [] ∨ s.next_seq ≤ e + 1 ∧ s.cwnd = 1)

variable {s s' : Sender} {window blocks e d e' d' : Nat} {seqs seqs' : List Nat} {c : Command}
  {commands : List Command} {replies out : List Reply}

theorem Credited.sublist
    (hs : Credited s window e d seqs) (hsub : seqs'.Sublist seqs) :
    Credited s window e d seqs' :=
  { hs with
    ordered := hs.ordered.sublist hsub
    fresh := fun seq hseq => hs.fresh seq (hsub.subset hseq)
    gap := by
      rcases hs.gap with hd | ⟨hd, hbase, ⟨hnext, hnil⟩ | hone⟩
      · exact Or.inl hd
      · subst hnil
        exact Or.inr ⟨hd, hbase, Or.inl ⟨hnext, List.sublist_nil.mp hsub⟩⟩
      · exact Or.inr ⟨hd, hbase, Or.inr hone⟩ }

/-- Only the window counters of the sender matter, and the congestion window may close. -/
theorem Credited.congr
    (hs : Credited s window e d seqs) (hbase : s'.base = s.base) (hnext : s'.next_seq = s.next_seq)
    (hcwnd : s'.cwnd = s.cwnd ∨ s'.cwnd = 1) (hwindow : 1 ≤ window) :
    Credited s' window e d seqs where
  ordered := hs.ordered
  fresh := hs.fresh
  room := by
    rw [hbase, hnext]
    exact hs.room
  cwnd := by
    rcases hcwnd with h | h <;> rw [h]
    · exact hs.cwnd
    · exact hwindow
  gap := by
    rw [hbase, hnext]
    rcases hs.gap with hd | ⟨hd, hbase, hflight | ⟨hnext, hone⟩⟩
    · exact Or.inl hd
    · exact Or.inr ⟨hd, hbase, Or.inl hflight⟩
    · refine Or.inr ⟨hd, hbase, Or.inr ⟨hnext, ?_⟩⟩
      rcases hcwnd with h | h
      · rw [h, hone]
      · exact h

/-- The frames in flight fit in the window. -/
theorem Credited.length_le
    (hs : Credited s window e d seqs) (hbase : s.base ≤ e)
    (hnext : ∀ seq ∈ seqs, seq < s.next_seq) :
    seqs.length ≤ window := by
  have hlen := length_le_of_increasing hs.ordered
    fun seq hseq => ⟨hs.fresh seq hseq, hnext seq hseq⟩
  have := hs.room
  omega

/-- A turn of the receiver keeps the credit, and is never a restart. -/
theorem Credited.turned
    (hs : Credited s window e d (frameSeqs (c :: commands))) (hwindow : window ≤ 2)
    (hbase : s.base ≤ e) (hnext : ∀ seq, c.seq? = some seq → seq < s.next_seq)
    (hframes : ∀ seq ∈ frameSeqs commands, seq < s.next_seq)
    (hrst : ∀ t, c ≠ .rst t) (h : Turned blocks c (e, d) (e', d') out) :
    Credited s window e' d' (frameSeqs commands) ∧ Reply.rst ∉ out := by
  have htail := hs.sublist (frameSeqs_cons_sublist c)
  have hroom := hs.room
  -- A frame that leaves a gap is the last one of a full window.
  have hgap : ∀ seq, c.seq? = some seq → e < seq →
      d = 0 ∧ s.base = e ∧ s.next_seq = e + 2 ∧ frameSeqs commands = [] := by
    intro seq hseq hlt
    have hlast := hnext seq hseq
    have hordered := hs.ordered
    rw [frameSeqs_cons_frame hseq, List.pairwise_cons] at hordered
    have hzero : d = 0 := by
      rcases hs.gap with hd | ⟨_, _, ⟨_, hnil⟩ | ⟨hone, _⟩⟩
      · exact hd
      · rw [frameSeqs_cons_frame hseq] at hnil
        cases hnil
      · omega
    refine ⟨hzero, by omega, by omega, ?_⟩
    rw [List.eq_nil_iff_forall_not_mem]
    intro seq' hseq'
    have := hordered.1 seq' hseq'
    have := hframes seq' hseq'
    omega
  cases h with
  | rst t => exact absurd rfl (hrst t)
  | answer c e d reply hprobe hreply =>
      refine ⟨htail, ?_⟩
      rcases hreply with rfl | ⟨w, rfl | rfl | rfl⟩ <;> simp
  | gap c seq e d hseq hlt =>
      obtain ⟨rfl, hbase', hnext', hnil⟩ := hgap seq hseq hlt
      exact ⟨{ htail with gap := Or.inr ⟨rfl, hbase', Or.inl ⟨hnext', hnil⟩⟩ }, by simp⟩
  | restart c seq e d hseq hlt hdrops =>
      obtain ⟨rfl, _⟩ := hgap seq hseq hlt
      exact absurd hdrops (by decide)
  | abort c seq e d hseq hlt hdrops =>
      obtain ⟨rfl, _⟩ := hgap seq hseq hlt
      exact absurd hdrops (by decide)
  | store c e d hseq hlt =>
      have hordered := hs.ordered
      rw [frameSeqs_cons_frame hseq, List.pairwise_cons] at hordered
      refine ⟨{ htail with fresh := fun seq hmem => hordered.1 seq hmem, gap := Or.inl rfl }, ?_⟩
      simp
  | _ => exact ⟨htail, by simp⟩

/-- What the window and the receiver's gap counter promise in each stage of the sender. -/
def CreditInv (s : Sender) (window e d : Nat) (commands : List Command) (replies : List Reply) :
    Prop :=
  match s.phase with
  | .rst _ =>
      (Credited s window e d (frameSeqs commands) ∧ s.base ≤ e ∨
        d = 0 ∧ frameSeqs commands = []) ∧
      (Reply.rstAck (dec s.barrier_id) ∈ replies → d = 0)
  | .barrier true _ => d = 0 ∧ frameSeqs commands = []
  | .barrier false _ => Credited s window e d (frameSeqs commands) ∧ s.cwnd = 1
  | .block _ _ => True
  | .returned _ => True
  | .raised _ => True
  | _ => Credited s window e d (frameSeqs commands)

theorem CreditInv.credited
    (hs : CreditInv s window e d commands replies)
    (hphase : s.phase = .ready ∨ s.phase = .fill ∨ s.phase = .final ∨ s.Listening ∨
      ∃ left, s.phase = .barrier false left) :
    Credited s window e d (frameSeqs commands) := by
  unfold CreditInv at hs
  rcases hphase with h | h | h | (h | ⟨_, h⟩ | ⟨_, h⟩) | ⟨_, h⟩ <;> rw [h] at hs <;>
    first | exact hs | exact hs.1

theorem CreditInv.of_rst
    {left : Nat} (hs : CreditInv s window e d commands replies) (hphase : s.phase = .rst left) :
    (Credited s window e d (frameSeqs commands) ∧ s.base ≤ e ∨
      d = 0 ∧ frameSeqs commands = []) ∧
    (Reply.rstAck (dec s.barrier_id) ∈ replies → d = 0) := by
  rw [CreditInv, hphase] at hs
  exact hs

theorem CreditInv.of_barrier_true
    {left : Nat} (hs : CreditInv s window e d commands replies)
    (hphase : s.phase = .barrier true left) :
    d = 0 ∧ frameSeqs commands = [] := by
  rw [CreditInv, hphase] at hs
  exact hs

theorem CreditInv.of_barrier_false
    {left : Nat} (hs : CreditInv s window e d commands replies)
    (hphase : s.phase = .barrier false left) :
    Credited s window e d (frameSeqs commands) ∧ s.cwnd = 1 := by
  rw [CreditInv, hphase] at hs
  exact hs

/-- What a line that delivers at most once does keeps the credit. -/
theorem CreditInv.sublist
    {commands' : List Command} {replies' : List Reply}
    (hs : CreditInv s window e d commands replies)
    (hcommands : (frameSeqs commands').Sublist (frameSeqs commands))
    (hreplies : ∀ r ∈ replies', r ∈ replies) :
    CreditInv s window e d commands' replies' := by
  have hnil : frameSeqs commands = [] → frameSeqs commands' = [] := by
    intro h
    rw [h] at hcommands
    exact List.sublist_nil.mp hcommands
  unfold CreditInv at hs ⊢
  split at hs
  · exact ⟨hs.1.imp (fun h => ⟨h.1.sublist hcommands, h.2⟩) fun h => ⟨h.1, hnil h.2⟩,
      fun hmem => hs.2 (hreplies _ hmem)⟩
  · exact ⟨hs.1, hnil hs.2⟩
  · exact ⟨hs.1.sublist hcommands, hs.2⟩
  · trivial
  · trivial
  · trivial
  · exact hs.sublist hcommands

/-- A command without a block number moves no gap counter up and causes no restart. -/
theorem Turned.of_control
    (h : Turned blocks c (e, d) (e', d') out) (hc : c.seq? = none) :
    (d' = d ∨ d' = 0) ∧ Reply.rst ∉ out := by
  cases h with
  | answer c e d reply hprobe hreply =>
      refine ⟨Or.inl rfl, ?_⟩
      rcases hreply with rfl | ⟨w, rfl | rfl | rfl⟩ <;> simp
  | ayt | barrier | silent => exact ⟨Or.inl rfl, by simp⟩
  | rst => exact ⟨Or.inr rfl, by simp⟩
  | nak c seq e d why hseq | old c seq e d hseq | gap c seq e d hseq | restart c seq e d hseq
  | abort c seq e d hseq | store c e d hseq =>
      rw [hc] at hseq
      cases hseq

theorem Aligned.creditedTurned
    (ha : Aligned s blocks e (c :: commands) replies)
    (hs : Credited s window e d (frameSeqs (c :: commands))) (hwindow : window ≤ 2)
    (h : Turned blocks c (e, d) (e', d') out) :
    Credited s window e' d' (frameSeqs commands) ∧ Reply.rst ∉ out := by
  refine hs.turned hwindow ha.base_le (ha.frames c List.mem_cons_self) ?_ ?_ h
  · intro seq hseq
    obtain ⟨c', hc', hseq'⟩ := List.mem_filterMap.mp hseq
    exact ha.frames c' (List.mem_cons_of_mem _ hc') seq hseq'
  · rintro t rfl
    exact ha.noRst t List.mem_cons_self

theorem Resetting.creditedTurned
    (hr : Resetting s blocks e (c :: commands) replies)
    (hs : (Credited s window e d (frameSeqs (c :: commands)) ∧ s.base ≤ e ∨
        d = 0 ∧ frameSeqs (c :: commands) = []) ∧
      (Reply.rstAck (dec s.barrier_id) ∈ replies → d = 0))
    (hwindow : window ≤ 2) (h : Turned blocks c (e, d) (e', d') out) :
    ((Credited s window e' d' (frameSeqs commands) ∧ s.base ≤ e' ∨
        d' = 0 ∧ frameSeqs commands = []) ∧
      (Reply.rstAck (dec s.barrier_id) ∈ replies ++ out → d' = 0)) ∧
    Reply.rst ∉ out := by
  by_cases hrst : c = .rst s.barrier_id
  · -- Behind a request there are only requests.
    subst hrst
    have hnil : frameSeqs commands = [] := by
      apply frameSeqs_eq_nil
      intro c hc
      have hback := (Channel.epoch_iff.mp hr.epoch).2.1
      rw [(List.pairwise_cons.mp hback).1 c hc rfl]
      rfl
    cases h with
    | rst t => exact ⟨⟨Or.inr ⟨rfl, hnil⟩, fun _ => rfl⟩, by simp⟩
    | silent =>
        rw [List.append_nil]
        refine ⟨⟨?_, hs.2⟩, by simp⟩
        exact hs.1.imp (fun h => ⟨h.1.sublist (frameSeqs_cons_sublist _), h.2⟩)
          fun h => ⟨h.1, hnil⟩
    | answer c e d reply hprobe => exact absurd rfl (hprobe s.barrier_id).2.1
    | _ => simp_all [Command.seq?]
  · have hack : Reply.rstAck (dec s.barrier_id) ∉ replies ++ out := by
      intro hmem
      rcases List.mem_append.mp hmem with hmem | hmem
      · exact hrst (hr.epoch.back_of_mem hmem rfl c List.mem_cons_self)
      · exact hrst ((h.rstAck_iff s.barrier_id _ hmem).mp rfl)
    have hnot : ∀ t, c ≠ .rst t := by
      rintro t rfl
      rw [hr.rst t List.mem_cons_self] at hrst
      exact hrst rfl
    rcases hs.1 with ⟨hcredit, hbase⟩ | ⟨hzero, hnil⟩
    · have hframes : ∀ seq ∈ frameSeqs commands, seq < s.next_seq := by
        intro seq hseq
        obtain ⟨c', hc', hseq'⟩ := List.mem_filterMap.mp hseq
        exact hr.frames c' (List.mem_cons_of_mem _ hc') seq hseq'
      obtain ⟨hcredit', hnone⟩ := hcredit.turned hwindow hbase (hr.frames c List.mem_cons_self)
        hframes hnot h
      refine ⟨⟨Or.inl ⟨hcredit', ?_⟩, fun hmem => absurd hmem hack⟩, hnone⟩
      rcases h.moves hnone with rfl | ⟨t, heq, _⟩ | ⟨_, _, rfl⟩
      · exact hbase
      · exact absurd heq (hnot t)
      · omega
    · have hc : c.seq? = none := by
        have hall := List.filterMap_eq_nil_iff.mp hnil
        exact hall c List.mem_cons_self
      obtain ⟨hd, hnone⟩ := h.of_control hc
      refine ⟨⟨Or.inr ⟨by omega, ?_⟩, fun hmem => absurd hmem hack⟩, hnone⟩
      exact List.sublist_nil.mp (hnil ▸ frameSeqs_cons_sublist c)

/-- A turn of the receiver keeps the credit, and is never a restart. -/
theorem CreditInv.turned
    (hs : CreditInv s window e d (c :: commands) replies)
    (hstage : StageInv s blocks e (c :: commands) replies) (hwindow : window ≤ 2)
    (hover : ¬ s.Over) (hblock : ∀ attempt timeouts, s.phase ≠ .block attempt timeouts)
    (h : Turned blocks c (e, d) (e', d') out) :
    CreditInv s window e' d' commands (replies ++ out) ∧ Reply.rst ∉ out := by
  cases hphase : s.phase with
  | rst left =>
      rw [CreditInv, hphase]
      exact (hstage.of_rst hphase).creditedTurned (hs.of_rst hphase) hwindow h
  | barrier reset left =>
      cases reset with
      | true =>
          obtain ⟨hzero, hnil⟩ := hs.of_barrier_true hphase
          have hc : c.seq? = none := (List.filterMap_eq_nil_iff.mp hnil) c List.mem_cons_self
          obtain ⟨hd, hnone⟩ := h.of_control hc
          rw [CreditInv, hphase]
          exact ⟨⟨by omega, List.sublist_nil.mp (hnil ▸ frameSeqs_cons_sublist c)⟩, hnone⟩
      | false =>
          obtain ⟨hcredit, hcwnd⟩ := hs.of_barrier_false hphase
          obtain ⟨hcredit', hnone⟩ :=
            (hstage.of_barrier_false hphase).1.creditedTurned hcredit hwindow h
          rw [CreditInv, hphase]
          exact ⟨⟨hcredit', hcwnd⟩, hnone⟩
  | block attempt timeouts => exact absurd hphase (hblock _ _)
  | returned result => exact absurd (Or.inl ⟨_, hphase⟩) hover
  | raised exc => exact absurd (Or.inr ⟨_, hphase⟩) hover
  | _ =>
      have hopen : s.phase = .ready ∨ s.phase = .fill ∨ s.phase = .final ∨ s.Listening ∨
          ∃ left, s.phase = .barrier false left := by
        simp [hphase, Sender.Listening]
      rw [CreditInv, hphase]
      exact (hstage.aligned hopen).creditedTurned (hs.credited hopen) hwindow h

end Window

section Sending

variable {job : Job} {s s' : Sender} {e d : Nat} {commands : List Command} {replies : List Reply}

theorem CreditInv.of_over
    {window : Nat} (hover : s.Over) :
    CreditInv s window e d commands replies := by
  rw [CreditInv]
  rcases hover with ⟨result, h⟩ | ⟨exc, h⟩ <;> rw [h] <;> trivial

/-- A read of the sender keeps the credit. -/
theorem CreditInv.read
    {r : Option Reply} {out : List Command}
    (hs : CreditInv s job.session.window_size e d commands (r.toList ++ replies))
    (hstage : StageInv s job.blocks e commands (r.toList ++ replies))
    (hnone : Reply.rst ∉ r.toList ++ replies)
    (hkind : Sender.ReadKind job s r s' out) :
    CreditInv s' job.session.window_size e d (commands ++ out) replies := by
  have hwindow := job.session.window_ok.1
  have hpop : CreditInv s job.session.window_size e d commands replies :=
    hs.sublist (List.Sublist.refl _) fun r' hr' => List.mem_append_right _ hr'
  have hlistening := fun h : s.Listening => hpop.credited (Or.inr (Or.inr (Or.inr (Or.inl h))))
  cases hkind with
  | begin hphase =>
      rw [List.append_nil]
      exact (hpop.credited (Or.inl hphase)).congr rfl rfl (Or.inl rfl) hwindow
  | advance a hphase hbase hsent =>
      have ha := hstage.aligned (Or.inr (Or.inr (Or.inr (Or.inl hphase))))
      have hle : a < e := ha.acks a List.mem_cons_self
      have hc := hlistening hphase
      have hroom := hc.room
      rw [List.append_nil]
      refine
        { ordered := hc.ordered
          fresh := hc.fresh
          room := ?_
          cwnd := ?_
          gap := ?_ }
      · show s.next_seq ≤ a + 1 + job.session.window_size
        omega
      · simp only [Sender.advance]
        split
        · exact Nat.le_refl _
        · exact hc.cwnd
      · rcases hc.gap with hd | ⟨_, heq, _⟩
        · exact Or.inl hd
        · omega
  | wait r phase hwait =>
      rw [List.append_nil]
      obtain ⟨p, hp⟩ : ∃ p, s.phase = p := ⟨_, rfl⟩
      rw [hp] at hwait
      rw [CreditInv, hp] at hpop
      cases hwait with
      | rst left =>
          exact ⟨hpop.1.imp_left fun h => ⟨h.1.congr rfl rfl (Or.inl rfl) hwindow, h.2⟩, hpop.2⟩
      | barrier reset left =>
          cases reset with
          | true => exact hpop
          | false => exact ⟨hpop.1.congr rfl rfl (Or.inl rfl) hwindow, hpop.2⟩
      | _ => exact Credited.congr hpop rfl rfl (Or.inl rfl) hwindow
  | probe hphase =>
      rw [List.append_nil]
      exact (hlistening (Or.inl hphase)).congr rfl rfl (Or.inr rfl) hwindow
  | askAlive r left hphase =>
      rw [CreditInv, frameSeqs_append_control (by simp [Command.seq?])]
      exact (hlistening (Or.inr hphase)).congr rfl rfl (Or.inl rfl) hwindow
  | askRestart r hphase =>
      have ha := hstage.aligned (Or.inr (Or.inr (Or.inr (Or.inl (Or.inr hphase)))))
      rw [CreditInv, frameSeqs_append_control (by simp [Command.seq?])]
      refine ⟨Or.inl ⟨(hlistening (Or.inr hphase)).congr rfl rfl (Or.inl rfl) hwindow,
        ha.base_le⟩, fun hmem => ?_⟩
      exact absurd (List.mem_append_right _ hmem) (ha.noRstAck _)
  | askReset r left hphase =>
      obtain ⟨hcredit, hzero⟩ := hpop.of_rst hphase
      rw [CreditInv, frameSeqs_append_control (by simp [Command.seq?])]
      exact ⟨hcredit.imp_left fun h => ⟨h.1.congr rfl rfl (Or.inl rfl) hwindow, h.2⟩, hzero⟩
  | askBarrier r reset left hphase =>
      rw [CreditInv, frameSeqs_append_control (by simp [Command.seq?])]
      cases reset with
      | true => exact hpop.of_barrier_true hphase
      | false =>
          obtain ⟨hcredit, hcwnd⟩ := hpop.of_barrier_false hphase
          exact ⟨hcredit.congr rfl rfl (Or.inl rfl) hwindow, hcwnd⟩
  | gap r hphase hgap =>
      rw [CreditInv, frameSeqs_append_control (by simp [Command.seq?])]
      exact ⟨(hlistening hphase).congr rfl rfl (Or.inr rfl) hwindow, rfl⟩
  | restarted hphase => simp at hnone
  | resetDone left hphase =>
      have hr := hstage.of_rst hphase
      rw [CreditInv, frameSeqs_append_control (by simp [Command.seq?])]
      refine ⟨(hs.of_rst hphase).2 List.mem_cons_self, frameSeqs_eq_nil fun c hc => ?_⟩
      rw [hr.epoch.back_of_mem List.mem_cons_self rfl c hc]
      rfl
  | resumed left n hphase hlo hhi =>
      obtain ⟨hcredit, hcwnd⟩ := hs.of_barrier_false hphase
      obtain ⟨rfl, hcommands, _⟩ := (hstage.of_barrier_false hphase).2.answered
      have hnil : frameSeqs commands = [] := by
        apply frameSeqs_eq_nil
        intro c hc
        rw [hcommands c hc]
        rfl
      rw [List.append_nil, CreditInv, hnil]
      refine
        { ordered := .nil
          fresh := fun _ hmem => absurd hmem List.not_mem_nil
          room := Nat.le_add_right _ _
          cwnd := hcredit.cwnd
          gap := ?_ }
      rcases hcredit.gap with hd | ⟨hd, _⟩
      · exact Or.inl hd
      · exact Or.inr ⟨hd, rfl, Or.inr ⟨Nat.le_succ _, hcwnd⟩⟩
  | resumedReset left hphase =>
      obtain ⟨hzero, hnil⟩ := hs.of_barrier_true hphase
      rw [List.append_nil, CreditInv, hnil]
      exact
        { ordered := .nil
          fresh := fun _ hmem => absurd hmem List.not_mem_nil
          room := Nat.zero_le _
          cwnd := hwindow
          gap := Or.inl hzero }
  | refused r hphase => exact .of_over (Or.inl ⟨_, rfl⟩)
  | failed r s' exc out hphase hphase' => exact .of_over (Or.inr ⟨_, hphase'⟩)
  | ended r phase hphase hphase' =>
      rcases hphase' with ⟨exc, rfl, _⟩ | ⟨result, rfl⟩
      · exact .of_over (Or.inr ⟨_, rfl⟩)
      · exact .of_over (Or.inl ⟨_, rfl⟩)
  | _ => exact .of_over (Or.inr ⟨_, rfl⟩)

/-- What the sender does without reading keeps the credit. -/
theorem CreditInv.fill
    {out : List Command}
    (hs : CreditInv s job.session.window_size e d commands replies)
    (hstage : StageInv s job.blocks e commands replies) (hphase : s.phase = .fill)
    (hframes : ∀ seq c, s.frames seq = some c → job.IsFrameOf seq c)
    (hkind : Sender.FillKind job s s' out) :
    CreditInv s' job.session.window_size e d (commands ++ out) replies := by
  have hopen : s.phase = .ready ∨ s.phase = .fill ∨ s.phase = .final ∨ s.Listening ∨
      ∃ left, s.phase = .barrier false left := Or.inr (Or.inl hphase)
  have hwindow := job.session.window_ok
  have ha := hstage.aligned hopen
  have hc := hs.credited hopen
  cases hkind with
  | frame frame hcache hblocks hroom hbase =>
      have hseq : frame.seq? = some s.next_seq :=
        ((hcache ▸ isFrameOf_cached hframes).carries hblocks).isFrame.2
      have hcwnd := hc.cwnd
      have hlast : ∀ seq ∈ frameSeqs commands, seq < s.next_seq := by
        intro seq hmem
        obtain ⟨c, hc, hseq⟩ := List.mem_filterMap.mp hmem
        exact ha.frames c hc seq hseq
      rw [CreditInv, Sender.writeFrame, hphase, frameSeqs_append_frame hseq]
      refine
        { ordered := ?_
          fresh := ?_
          room := ?_
          cwnd := hc.cwnd
          gap := ?_ }
      · refine List.pairwise_append.mpr ⟨hc.ordered, List.pairwise_singleton _ _, ?_⟩
        intro seq hmem seq' hmem'
        rw [List.mem_singleton.mp hmem']
        exact hlast seq hmem
      · intro seq hmem
        rcases List.mem_append.mp hmem with hmem | hmem
        · exact hc.fresh seq hmem
        · rw [List.mem_singleton.mp hmem]
          exact ha.le_next
      · show s.next_seq + 1 ≤ s.base + job.session.window_size
        omega
      · have hmax : job.session.window_size ≤ 2 := hwindow.2
        rcases hc.gap with hd | ⟨hd, heq, ⟨hnext, _⟩ | ⟨hnext, hone⟩⟩
        · exact Or.inl hd
        · omega
        · refine Or.inr ⟨hd, heq, Or.inr ⟨?_, hone⟩⟩
          show s.next_seq + 1 ≤ e + 1
          omega
  | wait hbase hfull =>
      rw [List.append_nil]
      exact hc.congr rfl rfl (Or.inl rfl) hwindow.1
  | done hblocks =>
      rw [CreditInv, frameSeqs_append_control (by simp [Command.seq?])]
      exact hc.congr rfl rfl (Or.inl rfl) hwindow.1
  | failed exc hcls hmessage => exact .of_over (Or.inr ⟨_, rfl⟩)

end Sending

section Invariant

variable {cfg : ClientConfig} {job : Job} {s s' : Transfer cfg}

/-- Nothing is read after the end. -/
theorem Sender.ReadKind.not_over
    {t t' : Sender} {r : Option Reply} {out : List Command}
    (h : Sender.ReadKind job t r t' out) :
    ¬ t.Over := by
  rintro (⟨result, hover⟩ | ⟨exc, hover⟩)
  · cases h with
    | wait r phase hwait =>
        rw [hover] at hwait
        cases hwait
    | failed r s' exc out hbusy => simp [Sender.Busy, hover] at hbusy
    | _ => simp_all [Sender.Listening]
  · exact h.not_raised exc hover

/-- The sender does not come back from its end. -/
theorem Move.over
    {e : Event} (h : Move job s e s') (hover : s.sender.Over) :
    s'.sender.Over := by
  cases h with
  | fill p hphase =>
      rcases hover with ⟨_, h⟩ | ⟨_, h⟩ <;> rw [hphase] at h <;> cases h
  | timeout p hkind => exact absurd hover hkind.not_over
  | reply late r replies p hreplies hkind => exact absurd hover hkind.not_over
  | _ => exact hover

theorem seq_eq_none_of_control
    {c : Command} (hc : job.Control c) :
    c.seq? = none := by
  cases c <;> first | rfl | cases hc

/-- The step to the end writes no frame, and no step after it does. -/
theorem Move.frames_sublist
    {e : Event} (h : Move job s e s') (he : Faults.once.permit e = true)
    (hover : s'.sender.Over) :
    (frameSeqs s'.commands).Sublist (frameSeqs s.commands) := by
  have hread : ∀ {r : Option Reply} {p : Sender × List Command} {commands : List Command},
      Sender.ReadKind job s.sender r p.1 p.2 →
      (frameSeqs (commands ++ p.2)).Sublist (frameSeqs commands) := by
    intro r p commands hkind
    rw [frameSeqs_append_control fun c hc => seq_eq_none_of_control (hkind.control c hc)]
  cases h with
  | fill p hphase hkind =>
      obtain ⟨t, out⟩ := p
      have hover' : t.Over := hover
      cases hkind with
      | failed exc =>
          show (frameSeqs (s.commands ++ [.err exc.code])).Sublist _
          rw [frameSeqs_append_control (by simp [Command.seq?])]
      | frame => simp [Sender.Over, hphase] at hover'
      | _ => simp [Sender.Over] at hover'
  | timeout p hkind => exact hread hkind
  | reply late r replies p hreplies hkind => exact hread hkind
  | command m r c commands p hclient hcommands =>
      rw [hcommands]
      exact frameSeqs_cons_sublist c
  | accept m commands hclient hcommands =>
      rw [hcommands]
      exact frameSeqs_cons_sublist _
  | refuse c commands exc effects hclient hcommands =>
      rw [hcommands]
      exact frameSeqs_cons_sublist c
  | loseCommand i => exact (List.eraseIdx_sublist _ _).filterMap _
  | damage i bytes c hc hframe =>
      rw [frameSeqs_set bytes hc hframe]
  | copyCommand | swapCommands => cases he
  | _ => exact List.Sublist.refl _

/-- The invariant of a transfer over a line that delivers at most once and in order. -/
structure Thrifty (job : Job) (s : Transfer cfg) : Prop where
  count : (frameSeqs s.commands).length ≤ job.session.window_size
  live : ¬ s.sender.Over →
    Effect.send .rst ∉ s.trace ∧ Tracked job s ∧
      CreditInv s.sender job.session.window_size s.client.expected s.client.drops s.commands
        s.replies

/-- In every stage the frames in flight fit in the window. -/
theorem CreditInv.length_le
    {t : Sender} {window e d : Nat} {commands : List Command} {replies : List Reply}
    (hs : CreditInv t window e d commands replies)
    (hstage : StageInv t job.blocks e commands replies)
    (hover : ¬ t.Over) (hblock : ∀ attempt timeouts, t.phase ≠ .block attempt timeouts) :
    (frameSeqs commands).length ≤ window := by
  have hcount : Credited t window e d (frameSeqs commands) → t.base ≤ e →
      (∀ c ∈ commands, ∀ seq, c.seq? = some seq → seq < t.next_seq) →
      (frameSeqs commands).length ≤ window := by
    intro hc hbase hframes
    refine hc.length_le hbase fun seq hseq => ?_
    obtain ⟨c, hc, hseq⟩ := List.mem_filterMap.mp hseq
    exact hframes c hc seq hseq
  have hnone : frameSeqs commands = [] → (frameSeqs commands).length ≤ window := by
    intro hnil
    rw [hnil]
    exact Nat.zero_le _
  cases hphase : t.phase with
  | rst left =>
      rcases (hs.of_rst hphase).1 with ⟨hc, hbase⟩ | ⟨_, hnil⟩
      · exact hcount hc hbase (hstage.of_rst hphase).frames
      · exact hnone hnil
  | barrier reset left =>
      cases reset with
      | true => exact hnone (hs.of_barrier_true hphase).2
      | false =>
          have ha := (hstage.of_barrier_false hphase).1
          exact hcount (hs.of_barrier_false hphase).1 ha.base_le ha.frames
  | block attempt timeouts => exact absurd hphase (hblock _ _)
  | returned result => exact absurd (Or.inl ⟨_, hphase⟩) hover
  | raised exc => exact absurd (Or.inr ⟨_, hphase⟩) hover
  | _ =>
      have hopen : t.phase = .ready ∨ t.phase = .fill ∨ t.phase = .final ∨ t.Listening ∨
          ∃ left, t.phase = .barrier false left := by
        simp [hphase, Sender.Listening]
      have ha := hstage.aligned hopen
      exact hcount (hs.credited hopen) ha.base_le ha.frames

/-- What a step does to the credit and to the receiver's restarts, while the sender is at work. -/
theorem CreditInv.move
    (hflow : job.session.flow = true) (hpair : Paired job.session cfg)
    (hg : Genuine job s) (ht : Tracked job s) (hnone : Effect.send .rst ∉ s.trace)
    (hover : ¬ s.sender.Over)
    (hs : CreditInv s.sender job.session.window_size s.client.expected s.client.drops s.commands
      s.replies)
    {e : Event} (he : Faults.once.permit e = true) (h : Move job s e s') :
    Effect.send .rst ∉ s'.trace ∧
      CreditInv s'.sender job.session.window_size s'.client.expected s'.client.drops s'.commands
        s'.replies := by
  have hmax : job.session.window_size ≤ 2 := job.session.window_ok.2
  have hread : ∀ {r : Option Reply} {replies : List Reply} {p : Sender × List Command},
      s.replies = r.toList ++ replies → Sender.ReadKind job s.sender r p.1 p.2 →
      CreditInv p.1 job.session.window_size s.client.expected s.client.drops (s.commands ++ p.2)
        replies := by
    intro r replies p hreplies hkind
    exact (hreplies ▸ hs).read (hreplies ▸ ht.stage)
      (fun hrst => hnone (ht.told _ (hreplies ▸ hrst))) hkind
  have hturned : ∀ {c : Command} {commands : List Command} {p : Client cfg × List Effect},
      s.commands = c :: commands →
      Turned job.blocks c (s.client.expected, s.client.drops) (p.1.expected, p.1.drops)
        (sends p.2) →
      Effect.send .rst ∉ s.trace ++ p.2 ∧
        CreditInv s.sender job.session.window_size p.1.expected p.1.drops commands
          (s.replies ++ sends p.2) := by
    intro c commands p hcommands hturn
    obtain ⟨hcredit, hrst⟩ := (hcommands ▸ hs).turned (hcommands ▸ ht.stage) hmax hover hg.block
      hturn
    refine ⟨fun hmem => ?_, hcredit⟩
    rcases List.mem_append.mp hmem with hmem | hmem
    · exact hnone hmem
    · exact hrst (mem_sends.mpr hmem)
  cases h with
  | fill p hphase hkind =>
      exact ⟨hnone, hs.fill ht.stage hphase (hg.frames (by rw [hphase]; simp)) hkind⟩
  | timeout p hkind => exact ⟨hnone, hread (r := none) rfl hkind⟩
  | reply late r replies p hreplies hkind => exact ⟨hnone, hread (r := some r) hreplies hkind⟩
  | command m r c commands p hclient hcommands hphase hreads hturn =>
      refine hturned (p := (.receiving m p.1, p.2)) hcommands ?_
      rw [hclient]
      exact turned_of_turn (hpair.flow.trans hflow) hturn
  | accept m commands hclient hcommands hm =>
      refine hturned (p := (.receiving m Recv.start, Recv.startEffects m)) hcommands ?_
      rw [hclient]
      exact .answer _ _ _ _ (by simp [Job.announcement]) (Or.inl rfl)
  | refuse c commands exc effects hclient hcommands heffects =>
      refine hturned (p := (.stopped exc, effects)) hcommands ?_
      rw [hclient]
      rcases heffects with rfl | ⟨rfl, code, _, rfl⟩
      · exact .silent _ _ _
      · exact .answer _ _ _ _ (by simp [Job.announcement]) (Or.inr ⟨code, Or.inr (Or.inr rfl)⟩)
  | commit m r hclient hphase =>
      refine ⟨by simpa [Transfer.received] using hnone, ?_⟩
      simpa [Transfer.received, sends, hclient, Client.expected, Client.drops] using hs
  | giveUp m r exc hclient hphase hstep hmessage =>
      refine ⟨by simpa [Transfer.received] using hnone, ?_⟩
      simpa [Transfer.received, hclient, Client.expected, Client.drops, Recv.raise] using hs
  | giveUpMeta exc hclient =>
      refine ⟨by simpa [Transfer.received] using hnone, ?_⟩
      simpa [Transfer.received, hclient, Client.expected, Client.drops] using hs
  | loseCommand i =>
      exact ⟨hnone, hs.sublist ((List.eraseIdx_sublist _ _).filterMap _) fun r hr => hr⟩
  | loseReply i =>
      exact ⟨hnone, hs.sublist (List.Sublist.refl _) fun r hr => List.mem_of_mem_eraseIdx hr⟩
  | damage i bytes c hc hframe =>
      refine ⟨hnone, hs.sublist ?_ fun r hr => hr⟩
      rw [frameSeqs_set bytes hc hframe]
  | copyCommand | copyReply | swapCommands | swapReplies => cases he

/-- Every move over such a line keeps the invariant. -/
theorem Thrifty.move
    (hflow : job.session.flow = true) (hpair : Paired job.session cfg)
    (hg : Genuine job s) (hs : Thrifty job s) {e : Event} (he : Faults.once.permit e = true)
    (h : Move job s e s') :
    Thrifty job s' := by
  by_cases hover' : s'.sender.Over
  · exact ⟨(h.frames_sublist he hover').length_le.trans hs.count,
      fun hnot => absurd hover' hnot⟩
  · have hover : ¬ s.sender.Over := fun hover => hover' (h.over hover)
    obtain ⟨hnone, ht, hc⟩ := hs.live hover
    obtain ⟨hnone', hc'⟩ := CreditInv.move hflow hpair hg ht hnone hover hc he h
    have ht' := ht.move hflow hpair hg (Faults.once_fifo e he) h hnone'
    exact ⟨hc'.length_le ht'.stage hover' (hg.move h).block, fun _ => ⟨hnone', ht', hc'⟩⟩

/-- The invariant holds when META has been written. -/
theorem thrifty_start (barrier_id : Nat) (reset_token : Option Line) :
    Thrifty job (Transfer.start cfg job barrier_id reset_token) where
  count := Nat.zero_le _
  live := fun _ =>
    ⟨by simp [Transfer.start], tracked_start barrier_id reset_token,
      { ordered := .nil
        fresh := fun _ hmem => absurd hmem List.not_mem_nil
        room := Nat.zero_le _
        cwnd := job.session.window_ok.1
        gap := Or.inl rfl }⟩

/-- Every run over such a line keeps the invariant. -/
theorem thrifty_leads
    {faults : Faults} (hflow : job.session.flow = true) (hpair : Paired job.session cfg)
    (hfaults : ∀ e, faults.permit e = true → Faults.once.permit e = true)
    (hleads : Transfer.Leads faults job s s') (hg : Genuine job s) (hs : Thrifty job s) :
    Genuine job s' ∧ Thrifty job s' := by
  refine Transition.Steps.invariant (fun s => Genuine job s ∧ Thrifty job s) ?_ hleads ⟨hg, hs⟩
  rintro s e s' ⟨hg, hs⟩ he hstep
  have hmove := step_move hpair hflow hg hstep
  exact ⟨hg.move hmove, hs.move hflow hpair hg (hfaults e he) hmove⟩

end Invariant

section Result

variable {cfg : ClientConfig} {job : Job}

/-- The frames among the commands in flight. -/
def Transfer.flight (s : Transfer cfg) : List Command :=
  s.commands.filter Command.isFrame

/-- What the receive buffer is asked to hold. -/
def Transfer.flightBytes (s : Transfer cfg) : Nat :=
  (s.flight.map Command.wireLength).sum

theorem Genuine.flightBytes_le
    {s : Transfer cfg} (hg : Genuine job s) (hsize : job.size ≤ Const.MAX_FILE_SIZE) :
    s.flightBytes ≤ s.flight.length * (job.block_size + Const.FRAME_OVERHEAD) := by
  have hbound : ∀ n ∈ s.flight.map Command.wireLength,
      n ≤ job.block_size + Const.FRAME_OVERHEAD := by
    intro n hn
    obtain ⟨c, hc, rfl⟩ := List.mem_map.mp hn
    obtain ⟨hmem, hframe⟩ := List.mem_filter.mp hc
    obtain ⟨seq, hcarries⟩ := (hg.commands c hmem).carries hframe
    exact hcarries.wireLength_le hsize
  simpa [Transfer.flightBytes] using List.sum_le_card_nsmul _ _ hbound

/-- The credit of the receive buffer. -/
theorem receive_credit
    (config : ServerConfig) (tokens : List Line) (capabilities : Capabilities)
    (job : Job) (cfg : ClientConfig)
    (hhello : negotiate config tokens = .ok (job.session, capabilities))
    (hflow : job.session.flow = true) (hpair : Paired job.session cfg)
    (hsize : job.size ≤ Const.MAX_FILE_SIZE)
    (barrier_id : Nat) (reset_token : Option Line) (s : Transfer cfg)
    (hleads : Transfer.Leads .once job (Transfer.start cfg job barrier_id reset_token) s) :
    s.flight.length ≤ job.session.window_size ∧
      s.flightBytes ≤ job.session.window_size * (job.block_size + 64) ∧
      options tokens = .ok capabilities ∧
      job.session.window_size * (job.block_size + 64) ≤ (capabilities .RXBUF).getD 0 := by
  obtain ⟨hg, hs⟩ := thrifty_leads hflow hpair (fun _ he => he) hleads
    (genuine_start barrier_id reset_token) (thrifty_start barrier_id reset_token)
  have hcount : s.flight.length ≤ job.session.window_size := by
    rw [Transfer.flight, length_filter_isFrame]
    exact hs.count
  obtain ⟨hoptions, hfits⟩ := negotiate_fits hhello hflow
  refine ⟨hcount, ?_, hoptions, le_trans ?_ hfits⟩
  · exact (hg.flightBytes_le hsize).trans (Nat.mul_le_mul_right _ hcount)
  · exact Nat.mul_le_mul_left _ (Nat.add_le_add_right job.block_size_le _)

/-- The greeting of a receiver with room for two frames of one byte. -/
def smallGreeting : List Line :=
  ["FLOW=1".toList, "WINDOW=2".toList, "RXBUF=130".toList, "IDENTITY=1".toList]

/-- The first frame of a file is in flight. -/
theorem receive_credit_first_frame :
    ∃ s : Transfer smallClient, s.flight ≠ [] ∧ s.flight.length ≤ 2 ∧ s.flightBytes ≤ 130 := by
  let events : List Event := [.command, .reply false, .run]
  have hrun : ((Transfer.start smallClient (smallJob [65]) 0 none).exec .once (smallJob [65])
      events).any (fun s => decide (s.flight ≠ [])) = true := by
    decide +kernel
  rw [Option.any_eq_true] at hrun
  obtain ⟨s, hexec, hflight⟩ := hrun
  have hhello : ∃ capabilities,
      negotiate smallServer smallGreeting = .ok (smallSession, capabilities) := ⟨_, rfl⟩
  obtain ⟨capabilities, hhello⟩ := hhello
  obtain ⟨hcount, hbytes, _, _⟩ := receive_credit smallServer smallGreeting capabilities
    (smallJob [65]) smallClient hhello rfl small_paired (by decide) 0 none s (.of_exec hexec)
  exact ⟨s, of_decide_eq_true hflight, hcount, hbytes⟩

end Result

end Pcutp
