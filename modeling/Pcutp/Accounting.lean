import Mathlib.Algebra.BigOperators.Group.List.Basic
import Mathlib.Algebra.Order.Interval.Finset.SuccPred
import Mathlib.Data.Finset.Card
import Mathlib.Data.Nat.SuccPred
import Mathlib.Order.Interval.Finset.Nat
import Pcutp.SendWindow
import Pcutp.Transfer

/-!
# The accounts of a transfer

What `TransferResult` reports against what was written: `Books` keeps, beside the
sender, the frames it wrote and the retransmits it counted, one `Stretch` for each
part of the transfer between two restarts.

The wire bytes and the retransmits agree in every run.  The count of compressed
blocks goes wrong at a restart: the frames below the base were dropped from the
cache when they were acknowledged, so they are compressed and counted once more,
while `attempts` starts from nothing.
-/

namespace Pcutp

open Sender (ReadOutcome)

section Defs

/-- The number of different blocks among some frames. -/
def distinctBlocks (frames : List Command) : Nat :=
  (frames.filterMap Command.seq?).dedup.length

/-- The frames written between two restarts, and the retransmits counted there. -/
structure Stretch where
  frames : List Command
  retransmits : Nat

/-- Every frame of the stretch is a block's first, or is counted as a retransmit. -/
def Stretch.Balanced (s : Stretch) : Prop :=
  s.frames.length = distinctBlocks s.frames + s.retransmits

/-- The sender, the stretches that restarts have ended, the one that goes on, and the base at each
restart. -/
structure Books where
  sender : Sender
  closed : List Stretch
  stretch : Stretch
  restarts : List Nat

namespace Books

/-- META was written. -/
def start (barrier_id : Nat) (reset_token : Option Line) : Books where
  sender := .start barrier_id reset_token
  closed := []
  stretch := { frames := [], retransmits := 0 }
  restarts := []

/-- All stretches. -/
def stretches (b : Books) : List Stretch :=
  b.closed ++ [b.stretch]

/-- All frames written. -/
def written (b : Books) : List Command :=
  b.stretches.flatMap Stretch.frames

/-- The books after a step of the sender.  A full-file reset that is resumed ends a stretch. -/
def after (b : Books) (next : Sender × List Command) : Books :=
  if b.sender.resetting = true ∧ next.1.phase = .fill then
    { sender := next.1
      closed := b.closed ++ [b.stretch]
      stretch := { frames := [], retransmits := 0 }
      restarts := b.restarts ++ [b.sender.base] }
  else
    { b with
      sender := next.1
      stretch :=
        { frames := b.stretch.frames ++ next.2.filter Command.isFrame
          retransmits := b.stretch.retransmits + (next.1.retransmits - b.sender.retransmits) } }

/-- One step of `send_file`, entered into the books. -/
def step (job : Job) (b : Books) (e : SendEvent) : Option (Books × List Command) :=
  (b.sender.step job e).map fun next => (b.after next, next.2)

end Books

/-- A result agrees with the books. -/
structure Accounts (b : Books) (result : TransferResult) : Prop where
  wire : result.data_wire_bytes = (b.written.map Command.wireLength).sum
  balanced : ∀ stretch ∈ b.stretches, stretch.Balanced
  compressed : result.compressed_blocks = distinctBlocks (b.written.filter Command.isPacked)
  bounded : result.compressed_blocks ≤ result.blocks

end Defs

section Ledger

namespace Sender

/-- The counters that `TransferResult` reports. -/
def ledger (s : Sender) : Nat × Nat × Nat :=
  (s.retransmits, s.compressed_blocks, s.data_wire_bytes)

variable {job : Job} {s s' : Sender} {parts : List Line} {late : Bool}

theorem ledger_ask (left : Nat) :
    (s.ask left).1.ledger = s.ledger := by
  cases left <;> rfl

theorem ledger_askReset (left : Nat) :
    (s.askReset left).1.ledger = s.ledger := by
  cases left <;> rfl

theorem ledger_askBarrier (reset : Bool) (left : Nat) :
    (s.askBarrier reset left).1.ledger = s.ledger := by
  cases left <;> rfl

theorem ledger_dispatch :
    (s.dispatch job parts late).1.ledger = s.ledger := by
  unfold dispatch
  dsimp only
  split_ifs <;> rfl

theorem ledger_resume (reset : Bool) (seq : Nat) :
    (s.resume job reset seq).1.ledger = s.ledger := by
  unfold resume
  dsimp only
  split_ifs <;> rfl

theorem ledger_onReply :
    (s.onReply job parts late).1.ledger = s.ledger := by
  unfold onReply
  split_ifs
  · rfl
  · rfl
  · exact ledger_dispatch

theorem ledger_onGuard (again : Bool) (text : Line) :
    (s.onGuard job again text).1.ledger = s.ledger := by
  unfold onGuard
  split_ifs
  · exact ledger_ask _
  · rfl
  · exact ledger_dispatch

theorem ledger_onProbe (left : Nat) :
    (s.onProbe job left parts late).1.ledger = s.ledger := by
  unfold onProbe
  split_ifs
  · exact ledger_dispatch
  · exact ledger_dispatch
  · exact ledger_ask _
  · rfl

theorem ledger_onReset (left : Nat) :
    (s.onReset job left parts late).1.ledger = s.ledger := by
  unfold onReset
  split_ifs
  · exact ledger_dispatch
  · exact ledger_askReset _
  · rfl
  · rfl

theorem ledger_onBarrier (reset : Bool) (left : Nat) :
    (s.onBarrier job reset left parts late).1.ledger = s.ledger := by
  rw [onBarrier]
  generalize (if reset = true then 0 else s.base) = lo
  split_ifs
  · exact ledger_resume _ _
  · rfl
  · exact ledger_askBarrier _ _
  · rfl
  · rfl

/-- A timeout of `_send_window` counts nothing. -/
theorem ledger_timeout
    {exc : PcutpError} {next : Sender × List Command} (hwaits : s.phase.waits = true)
    (hnext : s.onTimeout job exc = some next) :
    next.1.ledger = s.ledger := by
  rcases SendPhase.waits_cases hwaits with hphase | ⟨again, hphase⟩ | ⟨left, hphase⟩ |
      ⟨left, hphase⟩ | ⟨reset, left, hphase⟩ <;> rw [onTimeout, hphase] at hnext <;>
    cases hnext
  · rfl
  · exact ledger_ask _
  · exact ledger_ask _
  · exact ledger_askReset _
  · exact ledger_askBarrier _ _

/-- A line read by `_send_window` counts nothing. -/
theorem ledger_line
    {text : Line} {next : Sender × List Command} (hwaits : s.phase.waits = true)
    (hnext : s.step job (.line text late) = some next) :
    next.1.ledger = s.ledger := by
  rw [step] at hnext
  split_ifs at hnext
  · obtain ⟨timed, htimed, heq⟩ := Option.map_eq_some_iff.mp hnext
    cases heq
    have hsame : timed.1.ledger = s.ledger := ledger_timeout hwaits htimed
    exact hsame
  · cases hnext
    rfl
  · rcases SendPhase.waits_cases hwaits with hphase | ⟨again, hphase⟩ | ⟨left, hphase⟩ |
        ⟨left, hphase⟩ | ⟨reset, left, hphase⟩ <;> rw [onLine, hphase] at hnext <;>
      cases hnext
    · exact ledger_onReply
    · exact ledger_onGuard _ _
    · exact ledger_onProbe _
    · exact ledger_onReset _
    · exact ledger_onBarrier _ _

end Sender

end Ledger

section Flow

variable (job : Job)

/-- The blocks below `n` that are sent compressed. -/
def packedBelow (n : Nat) : Finset Nat :=
  (Finset.range n).filter fun seq => (job.frame seq).isPacked = true

/-- The blocks that were sent compressed, are to be sent again, and are no longer in the cache. -/
def owed (s : Sender) (top : Nat) : Finset Nat :=
  (Finset.Ico s.next_seq top).filter fun seq =>
    (job.frame seq).isPacked = true ∧ s.frames seq = none

/-- The books of a FLOW transfer.  The blocks below `top` were written, those below `extent` since
the last restart. -/
structure Booked (b : Books) (top extent : Nat) : Prop where
  base_le : b.sender.base ≤ b.sender.next_seq
  next_le : b.sender.next_seq ≤ extent
  extent_le : extent ≤ top
  top_le : top ≤ job.blocks
  cached : ∀ seq c, b.sender.frames seq = some c → c = job.frame seq
  kept : ∀ seq, b.sender.base ≤ seq → seq < b.sender.next_seq → b.sender.frames seq ≠ none
  dropped : ∀ seq, seq < b.sender.base → b.sender.frames seq = none
  fresh : ∀ seq, top ≤ seq → b.sender.frames seq = none
  tried : b.sender.resetting = false →
    ∀ seq, b.sender.base ≤ seq → (b.sender.attempts seq = 0 ↔ extent ≤ seq)
  wire : b.sender.data_wire_bytes = (b.written.map Command.wireLength).sum
  reached : (b.stretch.frames.filterMap Command.seq?).toFinset = Finset.range extent
  all : (b.written.filterMap Command.seq?).toFinset = Finset.range top
  own : ∀ c ∈ b.written, ∃ seq, c = job.frame seq
  balanced : ∀ stretch ∈ b.closed, stretch.Balanced
  current : b.stretch.frames.length = extent + b.stretch.retransmits
  compressed : b.sender.compressed_blocks + (owed job b.sender top).card =
    (packedBelow job top).card + (b.restarts.map fun base => (packedBelow job base).card).sum

variable {job : Job} {b : Books} {top extent : Nat} {next : Sender × List Command}

/-- A step that writes no frame and counts nothing changes the sender alone. -/
theorem after_of_quiet
    (hopen : ¬ (b.sender.resetting = true ∧ next.1.phase = .fill))
    (hplain : ∀ c ∈ next.2, c.isFrame = false)
    (hledger : next.1.ledger = b.sender.ledger) :
    b.after next = { b with sender := next.1 } := by
  have hnone : next.2.filter Command.isFrame = [] :=
    List.filter_eq_nil_iff.mpr fun c hc => by simp [hplain c hc]
  have hsame : next.1.retransmits = b.sender.retransmits := congrArg Prod.fst hledger
  rw [Books.after, if_neg hopen, hnone, hsame, List.append_nil, Nat.sub_self, Nat.add_zero]

/-- The window moves up and may shrink; what lies below it is forgotten. -/
theorem Booked.settle
    {s' : Sender} (h : Booked job b top extent)
    (hbase : b.sender.base ≤ s'.base) (hnext : s'.base ≤ s'.next_seq)
    (hle : s'.next_seq ≤ b.sender.next_seq)
    (hframes : ∀ seq, s'.frames seq = if s'.base ≤ seq then b.sender.frames seq else none)
    (hattempts : s'.resetting = false → b.sender.resetting = false ∧
      ∀ seq, s'.base ≤ seq → s'.attempts seq = b.sender.attempts seq)
    (hledger : s'.ledger = b.sender.ledger) :
    Booked job { b with sender := s' } top extent := by
  have hkeep : ∀ seq, s'.base ≤ seq → s'.frames seq = b.sender.frames seq := fun seq hseq => by
    rw [hframes, if_pos hseq]
  have howed : owed job s' top = owed job b.sender top := by
    ext seq
    simp only [owed, Finset.mem_filter, Finset.mem_Ico]
    constructor
    · rintro ⟨⟨hlo, hhi⟩, hpacked, hnone⟩
      rw [hkeep seq (hnext.trans hlo)] at hnone
      refine ⟨⟨?_, hhi⟩, hpacked, hnone⟩
      by_contra hlt
      exact h.kept seq (hbase.trans (hnext.trans hlo)) (Nat.not_le.mp hlt) hnone
    · rintro ⟨⟨hlo, hhi⟩, hpacked, hnone⟩
      rw [← hkeep seq (hnext.trans (hle.trans hlo))] at hnone
      exact ⟨⟨hle.trans hlo, hhi⟩, hpacked, hnone⟩
  have hwire : s'.data_wire_bytes = b.sender.data_wire_bytes :=
    congrArg (fun l => l.2.2) hledger
  have hcompressed : s'.compressed_blocks = b.sender.compressed_blocks :=
    congrArg (fun l => l.2.1) hledger
  refine
    { base_le := hnext
      next_le := hle.trans h.next_le
      extent_le := h.extent_le
      top_le := h.top_le
      cached := fun seq c hc => ?_
      kept := fun seq hlo hhi => ?_
      dropped := fun seq hseq => ?_
      fresh := fun seq hseq => ?_
      tried := fun hreset seq hseq => ?_
      wire := hwire.trans h.wire
      reached := h.reached
      all := h.all
      own := h.own
      balanced := h.balanced
      current := h.current
      compressed := ?_ }
  · rw [hframes] at hc
    split at hc
    · exact h.cached seq c hc
    · cases hc
  · rw [hkeep seq hlo]
    exact h.kept seq (hbase.trans hlo) (lt_of_lt_of_le hhi hle)
  · exact (hframes seq).trans (if_neg (Nat.not_le.mpr hseq))
  · rw [hframes]
    split
    · exact h.fresh seq hseq
    · rfl
  · obtain ⟨hopen, hsame⟩ := hattempts hreset
    rw [hsame seq hseq]
    exact h.tried hopen seq (hbase.trans hseq)
  · change s'.compressed_blocks + (owed job s' top).card = _
    rw [howed, hcompressed]
    exact h.compressed

theorem written_eq (b : Books) :
    b.written = b.closed.flatMap Stretch.frames ++ b.stretch.frames := by
  simp [Books.written, Books.stretches]

/-- The blocks of a list of frames, counted. -/
theorem distinctBlocks_eq
    {frames : List Command} {n : Nat}
    (h : (frames.filterMap Command.seq?).toFinset = Finset.range n) :
    distinctBlocks frames = n := by
  rw [distinctBlocks, ← List.card_toFinset, h, Finset.card_range]

theorem Booked.balanced_stretch
    (h : Booked job b top extent) :
    b.stretch.Balanced := by
  rw [Stretch.Balanced, distinctBlocks_eq h.reached]
  exact h.current

/-- A restart gives up what was acknowledged: the cache holds no block below the base. -/
theorem Booked.restart
    (h : Booked job b top extent) :
    Booked job
      { sender := b.sender.restarted
        closed := b.closed ++ [b.stretch]
        stretch := { frames := [], retransmits := 0 }
        restarts := b.restarts ++ [b.sender.base] } top 0 := by
  have howed : owed job b.sender.restarted top =
      packedBelow job b.sender.base ∪ owed job b.sender top := by
    ext seq
    simp only [owed, packedBelow, Finset.mem_union, Finset.mem_filter, Finset.mem_Ico,
      Finset.mem_range]
    constructor
    · rintro ⟨⟨_, hhi⟩, hpacked, hnone⟩
      by_cases hlo : seq < b.sender.base
      · exact Or.inl ⟨hlo, hpacked⟩
      · refine Or.inr ⟨⟨?_, hhi⟩, hpacked, hnone⟩
        by_contra hlt
        exact h.kept seq (Nat.not_lt.mp hlo) (Nat.not_le.mp hlt) hnone
    · rintro (⟨hlo, hpacked⟩ | ⟨⟨_, hhi⟩, hpacked, hnone⟩)
      · refine ⟨⟨Nat.zero_le _, ?_⟩, hpacked, h.dropped seq hlo⟩
        exact lt_of_lt_of_le hlo (h.base_le.trans (h.next_le.trans h.extent_le))
      · exact ⟨⟨Nat.zero_le _, hhi⟩, hpacked, hnone⟩
  have hdisjoint : Disjoint (packedBelow job b.sender.base) (owed job b.sender top) := by
    rw [Finset.disjoint_left]
    intro seq hbelow howed'
    simp only [packedBelow, owed, Finset.mem_filter, Finset.mem_range,
      Finset.mem_Ico] at hbelow howed'
    have := h.base_le
    omega
  have hwritten : ∀ s' : Sender,
      ({ sender := s', closed := b.closed ++ [b.stretch],
         stretch := { frames := [], retransmits := 0 },
         restarts := b.restarts ++ [b.sender.base] } : Books).written = b.written := by
    intro s'
    rw [written_eq, written_eq]
    simp
  refine
    { base_le := Nat.le_refl _
      next_le := Nat.le_refl _
      extent_le := Nat.zero_le _
      top_le := h.top_le
      cached := h.cached
      kept := fun seq _ hseq => absurd hseq (Nat.not_lt_zero _)
      dropped := fun seq hseq => absurd hseq (Nat.not_lt_zero _)
      fresh := h.fresh
      tried := fun _ seq _ => iff_of_true rfl (Nat.zero_le _)
      wire := by rw [hwritten]; exact h.wire
      reached := rfl
      all := by rw [hwritten]; exact h.all
      own := by rw [hwritten]; exact h.own
      balanced := fun stretch hmem => ?_
      current := rfl
      compressed := ?_ }
  · rcases List.mem_append.mp hmem with hmem | hmem
    · exact h.balanced stretch hmem
    · rw [List.mem_singleton.mp hmem]
      exact h.balanced_stretch
  · change b.sender.compressed_blocks + (owed job b.sender.restarted top).card = _
    have hsum := h.compressed
    rw [howed, Finset.card_union_of_disjoint hdisjoint, List.map_append, List.sum_append,
      List.map_singleton, List.sum_singleton]
    omega

/-- One block more on a list of frames. -/
theorem blocks_concat
    {frames : List Command} {n seq : Nat} {c : Command} (hseq : c.seq? = some seq) (hle : seq ≤ n)
    (h : (frames.filterMap Command.seq?).toFinset = Finset.range n) :
    ((frames ++ [c]).filterMap Command.seq?).toFinset = Finset.range (max n (seq + 1)) := by
  have hcons : [c].filterMap Command.seq? = [seq] := by
    simp [hseq]
  rw [List.filterMap_append, hcons, List.toFinset_append, h]
  ext k
  simp only [List.toFinset_cons, List.toFinset_nil, Finset.mem_union, Finset.mem_range,
    insert_empty_eq, Finset.mem_singleton]
  omega

/-- The blocks owed before a frame is written: those owed after it, and this one if it is
compressed once more. -/
theorem card_owed_write
    {s : Sender} {frame : Command} (hlt : s.next_seq < top) :
    (owed job s top).card = (owed job (s.writeFrame frame) top).card +
      if (s.frames s.next_seq).isNone && (job.frame s.next_seq).isPacked then 1 else 0 := by
  have hrest : owed job (s.writeFrame frame) top =
      (Finset.Ico (s.next_seq + 1) top).filter fun seq =>
        (job.frame seq).isPacked = true ∧ s.frames seq = none := by
    refine Finset.filter_congr fun seq hseq => ?_
    have hne : seq ≠ s.next_seq := by
      have hlo : s.next_seq + 1 ≤ seq := (Finset.mem_Ico.mp hseq).1
      omega
    simp only [Sender.writeFrame, Function.update_of_ne hne]
  have hsplit : owed job s top = if (job.frame s.next_seq).isPacked = true ∧
      s.frames s.next_seq = none then insert s.next_seq (owed job (s.writeFrame frame) top)
      else owed job (s.writeFrame frame) top := by
    rw [hrest, owed, ← Finset.insert_Ico_add_one_left_eq_Ico hlt, Finset.filter_insert]
  have hnew : s.next_seq ∉ owed job (s.writeFrame frame) top := by
    rw [hrest]
    simp
  rw [hsplit]
  by_cases hcount : (job.frame s.next_seq).isPacked = true ∧ s.frames s.next_seq = none
  · rw [if_pos hcount, Finset.card_insert_of_notMem hnew, if_pos (by simp [hcount.1, hcount.2])]
  · rw [if_neg hcount, if_neg]
    · rfl
    · simp only [Bool.and_eq_true, Option.isNone_iff_eq_none]
      exact fun h => hcount ⟨h.2, h.1⟩

theorem card_packedBelow_succ (n : Nat) :
    (packedBelow job (n + 1)).card =
      (packedBelow job n).card + if (job.frame n).isPacked then 1 else 0 := by
  rw [packedBelow, Finset.range_add_one, Finset.filter_insert]
  split
  · rw [Finset.card_insert_of_notMem (by simp)]
    rfl
  · rfl

/-- A frame is written. -/
theorem Booked.write
    (h : Booked job b top extent) (hopen : b.sender.resetting = false)
    (hblocks : b.sender.next_seq < job.blocks) (stretch : Stretch)
    (hframes : stretch.frames = b.stretch.frames ++ [job.frame b.sender.next_seq])
    (hretransmits : stretch.retransmits =
      b.stretch.retransmits + if b.sender.attempts b.sender.next_seq = 0 then 0 else 1) :
    Booked job
      { b with sender := b.sender.writeFrame (job.frame b.sender.next_seq), stretch }
      (max top (b.sender.next_seq + 1)) (max extent (b.sender.next_seq + 1)) := by
  have hbase := h.base_le
  have hnext := h.next_le
  have hextent := h.extent_le
  have hwritten : ({ b with sender := b.sender.writeFrame (job.frame b.sender.next_seq), stretch } :
      Books).written = b.written ++ [job.frame b.sender.next_seq] := by
    rw [written_eq, written_eq]
    dsimp only
    rw [hframes, List.append_assoc]
  refine
    { base_le := hbase.trans (Nat.le_succ _)
      next_le := Nat.le_max_right _ _
      extent_le := max_le_max_right _ hextent
      top_le := max_le h.top_le hblocks
      cached := fun seq c hc => ?_
      kept := fun seq hlo hhi => ?_
      dropped := fun seq hseq => ?_
      fresh := fun seq hseq => ?_
      tried := fun _ seq hseq => ?_
      wire := ?_
      reached := by rw [hframes]; exact blocks_concat (job.seq_frame _) hnext h.reached
      all := by rw [hwritten]; exact blocks_concat (job.seq_frame _) (hnext.trans hextent) h.all
      own := fun c hc => ?_
      balanced := h.balanced
      current := ?_
      compressed := ?_ }
  · by_cases heq : seq = b.sender.next_seq
    · rw [heq, show ((b.sender.writeFrame _).frames : Nat → Option Command) =
        Function.update b.sender.frames b.sender.next_seq _ from rfl, Function.update_self] at hc
      rw [heq, ← Option.some.inj hc]
    · rw [show ((b.sender.writeFrame _).frames : Nat → Option Command) =
        Function.update b.sender.frames b.sender.next_seq _ from rfl,
        Function.update_of_ne heq] at hc
      exact h.cached seq c hc
  · change Function.update b.sender.frames b.sender.next_seq _ seq ≠ none
    by_cases heq : seq = b.sender.next_seq
    · rw [heq, Function.update_self]
      exact Option.some_ne_none _
    · rw [Function.update_of_ne heq]
      exact h.kept seq hlo (lt_of_le_of_ne (Nat.lt_succ_iff.mp hhi) heq)
  · change Function.update b.sender.frames b.sender.next_seq _ seq = none
    have hlt : seq < b.sender.base := hseq
    rw [Function.update_of_ne (by omega)]
    exact h.dropped seq hlt
  · change Function.update b.sender.frames b.sender.next_seq _ seq = none
    have hle := max_le_iff.mp hseq
    rw [Function.update_of_ne (by omega)]
    exact h.fresh seq hle.1
  · change Function.update b.sender.attempts b.sender.next_seq _ seq = 0 ↔ _
    by_cases heq : seq = b.sender.next_seq
    · rw [heq, Function.update_self]
      omega
    · rw [Function.update_of_ne heq, h.tried hopen seq hseq]
      omega
  · rw [hwritten, List.map_append, List.sum_append, ← h.wire]
    simp [Sender.writeFrame]
  · rw [hwritten] at hc
    rcases List.mem_append.mp hc with hc | hc
    · exact h.own c hc
    · exact ⟨_, List.mem_singleton.mp hc⟩
  · have htried := h.tried hopen b.sender.next_seq hbase
    have hcurrent := h.current
    rw [hframes, hretransmits, List.length_append, List.length_singleton, hcurrent]
    by_cases hfresh : b.sender.attempts b.sender.next_seq = 0
    · rw [if_pos hfresh]
      have := htried.mp hfresh
      omega
    · rw [if_neg hfresh]
      have := mt htried.mpr hfresh
      omega
  · have hsum := h.compressed
    change (b.sender.compressed_blocks +
      if (b.sender.frames b.sender.next_seq).isNone && (job.frame b.sender.next_seq).isPacked
      then 1 else 0) + _ = _ + _
    by_cases hlt : b.sender.next_seq < top
    · have hmax : max top (b.sender.next_seq + 1) = top := max_eq_left hlt
      rw [hmax, Nat.add_right_comm, Nat.add_assoc, ← card_owed_write hlt]
      exact hsum
    · have heq : b.sender.next_seq = top := le_antisymm (hnext.trans hextent) (Nat.not_lt.mp hlt)
      have hmax : max top (b.sender.next_seq + 1) = top + 1 := by omega
      have hfresh : b.sender.frames top = none := h.fresh top (Nat.le_refl _)
      have hnone : owed job b.sender top = ∅ := by
        rw [owed, heq, Finset.Ico_self, Finset.filter_empty]
      have hnone' : owed job (b.sender.writeFrame (job.frame b.sender.next_seq)) (top + 1) = ∅ := by
        rw [owed, show (b.sender.writeFrame (job.frame b.sender.next_seq)).next_seq = top + 1 from
          congrArg (· + 1) heq, Finset.Ico_self, Finset.filter_empty]
      rw [hnone, Finset.card_empty, Nat.add_zero] at hsum
      rw [hmax, hnone', Finset.card_empty, Nat.add_zero, heq, hfresh, card_packedBelow_succ, hsum]
      simp only [Option.isNone_none, Bool.true_and]
      omega

/-- The books of a FLOW transfer, and what is known once its blocks are through. -/
structure Flowing (job : Job) (b : Books) : Prop where
  booked : ∃ top extent, Booked job b top extent
  block : ∀ attempt timeouts, b.sender.phase ≠ .block attempt timeouts
  final : b.sender.phase = .final → job.blocks ≤ b.sender.base
  returned : ∀ result, b.sender.phase = .returned (some result) →
    job.blocks ≤ b.sender.base ∧ ∃ verified, result = b.sender.result job verified

/-- The books are in order, or the transfer was given up. -/
def InOrder (job : Job) (b : Books) : Prop :=
  (∃ exc, b.sender.phase = .raised exc) ∨ Flowing job b

/-- A step that ends in an exception. -/
theorem inOrder_raised
    {exc : PcutpError} (h : next.1.phase = .raised exc) :
    InOrder job (b.after next) := by
  refine Or.inl ⟨exc, ?_⟩
  rw [Books.after]
  split <;> exact h

/-- A wait of `_send_window` ends so. -/
theorem inOrder_outcome
    {parts : List Line} {late : Bool} (h : Booked job b top extent)
    (hwaits : b.sender.phase.waits = true)
    (houtcome : ReadOutcome job b.sender parts late next.1)
    (hplain : ∀ c ∈ next.2, c.isFrame = false) (hledger : next.1.ledger = b.sender.ledger) :
    InOrder job (b.after next) := by
  have hflowing : ∀ {b' : Books} {top extent : Nat}, Booked job b' top extent →
      b'.sender.phase = .fill ∨ b'.sender.phase.waits = true → InOrder job b' := by
    intro b' top extent hbooked hphase
    refine Or.inr ⟨⟨top, extent, hbooked⟩, fun attempt timeouts heq => ?_, fun heq => ?_,
      fun result heq => ?_⟩ <;>
      · rw [heq] at hphase
        rcases hphase with hphase | hphase <;> cases hphase
  have hquiet : b.sender.resetting = false ∨ next.1.phase ≠ .fill →
      b.after next = { b with sender := next.1 } := by
    intro hopen
    refine after_of_quiet (fun hboth => ?_) hplain hledger
    rcases hopen with hopen | hopen
    · rw [hopen] at hboth
      cases hboth.1
    · exact hopen hboth.2
  obtain ⟨s', out⟩ := next
  have hsettled : s'.base = b.sender.base → s'.next_seq = b.sender.next_seq →
      s'.frames = b.sender.frames → (s'.resetting = false → b.sender.resetting = false ∧
        s'.attempts = b.sender.attempts) →
      Booked job { b with sender := s' } top extent := by
    intro hbase hsent hframes hattempts
    refine h.settle hbase.ge (hbase ▸ hsent ▸ h.base_le) hsent.le (fun seq => ?_)
      (fun hreset => ⟨(hattempts hreset).1, fun seq _ => congrFun (hattempts hreset).2 seq⟩) hledger
    rw [hframes, hbase]
    split
    · rfl
    · rename_i hlt
      exact h.dropped seq (Nat.not_le.mp hlt)
  cases houtcome with
  | stays hlate =>
      have hphase : b.sender.phase ≠ .fill := fun heq => by
        rw [heq] at hwaits
        cases hwaits
      rw [hquiet (Or.inr hphase)]
      exact hflowing h (Or.inr hwaits)
  | moves hwaits' hsame hreset hrank =>
      have hphase : s'.phase ≠ .fill := fun heq => by
        rw [heq] at hwaits'
        cases hwaits'
      rw [hquiet (Or.inr hphase)]
      exact hflowing (hsettled hsame.base hsame.next_seq hsame.frames
        fun hopen => ⟨hreset ▸ hopen, hsame.attempts⟩) (Or.inr hwaits')
  | acknowledged a hparts hack hbase hsent hreset =>
      rw [hquiet (Or.inl hreset)]
      refine hflowing (h.settle (hbase.trans (Nat.le_succ a)) hsent (Nat.le_refl _) (fun _ => rfl)
        (fun _ => ⟨hreset, fun seq hseq => if_pos hseq⟩) hledger) (Or.inl rfl)
  | resets hphase hbase hsent hresets hmax hframes hreset =>
      have hfill : s'.phase ≠ .fill := fun heq => by
        rw [heq] at hphase
        cases hphase
      rw [hquiet (Or.inr hfill)]
      refine hflowing (hsettled hbase hsent hframes fun hopen => ?_)
        (Or.inr (by rw [hphase]; rfl))
      rw [Sender.resetting, hphase] at hopen
      cases hopen
  | resumed seq left hphase hparts hseq hbase hsent hrecoveries =>
      have hreset : b.sender.resetting = false := by
        simp only [Sender.resetting, hphase]
      rw [hquiet (Or.inl hreset)]
      exact hflowing (h.settle hbase (Nat.le_refl _) hsent (fun _ => rfl)
        (fun _ => ⟨hreset, fun seq hseq => if_pos hseq⟩) hledger) (Or.inl rfl)
  | restarts left hphase =>
      have hreset : b.sender.resetting = true := by
        simp only [Sender.resetting, hphase]
      rw [Books.after, if_pos ⟨hreset, rfl⟩]
      exact hflowing h.restart (Or.inl rfl)
  | raised exc hphase hbase hsent hrecoveries hresets hattempts hframes =>
      exact inOrder_raised hphase

/-- The sender alone goes on, in a phase outside `_send_window`. -/
theorem inOrder_leaves
    (h : Flowing job b) {phase : SendPhase} {out : List Command}
    (hplain : ∀ c ∈ out, c.isFrame = false)
    (hopen : b.sender.resetting = false)
    (hblock : ∀ attempt timeouts, phase ≠ .block attempt timeouts)
    (hfinal : phase = .final → job.blocks ≤ b.sender.base)
    (hreturned : ∀ result, phase = .returned (some result) →
      job.blocks ≤ b.sender.base ∧ ∃ verified, result = b.sender.result job verified) :
    InOrder job (b.after ({ b.sender with phase }, out)) := by
  obtain ⟨top, extent, hbooked⟩ := h.booked
  rw [after_of_quiet (fun hboth => by rw [hopen] at hboth; cases hboth.1) hplain rfl]
  refine Or.inr ⟨⟨top, extent, ?_⟩, hblock, hfinal, hreturned⟩
  refine hbooked.settle (Nat.le_refl _) hbooked.base_le (Nat.le_refl _) (fun seq => ?_)
    (fun _ => ⟨hopen, fun _ _ => rfl⟩) rfl
  split
  · rfl
  · rename_i hlt
    exact hbooked.dropped seq (Nat.not_le.mp hlt)

/-- The part of `_send_window` that needs no read. -/
theorem inOrder_fill
    (h : Flowing job b) (hphase : b.sender.phase = .fill) :
    InOrder job (b.after (b.sender.fillWindow job)) := by
  have hopen : b.sender.resetting = false := by
    simp only [Sender.resetting, hphase]
  by_cases hbase : b.sender.base < job.blocks
  · rcases Sender.fillWindow_cases hbase with ⟨hblocks, _, _, heq⟩ | heq | ⟨exc, heq⟩
    · obtain ⟨top, extent, hbooked⟩ := h.booked
      have hframe : (b.sender.frames b.sender.next_seq).getD (job.frame b.sender.next_seq) =
          job.frame b.sender.next_seq := by
        cases hcache : b.sender.frames b.sender.next_seq with
        | none => rfl
        | some c => exact hbooked.cached _ _ hcache
      rw [heq, hframe, Books.after, if_neg (by simp [hopen])]
      have hretransmits : (b.sender.writeFrame (job.frame b.sender.next_seq)).retransmits -
          b.sender.retransmits = if b.sender.attempts b.sender.next_seq = 0 then 0 else 1 := by
        simp only [Sender.writeFrame]
        omega
      have hwritten : [job.frame b.sender.next_seq].filter Command.isFrame =
          [job.frame b.sender.next_seq] :=
        List.filter_cons_of_pos (job.isFrame_frame _)
      have hphase' : (b.sender.writeFrame (job.frame b.sender.next_seq)).phase = .fill := hphase
      refine Or.inr ⟨⟨_, _, hbooked.write hopen hblocks _ (by rw [hwritten])
        (by rw [hretransmits])⟩, fun attempt timeouts heq => ?_, fun heq => ?_,
        fun result heq => ?_⟩
      · cases hphase'.symm.trans heq
      · cases hphase'.symm.trans heq
      · cases hphase'.symm.trans heq
    · rw [heq]
      exact inOrder_leaves h (by simp) hopen (by simp) (by simp) (by simp)
    · rw [heq]
      exact inOrder_raised rfl
  · have heq : b.sender.fillWindow job = ({ b.sender with phase := .final }, [.done job.crc]) := by
      rw [Sender.fillWindow, if_neg hbase]
    rw [heq]
    exact inOrder_leaves h (by simp [Command.isFrame]) hopen (by simp)
      (fun _ => Nat.not_lt.mp hbase) (by simp)

/-- A read outside `_send_window` that times out. -/
theorem raised_timeout
    {s : Sender} {exc : PcutpError} (hphase : s.phase = .ready ∨ s.phase = .final)
    (hnext : s.onTimeout job exc = some next) :
    next.1.phase = .raised exc ∧ next.2 = [] := by
  rcases hphase with hphase | hphase <;> rw [Sender.onTimeout, hphase] at hnext <;>
    · cases hnext
      exact ⟨rfl, rfl⟩

/-- A read before or after `_send_window`. -/
theorem inOrder_outside
    {e : SendEvent} (h : Flowing job b)
    (hphase : b.sender.phase = .ready ∨ b.sender.phase = .final)
    (hline : ∀ text late next, b.sender.onLine job text late = some next →
      InOrder job (b.after next))
    (hnext : b.sender.step job e = some next) :
    InOrder job (b.after next) := by
  have hopen : b.sender.resetting = false := by
    rcases hphase with hphase | hphase <;> simp only [Sender.resetting, hphase]
  cases e with
  | run =>
      rw [Sender.step] at hnext
      split at hnext
      · rename_i hfill
        rw [hfill] at hphase
        rcases hphase with hphase | hphase <;> cases hphase
      · cases hnext
  | timeout => exact inOrder_raised (raised_timeout hphase hnext).1
  | line text late =>
      rw [Sender.step] at hnext
      split at hnext
      · split at hnext
        · cases hnext
        · dsimp only at hnext
          split at hnext
          · obtain ⟨timed, htimed, heq⟩ := Option.map_eq_some_iff.mp hnext
            cases heq
            have hraised := (raised_timeout hphase htimed).1
            exact inOrder_raised hraised
          · cases hnext
            exact inOrder_leaves h (by simp [Command.isFrame]) hopen h.block h.final h.returned
      · exact hline text late next hnext

/-- The reply to META. -/
theorem inOrder_ready
    {text : Line} {late : Bool} (h : Flowing job b) (hphase : b.sender.phase = .ready)
    (hnext : b.sender.onLine job text late = some next) :
    InOrder job (b.after next) := by
  have hopen : b.sender.resetting = false := by
    simp only [Sender.resetting, hphase]
  rw [Sender.onLine, hphase] at hnext
  dsimp only at hnext
  split at hnext
  · cases hnext
    exact inOrder_leaves h (by simp) hopen (by simp) (by simp) (by simp)
  · cases hnext
    exact inOrder_leaves h (by simp) hopen (by simp) (by simp) (by simp)

/-- The reply to DONE: the result is made of the sender's own counters. -/
theorem inOrder_final
    {text : Line} {late : Bool} (h : Flowing job b) (hphase : b.sender.phase = .final)
    (hnext : b.sender.onLine job text late = some next) :
    InOrder job (b.after next) := by
  have hopen : b.sender.resetting = false := by
    simp only [Sender.resetting, hphase]
  have hdone := h.final hphase
  rw [Sender.onLine, hphase] at hnext
  cases hnext
  rw [Sender.onFinal]
  split
  · split
    · exact inOrder_raised rfl
    · exact inOrder_leaves h (by simp) hopen h.block h.final h.returned
  · refine inOrder_leaves h (by simp) hopen (by simp) (by simp) fun result heq => ?_
    exact ⟨hdone, _, (Option.some.inj (SendPhase.returned.inj heq)).symm⟩

/-- Nothing follows the end. -/
theorem step_ended
    {s : Sender} {e : SendEvent}
    (hphase : (∃ result, s.phase = .returned result) ∨ ∃ exc, s.phase = .raised exc) :
    s.step job e = none := by
  rcases hphase with ⟨_, hphase⟩ | ⟨_, hphase⟩ <;> cases e <;>
    simp [Sender.step, Sender.onTimeout, Sender.onLine, Sender.reads, hphase]

/-- One step of a FLOW transfer keeps the books in order. -/
theorem inOrder_step
    {e : SendEvent} {b' : Books} {out : List Command} (hflow : job.session.flow = true)
    (h : InOrder job b) (hstep : b.step job e = some (b', out)) :
    InOrder job b' := by
  obtain ⟨next, hnext, heq⟩ := Option.map_eq_some_iff.mp hstep
  cases heq
  rcases h with ⟨exc, hraised⟩ | h
  · rw [step_ended (Or.inr ⟨exc, hraised⟩)] at hnext
    cases hnext
  obtain ⟨top, extent, hbooked⟩ := h.booked
  by_cases hwaits : b.sender.phase.waits = true
  · cases e with
    | run =>
        rw [Sender.step] at hnext
        split at hnext
        · rename_i hphase
          rw [hphase] at hwaits
          cases hwaits
        · cases hnext
    | timeout =>
        obtain ⟨next', hnext', houtcome, hplain⟩ :=
          @Sender.timeout_ends job b.sender [] (TimeoutError_ _) hwaits
        cases hnext.symm.trans hnext'
        exact inOrder_outcome hbooked hwaits houtcome hplain (Sender.ledger_timeout hwaits hnext)
    | line text late =>
        obtain ⟨next', hnext', houtcome, hplain⟩ := @Sender.line_ends job b.sender late text hwaits
        cases hnext.symm.trans hnext'
        exact inOrder_outcome hbooked hwaits houtcome hplain (Sender.ledger_line hwaits hnext)
  · cases hphase : b.sender.phase with
    | ready => exact inOrder_outside h (Or.inl hphase) (fun _ _ _ => inOrder_ready h hphase) hnext
    | final => exact inOrder_outside h (Or.inr hphase) (fun _ _ _ => inOrder_final h hphase) hnext
    | fill =>
        cases e with
        | run =>
            rw [Sender.step, if_pos hphase, if_pos hflow] at hnext
            cases hnext
            exact inOrder_fill h hphase
        | timeout => simp [Sender.step, Sender.onTimeout, hphase] at hnext
        | line text late => simp [Sender.step, Sender.onLine, Sender.reads, hphase] at hnext
    | returned result =>
        rw [step_ended (Or.inl ⟨result, hphase⟩)] at hnext
        cases hnext
    | raised exc =>
        rw [step_ended (Or.inr ⟨exc, hphase⟩)] at hnext
        cases hnext
    | block attempt timeouts => exact absurd hphase (h.block _ _)
    | reply => rw [hphase] at hwaits; exact absurd rfl hwaits
    | guard again => rw [hphase] at hwaits; exact absurd rfl hwaits
    | ayt left => rw [hphase] at hwaits; exact absurd rfl hwaits
    | rst left => rw [hphase] at hwaits; exact absurd rfl hwaits
    | barrier reset left => rw [hphase] at hwaits; exact absurd rfl hwaits

end Flow

section StopAndWait

variable {job : Job} {b : Books} {next : Sender × List Command}

/-- The frames and the blocks of a transfer without FLOW, in each phase. -/
def Sent (base retransmits : Nat) (frames : List Command) : SendPhase → Prop
  | .block attempt _ =>
      frames.length = base + 1 + retransmits + attempt ∧
        (frames.filterMap Command.seq?).toFinset = Finset.range (base + 1)
  | _ =>
      frames.length = base + retransmits ∧
        (frames.filterMap Command.seq?).toFinset = Finset.range base

/-- The books of a transfer without FLOW: one stretch of uncompressed frames. -/
structure PlainBooked (job : Job) (b : Books) : Prop where
  closed : b.closed = []
  restarts : b.restarts = []
  compressed : b.sender.compressed_blocks = 0
  wire : b.sender.data_wire_bytes = (b.written.map Command.wireLength).sum
  raw : ∀ c ∈ b.stretch.frames, c.isPacked = false
  counted : b.stretch.retransmits = b.sender.retransmits
  sent : Sent b.sender.base b.sender.retransmits b.stretch.frames b.sender.phase
  waits : b.sender.phase.waits = false
  returned : ∀ result, b.sender.phase = .returned (some result) →
    ∃ verified, result = b.sender.result job verified

/-- The books are in order, or the transfer was given up. -/
def PlainInOrder (job : Job) (b : Books) : Prop :=
  (∃ exc, b.sender.phase = .raised exc) ∨ PlainBooked job b

theorem plain_raised
    {exc : PcutpError} (h : next.1.phase = .raised exc) :
    PlainInOrder job (b.after next) := by
  refine Or.inl ⟨exc, ?_⟩
  rw [Books.after]
  split <;> exact h

/-- Without FLOW no reset waits for its RESUME. -/
theorem PlainBooked.no_reset
    (h : PlainBooked job b) :
    b.sender.resetting = false := by
  cases hphase : b.sender.phase <;> simp only [Sender.resetting, hphase]
  have hwaits := h.waits
  rw [hphase] at hwaits
  cases hwaits

/-- A step that writes no frame. -/
theorem PlainBooked.quiet
    {s' : Sender} {out : List Command} (h : PlainBooked job b)
    (hplain : ∀ c ∈ out, c.isFrame = false)
    (hcompressed : s'.compressed_blocks = b.sender.compressed_blocks)
    (hwire : s'.data_wire_bytes = b.sender.data_wire_bytes)
    (hretransmits : b.sender.retransmits ≤ s'.retransmits)
    (hsent : Sent s'.base s'.retransmits b.stretch.frames s'.phase)
    (hwaits : s'.phase.waits = false)
    (hreturned : ∀ result, s'.phase = .returned (some result) →
      ∃ verified, result = s'.result job verified) :
    PlainInOrder job (b.after (s', out)) := by
  have hnone : out.filter Command.isFrame = [] :=
    List.filter_eq_nil_iff.mpr fun c hc => by simp [hplain c hc]
  rw [Books.after, if_neg (by simp [h.no_reset]), hnone, List.append_nil]
  refine Or.inr
    { closed := h.closed
      restarts := h.restarts
      compressed := hcompressed.trans h.compressed
      wire := ?_
      raw := h.raw
      counted := ?_
      sent := hsent
      waits := hwaits
      returned := hreturned }
  · rw [written_eq]
    have hsame := h.wire
    rw [written_eq] at hsame
    exact hwire.trans hsame
  · change b.stretch.retransmits + (s'.retransmits - b.sender.retransmits) = s'.retransmits
    rw [h.counted]
    omega

/-- An attempt at the block `base`. -/
theorem PlainBooked.attempt
    {attempt timeouts : Nat} {before : List Command} (h : PlainBooked job b)
    (hbefore : ∀ c ∈ before, c.isFrame = false)
    (hlength : b.stretch.frames.length = b.sender.base + b.sender.retransmits + attempt)
    (hblocks : ((b.stretch.frames ++ [job.rawFrame b.sender.base]).filterMap
      Command.seq?).toFinset = Finset.range (b.sender.base + 1)) :
    PlainInOrder job (b.after ((b.sender.sendBlock job attempt timeouts).1,
      before ++ (b.sender.sendBlock job attempt timeouts).2)) := by
  have hframes : (before ++ [job.rawFrame b.sender.base]).filter Command.isFrame =
      [job.rawFrame b.sender.base] := by
    rw [List.filter_append, List.filter_eq_nil_iff.mpr fun c hc => by simp [hbefore c hc]]
    rfl
  rw [Books.after, if_neg (by simp [h.no_reset])]
  refine Or.inr
    { closed := h.closed
      restarts := h.restarts
      compressed := h.compressed
      wire := ?_
      raw := ?_
      counted := ?_
      sent := ?_
      waits := rfl
      returned := fun result heq => by cases heq }
  · have hsame := h.wire
    rw [written_eq] at hsame ⊢
    dsimp only [Sender.sendBlock]
    rw [hframes, ← List.append_assoc, List.map_append, List.sum_append, hsame]
    simp
  · intro c hc
    dsimp only [Sender.sendBlock] at hc
    rw [hframes] at hc
    rcases List.mem_append.mp hc with hc | hc
    · exact h.raw c hc
    · rw [List.mem_singleton.mp hc]
      rfl
  · dsimp only [Sender.sendBlock]
    rw [Nat.sub_self]
    exact h.counted
  · dsimp only [Sender.sendBlock]
    rw [hframes]
    refine ⟨?_, hblocks⟩
    rw [List.length_append, hlength, List.length_singleton]
    omega

/-- The first attempt at a block, or DONE. -/
theorem plain_fill
    (h : PlainBooked job b) (hphase : b.sender.phase = .fill) :
    PlainInOrder job (b.after (b.sender.fillBlock job)) := by
  have hsent := h.sent
  rw [hphase] at hsent
  rw [Sender.fillBlock]
  split
  · refine h.attempt (fun _ hc => absurd hc List.not_mem_nil) hsent.1 ?_
    rw [blocks_concat rfl (Nat.le_refl _) hsent.2, Nat.max_eq_right (Nat.le_succ _)]
  · exact h.quiet (by simp [Command.isFrame]) rfl rfl (Nat.le_refl _) hsent rfl
      (fun _ heq => by cases heq)

/-- The attempt after one that failed. -/
theorem plain_again
    {attempt timeouts timeouts' : Nat} (before : List Command) (h : PlainBooked job b)
    (hphase : b.sender.phase = .block attempt timeouts)
    (hbefore : ∀ c ∈ before, c.isFrame = false) :
    PlainInOrder job (b.after ((b.sender.sendAgain job attempt timeouts').1,
      before ++ (b.sender.sendAgain job attempt timeouts').2)) := by
  have hsent := h.sent
  rw [hphase] at hsent
  rw [Sender.sendAgain]
  split
  · refine h.attempt hbefore (by rw [hsent.1]; omega) ?_
    rw [blocks_concat rfl (Nat.le_succ _) hsent.2, Nat.max_self]
  · exact plain_raised rfl

theorem plain_blockTimeout
    {attempt timeouts : Nat} {before : List Command} (h : PlainBooked job b)
    (hphase : b.sender.phase = .block attempt timeouts)
    (hbefore : ∀ c ∈ before, c.isFrame = false) :
    PlainInOrder job (b.after ((b.sender.onBlockTimeout job attempt timeouts).1,
      before ++ (b.sender.onBlockTimeout job attempt timeouts).2)) := by
  rw [Sender.onBlockTimeout]
  split
  · exact plain_raised rfl
  · exact plain_again before h hphase hbefore

/-- The reply to an attempt. -/
theorem plain_block
    {attempt timeouts : Nat} {parts : List Line} (h : PlainBooked job b)
    (hphase : b.sender.phase = .block attempt timeouts) :
    PlainInOrder job (b.after (b.sender.onBlock job attempt timeouts parts)) := by
  have hsent := h.sent
  rw [hphase] at hsent
  rw [Sender.onBlock]
  split
  · refine h.quiet (fun _ hc => absurd hc List.not_mem_nil) rfl rfl (Nat.le_add_right _ _) ?_ rfl
      (fun _ heq => by cases heq)
    exact ⟨hsent.1.trans (Nat.add_assoc _ _ _), hsent.2⟩
  · split
    · exact plain_again [] h hphase fun _ hc => absurd hc List.not_mem_nil
    · split
      · exact plain_raised rfl
      · exact plain_raised rfl

/-- The sender alone goes on. -/
theorem plain_leaves
    {phase : SendPhase} {out : List Command} (h : PlainBooked job b)
    (hplain : ∀ c ∈ out, c.isFrame = false)
    (hsent : Sent b.sender.base b.sender.retransmits b.stretch.frames phase)
    (hwaits : phase.waits = false)
    (hreturned : ∀ result, phase = .returned (some result) →
      ∃ verified, result = b.sender.result job verified) :
    PlainInOrder job (b.after ({ b.sender with phase }, out)) :=
  h.quiet hplain rfl rfl (Nat.le_refl _) hsent hwaits hreturned

theorem PlainBooked.phase_cases
    (h : PlainBooked job b) :
    b.sender.phase = .ready ∨ b.sender.phase = .fill ∨
      (∃ attempt timeouts, b.sender.phase = .block attempt timeouts) ∨ b.sender.phase = .final ∨
      (∃ result, b.sender.phase = .returned result) ∨ ∃ exc, b.sender.phase = .raised exc := by
  have hwaits := h.waits
  cases hphase : b.sender.phase <;> rw [hphase] at hwaits <;>
    first | (simp; done) | cases hwaits

/-- A line that `_recv_line` returns, without FLOW. -/
theorem plain_line
    {text : Line} {late : Bool} (h : PlainBooked job b) (hflow : job.session.flow = false)
    (hnext : b.sender.onLine job text late = some next) :
    PlainInOrder job (b.after next) := by
  have hsent := h.sent
  rcases h.phase_cases with hphase | hphase | ⟨attempt, timeouts, hphase⟩ | hphase |
      ⟨result, hphase⟩ | ⟨exc, hphase⟩ <;> rw [Sender.onLine, hphase] at hnext <;>
    rw [hphase] at hsent
  · dsimp only at hnext
    split at hnext <;>
      · cases hnext
        exact plain_leaves h (by simp) hsent rfl (by simp)
  · cases hnext
  · cases hnext
    exact plain_block h hphase
  · have heq : b.sender.onFinal job (split text) late =
        ({ b.sender with
            phase := .returned (some (b.sender.result job
              (decide ((split text).take 2 = ["OK".toList, job.crc])))) }, []) := by
      rw [Sender.onFinal, if_neg (by simp [hflow])]
    rw [← Option.some.inj hnext, heq]
    refine plain_leaves h (by simp) hsent rfl fun result heq => ?_
    exact ⟨_, (Option.some.inj (SendPhase.returned.inj heq)).symm⟩
  · cases hnext
  · cases hnext

/-- A timeout without FLOW, after the answers of `_recv_line`. -/
theorem plain_timeout
    {exc : PcutpError} (before : List Command) (h : PlainBooked job b)
    (hbefore : ∀ c ∈ before, c.isFrame = false)
    (hnext : b.sender.onTimeout job exc = some next) :
    PlainInOrder job (b.after (next.1, before ++ next.2)) := by
  rcases h.phase_cases with hphase | hphase | ⟨attempt, timeouts, hphase⟩ | hphase |
      ⟨result, hphase⟩ | ⟨exc, hphase⟩ <;> rw [Sender.onTimeout, hphase] at hnext <;>
    cases hnext
  · exact plain_raised rfl
  · exact plain_blockTimeout h hphase hbefore
  · exact plain_raised rfl

/-- One step of a transfer without FLOW keeps the books in order. -/
theorem plain_step
    {e : SendEvent} {b' : Books} {out : List Command} (hflow : job.session.flow = false)
    (h : PlainInOrder job b) (hstep : b.step job e = some (b', out)) :
    PlainInOrder job b' := by
  obtain ⟨next, hnext, heq⟩ := Option.map_eq_some_iff.mp hstep
  cases heq
  rcases h with ⟨exc, hraised⟩ | h
  · rw [step_ended (Or.inr ⟨exc, hraised⟩)] at hnext
    cases hnext
  cases e with
  | run =>
      rw [Sender.step] at hnext
      split at hnext
      · rename_i hphase
        rw [if_neg (by simp [hflow])] at hnext
        cases hnext
        exact plain_fill h hphase
      · cases hnext
  | timeout => exact plain_timeout [] h (fun _ hc => absurd hc List.not_mem_nil) hnext
  | line text late =>
      rw [Sender.step] at hnext
      split at hnext
      · split at hnext
        · cases hnext
        · dsimp only at hnext
          split at hnext
          · obtain ⟨timed, htimed, heq⟩ := Option.map_eq_some_iff.mp hnext
            cases heq
            exact plain_timeout [.rmbAck (word (split text) 1)] h
              (by simp [Command.isFrame]) htimed
          · cases hnext
            exact h.quiet (by simp [Command.isFrame]) rfl rfl (Nat.le_refl _) h.sent h.waits
              h.returned
      · exact plain_line h hflow hnext

end StopAndWait

section Result

variable {job : Job} {b : Books} {result : TransferResult}

/-- The blocks that were sent compressed. -/
theorem distinctBlocks_packed
    {top extent : Nat} (h : Booked job b top extent) :
    distinctBlocks (b.written.filter Command.isPacked) = (packedBelow job top).card := by
  have hown : ∀ c ∈ b.written, ∀ seq, c.seq? = some seq → c = job.frame seq := by
    intro c hc seq hseq
    obtain ⟨k, rfl⟩ := h.own c hc
    rw [Job.seq_frame] at hseq
    rw [Option.some.inj hseq]
  rw [distinctBlocks, ← List.card_toFinset]
  congr 1
  ext seq
  have hmem : seq ∈ (b.written.filterMap Command.seq?).toFinset ↔ seq < top := by
    rw [h.all, Finset.mem_range]
  simp only [List.mem_toFinset, List.mem_filterMap, List.mem_filter, packedBelow,
    Finset.mem_filter, Finset.mem_range] at hmem ⊢
  rw [← hmem]
  constructor
  · rintro ⟨c, ⟨hc, hpacked⟩, hseq⟩
    exact ⟨⟨c, hc, hseq⟩, hown c hc seq hseq ▸ hpacked⟩
  · rintro ⟨⟨c, hc, hseq⟩, hpacked⟩
    exact ⟨c, ⟨hc, hown c hc seq hseq ▸ hpacked⟩, hseq⟩

/-- No restart gave up a compressed block. -/
theorem restarts_sum_eq_zero_iff :
    (b.restarts.map fun base => (packedBelow job base).card).sum = 0 ↔
      ∀ base ∈ b.restarts, ∀ seq, seq < base → (job.frame seq).isPacked = false := by
  simp only [List.sum_eq_zero_iff_forall_eq_nat, List.forall_mem_map, Finset.card_eq_zero,
    packedBelow, Finset.filter_eq_empty_iff, Finset.mem_range, Bool.not_eq_true]

/-- The result of a FLOW transfer. -/
theorem accounts_flow
    (h : Flowing job b) (hreturned : b.sender.phase = .returned (some result)) :
    Accounts b result ↔
      ∀ base ∈ b.restarts, ∀ seq, seq < base → (job.frame seq).isPacked = false := by
  obtain ⟨top, extent, hbooked⟩ := h.booked
  obtain ⟨hdone, verified, rfl⟩ := h.returned result hreturned
  have hbase := hbooked.base_le
  have hnext := hbooked.next_le
  have hextent := hbooked.extent_le
  have htop := hbooked.top_le
  have hnone : owed job b.sender top = ∅ := by
    rw [owed, Finset.Ico_eq_empty (by omega), Finset.filter_empty]
  have hsum := hbooked.compressed
  rw [hnone, Finset.card_empty, Nat.add_zero, ← distinctBlocks_packed hbooked] at hsum
  have hbound : distinctBlocks (b.written.filter Command.isPacked) ≤ job.blocks := by
    rw [distinctBlocks_packed hbooked]
    refine (Finset.card_filter_le _ _).trans ?_
    rwa [Finset.card_range]
  rw [← restarts_sum_eq_zero_iff]
  constructor
  · intro haccounts
    have hcompressed : b.sender.compressed_blocks =
        distinctBlocks (b.written.filter Command.isPacked) := haccounts.compressed
    omega
  · intro hzero
    have hcompressed : b.sender.compressed_blocks =
        distinctBlocks (b.written.filter Command.isPacked) := by omega
    refine ⟨hbooked.wire, fun stretch hmem => ?_, hcompressed, hcompressed.le.trans hbound⟩
    rcases List.mem_append.mp hmem with hmem | hmem
    · exact hbooked.balanced stretch hmem
    · rw [List.mem_singleton.mp hmem]
      exact hbooked.balanced_stretch

/-- The result of a transfer without FLOW. -/
theorem accounts_plain
    (h : PlainBooked job b) (hreturned : b.sender.phase = .returned (some result)) :
    Accounts b result := by
  obtain ⟨verified, rfl⟩ := h.returned result hreturned
  have hsent := h.sent
  rw [hreturned] at hsent
  have hwritten : b.written = b.stretch.frames := by
    rw [written_eq, h.closed]
    rfl
  have hnone : b.written.filter Command.isPacked = [] := by
    rw [hwritten]
    exact List.filter_eq_nil_iff.mpr fun c hc => by simp [h.raw c hc]
  refine ⟨h.wire, fun stretch hmem => ?_, ?_, ?_⟩
  · rw [Books.stretches, h.closed, List.nil_append] at hmem
    rw [List.mem_singleton.mp hmem, Stretch.Balanced, distinctBlocks_eq hsent.2, h.counted]
    exact hsent.1
  · rw [hnone]
    exact h.compressed
  · exact h.compressed.le.trans (Nat.zero_le _)

theorem flowing_start (barrier_id : Nat) (reset_token : Option Line) :
    Flowing job (Books.start barrier_id reset_token) := by
  refine ⟨⟨0, 0, ?_⟩, by simp [Books.start, Sender.start], by simp [Books.start, Sender.start],
    by simp [Books.start, Sender.start]⟩
  exact
    { base_le := Nat.le_refl _
      next_le := Nat.le_refl _
      extent_le := Nat.le_refl _
      top_le := Nat.zero_le _
      cached := fun seq c hc => by cases hc
      kept := fun seq _ hseq => absurd hseq (Nat.not_lt_zero _)
      dropped := fun _ _ => rfl
      fresh := fun _ _ => rfl
      tried := fun _ seq _ => iff_of_true rfl (Nat.zero_le _)
      wire := rfl
      reached := rfl
      all := rfl
      own := fun c hc => absurd hc List.not_mem_nil
      balanced := fun stretch hmem => absurd hmem List.not_mem_nil
      current := rfl
      compressed := rfl }

theorem plain_start (barrier_id : Nat) (reset_token : Option Line) :
    PlainBooked job (Books.start barrier_id reset_token) where
  closed := rfl
  restarts := rfl
  compressed := rfl
  wire := rfl
  raw := fun c hc => absurd hc List.not_mem_nil
  counted := rfl
  sent := ⟨rfl, rfl⟩
  waits := rfl
  returned := fun result heq => by cases heq

/-- The accounts of a transfer: in every run that returns a result they agree with what was
written exactly when no restart gave up a block that is sent compressed. -/
theorem accounts_iff
    (job : Job) (barrier_id : Nat) (reset_token : Option Line) (events : List SendEvent)
    {out : List Command}
    (hrun : Machine.run (Books.step job) (Books.start barrier_id reset_token, []) events =
      some (b, out))
    (hreturned : b.sender.phase = .returned (some result)) :
    Accounts b result ↔
      ∀ base ∈ b.restarts, ∀ seq, seq < base → (job.frame seq).isPacked = false := by
  cases hflow : job.session.flow with
  | true =>
      have hinv : InOrder job b :=
        Machine.run_induction (fun _ b _ => InOrder job b)
          (Or.inr (flowing_start barrier_id reset_token))
          (fun _ _ _ _ _ _ h hstep => inOrder_step hflow h hstep) hrun
      refine accounts_flow (hinv.resolve_left ?_) hreturned
      rintro ⟨exc, hraised⟩
      cases hraised.symm.trans hreturned
  | false =>
      have hinv : PlainInOrder job b :=
        Machine.run_induction (fun _ b _ => PlainInOrder job b)
          (Or.inr (plain_start barrier_id reset_token))
          (fun _ _ _ _ _ _ h hstep => plain_step hflow h hstep) hrun
      have hbooked : PlainBooked job b := by
        refine hinv.resolve_left ?_
        rintro ⟨exc, hraised⟩
        cases hraised.symm.trans hreturned
      refine iff_of_true (accounts_plain hbooked hreturned) fun base hbase => ?_
      rw [hbooked.restarts] at hbase
      cases hbase

/-- 64 bytes are a block size. -/
theorem packingBlock_ok :
    1 ≤ 64 ∧ 64 ≤ Const.MAX_BLOCK_SIZE :=
  ⟨by decide, by decide⟩

/-- The comparison of `worthwhile` at 57600 baud, in units of half a microsecond over the rate. -/
def savesAt57600 (raw packed found : Nat) : Bool :=
  decide (57600 * (6000 + 1500 * found + 6 * raw) < 20000000 * (raw - packed - 12))

/-- A server at 57600 baud that sends blocks of 64 bytes. -/
def packingServer : ServerConfig where
  auto_block := false
  block_limit := 64
  window_limit := 2
  compression_enabled := true
  max_retries := Const.MAX_RETRIES
  probe_retries := Const.PROBE_RETRIES
  estimates := { saves := savesAt57600, cheaper := fun _ _ _ => false }
  block_ok := packingBlock_ok
  window_ok := widestWindow_ok

/-- The transfer of two blocks of zeros, both sent compressed. -/
def packedJob : Job where
  session :=
    { config := packingServer
      negotiated_block_limit := 64
      window_size := 2
      flow := true
      compression := true
      identity := true
      block_ok := packingBlock_ok
      window_ok := widestWindow_ok
      compression_flow := fun _ => rfl
      window_flow := smallSession.window_flow }
  filename := (smallJob []).filename
  data := List.replicate 128 0

/-- Its result, for the three counts. -/
def packedResult (retransmits compressed_blocks data_wire_bytes : Nat) : TransferResult where
  filename := "A".toList
  size := 128
  blocks := 2
  crc32 := "C2A8FA9D".toList
  retransmits
  verified := true
  compressed_blocks
  data_wire_bytes

/-- Both blocks are written and acknowledged, and the receiver verifies the file. -/
def acknowledge : List SendEvent :=
  [.run, .run, .line "ACK 0".toList false, .run, .run, .line "ACK 1".toList false, .run,
    .line "OK C2A8FA9D".toList false]

/-- The receiver starts the file again before it has a block, then it refuses the first one. -/
def restartedFirst : List SendEvent :=
  [.line "READY".toList false, .run, .run, .line "RST 0".toList false,
    .line "RESUME 1 0".toList false, .run, .run, .line "NAK 0 CRC".toList false,
    .line "RESUME 2 0".toList false] ++ acknowledge

set_option maxRecDepth 20000 in
theorem accounts_iff_restarted_first :
    ∃ b out, Machine.run (Books.step packedJob) (Books.start 0 none, []) restartedFirst =
        some (b, out) ∧ b.restarts = [0] ∧ Accounts b (packedResult 1 2 136) := by
  have hrun : (Machine.run (Books.step packedJob) (Books.start 0 none, []) restartedFirst).any
      (fun next => decide (next.1.sender.phase = .returned (some (packedResult 1 2 136)) ∧
        next.1.restarts = [0])) = true := by
    decide +kernel
  rw [Option.any_eq_true] at hrun
  obtain ⟨⟨b, out⟩, hrun, hend⟩ := hrun
  obtain ⟨hreturned, hrestarts⟩ := of_decide_eq_true hend
  refine ⟨b, out, hrun, hrestarts,
    (accounts_iff packedJob 0 none restartedFirst hrun hreturned).2 fun base hbase seq hseq => ?_⟩
  rw [hrestarts, List.mem_singleton] at hbase
  omega

/-- The receiver starts the file again when it has acknowledged the first block. -/
def restartedSecond : List SendEvent :=
  [.line "READY".toList false, .run, .run, .line "ACK 0".toList false, .run, .run,
    .line "RST 0".toList false, .line "RESUME 1 0".toList false] ++ acknowledge

set_option maxRecDepth 20000 in
/-- Three compressed blocks are reported for a file of two. -/
theorem accounts_broken :
    ∃ b out result,
      Machine.run (Books.step packedJob) (Books.start 0 none, []) restartedSecond =
        some (b, out) ∧ b.sender.phase = .returned (some result) ∧ ¬ Accounts b result := by
  have hrun : (Machine.run (Books.step packedJob) (Books.start 0 none, []) restartedSecond).any
      (fun next => decide (next.1.sender.phase = .returned (some (packedResult 0 3 136)))) =
        true := by
    decide +kernel
  rw [Option.any_eq_true] at hrun
  obtain ⟨⟨b, out⟩, hrun, hend⟩ := hrun
  refine ⟨b, out, _, hrun, of_decide_eq_true hend, fun haccounts => ?_⟩
  have hbounded : 3 ≤ 2 := haccounts.bounded
  omega

end Result

end Pcutp
