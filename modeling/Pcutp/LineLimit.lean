import Mathlib.Algebra.Ring.Nat
import Pcutp.Link

/-!
# The length limit of a line

`recv_line` looks for a line feed after every read of at most 64 bytes, and
checks the length of its buffer only while it has found none.  A line that is
longer than `MAX_LINE_LEN` is therefore refused when the bytes before its line
feed are seen to be too many, and accepted when the read that crosses the
limit brings the line feed as well.

Once a line is refused the buffer stays as it is, so that every later call
refuses it again.
-/

namespace Pcutp

section Defs

/-- The bytes that the reads can bring. -/
def brought (polls : List Poll) : Nat :=
  (polls.map Poll.bytes).sum

/-- The reads bring the whole stream, and no deadline passes. -/
structure Splits (stream : Bytes) (polls : List Poll) : Prop where
  noTimeout : Poll.expired ∉ polls
  whole : stream.length ≤ brought polls

namespace Link

/-- So many calls of `recv_line` in a row: what they came back with, and the link after them.
A call that still waits is the last one. -/
def recvLines : Nat → Link → List (Except PcutpError Line) × Link
  | 0, link => ([], link)
  | k + 1, link =>
      match link.recv_line with
      | .got text after _ => (.ok text :: (recvLines k after).1, (recvLines k after).2)
      | .raised exc after => (.error exc :: (recvLines k after).1, (recvLines k after).2)
      | .waiting after => ([], after)

/-- The bytes that no call has taken. -/
def ahead (link : Link) : Bytes :=
  link.buf ++ link.stream

end Link

/-- The link that a call leaves. -/
def Outcome.link {α : Type} : Outcome α → Link
  | .got _ link _ => link
  | .raised _ link => link
  | .waiting link => link

/-- Lines as they stand on the stream. -/
def unlines (lines : List Bytes) : Bytes :=
  lines.flatMap fun raw => raw ++ [LF]

/-- Lines that are not longer than the limit. -/
def Short (lines : List Bytes) : Prop :=
  ∀ raw ∈ lines, LF ∉ raw ∧ raw.length ≤ Const.MAX_LINE_LEN

/-- What `recv_line` returns of some lines: the others it handles itself. -/
def returned (lines : List Bytes) : List Line :=
  (lines.map lineText).filter fun text => !isTransparent (split text)

/-- The calls come to the same whatever the reads are: lines within the limit are returned, and
the first one beyond it is refused. -/
structure ChunkFree (stream : Bytes) : Prop where
  same : ∀ p q, Splits stream p → Splits stream q → ∀ k,
    (Link.recvLines k { buf := [], stream, polls := p }).1 =
      (Link.recvLines k { buf := [], stream, polls := q }).1
  /-- The first calls return the lines within the limit. -/
  returns : ∀ p, Splits stream p → ∀ lines rest, stream = unlines lines ++ rest → Short lines →
    (Link.recvLines (returned lines).length { buf := [], stream, polls := p }).1 =
      (returned lines).map .ok
  /-- The call after them raises when a line beyond the limit comes next. -/
  raises : ∀ p, Splits stream p → ∀ lines raw rest,
    stream = unlines lines ++ (raw ++ LF :: rest) → Short lines → LF ∉ raw →
      Const.MAX_LINE_LEN < raw.length →
        (Link.recvLines ((returned lines).length + 1) { buf := [], stream, polls := p }).1 =
          (returned lines).map .ok ++ [.error (ProtocolError "control line too long")]
  accepts : ∀ p, Splits stream p → ∀ lines rest, stream = unlines lines ++ rest → Short lines →
    ∃ k, (Link.recvLines k { buf := [], stream, polls := p }).2.ahead <:+ rest
  refuses : ∀ p, Splits stream p → ∀ k exc,
    .error exc ∈ (Link.recvLines k { buf := [], stream, polls := p }).1 →
      exc = ProtocolError "control line too long" ∧
        ∃ raw, raw <+: (Link.recvLines k { buf := [], stream, polls := p }).2.ahead ∧
          LF ∉ raw ∧ Const.MAX_LINE_LEN < raw.length
  rejects : ∀ p, Splits stream p → ∀ lines raw rest,
    stream = unlines lines ++ (raw ++ LF :: rest) → (∀ l ∈ lines, LF ∉ l) → LF ∉ raw →
      Const.MAX_LINE_LEN < raw.length → ∀ k,
        raw ++ LF :: rest <:+ (Link.recvLines k { buf := [], stream, polls := p }).2.ahead

/-- The first line beyond the limit that ends in the stream. -/
def FirstLong (stream raw : Bytes) : Prop :=
  LF ∉ raw ∧ Const.MAX_LINE_LEN < raw.length ∧
    ∃ lines rest, Short lines ∧ stream = unlines lines ++ (raw ++ LF :: rest)

end Defs

section Bytes

variable {raw rest buf stream : Bytes} {polls : List Poll}

theorem cutLine_append
    (h : LF ∉ raw) (rest : Bytes) :
    Link.cutLine (raw ++ LF :: rest) = some (raw, rest) := by
  have hpos : ∀ x ∈ raw, (x != LF) = true := by
    intro x hx
    rw [bne_iff_ne]
    rintro rfl
    exact h hx
  rw [Link.cutLine, List.takeWhile_append_of_pos hpos, List.dropWhile_append_of_pos hpos]
  simp

theorem cutLine_none
    (h : LF ∉ buf) :
    Link.cutLine buf = none := by
  have hdrop : buf.dropWhile (· != LF) = [] := by
    rw [List.dropWhile_eq_nil_iff]
    intro x hx
    rw [bne_iff_ne]
    rintro rfl
    exact h hx
  rw [Link.cutLine, hdrop]

/-- The bytes of a stream are short lines and then a line beyond the limit, or no line at
all. -/
theorem exists_lines (stream : Bytes) :
    ∃ lines rest, Short lines ∧ stream = unlines lines ++ rest ∧
      (LF ∉ rest ∨ ∃ raw after, rest = raw ++ LF :: after ∧ LF ∉ raw ∧
        Const.MAX_LINE_LEN < raw.length) := by
  induction hn : stream.length using Nat.strongRecOn generalizing stream with
  | _ n ih =>
      cases hcut : Link.cutLine stream with
      | none =>
          exact ⟨[], stream, fun _ h => absurd h List.not_mem_nil, rfl,
            Or.inl (Link.cutLine_eq_none hcut)⟩
      | some p =>
          obtain ⟨hstream, hraw⟩ := Link.cutLine_eq_some hcut
          by_cases hshort : p.1.length ≤ Const.MAX_LINE_LEN
          · have hlength := congrArg List.length hstream
            rw [List.length_append, List.length_cons] at hlength
            obtain ⟨lines, rest, hlines, hrest, hend⟩ := ih p.2.length (by omega) p.2 rfl
            refine ⟨p.1 :: lines, rest, ?_, ?_, hend⟩
            · intro raw hmem
              rcases List.mem_cons.mp hmem with rfl | hmem
              · exact ⟨hraw, hshort⟩
              · exact hlines raw hmem
            · rw [hstream, hrest]
              simp [unlines]
          · exact ⟨[], stream, fun _ h => absurd h List.not_mem_nil, rfl,
              Or.inr ⟨p.1, p.2, hstream, hraw, Nat.not_le.mp hshort⟩⟩

theorem unlines_cons (raw : Bytes) (lines : List Bytes) (rest : Bytes) :
    unlines (raw :: lines) ++ rest = raw ++ LF :: (unlines lines ++ rest) := by
  simp [unlines]

theorem Splits.tail
    {n : Nat} (h : Splits stream (.read n :: polls)) :
    Splits (stream.drop (min n 64)) polls := by
  refine ⟨fun hmem => h.noTimeout (List.mem_cons_of_mem _ hmem), ?_⟩
  have hwhole := h.whole
  simp only [brought, List.map_cons, List.sum_cons, Poll.bytes] at hwhole ⊢
  rw [List.length_drop]
  omega

theorem Splits.nil
    (h : Splits stream []) :
    stream = [] :=
  List.length_eq_zero_iff.mp (Nat.le_zero.mp h.whole)

end Bytes

section Calls

variable {answers : List Line} {raw rest buf stream bytes : Bytes} {polls : List Poll}

theorem recvLine_of_cut
    (hraw : LF ∉ raw) :
    Link.recvLine answers (raw ++ LF :: rest) stream polls =
      if isTransparent (split (lineText raw)) = true then
        Link.recvLine (answers ++ if isPing (split (lineText raw)) then
          [join ["PONG".toList, word (split (lineText raw)) 1]] else []) rest stream polls
      else
        .got (lineText raw) { buf := rest, stream, polls } answers := by
  rw [Link.recvLine.eq_def]
  split
  · rename_i hcut
    rw [cutLine_append hraw] at hcut
    cases hcut
    rfl
  · rename_i hcut
    rw [cutLine_append hraw] at hcut
    cases hcut

theorem recvLine_of_long
    (hfree : LF ∉ buf) (hlong : Const.MAX_LINE_LEN < buf.length) :
    Link.recvLine answers buf stream polls =
      .raised (ProtocolError "control line too long") { buf, stream, polls } := by
  rw [Link.recvLine.eq_def]
  split
  · rename_i hcut
    rw [cutLine_none hfree] at hcut
    cases hcut
  · rw [if_pos hlong]

theorem recvLine_no_more
    (hfree : LF ∉ buf) (hshort : buf.length ≤ Const.MAX_LINE_LEN) :
    Link.recvLine answers buf stream [] = .waiting { buf, stream, polls := [] } := by
  rw [Link.recvLine.eq_def]
  split
  · rename_i hcut
    rw [cutLine_none hfree] at hcut
    cases hcut
  · rw [if_neg (Nat.not_lt.mpr hshort)]

theorem recvLine_reads
    (hfree : LF ∉ buf) (hshort : buf.length ≤ Const.MAX_LINE_LEN) (n : Nat) :
    Link.recvLine answers buf stream (.read n :: polls) =
      Link.recvLine answers (buf ++ stream.take (min n 64)) (stream.drop (min n 64)) polls := by
  rw [Link.recvLine.eq_def]
  split
  · rename_i hcut
    rw [cutLine_none hfree] at hcut
    cases hcut
  · rw [if_neg (Nat.not_lt.mpr hshort)]

/-- How a call comes to the end of a line within the limit: with a buffer of no more than one
read. -/
theorem recvLine_line
    (answers : List Line) (hraw : LF ∉ raw) (hshort : raw.length ≤ Const.MAX_LINE_LEN)
    (hbytes : buf ++ stream = raw ++ LF :: rest) (hsplits : Splits stream polls)
    (hafter : ∀ a b, buf = a ++ LF :: b → b.length ≤ 64) :
    ∃ buf' stream' polls', buf' ++ stream' = rest ∧ buf'.length ≤ 64 ∧ Splits stream' polls' ∧
      Link.recvLine answers buf stream polls =
        Link.recvLine answers (raw ++ LF :: buf') stream' polls' := by
  induction polls generalizing buf stream with
  | nil =>
      obtain rfl := hsplits.nil
      rw [List.append_nil] at hbytes
      subst hbytes
      exact ⟨rest, [], [], List.append_nil _, hafter _ _ rfl, hsplits, rfl⟩
  | cons poll polls ih =>
      cases hcut : Link.cutLine buf with
      | some p =>
          obtain ⟨rfl, hfirst⟩ := Link.cutLine_eq_some hcut
          rw [List.append_assoc, List.cons_append] at hbytes
          obtain ⟨rfl, hrest⟩ := cut_unique hfirst hraw hbytes
          exact ⟨p.2, stream, poll :: polls, hrest, hafter _ _ rfl, hsplits, rfl⟩
      | none =>
          have hfree := Link.cutLine_eq_none hcut
          have hlength : buf.length ≤ raw.length := by
            rcases List.append_eq_append_iff.mp hbytes with ⟨more, heq, _⟩ | ⟨more, heq, hmore⟩
            · rw [heq, List.length_append]
              omega
            · cases more with
              | nil => simp [heq]
              | cons b more =>
                  rw [List.cons_append, List.cons.injEq] at hmore
                  exact absurd (by simp [heq, hmore.1]) hfree
          cases poll with
          | expired => exact absurd List.mem_cons_self hsplits.noTimeout
          | read n =>
              rw [recvLine_reads hfree (hlength.trans hshort)]
              refine ih ?_ hsplits.tail ?_
              · rw [List.append_assoc, List.take_append_drop, hbytes]
              · intro a b hab
                -- The line feed is among the bytes just read.
                have htaken := List.length_take_le (min n 64) stream
                rcases List.append_eq_append_iff.mp hab with ⟨more, _, hread⟩ | ⟨more, hbuf, hread⟩
                · have hcount := congrArg List.length hread
                  simp only [List.length_append, List.length_cons] at hcount
                  omega
                · cases more with
                  | nil =>
                      have hcount := congrArg List.length hread
                      simp only [List.nil_append, List.length_cons] at hcount
                      omega
                  | cons c more =>
                      rw [List.cons_append, List.cons.injEq] at hread
                      exact absurd (by simp [hbuf, hread.1]) hfree

/-- The buffer does not reach beyond what is known to have no line feed. -/
theorem free_of_front
    {front : Bytes} (hfront : LF ∉ front) (hbytes : buf ++ stream = front ++ rest)
    (hfar : rest = [] ∨ buf.length ≤ front.length) :
    LF ∉ buf := by
  have hlength : buf.length ≤ front.length := by
    rcases hfar with rfl | hfar
    · have := congrArg List.length hbytes
      rw [List.append_nil, List.length_append] at this
      omega
    · exact hfar
  have hbuf : buf <+: front :=
    List.prefix_of_prefix_length_le (hbytes ▸ List.prefix_append buf stream)
      (List.prefix_append front rest) hlength
  exact fun hmem => hfront (hbuf.subset hmem)

/-- Where a line is refused: with more than the limit in the buffer. -/
theorem recvLine_refused
    (answers : List Line) {front : Bytes} (hfront : LF ∉ front)
    (hlong : Const.MAX_LINE_LEN < front.length)
    (hfar : rest = [] ∨ Const.MAX_LINE_LEN + 64 ≤ front.length)
    (hbytes : buf ++ stream = front ++ rest) (hsplits : Splits stream polls)
    (hbuf : buf.length ≤ Const.MAX_LINE_LEN + 64) :
    ∃ buf' stream' polls', buf' ++ stream' = buf ++ stream ∧ LF ∉ buf' ∧
      Const.MAX_LINE_LEN < buf'.length ∧
      Link.recvLine answers buf stream polls =
        .raised (ProtocolError "control line too long")
          { buf := buf', stream := stream', polls := polls' } := by
  induction polls generalizing buf stream with
  | nil =>
      have hfree : LF ∉ buf := free_of_front hfront hbytes (hfar.imp_right hbuf.trans)
      obtain rfl := hsplits.nil
      have hover : Const.MAX_LINE_LEN < buf.length := by
        have := congrArg List.length hbytes
        rw [List.append_nil, List.length_append] at this
        omega
      exact ⟨buf, [], [], rfl, hfree, hover, recvLine_of_long hfree hover⟩
  | cons poll polls ih =>
      have hfree : LF ∉ buf := free_of_front hfront hbytes (hfar.imp_right hbuf.trans)
      by_cases hover : Const.MAX_LINE_LEN < buf.length
      · exact ⟨buf, stream, poll :: polls, rfl, hfree, hover, recvLine_of_long hfree hover⟩
      · cases poll with
        | expired => exact absurd List.mem_cons_self hsplits.noTimeout
        | read n =>
            have htaken := List.length_take_le (min n 64) stream
            have hwhole : (buf ++ stream.take (min n 64)) ++ stream.drop (min n 64) =
                buf ++ stream := by
              rw [List.append_assoc, List.take_append_drop]
            have hbuf' : (buf ++ stream.take (min n 64)).length ≤ Const.MAX_LINE_LEN + 64 := by
              rw [List.length_append]
              omega
            rw [recvLine_reads hfree (Nat.not_lt.mp hover), ← hwhole]
            exact ih (hwhole.trans hbytes) hsplits.tail hbuf'

/-- A call that is given no line waits with everything in its buffer. -/
theorem recvLine_waits
    (hfree : LF ∉ buf ++ stream) (hshort : (buf ++ stream).length ≤ Const.MAX_LINE_LEN)
    (hsplits : Splits stream polls) :
    Link.recvLine answers buf stream polls =
      .waiting { buf := buf ++ stream, stream := [], polls := [] } := by
  induction polls generalizing buf stream with
  | nil =>
      obtain rfl := hsplits.nil
      rw [List.append_nil] at hfree hshort ⊢
      exact recvLine_no_more hfree hshort
  | cons poll polls ih =>
      cases poll with
      | expired => exact absurd List.mem_cons_self hsplits.noTimeout
      | read n =>
          have hbuf : LF ∉ buf := fun hmem => hfree (List.mem_append_left _ hmem)
          rw [List.length_append] at hshort
          have hwhole : (buf ++ stream.take (min n 64)) ++ stream.drop (min n 64) =
              buf ++ stream := by
            rw [List.append_assoc, List.take_append_drop]
          rw [recvLine_reads hbuf (by omega), ih (by rwa [hwhole]) ?_ hsplits.tail, hwhole]
          rw [hwhole, List.length_append]
          exact hshort

/-- One byte at a time, as long as no line feed and no byte beyond the limit comes. -/
theorem recvLine_bytewise
    (answers : List Line) (pre more tail : Bytes) (polls : List Poll) (hfree : LF ∉ pre ++ more)
    (hshort : (pre ++ more).length ≤ Const.MAX_LINE_LEN) :
    Link.recvLine answers pre (more ++ tail) (List.replicate more.length (.read 1) ++ polls) =
      Link.recvLine answers (pre ++ more) tail polls := by
  induction more generalizing pre with
  | nil => simp
  | cons b more ih =>
      have hpre : LF ∉ pre := fun hmem => hfree (List.mem_append_left _ hmem)
      have hassoc : pre ++ b :: more = (pre ++ [b]) ++ more := by simp
      have hlength : pre.length ≤ Const.MAX_LINE_LEN := by
        rw [List.length_append] at hshort
        omega
      rw [hassoc] at hfree hshort ⊢
      rw [List.length_cons, List.replicate_succ, List.cons_append, List.cons_append,
        recvLine_reads hpre hlength]
      exact ih (pre ++ [b]) hfree hshort

/-- No call gives a byte back. -/
theorem recvLine_ahead (answers : List Line) (buf stream : Bytes) (polls : List Poll) :
    (Link.recvLine answers buf stream polls).link.ahead <:+ buf ++ stream := by
  fun_induction Link.recvLine answers buf stream polls with
  | case1 answers buf stream polls raw rest hcut text parts htransparent ih =>
      obtain ⟨rfl, _⟩ := Link.cutLine_eq_some hcut
      exact ih.trans ⟨raw ++ [LF], by simp⟩
  | case2 answers buf stream polls raw rest hcut text parts htransparent =>
      obtain ⟨rfl, _⟩ := Link.cutLine_eq_some hcut
      exact ⟨raw ++ [LF], by simp [Outcome.link, Link.ahead]⟩
  | case3 => exact List.suffix_refl _
  | case4 => exact List.suffix_refl _
  | case5 => exact List.suffix_refl _
  | case6 answers buf stream hcut hshort n polls ih =>
      rwa [List.append_assoc, List.take_append_drop] at ih

end Calls

section Runs

variable {raw rest buf stream : Bytes} {lines : List Bytes} {polls : List Poll} {stuck : Bool}

/-- What a call came back with, and so many calls after it. -/
def follow (k : Nat) : Outcome Line → List (Except PcutpError Line) × Link
  | .got text after _ => (.ok text :: (Link.recvLines k after).1, (Link.recvLines k after).2)
  | .raised exc after => (.error exc :: (Link.recvLines k after).1, (Link.recvLines k after).2)
  | .waiting after => ([], after)

theorem recvLines_succ (k : Nat) (link : Link) :
    Link.recvLines (k + 1) link = follow k link.recv_line := by
  rw [Link.recvLines]
  cases link.recv_line <;> rfl

/-- What follows the lines within the limit: too little for a line, or too much. -/
inductive AfterLines : Bool → Bytes → Prop
  | quiet (rest : Bytes) (hfree : LF ∉ rest) (hshort : rest.length ≤ Const.MAX_LINE_LEN) :
      AfterLines false rest
  | stuck (front rest : Bytes) (hfree : LF ∉ front) (hlong : Const.MAX_LINE_LEN < front.length)
      (hfar : rest = [] ∨ Const.MAX_LINE_LEN + 64 ≤ front.length) :
      AfterLines true (front ++ rest)

/-- What so many calls come back with, and the lines they leave: this is said of the lines
alone. -/
def verdict (stuck : Bool) : List Bytes → Nat → List (Except PcutpError Line) × List Bytes
  | lines, 0 => ([], lines)
  | [], k + 1 =>
      (if stuck then List.replicate (k + 1) (.error (ProtocolError "control line too long"))
        else [], [])
  | raw :: lines, k + 1 =>
      if isTransparent (split (lineText raw)) = true then
        verdict stuck lines (k + 1)
      else
        (.ok (lineText raw) :: (verdict stuck lines k).1, (verdict stuck lines k).2)

theorem verdict_zero (stuck : Bool) (lines : List Bytes) :
    verdict stuck lines 0 = ([], lines) := by
  cases lines <;> rfl

/-- A line that was refused is refused by every later call. -/
theorem recvLines_stuck
    (hfree : LF ∉ buf) (hlong : Const.MAX_LINE_LEN < buf.length) (k : Nat) :
    Link.recvLines k { buf, stream, polls } =
      (List.replicate k (.error (ProtocolError "control line too long")),
        { buf, stream, polls }) := by
  induction k with
  | zero => rfl
  | succ k ih =>
      rw [recvLines_succ, Link.recv_line, recvLine_of_long hfree hlong, follow, ih,
        List.replicate_succ]

/-- The calls come back with what the lines say. -/
theorem follow_recvLine
    (hlines : Short lines) (hending : AfterLines stuck rest)
    (hbytes : buf ++ stream = unlines lines ++ rest) (hbuf : buf.length ≤ 64)
    (hsplits : Splits stream polls) (k : Nat) (answers : List Line) :
    (follow k (Link.recvLine answers buf stream polls)).1 = (verdict stuck lines (k + 1)).1 ∧
      (follow k (Link.recvLine answers buf stream polls)).2.ahead =
        unlines (verdict stuck lines (k + 1)).2 ++ rest := by
  induction lines generalizing buf stream polls k answers with
  | nil =>
      cases hending with
      | quiet rest hfree hshort =>
          change buf ++ stream = rest at hbytes
          subst hbytes
          rw [recvLine_waits hfree hshort hsplits]
          exact ⟨rfl, List.append_nil _⟩
      | stuck front rest hfree hlong hfar =>
          obtain ⟨buf', stream', polls', hsame, hfree', hlong', hcall⟩ :=
            recvLine_refused answers hfree hlong hfar hbytes hsplits
              (hbuf.trans (Nat.le_add_left _ _))
          rw [hcall, follow, recvLines_stuck hfree' hlong']
          exact ⟨rfl, hsame.trans hbytes⟩
  | cons raw lines ih =>
      obtain ⟨hraw, hshort⟩ := hlines raw List.mem_cons_self
      have hlines' : Short lines := fun l hl => hlines l (List.mem_cons_of_mem _ hl)
      rw [unlines_cons] at hbytes
      have hafter : ∀ a b, buf = a ++ LF :: b → b.length ≤ 64 := by
        rintro a b rfl
        rw [List.length_append, List.length_cons] at hbuf
        omega
      obtain ⟨buf', stream', polls', hbytes', hbuf', hsplits', hcall⟩ :=
        recvLine_line answers hraw hshort hbytes hsplits hafter
      rw [hcall, recvLine_of_cut hraw, verdict]
      by_cases htransparent : isTransparent (split (lineText raw)) = true
      · rw [if_pos htransparent, if_pos htransparent]
        exact ih hlines' hbytes' hbuf' hsplits' k _
      · rw [if_neg htransparent, if_neg htransparent, follow]
        cases k with
        | zero =>
            rw [verdict_zero]
            exact ⟨rfl, hbytes'⟩
        | succ k =>
            obtain ⟨hsame, hahead⟩ := ih hlines' hbytes' hbuf' hsplits' k []
            rw [recvLines_succ, Link.recv_line]
            exact ⟨congrArg _ hsame, hahead⟩

/-- What is refused is refused for what follows the lines within the limit. -/
theorem error_of_verdict
    {k : Nat} {exc : PcutpError} (h : .error exc ∈ (verdict stuck lines k).1) :
    stuck = true ∧ exc = ProtocolError "control line too long" ∧
      (verdict stuck lines k).2 = [] := by
  induction lines generalizing k with
  | nil =>
      cases k with
      | zero => exact absurd h List.not_mem_nil
      | succ k =>
          cases stuck with
          | false => exact absurd h List.not_mem_nil
          | true => exact ⟨rfl, Except.error.inj (List.eq_of_mem_replicate h), rfl⟩
  | cons raw lines ih =>
      cases k with
      | zero => exact absurd h List.not_mem_nil
      | succ k =>
          rw [verdict] at h ⊢
          split_ifs at h ⊢
          · exact ih h
          · rcases List.mem_cons.mp h with h | h
            · cases h
            · exact ih h

/-- Bytes that some number of calls takes, whatever they have answered before. -/
def Taken (buf stream : Bytes) (polls : List Poll) (rest : Bytes) : Prop :=
  ∀ answers, ∃ k, (follow k (Link.recvLine answers buf stream polls)).2.ahead <:+ rest

theorem taken_of_nil (buf stream : Bytes) (polls : List Poll) :
    Taken buf stream polls (buf ++ stream) := by
  intro answers
  refine ⟨0, ?_⟩
  have hahead := recvLine_ahead answers buf stream polls
  cases hcall : Link.recvLine answers buf stream polls with
  | got text after answers' =>
      rw [hcall] at hahead
      exact hahead
  | raised exc after =>
      rw [hcall] at hahead
      exact hahead
  | waiting after =>
      rw [hcall] at hahead
      exact hahead

/-- A line in the buffer is taken, and what is taken after it is taken. -/
theorem taken_of_cut
    (hraw : LF ∉ raw) {more : Bytes} (h : Taken more stream polls rest) :
    Taken (raw ++ LF :: more) stream polls rest := by
  intro answers
  rw [recvLine_of_cut hraw]
  by_cases htransparent : isTransparent (split (lineText raw)) = true
  · rw [if_pos htransparent]
    exact h _
  · rw [if_neg htransparent]
    obtain ⟨k, hk⟩ := h []
    refine ⟨k + 1, ?_⟩
    rw [follow, recvLines_succ]
    exact hk

/-- Lines within the limit are taken. -/
theorem taken_of_short
    (hlines : Short lines) (hbytes : buf ++ stream = unlines lines ++ rest)
    (hbuf : buf.length ≤ 64) (hsplits : Splits stream polls) :
    Taken buf stream polls rest := by
  induction lines generalizing buf stream polls with
  | nil =>
      change buf ++ stream = rest at hbytes
      subst hbytes
      exact taken_of_nil buf stream polls
  | cons raw lines ih =>
      obtain ⟨hraw, hshort⟩ := hlines raw List.mem_cons_self
      rw [unlines_cons] at hbytes
      have hafter : ∀ a b, buf = a ++ LF :: b → b.length ≤ 64 := by
        rintro a b rfl
        rw [List.length_append, List.length_cons] at hbuf
        omega
      intro answers
      obtain ⟨buf', stream', polls', hbytes', hbuf', hsplits', hcall⟩ :=
        recvLine_line answers hraw hshort hbytes hsplits hafter
      rw [hcall]
      exact taken_of_cut hraw
        (ih (fun l hl => hlines l (List.mem_cons_of_mem _ hl)) hbytes' hbuf' hsplits') answers

/-- The reads that bring lines within the limit one byte at a time. -/
theorem taken_bytewise
    (hlines : Short lines) {tail : Bytes} (h : Taken [] tail polls rest) :
    Taken [] (unlines lines ++ tail)
      (List.replicate (unlines lines).length (.read 1) ++ polls) rest := by
  induction lines with
  | nil => exact h
  | cons raw lines ih =>
      obtain ⟨hraw, hshort⟩ := hlines raw List.mem_cons_self
      have hlength : (unlines (raw :: lines)).length =
          raw.length + ((unlines lines).length + 1) := by
        simp [unlines]
      intro answers
      rw [unlines_cons, hlength, List.replicate_add, List.append_assoc,
        recvLine_bytewise answers [] raw _ _ hraw hshort, List.nil_append, List.replicate_succ,
        List.cons_append, recvLine_reads hraw hshort]
      exact taken_of_cut hraw (ih fun l hl => hlines l (List.mem_cons_of_mem _ hl)) answers

/-- A line that goes beyond the limit by less than one read is taken when the last read brings
its end. -/
theorem taken_of_crossing
    (hraw : LF ∉ raw) (hlong : Const.MAX_LINE_LEN < raw.length)
    (hnear : raw.length < Const.MAX_LINE_LEN + 64) :
    Taken [] (raw ++ LF :: rest)
      (List.replicate Const.MAX_LINE_LEN (.read 1) ++ .read 64 :: polls) rest := by
  intro answers
  have hcount : (raw.take Const.MAX_LINE_LEN).length = Const.MAX_LINE_LEN :=
    List.length_take_of_le (Nat.le_of_lt hlong)
  have hparts := List.take_append_drop Const.MAX_LINE_LEN raw
  have hfront : LF ∉ raw.take Const.MAX_LINE_LEN := fun hmem => hraw (List.mem_of_mem_take hmem)
  generalize raw.take Const.MAX_LINE_LEN = front at hcount hparts hfront
  generalize raw.drop Const.MAX_LINE_LEN = back at hparts
  subst hparts
  rw [List.length_append] at hnear
  -- The last read brings what is left of the line, its end and some more.
  obtain ⟨m, hm⟩ : ∃ m, 64 = back.length + (m + 1) := ⟨64 - back.length - 1, by omega⟩
  have htake : (back ++ LF :: rest).take (min 64 64) = back ++ LF :: rest.take m := by
    rw [Nat.min_self, hm, List.take_length_add_append, List.take_succ_cons]
  have hdrop : (back ++ LF :: rest).drop (min 64 64) = rest.drop m := by
    rw [Nat.min_self, hm, List.drop_length_add_append, List.drop_succ_cons]
  have hbytewise := recvLine_bytewise answers [] front (back ++ LF :: rest) (.read 64 :: polls)
    hfront (Nat.le_of_eq hcount)
  rw [List.nil_append, hcount] at hbytewise
  rw [List.append_assoc, hbytewise, recvLine_reads hfront (Nat.le_of_eq hcount), htake,
    hdrop, ← List.append_assoc]
  have hrest := taken_of_nil (rest.take m) (rest.drop m) polls
  rw [List.take_append_drop] at hrest
  exact taken_of_cut hraw hrest answers

/-- The calls return the lines that `recv_line` does not handle itself. -/
theorem verdict_returned (more : List Bytes) :
    (verdict stuck (lines ++ more) (returned lines).length).1 = (returned lines).map .ok := by
  induction lines with
  | nil => rw [show (returned []).length = 0 from rfl, verdict_zero]; rfl
  | cons raw lines ih =>
      by_cases htransparent : isTransparent (split (lineText raw)) = true
      · have hskip : returned (raw :: lines) = returned lines := by
          simp [returned, htransparent]
        rw [hskip]
        cases hk : (returned lines).length with
        | zero =>
            rw [verdict_zero, List.length_eq_zero_iff.mp hk]
            rfl
        | succ k =>
            rw [List.cons_append, verdict, if_pos htransparent, ← hk]
            exact ih
      · have hkeep : returned (raw :: lines) = lineText raw :: returned lines := by
          simp [returned, htransparent]
        rw [hkeep, List.length_cons, List.cons_append, verdict, if_neg htransparent, ih]
        rfl

/-- The call after them raises, if what follows is too much. -/
theorem verdict_raises (lines : List Bytes) :
    (verdict true lines ((returned lines).length + 1)).1 =
      (returned lines).map .ok ++ [.error (ProtocolError "control line too long")] := by
  induction lines with
  | nil => rfl
  | cons raw lines ih =>
      by_cases htransparent : isTransparent (split (lineText raw)) = true
      · have hskip : returned (raw :: lines) = returned lines := by
          simp [returned, htransparent]
        rw [hskip, verdict, if_pos htransparent, ih]
      · have hkeep : returned (raw :: lines) = lineText raw :: returned lines := by
          simp [returned, htransparent]
        rw [hkeep, List.length_cons, verdict, if_neg htransparent, ih]
        rfl

/-- Lines within the limit begin the lines that end where none follows within it. -/
theorem short_prefix
    {lines' : List Bytes} {ending : Bytes} (hlines' : Short lines') (hlines : Short lines)
    (hend : LF ∉ ending ∨ ∃ raw after, ending = raw ++ LF :: after ∧ LF ∉ raw ∧
      Const.MAX_LINE_LEN < raw.length)
    (heq : unlines lines ++ ending = unlines lines' ++ rest) :
    ∃ more, lines = lines' ++ more ∧ rest = unlines more ++ ending := by
  induction lines' generalizing lines with
  | nil => exact ⟨lines, rfl, heq.symm⟩
  | cons l' lines' ih =>
      obtain ⟨hl', hshort'⟩ := hlines' l' List.mem_cons_self
      rw [unlines_cons] at heq
      cases lines with
      | nil =>
          change ending = _ at heq
          rcases hend with hfree | ⟨raw, after, rfl, hraw, hlong⟩
          · exact absurd (by simp [heq]) hfree
          · obtain ⟨rfl, _⟩ := cut_unique hraw hl' heq
            exact absurd hlong (Nat.not_lt.mpr hshort')
      | cons l lines =>
          rw [unlines_cons] at heq
          obtain ⟨rfl, htail⟩ := cut_unique (hlines l List.mem_cons_self).1 hl' heq
          obtain ⟨more, rfl, hrest⟩ := ih (fun m hm => hlines' m (List.mem_cons_of_mem _ hm))
            (fun m hm => hlines m (List.mem_cons_of_mem _ hm)) htail
          exact ⟨more, rfl, hrest⟩

/-- They are all of them when a line beyond the limit follows. -/
theorem short_unique
    {lines' : List Bytes} {ending : Bytes} (hlines' : Short lines') (hlines : Short lines)
    (hend : LF ∉ ending ∨ ∃ raw after, ending = raw ++ LF :: after ∧ LF ∉ raw ∧
      Const.MAX_LINE_LEN < raw.length)
    (hraw : LF ∉ raw) (hlong : Const.MAX_LINE_LEN < raw.length)
    (heq : unlines lines ++ ending = unlines lines' ++ (raw ++ LF :: rest)) :
    lines' = lines ∧ raw ++ LF :: rest = ending := by
  obtain ⟨more, rfl, hmore⟩ := short_prefix hlines' hlines hend heq
  cases more with
  | nil => exact ⟨(List.append_nil _).symm, hmore⟩
  | cons l more =>
      obtain ⟨hl, hshort⟩ := hlines l (by simp)
      rw [unlines_cons] at hmore
      obtain ⟨rfl, _⟩ := cut_unique hraw hl hmore
      exact absurd hlong (Nat.not_lt.mpr hshort)

/-- A line beyond the limit is no part of the lines within it. -/
theorem long_suffix
    {lines' : List Bytes} {ending : Bytes} (hlines : Short lines)
    (hfree : ∀ l ∈ lines', LF ∉ l) (hraw : LF ∉ raw) (hlong : Const.MAX_LINE_LEN < raw.length)
    (heq : unlines lines ++ ending = unlines lines' ++ (raw ++ LF :: rest)) :
    raw ++ LF :: rest <:+ ending := by
  induction lines generalizing lines' with
  | nil =>
      change ending = _ at heq
      rw [heq]
      exact List.suffix_append _ _
  | cons l lines ih =>
      obtain ⟨hl, hshort⟩ := hlines l List.mem_cons_self
      rw [unlines_cons] at heq
      cases lines' with
      | nil =>
          obtain ⟨rfl, _⟩ := cut_unique hl hraw heq
          exact absurd hlong (Nat.not_lt.mpr hshort)
      | cons l' lines' =>
          rw [unlines_cons] at heq
          obtain ⟨_, heq⟩ := cut_unique hl (hfree l' List.mem_cons_self) heq
          exact ih (fun m hm => hlines m (List.mem_cons_of_mem _ hm))
            (fun m hm => hfree m (List.mem_cons_of_mem _ hm)) heq

end Runs

section Result

variable {stream raw rest : Bytes}

/-- Reads that let a line through that is too long. -/
theorem not_chunkFree
    (h : FirstLong stream raw) (hnear : raw.length < Const.MAX_LINE_LEN + 64) :
    ¬ ChunkFree stream := by
  intro hfree
  obtain ⟨hraw, hlong, lines, rest, hlines, rfl⟩ := h
  have hsplits : Splits (unlines lines ++ (raw ++ LF :: rest))
      (List.replicate (unlines lines).length (.read 1) ++
        (List.replicate Const.MAX_LINE_LEN (.read 1) ++
          .read 64 :: List.replicate rest.length (.read 1))) := by
    constructor
    · simp
    · simp [brought, Poll.bytes]
      omega
  obtain ⟨k, hk⟩ := taken_bytewise hlines (taken_of_crossing hraw hlong hnear) []
  have hkept := hfree.rejects _ hsplits lines raw rest rfl (fun l hl => (hlines l hl).1) hraw hlong
    (k + 1)
  rw [recvLines_succ] at hkept
  have hlength := (hkept.trans hk).length_le
  rw [List.length_append, List.length_cons] at hlength
  omega

/-- The reads make no difference exactly when the first line beyond the limit is beyond it by
at least one read. -/
theorem chunkFree_iff (stream : Bytes) :
    ChunkFree stream ↔
      ∀ raw, FirstLong stream raw → Const.MAX_LINE_LEN + 64 ≤ raw.length := by
  constructor
  · intro hfree raw hraw
    exact Nat.not_lt.mp fun hnear => not_chunkFree hraw hnear hfree
  · intro hfar
    obtain ⟨lines, ending, hlines, rfl, hend⟩ := exists_lines stream
    obtain ⟨stuck, hending⟩ : ∃ stuck, AfterLines stuck ending := by
      rcases hend with hend | ⟨raw, after, rfl, hraw, hlong⟩
      · by_cases hshort : ending.length ≤ Const.MAX_LINE_LEN
        · exact ⟨false, .quiet ending hend hshort⟩
        · have hstuck := AfterLines.stuck ending [] hend (Nat.not_le.mp hshort) (Or.inl rfl)
          rw [List.append_nil] at hstuck
          exact ⟨true, hstuck⟩
      · exact ⟨true, .stuck raw (LF :: after) hraw hlong
          (Or.inr (hfar raw ⟨hraw, hlong, lines, after, hlines, rfl⟩))⟩
    -- What the calls come to is said of the lines.
    have hcalls : ∀ p, Splits (unlines lines ++ ending) p → ∀ k,
        (Link.recvLines k { buf := [], stream := unlines lines ++ ending, polls := p }).1 =
            (verdict stuck lines k).1 ∧
          (Link.recvLines k { buf := [], stream := unlines lines ++ ending, polls := p }).2.ahead =
            unlines (verdict stuck lines k).2 ++ ending := by
      intro p hp k
      cases k with
      | zero =>
          rw [verdict_zero]
          exact ⟨rfl, rfl⟩
      | succ k =>
          rw [recvLines_succ]
          exact follow_recvLine hlines hending (List.nil_append _) (Nat.zero_le 64) hp k []
    refine ⟨fun p q hp hq k => ?_, fun p hp lines' rest hrest hshort => ?_,
      fun p hp lines' raw rest hrest hshort hraw hlong => ?_,
      fun p hp lines' rest hrest hshort => ?_, fun p hp k exc hexc => ?_,
      fun p hp lines' raw rest hrest hfree hraw hlong k => ?_⟩
    · rw [(hcalls p hp k).1, (hcalls q hq k).1]
    · obtain ⟨more, rfl, _⟩ := short_prefix hshort hlines hend hrest
      rw [(hcalls p hp _).1, verdict_returned]
    · obtain ⟨rfl, hrest'⟩ := short_unique hshort hlines hend hraw hlong hrest
      cases hending with
      | quiet ending hfree => exact absurd (by simp [← hrest']) hfree
      | stuck front after => rw [(hcalls p hp _).1, verdict_raises]
    · obtain ⟨k, hk⟩ := taken_of_short hshort ((List.nil_append _).trans hrest) (Nat.zero_le 64)
        hp []
      refine ⟨k + 1, ?_⟩
      rw [recvLines_succ]
      exact hk
    · rw [(hcalls p hp k).1] at hexc
      obtain ⟨rfl, hexc', hleft⟩ := error_of_verdict hexc
      rw [(hcalls p hp k).2, hleft]
      cases hending with
      | stuck front rest hfree hlong hfar =>
          exact ⟨hexc', front, List.prefix_append front rest, hfree, hlong⟩
    · rw [(hcalls p hp k).2]
      exact (long_suffix hlines hfree hraw hlong hrest).trans (List.suffix_append _ _)

/-- A line of 540 bytes. -/
theorem not_chunkFree_540 :
    ¬ ChunkFree (List.replicate 540 65 ++ [LF]) := by
  have hlength : (List.replicate 540 (65 : UInt8)).length = 540 := List.length_replicate
  refine not_chunkFree ⟨?_, ?_, [], [], ?_, rfl⟩ (hlength.trans_lt (by decide))
  · exact fun hmem => absurd (List.eq_of_mem_replicate hmem) (by decide)
  · exact Nat.lt_of_lt_of_eq (by decide) hlength.symm
  · exact fun _ hmem => absurd hmem List.not_mem_nil

end Result

end Pcutp
