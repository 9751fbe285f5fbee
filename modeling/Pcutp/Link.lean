import Mathlib.Data.List.DropRight
import Pcutp.Lines

/-!
# Framing over a byte stream

`Link.recv_line` and `Link.recv_exact` share one buffer.  The transport is the
stream of bytes that were written and not yet read, and a list of polls: each
says how much of the stream has arrived when the link asks for bytes, or that
the deadline of the read has passed.  The link asks for 64 bytes at a time
while it looks for a line, so it takes payload bytes and later lines into the
buffer as well; the payload is then taken from there first.

This is `recv_line` as the transfer code calls it, without a keep-alive.
-/

namespace Pcutp

/-- One turn of a read loop. -/
inductive Poll
  /-- So many bytes have arrived, if the stream has them. -/
  | read (n : Nat)
  /-- The deadline has passed. -/
  | expired
  deriving DecidableEq

/-- The buffer of a link, and what the transport will bring. -/
structure Link where
  buf : Bytes
  stream : Bytes
  polls : List Poll
  deriving DecidableEq

/-- How a read ends, with the lines it answered on its own. -/
inductive Outcome (α : Type)
  | got (value : α) (link : Link) (answers : List Line)
  | raised (exc : PcutpError) (link : Link)
  /-- The polls have run out while the read waits. -/
  | waiting (link : Link)
  deriving DecidableEq

section Encoding

/-- `LF`. -/
def LF : UInt8 := 10

/-- `MAX_LINE_LEN`. -/
def Const.MAX_LINE_LEN : Nat := 512

/-- `line.encode("ascii")`, for an ASCII line. -/
def encodeAscii (line : Line) : Bytes :=
  line.map fun c => UInt8.ofNat c.toNat

/-- `raw.decode("ascii", errors="replace")`. -/
def decodeAscii (raw : Bytes) : Line :=
  raw.map fun b => if b.toNat < 128 then Char.ofNat b.toNat else Char.ofNat 0xFFFD

/-- The text of a raw line: NULs before it and CRs around it are stripped. -/
def lineText (raw : Bytes) : Line :=
  ((decodeAscii (raw.dropWhile (· == 0))).dropWhile (· == '\r')).rdropWhile (· == '\r')

/-- What `send_line_and_raw` writes; `send_line` writes the same with no payload. -/
def encodeFrame (line : Line) (payload : Bytes) : Bytes :=
  encodeAscii line ++ LF :: payload

/-- What a sequence of frames leaves on the stream. -/
def encodeFrames (frames : List (Line × Bytes)) : Bytes :=
  frames.flatMap fun f => encodeFrame f.1 f.2

end Encoding

section Transparent

variable (parts : List Line)

def isPing : Bool :=
  parts.length == 2 && word parts 0 == "PING".toList && isdecimal (word parts 1)

def isPong : Bool :=
  parts.length == 2 && word parts 0 == "PONG".toList && isdecimal (word parts 1)

/-- `w in {"U", "P"}`. -/
def isSide (w : Line) : Bool :=
  w == "U".toList || w == "P".toList

/-- `w in {"0", "1"}`. -/
def isBit (w : Line) : Bool :=
  w == "0".toList || w == "1".toList

def isBeacon : Bool :=
  parts.length == 3 && word parts 0 == "BEACON".toList && isSide (word parts 1) &&
    isBit (word parts 2)

def isMarker : Bool :=
  parts.length == 4 && word parts 0 == "MARK".toList && isSide (word parts 1) &&
    isSide (word parts 2) && isBit (word parts 3)

/-- The lines that `recv_line` handles itself. -/
def isTransparent : Bool :=
  isPing parts || isPong parts || isBeacon parts || isMarker parts

end Transparent

namespace Link

/-- The raw line before the first LF, and what follows it. -/
def cutLine (buf : Bytes) : Option (Bytes × Bytes) :=
  match buf.dropWhile (· != LF) with
  | [] => none
  | _ :: rest => some (buf.takeWhile (· != LF), rest)

theorem cutLine_eq_some
    {buf raw rest : Bytes} (h : cutLine buf = some (raw, rest)) :
    buf = raw ++ LF :: rest ∧ LF ∉ raw := by
  have hparts := List.takeWhile_append_dropWhile (p := (· != LF)) (l := buf)
  unfold cutLine at h
  split at h
  · cases h
  · rename_i b rest' hdrop
    cases h
    have hb : b = LF := by
      have hhead := List.head?_dropWhile_not (p := (· != LF)) buf
      rw [hdrop] at hhead
      simpa using hhead
    constructor
    · rw [hdrop, hb] at hparts
      exact hparts.symm
    · intro hmem
      simpa using List.mem_takeWhile_imp hmem

theorem cutLine_eq_none
    {buf : Bytes} (h : cutLine buf = none) :
    LF ∉ buf := by
  unfold cutLine at h
  split at h
  · rename_i hdrop
    intro hmem
    simpa using List.dropWhile_eq_nil_iff.mp hdrop LF hmem
  · cases h

/-- The loop of `recv_line`. -/
def recvLine (answers : List Line) (buf stream : Bytes) (polls : List Poll) : Outcome Line :=
  match _h : cutLine buf with
  | some (raw, rest) =>
      let text := lineText raw
      let parts := split text
      if isTransparent parts = true then
        -- A PING is answered; the other three only show that the peer lives.
        recvLine (answers ++ if isPing parts then [join ["PONG".toList, word parts 1]] else [])
          rest stream polls
      else
        .got text { buf := rest, stream, polls } answers
  | none =>
      if buf.length > Const.MAX_LINE_LEN then
        .raised (ProtocolError "control line too long") { buf, stream, polls }
      else
        match polls with
        | [] => .waiting { buf, stream, polls := [] }
        | .expired :: polls =>
            .raised (TimeoutError_ "timed out waiting for a control line") { buf, stream, polls }
        | .read n :: polls =>
            recvLine answers (buf ++ stream.take (min n 64)) (stream.drop (min n 64)) polls
termination_by (polls.length, buf.length)
decreasing_by
  · have hlen := congrArg List.length (cutLine_eq_some _h).1
    simp only [List.length_append, List.length_cons] at hlen
    exact Prod.Lex.right _ (by omega)
  · exact Prod.Lex.left _ _ (by simp)

/-- `recv_line(timeout)`. -/
def recv_line (link : Link) : Outcome Line :=
  recvLine [] link.buf link.stream link.polls

/-- The loop of `recv_exact`. -/
def recvExact (size : Nat) (buf stream : Bytes) (polls : List Poll) : Outcome Bytes :=
  if size ≤ buf.length then
    .got (buf.take size) { buf := buf.drop size, stream, polls } []
  else
    match polls with
    | [] => .waiting { buf, stream, polls := [] }
    | .expired :: polls =>
        .raised (TimeoutError_ "timed out after payload bytes") { buf, stream, polls }
    | .read n :: polls =>
        let n := min n (min (size - buf.length) 256)
        recvExact size (buf ++ stream.take n) (stream.drop n) polls
termination_by polls.length

/-- `recv_exact(size, timeout)`. -/
def recv_exact (size : Nat) (link : Link) : Outcome Bytes :=
  recvExact size link.buf link.stream link.polls

/-- `recv_line` and then `recv_exact(size)`, for each size in turn. -/
def recvFrames : List Nat → Link → Outcome (List (Line × Bytes))
  | [], link => .got [] link []
  | size :: sizes, link =>
      match link.recv_line with
      | .raised exc link => .raised exc link
      | .waiting link => .waiting link
      | .got line link answers =>
          match link.recv_exact size with
          | .raised exc link => .raised exc link
          | .waiting link => .waiting link
          | .got payload link _ =>
              match recvFrames sizes link with
              | .raised exc link => .raised exc link
              | .waiting link => .waiting link
              | .got frames link answers' =>
                  .got ((line, payload) :: frames) link (answers ++ answers')

end Link

section RoundTrip

/-- A line that `send_line` can carry: what the framing does not take for its own. -/
structure Sendable (line : Line) : Prop where
  ascii : ∀ c ∈ line, c.toNat < 128
  noLf : '\n' ∉ line
  noNul : line.head? ≠ some (Char.ofNat 0)
  noCrBefore : line.head? ≠ some '\r'
  noCrAfter : line.getLast? ≠ some '\r'
  short : line.length ≤ Const.MAX_LINE_LEN
  plain : isTransparent (split line) = false

/-- A line that is read as it was written once its LF has come, however long it is. -/
structure Legible (line : Line) : Prop where
  ascii : ∀ c ∈ line, c.toNat < 128
  noLf : '\n' ∉ line
  noNul : line.head? ≠ some (Char.ofNat 0)
  noCrBefore : line.head? ≠ some '\r'
  noCrAfter : line.getLast? ≠ some '\r'
  plain : isTransparent (split line) = false

theorem Sendable.legible
    {line : Line} (h : Sendable line) :
    Legible line :=
  { h with }

variable {line : Line} {answers : List Line} {buf stream rest : Bytes} {polls : List Poll}

theorem toNat_encodeChar
    {c : Char} (hc : c.toNat < 128) :
    (UInt8.ofNat c.toNat).toNat = c.toNat := by
  simp only [UInt8.toNat_ofNat']
  omega

theorem decode_encode
    (hline : ∀ c ∈ line, c.toNat < 128) :
    decodeAscii (encodeAscii line) = line := by
  rw [decodeAscii, encodeAscii, List.map_map]
  refine (List.map_congr_left fun c hc => ?_).trans (List.map_id _)
  have hlt := hline c hc
  simp [toNat_encodeChar hlt, hlt, Char.ofNat_toNat]

theorem Legible.lf_not_mem
    (h : Legible line) :
    LF ∉ encodeAscii line := by
  intro hmem
  obtain ⟨c, hc, heq⟩ := List.mem_map.mp hmem
  have hnat : c.toNat = 10 := by
    rw [← toNat_encodeChar (h.ascii c hc), heq]
    rfl
  have hchar : c = '\n' := Char.toNat_inj.mp hnat
  exact h.noLf (hchar ▸ hc)

theorem lf_not_mem_encode
    (h : Sendable line) :
    LF ∉ encodeAscii line :=
  h.legible.lf_not_mem

theorem dropWhile_eq_self
    {α : Type} {p : α → Bool} {l : List α} (h : ∀ x, l.head? = some x → p x = false) :
    l.dropWhile p = l := by
  cases l with
  | nil => rfl
  | cons x l => rw [List.dropWhile_cons_of_neg (by simp [h x rfl])]

/-- Stripping takes nothing from a legible line. -/
theorem Legible.lineText_eq
    (h : Legible line) :
    lineText (encodeAscii line) = line := by
  have hnul : (encodeAscii line).dropWhile (· == 0) = encodeAscii line := by
    refine dropWhile_eq_self fun b hb => ?_
    rw [encodeAscii, List.head?_map, Option.map_eq_some_iff] at hb
    obtain ⟨c, hc, rfl⟩ := hb
    rw [beq_eq_false_iff_ne]
    intro hzero
    have hnat : c.toNat = 0 := by
      rw [← toNat_encodeChar (h.ascii c (List.mem_of_head? hc)), hzero]
      rfl
    exact h.noNul (hc.trans (congrArg some (Char.toNat_inj.mp hnat)))
  have hbefore : line.dropWhile (· == '\r') = line := by
    refine dropWhile_eq_self fun c hc => ?_
    rw [beq_eq_false_iff_ne]
    rintro rfl
    exact h.noCrBefore hc
  have hafter : line.rdropWhile (· == '\r') = line := by
    rw [List.rdropWhile, dropWhile_eq_self, List.reverse_reverse]
    intro c hc
    rw [List.head?_reverse] at hc
    rw [beq_eq_false_iff_ne]
    rintro rfl
    exact h.noCrAfter hc
  rw [lineText, hnul, decode_encode h.ascii, hbefore, hafter]

theorem lineText_encode
    (h : Sendable line) :
    lineText (encodeAscii line) = line :=
  h.legible.lineText_eq

/-- The bytes that a poll can bring. -/
def Poll.bytes : Poll → Nat
  | .read n => min n 64
  | .expired => 0

/-- The polls that bring bytes. -/
def fruitful (polls : List Poll) : Nat :=
  polls.countP fun p => match p with
    | .read n => decide (0 < n)
    | .expired => false

@[simp] theorem fruitful_read (n : Nat) (polls : List Poll) :
    fruitful (.read n :: polls) = fruitful polls + if 0 < n then 1 else 0 := by
  simp [fruitful, List.countP_cons]

/-- How a read with enough bytes before it ends: with what it asked for and the rest of the
bytes, or still waiting.  Every poll that brought bytes shortened the stream. -/
inductive Delivers {α : Type} (value : α) (rest : Bytes) (link : Link) : Outcome α → Prop
  | got (after : Link) (answers : List Line)
      (hrest : after.buf ++ after.stream = rest)
      (hpolls : after.polls <:+ link.polls)
      (hbudget : fruitful link.polls + after.stream.length ≤
        fruitful after.polls + link.stream.length) :
      Delivers value rest link (.got value after answers)
  | waiting (after : Link) (hbudget : fruitful link.polls < link.stream.length) :
      Delivers value rest link (.waiting after)

/-- A poll that brings bytes takes them from the stream. -/
theorem Delivers.step
    {α : Type} {value : α} {n k : Nat} {o : Outcome α}
    (hstream : stream ≠ []) (hk : k ≤ n) (hpos : 0 < n → 0 < k) {buf' : Bytes}
    (h : Delivers value rest { buf := buf', stream := stream.drop k, polls } o) :
    Delivers value rest { buf, stream, polls := .read n :: polls } o := by
  have hlen : 0 < stream.length := List.length_pos_iff.mpr hstream
  cases h with
  | got after answers hrest hpolls hbudget =>
      refine .got after answers hrest (hpolls.trans (List.suffix_cons _ _)) ?_
      simp only [fruitful_read, List.length_drop] at hbudget ⊢
      split
      · rename_i h
        have := hpos h
        omega
      · omega
  | waiting after hbudget =>
      refine .waiting after ?_
      simp only [fruitful_read, List.length_drop] at hbudget ⊢
      split
      · rename_i h
        have := hpos h
        omega
      · omega

/-- A buffer without LF is a part of the line, and LF is still to come. -/
theorem line_of_no_lf
    (hbuf : LF ∉ buf) (heq : buf ++ stream = encodeAscii line ++ LF :: rest) :
    buf.length ≤ line.length ∧ stream ≠ [] := by
  have hlen : (encodeAscii line).length = line.length := List.length_map _
  rcases List.append_eq_append_iff.mp heq with ⟨tail, hline, hstream⟩ | ⟨tail, hstart, htail⟩
  · rw [← hlen, hline, List.length_append, hstream]
    exact ⟨Nat.le_add_right _ _, by simp⟩
  · cases tail with
    | nil =>
        rw [List.append_nil] at hstart
        rw [List.nil_append] at htail
        rw [hstart, hlen, ← htail]
        exact ⟨Nat.le_refl _, by simp⟩
    | cons b tail =>
        rw [List.cons_append, List.cons.injEq] at htail
        exact absurd (by simp [hstart, htail.1]) hbuf

/-- A stream is cut at its first LF. -/
theorem cut_unique
    {a b c d : Bytes} (ha : LF ∉ a) (hc : LF ∉ c) (heq : a ++ LF :: b = c ++ LF :: d) :
    a = c ∧ b = d := by
  have hpos : ∀ {l : Bytes}, LF ∉ l → ∀ x ∈ l, (x != LF) = true := by
    intro l hl x hx
    rw [bne_iff_ne]
    rintro rfl
    exact hl hx
  have htake := congrArg (List.takeWhile (· != LF)) heq
  rw [List.takeWhile_append_of_pos (hpos ha), List.takeWhile_append_of_pos (hpos hc)] at htake
  simp only [List.takeWhile_cons_of_neg, bne_self_eq_false, Bool.false_eq_true, not_false_eq_true,
    List.append_nil] at htake
  subst htake
  exact ⟨rfl, (List.cons.inj (List.append_cancel_left heq)).2⟩

/-- The first LF of the buffer ends the line. -/
theorem recvLine_cut
    (h : Legible line) (heq : buf ++ stream = encodeAscii line ++ LF :: rest)
    {raw tail : Bytes} (hcut : Link.cutLine buf = some (raw, tail)) :
    Link.recvLine answers buf stream polls = .got line { buf := tail, stream, polls } answers ∧
      tail ++ stream = rest := by
  obtain ⟨hbuf, hraw⟩ := Link.cutLine_eq_some hcut
  rw [hbuf, List.append_assoc, List.cons_append] at heq
  obtain ⟨rfl, htail⟩ := cut_unique hraw h.lf_not_mem heq
  refine ⟨?_, htail⟩
  rw [Link.recvLine.eq_def]
  split
  · rename_i hcut'
    rw [hcut] at hcut'
    cases hcut'
    simp only [h.lineText_eq, h.plain, Bool.false_eq_true, if_false]
  · rename_i hcut'
    rw [hcut] at hcut'
    cases hcut'

/-- Without LF the link asks for more. -/
theorem recvLine_more
    (answers : List Line) (polls : List Poll)
    (h : Sendable line) (heq : buf ++ stream = encodeAscii line ++ LF :: rest)
    (hcut : Link.cutLine buf = none) :
    Link.recvLine answers buf stream [] = .waiting { buf, stream, polls := [] } ∧
      ∀ n, Link.recvLine answers buf stream (.read n :: polls) =
        Link.recvLine answers (buf ++ stream.take (min n 64)) (stream.drop (min n 64)) polls := by
  have hshort : ¬ buf.length > Const.MAX_LINE_LEN := by
    have hlen := (line_of_no_lf (Link.cutLine_eq_none hcut) heq).1
    have := h.short
    omega
  constructor
  · rw [Link.recvLine]
    split
    · rename_i hcut'
      rw [hcut] at hcut'
      cases hcut'
    · rw [if_neg hshort]
  · intro n
    rw [Link.recvLine]
    split
    · rename_i hcut'
      rw [hcut] at hcut'
      cases hcut'
    · rw [if_neg hshort]

/-- `recv_line` returns the line that comes first. -/
theorem recvLine_delivers
    (h : Sendable line) (hpolls : Poll.expired ∉ polls)
    (heq : buf ++ stream = encodeAscii line ++ LF :: rest) :
    Delivers line rest { buf, stream, polls } (Link.recvLine answers buf stream polls) := by
  induction polls generalizing buf stream with
  | nil =>
      cases hcut : Link.cutLine buf with
      | some p =>
          obtain ⟨hgot, hrest⟩ := recvLine_cut h.legible heq hcut
          rw [hgot]
          exact .got _ _ hrest (List.suffix_refl _) (Nat.le_refl _)
      | none =>
          have hstream := (line_of_no_lf (Link.cutLine_eq_none hcut) heq).2
          rw [(recvLine_more answers [] h heq hcut).1]
          exact .waiting _ (List.length_pos_iff.mpr hstream)
  | cons poll polls ih =>
      cases hcut : Link.cutLine buf with
      | some p =>
          obtain ⟨hgot, hrest⟩ := recvLine_cut h.legible heq hcut
          rw [hgot]
          exact .got _ _ hrest (List.suffix_refl _) (Nat.le_refl _)
      | none =>
          have hstream := (line_of_no_lf (Link.cutLine_eq_none hcut) heq).2
          cases poll with
          | expired => exact absurd List.mem_cons_self hpolls
          | read n =>
              rw [(recvLine_more answers polls h heq hcut).2]
              refine .step hstream (Nat.min_le_left n 64) (by omega) (ih ?_ ?_)
              · exact fun hmem => hpolls (List.mem_cons_of_mem _ hmem)
              · rw [List.append_assoc, List.take_append_drop, heq]

/-- A buffer that is long enough begins with the payload. -/
theorem payload_of_le
    {payload : Bytes} (heq : buf ++ stream = payload ++ rest)
    (hle : payload.length ≤ buf.length) :
    buf.take payload.length = payload ∧ buf.drop payload.length ++ stream = rest := by
  have htake := congrArg (List.take payload.length) heq
  have hdrop := congrArg (List.drop payload.length) heq
  rw [List.take_append_of_le_length hle, List.take_left] at htake
  rw [List.drop_append_of_le_length hle, List.drop_left] at hdrop
  exact ⟨htake, hdrop⟩

/-- `recv_exact` returns the bytes that come first. -/
theorem recvExact_delivers
    {payload : Bytes} (hpolls : Poll.expired ∉ polls) (heq : buf ++ stream = payload ++ rest) :
    Delivers payload rest { buf, stream, polls }
      (Link.recvExact payload.length buf stream polls) := by
  have hmore : ∀ {buf stream : Bytes}, buf ++ stream = payload ++ rest →
      ¬ payload.length ≤ buf.length → stream ≠ [] := by
    rintro buf stream heq hlt rfl
    have hlen := congrArg List.length heq
    simp only [List.append_nil, List.length_append] at hlen
    omega
  induction polls generalizing buf stream with
  | nil =>
      unfold Link.recvExact
      split
      · rename_i hle
        obtain ⟨htake, hrest⟩ := payload_of_le heq hle
        rw [htake]
        exact .got _ _ hrest (List.suffix_refl _) (Nat.le_refl _)
      · rename_i hlt
        exact .waiting _ (List.length_pos_iff.mpr (hmore heq hlt))
  | cons poll polls ih =>
      unfold Link.recvExact
      split
      · rename_i hle
        obtain ⟨htake, hrest⟩ := payload_of_le heq hle
        rw [htake]
        exact .got _ _ hrest (List.suffix_refl _) (Nat.le_refl _)
      · rename_i hlt
        cases poll with
        | expired => exact absurd List.mem_cons_self hpolls
        | read n =>
            refine .step (hmore heq hlt) (Nat.min_le_left _ _) (by omega) (ih ?_ ?_)
            · exact fun hmem => hpolls (List.mem_cons_of_mem _ hmem)
            · rw [List.append_assoc, List.take_append_drop, heq]

/-- The frames come back in order. -/
theorem recvFrames_delivers
    {frames : List (Line × Bytes)} (hframes : ∀ f ∈ frames, Sendable f.1) {link : Link}
    (hpolls : Poll.expired ∉ link.polls)
    (heq : link.buf ++ link.stream = encodeFrames frames ++ rest) :
    Delivers frames rest link (Link.recvFrames (frames.map fun f => f.2.length) link) := by
  induction frames generalizing link with
  | nil => exact .got _ _ heq (List.suffix_refl _) (Nat.le_refl _)
  | cons f frames ih =>
      obtain ⟨line, payload⟩ := f
      obtain ⟨hline, hframes⟩ := List.forall_mem_cons.mp hframes
      have hfirst : link.buf ++ link.stream =
          encodeAscii line ++ LF :: (payload ++ (encodeFrames frames ++ rest)) := by
        simpa [encodeFrames, encodeFrame] using heq
      have hread : Delivers line (payload ++ (encodeFrames frames ++ rest)) link link.recv_line :=
        recvLine_delivers hline hpolls hfirst
      simp only [List.map_cons, Link.recvFrames]
      generalize link.recv_line = first at hread ⊢
      cases hread with
      | waiting after hbudget => exact .waiting _ hbudget
      | got link₁ answers hrest₁ hsuffix₁ hbudget₁ =>
          have hpolls₁ : Poll.expired ∉ link₁.polls := fun hmem => hpolls (hsuffix₁.subset hmem)
          have hexact : Delivers payload (encodeFrames frames ++ rest) link₁
              (link₁.recv_exact payload.length) :=
            recvExact_delivers hpolls₁ hrest₁
          dsimp only
          generalize link₁.recv_exact payload.length = second at hexact ⊢
          cases hexact with
          | waiting after hbudget => exact .waiting _ (by omega)
          | got link₂ answers' hrest₂ hsuffix₂ hbudget₂ =>
              have hpolls₂ : Poll.expired ∉ link₂.polls :=
                fun hmem => hpolls₁ (hsuffix₂.subset hmem)
              have htail := ih hframes hpolls₂ hrest₂
              dsimp only
              generalize Link.recvFrames (frames.map fun f => f.2.length) link₂ = third at htail ⊢
              cases htail with
              | waiting after hbudget => exact .waiting _ (by omega)
              | got link₃ answers'' hrest₃ hsuffix₃ hbudget₃ =>
                  exact .got _ _ hrest₃ (hsuffix₃.trans (hsuffix₂.trans hsuffix₁)) (by omega)

/-- Framing round trip: every way of cutting the stream into reads gives back the frames, and
leaves what follows them. -/
theorem framing_round_trip
    (frames : List (Line × Bytes)) (hframes : ∀ f ∈ frames, Sendable f.1) (rest : Bytes)
    (polls : List Poll) (hprompt : Poll.expired ∉ polls) :
    (∃ after answers,
      Link.recvFrames (frames.map fun f => f.2.length)
          { buf := [], stream := encodeFrames frames ++ rest, polls } =
        .got frames after answers ∧ after.buf ++ after.stream = rest) ∨
    ((∃ after,
      Link.recvFrames (frames.map fun f => f.2.length)
          { buf := [], stream := encodeFrames frames ++ rest, polls } = .waiting after) ∧
      fruitful polls < (encodeFrames frames ++ rest).length) := by
  let link : Link := { buf := [], stream := encodeFrames frames ++ rest, polls }
  have hread : Delivers frames rest link (Link.recvFrames (frames.map fun f => f.2.length) link) :=
    recvFrames_delivers hframes hprompt rfl
  generalize Link.recvFrames (frames.map fun f => f.2.length) link = result at hread
  cases hread with
  | got after answers hrest => exact Or.inl ⟨after, answers, rfl, hrest⟩
  | waiting after hbudget => exact Or.inr ⟨⟨after, rfl⟩, hbudget⟩

/-- A payload with line ends in it, read two bytes at a time. -/
theorem framing_round_trip_lf :
    ∃ after answers,
      Link.recvFrames [4]
          { buf := []
            stream := encodeFrames [("DATA".toList, [65, 10, 66, 10])] ++ []
            polls := List.replicate 9 (.read 2) } =
        .got [("DATA".toList, [65, 10, 66, 10])] after answers ∧
      after.buf ++ after.stream = [] := by
  have hline : Sendable "DATA".toList :=
    { ascii := List.forall_iff_forall_mem.mp (by decide)
      noLf := by decide
      noNul := by decide
      noCrBefore := by decide
      noCrAfter := by decide
      short := by decide
      plain := by decide }
  refine (framing_round_trip [("DATA".toList, [65, 10, 66, 10])] (by simpa using hline) []
    (List.replicate 9 (.read 2)) (by decide)).resolve_right ?_
  rintro ⟨_, hlt⟩
  exact absurd hlt (by decide)

end RoundTrip

end Pcutp
