import Pcutp.ClientInvariant
import Pcutp.Fetch
import Pcutp.Link
import Pcutp.Transfer

/-!
# Rejections of the receiver

`PcutpClient._receive` with the reads it makes: a turn takes what `recv_line` or
`recv_exact` leaves of the bytes on the link, and an exception of a read leaves
`_receive` as it is.  The lines a turn sends are those `_receive` sends and the
answers `recv_line` gives on its own.

A turn that ends in `ProtocolError` or `StorageError` has told the sender when one
of its lines is an ERR line.  `header` names the test of the loop that a control
line meets; the kinds of line that are refused without a word are then read off.
A line that never ends is refused by `recv_line` itself, `Overlong` says when.
-/

namespace Pcutp

section Overlong

/-- The bytes that so many polls take from the stream. -/
def drawn : List Poll → Nat
  | [] => 0
  | .read n :: polls => min n 64 + drawn polls
  | .expired :: polls => drawn polls

/-- Lines, each with its LF. -/
def terminated (lines : List Bytes) : Bytes :=
  lines.flatMap fun raw => raw ++ [LF]

/-- A line that `recv_line` handles itself. -/
def Skipped (raw : Bytes) : Prop :=
  LF ∉ raw ∧ isTransparent (split (lineText raw)) = true

/-- Before its deadline the link holds more than `MAX_LINE_LEN` bytes without LF, with nothing
before them but lines that it handles itself. -/
def Overlong (link : Link) : Prop :=
  ∃ polls lines rest,
    polls <+: link.polls ∧ Poll.expired ∉ polls ∧
      link.buf ++ link.stream.take (drawn polls) = terminated lines ++ rest ∧
      (∀ raw ∈ lines, Skipped raw) ∧ LF ∉ rest ∧ Const.MAX_LINE_LEN < rest.length

variable {buf stream raw rest : Bytes} {polls : List Poll}

theorem terminated_cons (raw : Bytes) (lines : List Bytes) :
    terminated (raw :: lines) = raw ++ LF :: terminated lines := by
  simp [terminated]

/-- Nothing is terminated before a rest without LF. -/
theorem eq_nil_of_no_lf
    {lines : List Bytes} (hbuf : LF ∉ buf) (heq : buf = terminated lines ++ rest) :
    lines = [] := by
  cases lines with
  | nil => rfl
  | cons raw lines =>
      refine absurd ?_ hbuf
      rw [heq, terminated_cons]
      simp

/-- A line handled by the link leaves the question to what follows it. -/
theorem overlong_skip
    (hraw : Skipped raw) :
    Overlong { buf := raw ++ LF :: rest, stream, polls } ↔
      Overlong { buf := rest, stream, polls } := by
  constructor
  · rintro ⟨taken, lines, tail, hpolls, hlive, heq, hlines, htail, hlong⟩
    cases lines with
    | nil =>
        refine absurd ?_ htail
        rw [show tail = raw ++ LF :: rest ++ stream.take (drawn taken) from heq.symm]
        simp
    | cons first lines =>
        obtain ⟨hfirst, hlines⟩ := List.forall_mem_cons.mp hlines
        have heq' : raw ++ LF :: (rest ++ stream.take (drawn taken)) =
            first ++ LF :: (terminated lines ++ tail) := by
          simpa [terminated_cons] using heq
        exact ⟨taken, lines, tail, hpolls, hlive, (cut_unique hraw.1 hfirst.1 heq').2, hlines,
          htail, hlong⟩
  · rintro ⟨taken, lines, tail, hpolls, hlive, heq, hlines, htail, hlong⟩
    refine ⟨taken, raw :: lines, tail, hpolls, hlive, ?_,
      List.forall_mem_cons.mpr ⟨hraw, hlines⟩, htail, hlong⟩
    have heq' : rest ++ stream.take (drawn taken) = terminated lines ++ tail := heq
    simp [terminated_cons, heq']

/-- A line that the link returns ends the read. -/
theorem not_overlong_of_line
    (hraw : LF ∉ raw) (hplain : isTransparent (split (lineText raw)) = false) :
    ¬ Overlong { buf := raw ++ LF :: rest, stream, polls } := by
  rintro ⟨taken, lines, tail, hpolls, hlive, heq, hlines, htail, hlong⟩
  cases lines with
  | nil =>
      refine absurd ?_ htail
      rw [show tail = raw ++ LF :: rest ++ stream.take (drawn taken) from heq.symm]
      simp
  | cons first lines =>
      have hfirst := hlines first List.mem_cons_self
      have heq' : raw ++ LF :: (rest ++ stream.take (drawn taken)) =
          first ++ LF :: (terminated lines ++ tail) := by
        simpa [terminated_cons] using heq
      rw [(cut_unique hraw hfirst.1 heq').1, hfirst.2] at hplain
      cases hplain

/-- Without a poll the buffer decides. -/
theorem not_overlong_of_short
    {lines : List Bytes} (hbuf : LF ∉ buf) (hshort : buf.length ≤ Const.MAX_LINE_LEN)
    (heq : buf ++ stream.take (drawn []) = terminated lines ++ rest) :
    rest.length ≤ Const.MAX_LINE_LEN := by
  have heq' : buf = terminated lines ++ rest := by
    simpa [drawn] using heq
  rw [eq_nil_of_no_lf hbuf heq'] at heq'
  have : buf = rest := heq'
  exact this ▸ hshort

/-- A poll moves bytes into the buffer. -/
theorem overlong_read
    {n : Nat} (hbuf : LF ∉ buf) (hshort : buf.length ≤ Const.MAX_LINE_LEN) :
    Overlong { buf, stream, polls := .read n :: polls } ↔
      Overlong
        { buf := buf ++ stream.take (min n 64), stream := stream.drop (min n 64), polls } := by
  have hdraw : ∀ k, buf ++ stream.take (min n 64 + k) =
      buf ++ stream.take (min n 64) ++ (stream.drop (min n 64)).take k := by
    intro k
    rw [List.take_add, List.append_assoc]
  constructor
  · rintro ⟨taken, lines, tail, hpolls, hlive, heq, hlines, htail, hlong⟩
    cases taken with
    | nil => exact absurd hlong (Nat.not_lt.mpr (not_overlong_of_short hbuf hshort heq))
    | cons poll taken =>
        obtain ⟨rfl, htaken⟩ := List.cons_prefix_cons.mp hpolls
        refine ⟨taken, lines, tail, htaken, fun h => hlive (List.mem_cons_of_mem _ h), ?_, hlines,
          htail, hlong⟩
        exact (hdraw _).symm.trans heq
  · rintro ⟨taken, lines, tail, hpolls, hlive, heq, hlines, htail, hlong⟩
    refine ⟨.read n :: taken, lines, tail, List.cons_prefix_cons.mpr ⟨rfl, hpolls⟩, ?_, ?_, hlines,
      htail, hlong⟩
    · simpa using hlive
    · exact (hdraw _).trans heq

/-- A read whose next poll is not a byte. -/
theorem not_overlong_stuck
    (hpolls : ∀ n rest, polls ≠ .read n :: rest) (hbuf : LF ∉ buf)
    (hshort : buf.length ≤ Const.MAX_LINE_LEN) :
    ¬ Overlong { buf, stream, polls } := by
  rintro ⟨taken, lines, tail, hprefixed, hlive, heq, hlines, htail, hlong⟩
  cases taken with
  | nil => exact absurd hlong (Nat.not_lt.mpr (not_overlong_of_short hbuf hshort heq))
  | cons poll taken =>
      obtain ⟨more, rfl⟩ := hprefixed
      cases poll with
      | read n => exact hpolls n _ rfl
      | expired => exact hlive List.mem_cons_self

/-- `recv_line` raises ProtocolError on an overlong line and on nothing else. -/
theorem recvLine_protocol_iff
    (answers : List Line) (buf stream : Bytes) (polls : List Poll) :
    (∃ exc after, Link.recvLine answers buf stream polls = .raised exc after ∧
        (exc.cls = .protocol ∨ exc.cls = .storage)) ↔
      Overlong { buf, stream, polls } := by
  fun_induction Link.recvLine answers buf stream polls with
  | case1 answers buf stream polls raw rest hcut text parts hskip ih =>
      obtain ⟨rfl, hraw⟩ := Link.cutLine_eq_some hcut
      exact ih.trans (overlong_skip ⟨hraw, hskip⟩).symm
  | case2 answers buf stream polls raw rest hcut text parts hplain =>
      obtain ⟨rfl, hraw⟩ := Link.cutLine_eq_some hcut
      refine iff_of_false ?_ (not_overlong_of_line hraw (Bool.not_eq_true _ ▸ hplain))
      rintro ⟨exc, after, h, _⟩
      cases h
  | case3 answers buf stream polls hcut hlong =>
      refine iff_of_true ⟨_, _, rfl, Or.inl rfl⟩ ?_
      exact ⟨[], [], buf, List.nil_prefix, List.not_mem_nil, by simp [drawn, terminated],
        by simp, Link.cutLine_eq_none hcut, hlong⟩
  | case4 answers buf stream hcut hshort =>
      refine iff_of_false ?_
        (not_overlong_stuck (by simp) (Link.cutLine_eq_none hcut) (Nat.not_lt.mp hshort))
      rintro ⟨exc, after, h, _⟩
      cases h
  | case5 answers buf stream hcut hshort polls =>
      refine iff_of_false ?_
        (not_overlong_stuck (by simp) (Link.cutLine_eq_none hcut) (Nat.not_lt.mp hshort))
      rintro ⟨exc, after, h, hcls⟩
      cases h
      rcases hcls with hcls | hcls <;> cases hcls
  | case6 answers buf stream hcut hshort n polls ih =>
      exact ih.trans (overlong_read (Link.cutLine_eq_none hcut) (Nat.not_lt.mp hshort)).symm

end Overlong
section Headers

/-- The test of the `_receive` loop that a control line meets first. -/
inductive Header
  | err
  | ayt
  | rst
  | done
  | barrier
  | close
  | zdata
  | data
  | unexpected
  deriving DecidableEq

/-- The first test of the loop that holds of a line. -/
def header (cfg : ClientConfig) (text : Line) : Header :=
  let parts := split text
  if parts.take 1 = ["ERR".toList] then .err
  else if parts.length = 2 ∧ word parts 0 = "AYT?".toList ∧ isdecimal (word parts 1) = true then
    .ayt
  else if parts.length = 3 ∧ parts.take 2 = ["RST".toList, "0".toList] ∧
      isdecimal (word parts 2) = true then .rst
  else if parts.take 1 = ["DONE".toList] then .done
  else if cfg.flow = true ∧ parts.length = 2 ∧ word parts 0 = "BARRIER".toList then .barrier
  else if text = "CLOSE".toList then .close
  else if cfg.compression = true ∧ parts.length = 5 ∧ word parts 0 = "ZDATA".toList then .zdata
  else if parts.length = 4 ∧ word parts 0 = "DATA".toList then .data
  else .unexpected

variable {cfg : ClientConfig} (m : AcceptedMeta cfg) (r : Recv)

/-- The fields of a ZDATA header pass the checks before that of the raw length, and the raw
length is too large. -/
def TooLong (text : Line) : Prop :=
  let parts := split text
  (isdecimal (word parts 1) = true ∧ isdecimal (word parts 2) = true ∧
      isdecimal (word parts 3) = true) ∧
    int (word parts 2) ≤ m.blocksize ∧ int (word parts 1) < m.blocks ∧
      m.blocksize < int (word parts 3)

/-- The control lines that are refused without an ERR line. -/
def Unanswered (text : Line) (closes : Bool) : Prop :=
  match header cfg text with
  | .done => r.expected ≠ m.blocks ∨ closes = true ∧ (split text).length ≠ 2
  | .barrier => isdecimal (word (split text) 1) = false
  | .zdata => TooLong m text
  | .unexpected => True
  | _ => False

end Headers

section Turns

/-- Where `_receive` stands: before its checks of META, in its loop, or left by an exception of a
read. -/
inductive Receiving (cfg : ClientConfig)
  | head (m : Meta)
  | loop (m : AcceptedMeta cfg) (r : Recv)
  | refused (exc : PcutpError)

/-- What a turn meets: the link, whether the closing of `.PART` succeeds, and how a write that
fails tears the block. -/
structure Heard where
  link : Link
  closes : Bool
  torn : Option Bytes

namespace Receiving

variable {cfg : ClientConfig}

/-- The exception that ended `_receive`. -/
def raised : Receiving cfg → Option PcutpError
  | .loop _ r =>
      match r.phase with
      | .raised (.pcutp exc) => some exc
      | _ => none
  | .refused exc => some exc
  | .head _ => none

/-- The lines of a turn of the loop: the answers of `recv_line`, then those of `_receive`. -/
def took (m : AcceptedMeta cfg) (answers : List Line) (p : Recv × List Effect) :
    Receiving cfg × List Line :=
  (.loop m p.1, answers ++ (sends p.2).map Reply.line)

/-- One turn of `_receive`, with the lines it sends; `none` while a read waits and after the
end. -/
def turn (s : Receiving cfg) (heard : Heard) : Option (Receiving cfg × List Line) :=
  match s with
  | .head m =>
      match acceptMeta cfg m with
      | .error (reply, exc) => some (.refused exc, [reply.line])
      | .ok m => some (took m [] (Recv.start, Recv.startEffects m))
  | .loop m r =>
      match r.phase with
      | .header =>
          match heard.link.recv_line with
          | .got text _ answers => some (took m answers (r.onLine m text heard.closes))
          -- A timeout of the header read leaves `_receive`, and so does an overlong line.
          | .raised exc _ => some (.refused exc, [])
          | .waiting _ => none
      | .payload h =>
          match heard.link.recv_exact h.length with
          | .got payload _ answers => some (took m answers (r.onPayload m h payload heard.torn))
          | .raised exc _ =>
              if exc.cls = .timeout then some (took m [] (Recv.onRawTimeout cfg r))
              else some (.refused exc, [])
          | .waiting _ => none
      | _ => none
  | .refused _ => none

/-- If a turn ends in ProtocolError or StorageError, exactly one of its lines is an ERR line. -/
def Announces (s : Receiving cfg) (heard : Heard) : Prop :=
  ∀ next sent exc, s.turn heard = some (next, sent) → next.raised = some exc →
    exc.cls = .protocol ∨ exc.cls = .storage → (sent.filter isErr).length = 1

/-- The link holds an overlong line, or brings a line that is refused without a word. -/
def Silent (s : Receiving cfg) (heard : Heard) : Prop :=
  match s with
  | .loop m r =>
      match r.phase with
      | .header =>
          Overlong heard.link ∨
            ∃ text after answers, heard.link.recv_line = .got text after answers ∧
              Unanswered m r text heard.closes
      | _ => False
  | _ => False

end Receiving

end Turns

section Told

/-- A turn of the loop that raises ProtocolError or StorageError. -/
def Refuses (p : Recv × List Effect) : Prop :=
  ∃ exc, p.1.phase = .raised (.pcutp exc) ∧ (exc.cls = .protocol ∨ exc.cls = .storage)

/-- A turn of the loop that sends exactly one ERR line if it raises ProtocolError or
StorageError. -/
def Told (p : Recv × List Effect) : Prop :=
  Refuses p → (((sends p.2).map Reply.line).filter isErr).length = 1

variable {cfg : ClientConfig} {m : AcceptedMeta cfg} {r : Recv} {effects : List Effect}

theorem isErr_line (reply : Reply) :
    isErr reply.line = true ↔ ∃ code, reply = .err code := by
  cases reply <;>
    (rw [isErr, Reply.line, Reply.words, split_join_first (isWord_of_check (by decide))]; simp)

theorem told_of_phase
    {p : Recv × List Effect} (h : ∀ raised, p.1.phase ≠ .raised raised) :
    Told p := by
  rintro ⟨exc, hphase, _⟩
  exact absurd hphase (h _)

/-- An exception of another class is no refusal. -/
theorem told_of_cls
    {exc : PcutpError} (hprotocol : exc.cls ≠ .protocol) (hstorage : exc.cls ≠ .storage) :
    Told (r.raise exc, effects) := by
  rintro ⟨exc', hphase, hcls⟩
  cases hphase
  exact absurd hcls (not_or.mpr ⟨hprotocol, hstorage⟩)

/-- A refusal with its one ERR line, after effects that send nothing. -/
theorem told_err
    {exc : PcutpError} (code : Line) (hsends : sends effects = [.err code]) :
    Told (r.raise exc, effects) := by
  intro _
  rw [show sends (r.raise exc, effects).2 = [.err code] from hsends, List.map_singleton,
    List.filter_cons_of_pos ((isErr_line _).mpr ⟨code, rfl⟩)]
  rfl

/-- A refusal without a word. -/
theorem not_told
    (message : String) :
    ¬ Told (r.raise (ProtocolError message), []) := by
  intro h
  cases h ⟨_, rfl, Or.inl rfl⟩

theorem told_onGap
    {seq : Nat} (hphase : r.phase = .header) :
    Told (r.onGap seq) := by
  unfold Recv.onGap
  dsimp only
  split
  · split
    · exact told_err "RETRY".toList rfl
    · exact told_of_phase (by simp [hphase])
  · exact told_of_phase (by simp [hphase])

theorem told_onDecoded
    {h : DataHeader} {payload : Bytes} {length : Nat} {torn : Option Bytes}
    (hphase : r.phase = .header) :
    Told (r.onDecoded m h payload length torn) := by
  unfold Recv.onDecoded
  split
  · exact told_of_phase (by simp [hphase])
  · split
    · exact told_of_phase (by simp [hphase])
    · split
      · exact told_onGap hphase
      · split
        · exact told_err "PROTOCOL".toList rfl
        · cases torn with
          | some bytes => exact told_err "WRITE".toList rfl
          | none => exact told_of_phase (by simp [Recv.onBlock, hphase])

/-- Whatever a payload brings, a refusal of it is told. -/
theorem told_onPayload
    {h : DataHeader} {payload : Bytes} {torn : Option Bytes} :
    Told (r.onPayload m h payload torn) := by
  unfold Recv.onPayload
  dsimp only
  split
  · split
    · exact told_of_phase (by simp)
    · exact told_onDecoded rfl
  · exact told_onDecoded rfl

/-- The checks after the loop refuse a DONE line of the wrong length without a word. -/
theorem told_finish_iff
    {parts : List Line} {closes : Bool} (hdone : parts.take 1 = ["DONE".toList]) :
    Told (r.finish m parts closes) ↔ ¬ (closes = true ∧ parts.length ≠ 2) := by
  have hword : word parts 0 = "DONE".toList := by
    cases parts with
    | nil => cases hdone
    | cons w ws => simpa using hdone
  unfold Recv.finish
  split
  · rename_i hcloses
    refine iff_of_true ?_ (by simp [hcloses])
    rintro ⟨exc, hraised, _⟩
    cases hraised
  · rename_i hcloses
    rw [Bool.not_eq_false] at hcloses
    by_cases hlen : parts.length = 2
    · rw [if_neg (by simp [hlen, hword])]
      refine iff_of_true ?_ (by simp [hlen])
      dsimp only
      split <;> exact told_of_phase (by simp)
    · rw [if_pos (Or.inl hlen)]
      exact iff_of_false (not_told _) (not_not_intro ⟨hcloses, hlen⟩)

end Told

section Told

variable {cfg : ClientConfig} {m : AcceptedMeta cfg} {r : Recv} {text : Line}

/-- A ZDATA header with a raw length that is too large is refused without a word. -/
theorem told_onData_zdata
    (hcompression : cfg.compression = true) (hlen : (split text).length = 5)
    (hword : word (split text) 0 = "ZDATA".toList) :
    Told (r.onData m (split text)) ↔ ¬ TooLong m text := by
  have hpacked : (cfg.compression && (split text).length == 5 &&
      word (split text) 0 == "ZDATA".toList) = true := by
    simp [hcompression, hlen, hword]
  unfold Recv.onData TooLong
  simp only [hpacked, Bool.true_eq_false, false_and, if_false, true_and, if_true]
  by_cases hnumeric : isdecimal (word (split text) 1) = false ∨
      isdecimal (word (split text) 2) = false ∨ isdecimal (word (split text) 3) = false
  · rw [if_pos hnumeric]
    refine iff_of_true (told_err "PROTOCOL".toList rfl) ?_
    rintro ⟨⟨h1, h2, h3⟩, _⟩
    simp [h1, h2, h3] at hnumeric
  · rw [if_neg hnumeric]
    simp only [not_or, Bool.not_eq_false] at hnumeric
    by_cases hdim : ¬ int (word (split text) 2) ≤ m.blocksize ∨
        ¬ int (word (split text) 1) < m.blocks
    · rw [if_pos hdim]
      refine iff_of_true (told_err "PROTOCOL".toList rfl) ?_
      rintro ⟨_, hlength, hseq, _⟩
      exact hdim.elim (fun h => h hlength) (fun h => h hseq)
    · rw [if_neg hdim]
      simp only [not_or, not_not] at hdim
      by_cases hraw : int (word (split text) 3) ≤ m.blocksize
      · rw [if_neg (not_not_intro hraw)]
        refine iff_of_true (told_of_phase (by simp)) ?_
        rintro ⟨_, _, _, hlong⟩
        exact absurd hraw (Nat.not_le.mpr hlong)
      · rw [if_pos hraw]
        exact iff_of_false (not_told _)
          (not_not_intro ⟨hnumeric, hdim.1, hdim.2, Nat.not_le.mp hraw⟩)

/-- The checks of a DATA header are told. -/
theorem told_onData_data
    (hlen : (split text).length = 4) (hword : word (split text) 0 = "DATA".toList) :
    Told (r.onData m (split text)) := by
  have hpacked : (cfg.compression && (split text).length == 5 &&
      word (split text) 0 == "ZDATA".toList) = false := by
    simp [hlen]
  unfold Recv.onData
  simp only [hpacked, Bool.false_eq_true, false_and, or_false, if_false, true_and]
  rw [if_neg (by simp [hlen, hword])]
  split
  · exact told_err "PROTOCOL".toList rfl
  · by_cases hdim : ¬ int (word (split text) 2) ≤ m.blocksize ∨
        ¬ int (word (split text) 1) < m.blocks
    · rw [if_pos hdim]
      exact told_err "PROTOCOL".toList rfl
    · -- The raw length of a DATA frame is its length.
      rw [if_neg hdim, if_neg fun h => hdim (Or.inl h)]
      exact told_of_phase (by simp)

/-- Any other word is refused without a word. -/
theorem not_told_onData
    (hzdata : ¬ (cfg.compression = true ∧ (split text).length = 5 ∧
      word (split text) 0 = "ZDATA".toList))
    (hdata : ¬ ((split text).length = 4 ∧ word (split text) 0 = "DATA".toList)) :
    ¬ Told (r.onData m (split text)) := by
  have hpacked : (cfg.compression && (split text).length == 5 &&
      word (split text) 0 == "ZDATA".toList) = false := by
    simpa [and_assoc] using hzdata
  unfold Recv.onData
  simp only [hpacked, true_and]
  rw [if_pos (not_and_or.mp hdata)]
  exact not_told _

/-- The lines that `_receive` refuses without a word are those of `Unanswered`. -/
theorem told_onLine_iff
    {closes : Bool} (hphase : r.phase = .header) :
    Told (r.onLine m text closes) ↔ ¬ Unanswered m r text closes := by
  unfold Unanswered header Recv.onLine
  dsimp only
  by_cases herr : (split text).take 1 = ["ERR".toList]
  · simp only [if_pos herr]
    exact iff_of_true (told_of_cls (by simp) (by simp)) not_false
  simp only [if_neg herr]
  by_cases hayt : (split text).length = 2 ∧ word (split text) 0 = "AYT?".toList ∧
      isdecimal (word (split text) 1) = true
  · simp only [if_pos hayt]
    exact iff_of_true (told_of_phase (by simp [hphase])) not_false
  simp only [if_neg hayt]
  by_cases hrst : (split text).length = 3 ∧ (split text).take 2 = ["RST".toList, "0".toList] ∧
      isdecimal (word (split text) 2) = true
  · simp only [if_pos hrst]
    exact iff_of_true (told_of_phase (by simp [Recv.restart, hphase])) not_false
  simp only [if_neg hrst]
  by_cases hdone : (split text).take 1 = ["DONE".toList]
  · simp only [if_pos hdone]
    by_cases hearly : r.expected = m.blocks
    · rw [if_neg (not_not_intro hearly), told_finish_iff hdone]
      simp [hearly]
    · rw [if_pos hearly]
      exact iff_of_false (not_told _) (not_not_intro (Or.inl hearly))
  simp only [if_neg hdone]
  by_cases hbarrier : cfg.flow = true ∧ (split text).length = 2 ∧
      word (split text) 0 = "BARRIER".toList
  · simp only [if_pos hbarrier]
    split
    · rename_i htoken
      exact iff_of_false (not_told _) (not_not_intro htoken)
    · rename_i htoken
      exact iff_of_true (told_of_phase (by simp [hphase])) htoken
  simp only [if_neg hbarrier]
  by_cases hclose : text = "CLOSE".toList
  · simp only [if_pos hclose]
    exact iff_of_true (told_of_phase (by simp [hphase])) not_false
  simp only [if_neg hclose]
  by_cases hzdata : cfg.compression = true ∧ (split text).length = 5 ∧
      word (split text) 0 = "ZDATA".toList
  · simp only [if_pos hzdata]
    exact told_onData_zdata hzdata.1 hzdata.2.1 hzdata.2.2
  simp only [if_neg hzdata]
  by_cases hdata : (split text).length = 4 ∧ word (split text) 0 = "DATA".toList
  · simp only [if_pos hdata]
    exact iff_of_true (told_onData_data hdata.1 hdata.2) not_false
  · simp only [if_neg hdata]
    exact iff_of_false (not_told_onData hzdata hdata) (not_not_intro trivial)

end Told

section Reads

variable {buf stream : Bytes} {polls : List Poll}

/-- The answers of `recv_line` are PONG lines. -/
theorem isErr_answers
    {answers answers' : List Line} {text : Line} {after : Link}
    (h : Link.recvLine answers buf stream polls = .got text after answers')
    (hanswers : answers.filter isErr = []) :
    answers'.filter isErr = [] := by
  have hpong : ∀ w, isErr (join ["PONG".toList, w]) = false := by
    intro w
    rw [isErr, split_join_first (isWord_of_check (by decide))]
    decide
  fun_induction Link.recvLine answers buf stream polls with
  | case1 answers buf stream polls raw rest hcut text parts hskip ih =>
      refine ih h ?_
      split
      · rw [List.filter_append, hanswers,
          List.filter_cons_of_neg (by rw [hpong]; exact Bool.false_ne_true)]
        rfl
      · rw [List.append_nil, hanswers]
  | case2 =>
      simp only [Outcome.got.injEq] at h
      exact h.2.2 ▸ hanswers
  | case3 => cases h
  | case4 => cases h
  | case5 => cases h
  | case6 answers buf stream hcut hshort n polls ih => exact ih h hanswers

/-- `recv_exact` answers nothing, and raises nothing but a timeout. -/
theorem recvExact_ends
    {size : Nat} :
    (∀ payload after answers, Link.recvExact size buf stream polls = .got payload after answers →
      answers = []) ∧
    ∀ exc after, Link.recvExact size buf stream polls = .raised exc after → exc.cls = .timeout := by
  fun_induction Link.recvExact size buf stream polls with
  | case1 =>
      constructor
      · intro payload after answers h
        cases h
        rfl
      · intro exc after h
        cases h
  | case2 =>
      constructor
      · intro payload after answers h
        cases h
      · intro exc after h
        cases h
  | case3 =>
      constructor
      · intro payload after answers h
        cases h
      · intro exc after h
        cases h
        rfl
  | case4 buf stream hshort n polls k ih => exact ih

end Reads

namespace Receiving

variable {cfg : ClientConfig} {m : AcceptedMeta cfg} {r : Recv} {heard : Heard}

/-- The head of `_receive` refuses with an ERR line. -/
theorem acceptMeta_error
    {m : Meta} {reply : Reply} {exc : PcutpError} (h : acceptMeta cfg m = .error (reply, exc)) :
    ∃ code, reply = .err code := by
  unfold acceptMeta at h
  split at h
  · cases h
    exact ⟨_, rfl⟩
  · split_ifs at h
    · cases h
      exact ⟨_, rfl⟩
    · cases h
      exact ⟨_, rfl⟩
    · cases h
      exact ⟨_, rfl⟩

/-- A turn of the loop announces its refusal as the loop does. -/
theorem announces_took_iff
    {s : Receiving cfg} {answers : List Line} {p : Recv × List Effect}
    (hturn : s.turn heard = some (took m answers p)) (hanswers : answers.filter isErr = []) :
    s.Announces heard ↔ Told p := by
  have hlines : ((took m answers p).2.filter isErr) =
      ((sends p.2).map Reply.line).filter isErr := by
    rw [took, List.filter_append, hanswers, List.nil_append]
  have hraised : ∀ exc, (took m answers p).1.raised = some exc ↔
      p.1.phase = .raised (.pcutp exc) := by
    intro exc
    unfold took raised
    dsimp only
    split
    · rename_i exc' hphase
      simp [hphase]
    · rename_i hphase
      refine iff_of_false (by simp) fun h => hphase _ h
  constructor
  · rintro h ⟨exc, hphase, hcls⟩
    rw [← hlines]
    exact h _ _ exc hturn ((hraised exc).mpr hphase) hcls
  · intro h next sent exc hnext hexc hcls
    cases hturn.symm.trans hnext
    change ((took m answers p).2.filter isErr).length = 1
    rw [hlines]
    exact h ⟨exc, (hraised exc).mp hexc, hcls⟩

/-- Nothing is read in the other phases. -/
theorem announces_ended
    (hturn : (Receiving.loop m r).turn heard = none) (hphase : r.phase ≠ .header) :
    (Receiving.loop m r).Announces heard ↔ ¬ (Receiving.loop m r).Silent heard := by
  refine iff_of_true ?_ ?_
  · intro next sent exc hnext
    cases hturn.symm.trans hnext
  · rw [Silent]
    split
    · rename_i hheader
      exact absurd hheader hphase
    · exact id

/-- The header read: the loop decides on a line, and an overlong one is refused by the link. -/
theorem announces_header_iff
    (hphase : r.phase = .header) :
    (Receiving.loop m r).Announces heard ↔ ¬ (Receiving.loop m r).Silent heard := by
  have hsilent : (Receiving.loop m r).Silent heard ↔
      (∃ exc after, heard.link.recv_line = .raised exc after ∧
        (exc.cls = .protocol ∨ exc.cls = .storage)) ∨
      ∃ text after answers, heard.link.recv_line = .got text after answers ∧
        Unanswered m r text heard.closes := by
    rw [Silent, hphase]
    exact or_congr_left (recvLine_protocol_iff [] _ _ _).symm
  rw [hsilent]
  cases hread : heard.link.recv_line with
  | got text after answers =>
      have hturn : (Receiving.loop m r).turn heard =
          some (took m answers (r.onLine m text heard.closes)) := by
        simp only [turn, hphase, hread]
      rw [announces_took_iff hturn (isErr_answers hread rfl), told_onLine_iff hphase]
      refine not_congr ⟨fun h => Or.inr ⟨text, after, answers, rfl, h⟩, ?_⟩
      rintro (⟨exc, after', hraised, _⟩ | ⟨text', after', answers', hgot, h⟩)
      · cases hraised
      · cases hgot
        exact h
  | raised exc after =>
      have hturn : (Receiving.loop m r).turn heard = some (.refused exc, []) := by
        simp only [turn, hphase, hread]
      refine Iff.trans ⟨?_, ?_⟩ (not_congr (or_iff_left_of_imp ?_).symm)
      · rintro h ⟨exc', after', hraised, hcls⟩
        cases hraised
        cases h _ _ exc hturn rfl hcls
      · intro h next sent exc' hnext hexc hcls
        cases hturn.symm.trans hnext
        cases hexc
        exact absurd ⟨_, after, rfl, hcls⟩ h
      · rintro ⟨text, after', answers, hgot, _⟩
        cases hgot
  | waiting after =>
      have hturn : (Receiving.loop m r).turn heard = none := by
        simp only [turn, hphase, hread]
      refine iff_of_true ?_ ?_
      · intro next sent exc hnext
        cases hturn.symm.trans hnext
      · rintro (⟨exc, after', hraised, _⟩ | ⟨text, after', answers, hgot, _⟩)
        · cases hraised
        · cases hgot

/-- The payload read: a timeout is no refusal, and the loop tells its refusals. -/
theorem announces_payload
    {h : DataHeader} (hphase : r.phase = .payload h) :
    (Receiving.loop m r).Announces heard := by
  obtain ⟨hgot, hraises⟩ :=
    @recvExact_ends heard.link.buf heard.link.stream heard.link.polls h.length
  cases hread : heard.link.recv_exact h.length with
  | got payload after answers =>
      have hturn : (Receiving.loop m r).turn heard =
          some (took m answers (r.onPayload m h payload heard.torn)) := by
        simp only [turn, hphase, hread]
      rw [announces_took_iff hturn (by rw [hgot _ _ _ hread]; rfl)]
      exact told_onPayload
  | raised exc after =>
      have hturn : (Receiving.loop m r).turn heard =
          some (took m [] (Recv.onRawTimeout cfg r)) := by
        simp only [turn, hphase, hread, if_pos (hraises _ _ hread)]
      rw [announces_took_iff hturn rfl]
      exact told_of_phase (by simp [Recv.onRawTimeout])
  | waiting after =>
      intro next sent exc hnext
      simp only [turn, hphase, hread] at hnext
      cases hnext

/-- `_receive` answers every refusal with exactly one ERR line, except on the lines of `Silent`. -/
theorem refusals_announced_iff
    (s : Receiving cfg) (heard : Heard) :
    s.Announces heard ↔ ¬ s.Silent heard := by
  cases s with
  | refused exc =>
      refine iff_of_true ?_ not_false
      intro next sent exc hnext
      cases hnext
  | head m =>
      refine iff_of_true ?_ not_false
      cases haccept : acceptMeta cfg m with
      | error refusal =>
          obtain ⟨code, hreply⟩ := acceptMeta_error haccept
          intro next sent exc hnext _ _
          simp only [turn, haccept] at hnext
          cases hnext
          rw [hreply, List.filter_cons_of_pos ((isErr_line _).mpr ⟨code, rfl⟩)]
          rfl
      | ok accepted =>
          have hturn : (Receiving.head m : Receiving cfg).turn heard =
              some (took accepted [] (Recv.start, Recv.startEffects accepted)) := by
            simp only [turn, haccept]
          exact (announces_took_iff hturn rfl).mpr (told_of_phase (by simp [Recv.start]))
  | loop m r =>
      cases hphase : r.phase with
      | header => exact announces_header_iff hphase
      | payload h =>
          refine iff_of_true (announces_payload hphase) ?_
          rw [Silent, hphase]
          exact id
      | commit => exact announces_ended (by rw [turn, hphase]) (by simp [hphase])
      | returned ok => exact announces_ended (by rw [turn, hphase]) (by simp [hphase])
      | raised exc => exact announces_ended (by rw [turn, hphase]) (by simp [hphase])

/-- `DONE` in place of the first block. -/
def earlyDone : Heard where
  link := { buf := encodeFrame "DONE D3D99E8B".toList [], stream := [], polls := [] }
  closes := true
  torn := none

theorem early_done_unanswered :
    ¬ (Receiving.loop oneByteMeta Recv.start).Announces earlyDone := by
  have hline : Sendable "DONE D3D99E8B".toList :=
    { ascii := List.forall_iff_forall_mem.mp (by decide)
      noLf := by decide
      noNul := by decide
      noCrBefore := by decide
      noCrAfter := by decide
      short := by decide
      plain := by decide }
  have hcut : Link.cutLine earlyDone.link.buf = some (encodeAscii "DONE D3D99E8B".toList, []) := by
    decide
  have hread := (@recvLine_cut _ [] _ [] [] [] hline.legible rfl _ _ hcut).1
  have hturn : (Receiving.loop oneByteMeta Recv.start).turn earlyDone =
      some (took oneByteMeta []
        (Recv.start.raise (ProtocolError "DONE before all blocks arrived"), [])) := by
    simp only [turn, show Recv.start.phase = .header from rfl]
    rw [show earlyDone.link.recv_line = _ from hread]
    rfl
  intro h
  cases h _ _ _ hturn rfl (Or.inl rfl)

end Receiving

end Pcutp
