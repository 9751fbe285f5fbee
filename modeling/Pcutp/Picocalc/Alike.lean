import Pcutp.ClientSteps
import Pcutp.Picocalc.Disk
import Pcutp.Picocalc.Headers

/-!
# The two receivers, piece by piece

`_receive` and the data loop of `PCUTP.BAS` read the same lines and payloads.
What a receiver does in a transfer, as its peer and its disk see it, is a list of
acts: replies, and what becomes of the partial file.  `Alike` relates the
variables of the two loops.  For every line that a sender may write and every
payload, both do the same acts and are alike again, or end alike.
-/

namespace Pcutp.Picocalc

section Defs

/-- What a receiver does in a transfer. -/
inductive Act
  | reply (line : Line)
  /-- The partial file is made empty. -/
  | emptied
  | wrote (data : Bytes)
  /-- The partial file takes its name. -/
  | installed
  deriving DecidableEq

/-- The act of an effect of `_receive`. -/
def act? : Pcutp.Effect → Option Act
  | .send r => some (.reply r.line)
  | .openPart => some .emptied
  | .write _ payload => some (.wrote payload)
  | .truncate => some .emptied
  | .rmb _ => none
  | .replace => some .installed
  | .unlink => none

/-- The act of an effect of `PCUTP.BAS`.  The line CLOSE belongs to the session. -/
def Effect.act? : Effect → Option Act
  | .send line => if line = "CLOSE".toList then none else some (.reply line)
  | .show _ => none
  | .openPart _ => some .emptied
  | .write data => some (.wrote data)
  | .close => none
  | .save _ _ => none
  | .kill _ => none
  | .rename _ _ => some .installed

variable {cfg : ClientConfig} (m : AcceptedMeta cfg)

/-- The variables of the two loops agree. -/
structure Alike (r : Recv) (g : Globals) : Prop where
  size : g.size = m.size
  blksz : g.blksz = m.blocksize
  blocks : g.blocks = m.blocks
  fcrc : ∃ v : BitVec 32, g.fcrc = v.setWidth 64 ∧ to_hex v = m.crc32
  blocksize_le : m.blocksize ≤ 4096
  flowOn : g.flowOn = true
  zipOn : g.zipOn = cfg.compression
  seq : g.seq = r.expected
  rcvd : g.rcvd = r.received
  running : g.running = r.running.setWidth 64
  drops : g.drops = r.drops
  resets : g.resets = r.resets
  received_le : r.received ≤ m.size

/-- The two readings of a data header agree. -/
structure Framed (h : DataHeader) (frame : Frame) : Prop where
  n : frame.n = h.seq
  ln : frame.ln = h.length
  rawlen : frame.rawlen = h.raw_length
  want : frame.want = h.want
  zipped : frame.zipped = h.packed
  length_le : h.length ≤ m.blocksize
  raw_length_le : h.raw_length ≤ m.blocksize

/-- Where the two receivers stand between two reads. -/
inductive Stands (r : Recv) (g : Globals) : Place → Prop
  | waits (now : Nat) (hphase : r.phase = .header) (halike : Alike m r g) :
      Stands r g (.line .data { s := [], t := now, t0 := now })
  | reads (now : Nat) {h : DataHeader} {frame : Frame} (hphase : r.phase = .payload h)
      (halike : Alike m r g) (hframed : Framed m h frame) (hpos : 0 < h.length) :
      Stands r g (.raw frame { got := 0, t := now })
  | returned {ok : Bool} {place : Place} (hphase : r.phase = .returned ok)
      (hnot : receiving place = false) (hrunning : ∀ how, place ≠ .stopped how) :
      Stands r g place
  | raised {raised : Raised} {how : Stop} (hphase : r.phase = .raised raised)
      (hhow : how = .ended ∨ how = .rerun) :
      Stands r g (.stopped how)

/-- The two receivers do the same and stand alike afterwards. -/
structure Together (p : Recv × List Pcutp.Effect) (next : Next) : Prop where
  stands : Stands m p.1 next.g next.place
  acts : next.out.filterMap Effect.act? = p.2.filterMap act?

/-- `_receive` after a line, where it goes on by itself when it has nothing to wait for. -/
def settled (p : Recv × List Pcutp.Effect) : Recv × List Pcutp.Effect :=
  match p.1.phase with
  | .payload h =>
      if h.length = 0 then
        let q := p.1.onPayload m h [] none
        (q.1, p.2 ++ q.2)
      else
        p
  | .commit => ({ p.1 with phase := .returned true }, p.2 ++ [.replace, .unlink])
  | _ => p

/-- The lines of a sender in the data phase: decimal fields that a number of the firmware holds,
and DONE only after the last block.  RMB-ACK is not among them: `RecvLine$` keeps it to itself, and
`_receive` gives up on it. -/
inductive Spoken (r : Recv) : List Line → Prop
  | data {n ln crc : Line} (hn : isdecimal n = true) (hln : isdecimal ln = true)
      (hcrc : IsWord crc) (hn_lt : int n < 2 ^ 53) (hln_lt : int ln < 2 ^ 53) :
      Spoken r ["DATA".toList, n, ln, crc]
  | zdata {n ln rawlen crc : Line} (hn : isdecimal n = true) (hln : isdecimal ln = true)
      (hrawlen : isdecimal rawlen = true) (hcrc : IsWord crc) (hn_lt : int n < 2 ^ 53)
      (hln_lt : int ln < 2 ^ 53) (hrawlen_le : int rawlen ≤ m.blocksize) :
      Spoken r ["ZDATA".toList, n, ln, rawlen, crc]
  | barrier {token : Line} (htoken : isdecimal token = true) : Spoken r ["BARRIER".toList, token]
  | rst {token : Line} (htoken : isdecimal token = true) :
      Spoken r ["RST".toList, "0".toList, token]
  | close : Spoken r ["CLOSE".toList]
  | err {code : Line} (hcode : IsWord code) : Spoken r ["ERR".toList, code]
  | done {crc : Line} (hcrc : (parse_hex crc).isSome = true) (hall : r.expected = m.blocks) :
      Spoken r ["DONE".toList, crc]

end Defs

section Replies

variable {cfg : ClientConfig} {m : AcceptedMeta cfg} {r : Recv} {g : Globals}

theorem line_ne_close (reply : Reply) :
    reply.line ≠ "CLOSE".toList := by
  intro h
  cases reply <;> simp [Reply.line, Reply.words, join, Words.unwords] at h

theorem act_reply (reply : Reply) :
    (Effect.send reply.line).act? = some (.reply reply.line) :=
  if_neg (line_ne_close reply)

theorem settled_of_header
    (hphase : r.phase = .header) (effects : List Pcutp.Effect) :
    settled m (r, effects) = (r, effects) := by
  rw [settled]
  dsimp only
  rw [hphase]

/-- Both send a reply and read on. -/
theorem together_reply
    (hphase : r.phase = .header) (halike : Alike m r g) (reply : Reply) (now : Nat) :
    Together m (r, [.send reply]) (recvLine g now .data [.send reply.line]) := by
  refine ⟨.waits now hphase halike, ?_⟩
  change [Effect.send reply.line].filterMap Effect.act? = [.reply reply.line]
  rw [List.filterMap_cons_some (act_reply reply), List.filterMap_nil]

/-- Both send a last line and give up. -/
theorem together_raise
    (reply : Reply) (exc : PcutpError) :
    Together m (r.raise exc, [.send reply]) (stop g .ended [.send reply.line, .close]) := by
  refine ⟨.raised rfl (Or.inl rfl), ?_⟩
  change [Effect.send reply.line, .close].filterMap Effect.act? = [.reply reply.line]
  rw [List.filterMap_cons_some (act_reply reply)]
  rfl

theorem together_protocolError
    (exc : PcutpError) :
    Together m (r.raise exc, [.send (.err "PROTOCOL".toList)]) (protocolError g) :=
  together_raise (.err "PROTOCOL".toList) exc

end Replies

section Blocks

variable {cfg : ClientConfig} {m : AcceptedMeta cfg} {r : Recv} {g : Globals} (now : Nat)

/-- The restart of the file on the receiver's own account. -/
theorem together_onGap
    (hphase : r.phase = .header) (halike : Alike m r g) (seq : Nat) :
    Together m (r.onGap seq) (outOfPlace g now seq) := by
  have hdrops : g.drops + 1 = (r.drops + 1 : Nat) := by
    rw [halike.drops]
    rfl
  have hresets : g.resets + 1 = (r.resets + 1 : Nat) := by
    rw [halike.resets]
    rfl
  have hmax : Const.DROP_MAX ≤ g.drops + 1 ↔ r.drops + 1 ≥ Pcutp.Const.MAX_DROPS := by
    rw [hdrops, Const.DROP_MAX, Pcutp.Const.MAX_DROPS]
    omega
  have hbudget : Const.RESET_MAX < g.resets + 1 ↔ r.resets + 1 > Pcutp.Const.MAX_RESETS := by
    rw [hresets, Const.RESET_MAX, Pcutp.Const.MAX_RESETS]
    omega
  dsimp only [Recv.onGap, outOfPlace]
  simp only [hmax, hbudget]
  split_ifs
  · exact together_raise (.err "RETRY".toList) _
  · refine ⟨.waits now hphase ?_, rfl⟩
    exact { halike with
      seq := rfl
      rcvd := rfl
      running := rfl
      drops := rfl
      resets := hresets
      received_le := Nat.zero_le _ }
  · have halike' : Alike m { r with drops := r.drops + 1 } { g with drops := g.drops + 1 } :=
      { halike with drops := hdrops }
    have htogether := together_reply (r := { r with drops := r.drops + 1 }) hphase halike'
      (.drop r.expected (dec seq)) now
    have hline : join ["DROP".toList, Str g.seq, Str seq] =
        (Reply.drop r.expected (dec seq)).line := by
      rw [halike.seq]
      rfl
    rw [hline]
    exact htogether

/-- A block in its place. -/
theorem together_onBlock
    (hphase : r.phase = .header) (halike : Alike m r g) {payload : Bytes}
    (hbuf : g.arrays.buf.bytes.take payload.length = payload)
    (hlength : payload.length = min m.blocksize (m.size - r.received)) :
    Together m (r.onBlock m r.expected payload)
      (commit g now r.expected payload.length ((crc32 payload r.running).setWidth 64)) := by
  have hreceived := halike.received_le
  have hlen : (payload.length : Int) = min g.blksz (g.size - g.rcvd) := by
    rw [halike.blksz, halike.size, halike.rcvd]
    omega
  have hle : (payload.length : Int).toNat ≤ 4096 := by
    have hbytes := congrArg List.length hbuf
    rw [List.length_take, g.arrays.buf.length_eq] at hbytes
    omega
  obtain ⟨state, saved, hcommit, hsaved⟩ :=
    commit_of_eq now hlen (writeBlock_eq g.arrays.buf hle) r.expected
      ((crc32 payload r.running).setWidth 64)
  have hnone : saved.filterMap Effect.act? = [] := by
    rcases hsaved with ⟨rfl, -⟩ | rfl
    · rfl
    · rfl
  rw [hcommit]
  refine ⟨.waits now hphase ?_, ?_⟩
  · refine { halike with
      seq := ?_
      rcvd := ?_
      running := rfl
      drops := rfl
      received_le := ?_ }
    · change g.seq + 1 = ((r.expected + 1 : Nat) : Int)
      rw [halike.seq]
      rfl
    · change g.rcvd + payload.length = ((r.received + payload.length : Nat) : Int)
      rw [halike.rcvd]
      rfl
    · change r.received + payload.length ≤ m.size
      omega
  · have hwrite : g.arrays.buf.bytes.take (payload.length : Int).toNat = payload := by
      rw [Int.toNat_natCast, hbuf]
    have hack : (Reply.ack r.expected).line = "ACK ".toList ++ Str r.expected := rfl
    rw [hwrite, ← hack]
    have hwrote : (Effect.write payload).act? = some (.wrote payload) := rfl
    change ([Effect.write payload, .send (Reply.ack r.expected).line] ++ saved).filterMap
      Effect.act? = _
    rw [List.filterMap_append, hnone, List.append_nil, List.filterMap_cons_some hwrote,
      List.filterMap_cons_some (act_reply _), List.filterMap_nil]
    dsimp only [Recv.onBlock]
    split_ifs
    · rfl
    · rfl

/-- The bytes of a block, as they were before they were packed. -/
theorem together_onDecoded
    (hflow : cfg.flow = true) (hphase : r.phase = .header) (halike : Alike m r g) {payload : Bytes}
    (hbuf : g.arrays.buf.bytes.take payload.length = payload) (hle : payload.length ≤ m.blocksize)
    {h : DataHeader} {frame : Frame} (hn : frame.n = h.seq) (hwant : frame.want = h.want) :
    Together m (r.onDecoded m h payload payload.length none)
      (checkBlock g now frame payload.length) := by
  have hcount : (payload.length : Int).toNat ≤ 4096 := by
    have hlimit := halike.blocksize_le
    omega
  have hcrc := crcBoth_eq g.arrays.buf hcount 0 r.running
  rw [Int.toNat_natCast, hbuf, ← halike.running] at hcrc
  unfold checkBlock
  rw [show CrcBoth g.arrays.buf 0 g.running (payload.length : Int).toNat = _ from hcrc]
  dsimp only
  rw [hex8_setWidth, hwant, hn, halike.seq, Recv.onDecoded.eq_def]
  have hcrcHex : crc32_hex payload = to_hex (crc32 payload 0) := rfl
  rw [hcrcHex]
  by_cases hbad : to_hex (crc32 payload 0) ≠ h.want
  · rw [if_pos hbad, if_pos hbad]
    exact together_reply hphase halike (.nak r.expected "CRC".toList) now
  rw [if_neg hbad, if_neg hbad]
  by_cases hold : h.seq < r.expected
  · have hold' : (h.seq : Int) < r.expected := by omega
    have hbefore : (r.expected : Int) - 1 = (r.expected - 1 : Nat) := by omega
    rw [if_pos hold, if_pos hold', hflow, if_pos rfl, halike.flowOn, if_pos rfl, hbefore]
    exact together_reply hphase halike (.ack (r.expected - 1)) now
  have hold' : ¬ (h.seq : Int) < r.expected := by omega
  rw [if_neg hold, if_neg hold']
  by_cases hgap : h.seq ≠ r.expected
  · have hgap' : (h.seq : Int) ≠ r.expected := by omega
    rw [if_pos hgap, if_pos hgap']
    exact together_onGap now hphase halike h.seq
  rw [not_not] at hgap
  rw [hgap, if_neg (not_not.mpr rfl), if_neg (not_not.mpr rfl)]
  by_cases hlength : payload.length = min m.blocksize (m.size - r.received)
  · rw [if_neg (not_not.mpr hlength)]
    exact together_onBlock now hphase halike hbuf hlength
  · have hreceived := halike.received_le
    have hlength' : (payload.length : Int) ≠ min g.blksz (g.size - g.rcvd) := by
      rw [halike.blksz, halike.size, halike.rcvd]
      omega
    rw [if_pos hlength, commit_of_ne now hlength']
    exact together_protocolError _

/-- A payload that has come whole, packed or not. -/
theorem together_onPayload
    (hflow : cfg.flow = true) (halike : Alike m r g) {h : DataHeader} {frame : Frame}
    (hframed : Framed m h frame) (payload : Bytes) (hlen : payload.length = h.length)
    (hbuf : g.arrays.buf.bytes.take payload.length = payload) :
    Together m (r.onPayload m h payload none) (afterRaw g now frame) := by
  have hlimit := halike.blocksize_le
  have hln := hframed.length_le
  have hrawlen := hframed.raw_length_le
  have halike' : Alike m { r with phase := .header } g := { halike with }
  dsimp only [Recv.onPayload, afterRaw]
  rw [hframed.zipped]
  by_cases hpacked : h.packed = true
  · rw [if_pos hpacked, if_pos hpacked, hframed.ln, hframed.rawlen, Int.toNat_natCast,
      Int.toNat_natCast]
    have hpacked_le : h.length ≤ 4096 := by omega
    have hplain_le : h.raw_length ≤ 4096 := by omega
    obtain ⟨result, after, hrun, hunpacked⟩ := unpacked_decompress hpacked_le hplain_le g.arrays
    rw [hrun]
    rw [← hlen, hbuf] at hunpacked
    generalize hplain : decompress payload h.raw_length = d at hunpacked
    have halike'' : Alike m { r with phase := .header } { g with arrays := after } :=
      { halike with }
    cases hunpacked with
    | refused exc hbuf =>
        have hline : join ["NAK".toList, Str g.seq, "DECODE".toList] =
            (Reply.nak r.expected "DECODE".toList).line := by
          rw [halike.seq]
          rfl
        dsimp only
        rw [hline]
        exact together_reply (r := { r with phase := .header }) rfl halike'' _ now
    | @accepted _ out hout =>
        have houtlen : out.length = h.raw_length := by
          have hbuflen := after.buf.length_eq
          rw [← hout, List.length_take]
          omega
        dsimp only
        rw [← houtlen] at hout ⊢
        exact together_onDecoded (r := { r with phase := .header }) now hflow rfl halike'' hout
          (by omega) hframed.n hframed.want
  · rw [if_neg hpacked, if_neg hpacked, hframed.ln, ← hlen]
    exact together_onDecoded (r := { r with phase := .header }) now hflow rfl halike' hbuf
      (by omega) hframed.n hframed.want

theorem together_rawTimedOut
    (hflow : cfg.flow = true) (halike : Alike m r g) :
    Together m (Recv.onRawTimeout cfg r) (rawTimedOut g now) := by
  have hline : join ["DROP".toList, Str g.seq, "RAW".toList] =
      (Reply.drop r.expected "RAW".toList).line := by
    rw [halike.seq]
    rfl
  rw [Recv.onRawTimeout, if_pos hflow, rawTimedOut, hline]
  exact together_reply (r := { r with phase := .header }) rfl { halike with } _ now

/-- A data header, once its fields are read. -/
theorem together_frame
    (hflow : cfg.flow = true) (halike : Alike m r g) {h : DataHeader} (frame : Frame)
    (hn : frame.n = h.seq) (hln : frame.ln = h.length) (hrawlen : frame.rawlen = h.raw_length)
    (hwant : frame.want = h.want) (hzipped : frame.zipped = h.packed)
    (hraw_le : h.length ≤ m.blocksize → h.raw_length ≤ m.blocksize) :
    Together m
      (settled m
        (if ¬ h.length ≤ m.blocksize ∨ ¬ h.seq < m.blocks then
          (r.raise (ProtocolError "invalid DATA dimensions"), [.send (.err "PROTOCOL".toList)])
        else
          ({ r with phase := .payload h }, [])))
      (afterFrame g now frame) := by
  have hbad : frame.ln < 0 ∨ g.blksz < frame.ln ∨ frame.n < 0 ∨ g.blocks ≤ frame.n ↔
      ¬ h.length ≤ m.blocksize ∨ ¬ h.seq < m.blocks := by
    rw [hln, hn, halike.blksz, halike.blocks]
    omega
  rw [afterFrame]
  simp only [hbad]
  split_ifs with hdim hraw hzero
  · exact together_protocolError _
  · rw [hrawlen, halike.blksz] at hraw
    omega
  all_goals
    have hframed : Framed m h frame :=
      ⟨hn, hln, hrawlen, hwant, hzipped, by omega, hraw_le (by omega)⟩
    have halike' : Alike m { r with phase := .payload h } g := { halike with }
  · have hlen : h.length = 0 := by omega
    have htogether := together_onPayload now hflow halike' hframed [] hlen.symm rfl
    have hsettled : settled m ({ r with phase := .payload h }, []) =
        Recv.onPayload m { r with phase := .payload h } h [] none := by
      rw [settled]
      dsimp only
      rw [if_pos hlen, List.nil_append]
    rw [hsettled]
    exact htogether
  · have hlen : ¬ h.length = 0 := by omega
    have hsettled : settled m ({ r with phase := .payload h }, []) =
        ({ r with phase := .payload h }, []) := by
      rw [settled]
      dsimp only
      rw [if_neg hlen]
    rw [hsettled]
    exact ⟨.reads now rfl halike' hframed (by omega), rfl⟩

end Blocks

section Lines

variable {cfg : ClientConfig} {m : AcceptedMeta cfg} {r : Recv} {g : Globals}

theorem isWord_of_isdecimal
    {w : Line} (h : isdecimal w = true) :
    IsWord w := by
  rw [isdecimal, Bool.and_eq_true, Bool.not_eq_true', List.isEmpty_eq_false_iff,
    List.all_eq_true] at h
  exact ⟨h.1, fun c hc => isSpace_of_isDigit (h.2 c hc)⟩

theorem isWord_of_parse_hex
    {w : Line} (h : (parse_hex w).isSome = true) :
    IsWord w := by
  have hdigits : ("0123456789abcdefABCDEF".toList.all fun c => decide (isSpace c = false)) =
      true := by
    decide
  rw [parse_hex] at h
  split_ifs at h with hbad
  · cases h
  · refine ⟨fun hnil => hbad (Or.inl ?_), fun c hc => ?_⟩
    · rw [hnil]
      decide
    · by_contra hspace
      refine hbad (Or.inr (List.any_eq_true.mpr ⟨c, hc, decide_eq_true fun hmem => ?_⟩))
      exact hspace (of_decide_eq_true (List.all_eq_true.mp hdigits c hmem))

theorem Spoken.isWord
    {ws : List Line} (h : Spoken m r ws) :
    ∀ w ∈ ws, IsWord w := by
  have hone : ∀ w : Line, IsWord w → ∀ v ∈ [w], IsWord v := fun w hw v hv =>
    List.mem_singleton.mp hv ▸ hw
  cases h with
  | data hn hln hcrc _ _ =>
      exact List.forall_mem_cons.mpr ⟨isWord_of_check rfl, List.forall_mem_cons.mpr
        ⟨isWord_of_isdecimal hn, List.forall_mem_cons.mpr ⟨isWord_of_isdecimal hln, hone _ hcrc⟩⟩⟩
  | zdata hn hln hrawlen hcrc _ _ _ =>
      exact List.forall_mem_cons.mpr ⟨isWord_of_check rfl, List.forall_mem_cons.mpr
        ⟨isWord_of_isdecimal hn, List.forall_mem_cons.mpr ⟨isWord_of_isdecimal hln,
          List.forall_mem_cons.mpr ⟨isWord_of_isdecimal hrawlen, hone _ hcrc⟩⟩⟩⟩
  | barrier htoken =>
      exact List.forall_mem_cons.mpr ⟨isWord_of_check rfl, hone _ (isWord_of_isdecimal htoken)⟩
  | rst htoken =>
      exact List.forall_mem_cons.mpr ⟨isWord_of_check rfl, List.forall_mem_cons.mpr
        ⟨isWord_of_check rfl, hone _ (isWord_of_isdecimal htoken)⟩⟩
  | close => exact hone _ (isWord_of_check rfl)
  | err hcode => exact List.forall_mem_cons.mpr ⟨isWord_of_check rfl, hone _ hcode⟩
  | done hcrc _ =>
      exact List.forall_mem_cons.mpr ⟨isWord_of_check rfl, hone _ (isWord_of_parse_hex hcrc)⟩

theorem join_ne_close
    {ws : List Line} (hws : ∀ w ∈ ws, IsWord w) (hlen : ws.length ≠ 1) :
    join ws ≠ "CLOSE".toList := by
  intro h
  have hclose : split "CLOSE".toList = ["CLOSE".toList] := Words.words_single (isWord_of_check rfl)
  have hsplit := split_join hws
  rw [h, hclose] at hsplit
  rw [← hsplit] at hlen
  exact hlen rfl

/-- `_receive` on a data header with proper fields. -/
theorem onData_of_fields
    {parts : List Line} {packed : Bool}
    (hpacked : (cfg.compression && parts.length == 5 && word parts 0 == "ZDATA".toList) = packed)
    (hfirst : ¬ (packed = false ∧ (parts.length ≠ 4 ∨ word parts 0 ≠ "DATA".toList)))
    (hfields : ¬ (isdecimal (word parts 1) = false ∨ isdecimal (word parts 2) = false ∨
      (packed = true ∧ isdecimal (word parts 3) = false)))
    {raw_length : Nat}
    (hraw : (if packed then int (word parts 3) else int (word parts 2)) = raw_length)
    (hraw_le : int (word parts 2) ≤ m.blocksize → raw_length ≤ m.blocksize) :
    r.onData m parts =
      if ¬ int (word parts 2) ≤ m.blocksize ∨ ¬ int (word parts 1) < m.blocks then
        (r.raise (ProtocolError "invalid DATA dimensions"), [.send (.err "PROTOCOL".toList)])
      else
        ({ r with
            phase := .payload
              { seq := int (word parts 1), length := int (word parts 2), raw_length
                want := upper (parts.getLastD []), packed } }, []) := by
  rw [Recv.onData.eq_def]
  dsimp only
  rw [hpacked, if_neg hfirst, if_neg hfields, hraw]
  by_cases hdim : ¬ int (word parts 2) ≤ m.blocksize ∨ ¬ int (word parts 1) < m.blocks
  · rw [if_pos hdim, if_pos hdim]
  · have hle : int (word parts 2) ≤ m.blocksize := by
      by_contra hlong
      exact hdim (Or.inl hlong)
    rw [if_neg hdim, if_neg hdim, if_neg (not_not.mpr (hraw_le hle))]

/-- A line of the transfer that is split: neither ERR nor CLOSE. -/
theorem afterData_words
    (nums : Numbers) (g : Globals) (now : Nat) {w : Line} {ws : List Line}
    (hblank : ∀ v ∈ w :: ws, ' ' ∉ v) (hlen : ws.length < 9)
    (herr : begins "ERR" (join (w :: ws)) = false) (hclose : join (w :: ws) ≠ "CLOSE".toList) :
    ∃ (parts : Vector Line 9) (g' : Globals),
      (∀ (i : Nat) (hi : i < 9), parts[i] = word (w :: ws) i) ∧ g' = { g with parts } ∧
      afterData nums g now (join (w :: ws)) =
        if w = "RST".toList ∧ word (w :: ws) 1 = "0".toList ∧ word (w :: ws) 2 ≠ [] then
          recvLine (restarted g' 0) now .data
            ([.close, .openPart (partPath (restarted g' 0))] ++
              SaveRmb (restarted g' 0) (restarted g' 0).rmbState ++
              [.send (join ["RST-ACK".toList, word (w :: ws) 2, "0".toList])])
        else if w = "DONE".toList then
          if g'.seq ≠ g'.blocks then protocolError g' else finalCrc nums g' now
        else if g'.flowOn ∧ w = "BARRIER".toList then
          recvLine g' now .data [.send (join ["RESUME".toList, word (w :: ws) 1, Str g'.seq])]
        else if (g'.zipOn && w = "ZDATA".toList) = false ∧ w ≠ "DATA".toList then
          stop g' .ended [.close]
        else
          afterFrame g' now (readFrame nums (g'.zipOn && w = "ZDATA".toList) parts) := by
  obtain ⟨parts, hparts, hfields⟩ := split_words hblank hlen g.parts
  have h0 : parts[0] = w := hfields 0 (by decide)
  have h1 : parts[1] = word (w :: ws) 1 := hfields 1 (by decide)
  have h2 : parts[2] = word (w :: ws) 2 := hfields 2 (by decide)
  refine ⟨parts, _, hfields, rfl, ?_⟩
  unfold afterData
  rw [herr, if_neg Bool.false_ne_true, if_neg hclose, hparts]
  dsimp only
  rw [h0, h1, h2]

variable {nums : Numbers} (hnums : ReadsNumbers nums) (hflow : cfg.flow = true) (now : Nat)

include hnums hflow in
/-- A data header. -/
theorem together_data
    (halike : Alike m r g) {n ln crc : Line} (hn : isdecimal n = true) (hln : isdecimal ln = true)
    (hn_lt : int n < 2 ^ 53) (hln_lt : int ln < 2 ^ 53) {parts : Vector Line 9}
    (hfields : ∀ (i : Nat) (hi : i < 9), parts[i] = word ["DATA".toList, n, ln, crc] i) :
    Together m (settled m (r.onData m ["DATA".toList, n, ln, crc]))
      (afterFrame g now (readFrame nums false parts)) := by
  have hpacked : (cfg.compression && [("DATA".toList : Line), n, ln, crc].length == 5 &&
      word ["DATA".toList, n, ln, crc] 0 == "ZDATA".toList) = false := by
    simp
  have hdata := onData_of_fields (m := m) (r := r) hpacked (by simp) (by simp [hn, hln]) rfl id
  rw [hdata]
  have h1 : parts[1] = n := hfields 1 (by decide)
  have h2 : parts[2] = ln := hfields 2 (by decide)
  have h3 : parts[3] = crc := hfields 3 (by decide)
  have hval1 := (congrArg nums.Val h1).trans (hnums.decimal n hn hn_lt)
  have hval2 := (congrArg nums.Val h2).trans (hnums.decimal ln hln hln_lt)
  exact together_frame now hflow halike
    (h := { seq := int n, length := int ln, raw_length := int ln, want := upper crc
            packed := false })
    (readFrame nums false parts) hval1 hval2 hval2 (congrArg upper h3) rfl id

include hnums hflow in
/-- The header of a packed block. -/
theorem together_zdata
    (halike : Alike m r g) (hzip : cfg.compression = true) {n ln rawlen crc : Line}
    (hn : isdecimal n = true) (hln : isdecimal ln = true) (hrawlen : isdecimal rawlen = true)
    (hn_lt : int n < 2 ^ 53) (hln_lt : int ln < 2 ^ 53) (hrawlen_le : int rawlen ≤ m.blocksize)
    {parts : Vector Line 9}
    (hfields : ∀ (i : Nat) (hi : i < 9), parts[i] = word ["ZDATA".toList, n, ln, rawlen, crc] i) :
    Together m (settled m (r.onData m ["ZDATA".toList, n, ln, rawlen, crc]))
      (afterFrame g now (readFrame nums true parts)) := by
  have hlimit := halike.blocksize_le
  have hpacked : (cfg.compression && [("ZDATA".toList : Line), n, ln, rawlen, crc].length == 5 &&
      word ["ZDATA".toList, n, ln, rawlen, crc] 0 == "ZDATA".toList) = true := by
    simp [hzip]
  have hdata := onData_of_fields (m := m) (r := r) hpacked (by simp) (by simp [hn, hln, hrawlen])
    rfl fun _ => hrawlen_le
  rw [hdata]
  have h1 : parts[1] = n := hfields 1 (by decide)
  have h2 : parts[2] = ln := hfields 2 (by decide)
  have h3 : parts[3] = rawlen := hfields 3 (by decide)
  have h4 : parts[4] = crc := hfields 4 (by decide)
  have hval1 := (congrArg nums.Val h1).trans (hnums.decimal n hn hn_lt)
  have hval2 := (congrArg nums.Val h2).trans (hnums.decimal ln hln hln_lt)
  have hval3 := (congrArg nums.Val h3).trans (hnums.decimal rawlen hrawlen (by omega))
  exact together_frame now hflow halike
    (h := { seq := int n, length := int ln, raw_length := int rawlen, want := upper crc
            packed := true })
    (readFrame nums true parts) hval1 hval2 hval3 (congrArg upper h4) rfl fun _ => hrawlen_le

include hnums in
/-- The verdict on the file. -/
theorem together_done
    (halike : Alike m r g) {crc : Line} (hcrc : (parse_hex crc).isSome = true)
    (hword : g.parts.get 1 = crc) :
    Together m (settled m (r.finish m ["DONE".toList, crc] true)) (finalCrc nums g now) := by
  obtain ⟨value, hvalue⟩ := Option.isSome_iff_exists.mp hcrc
  obtain ⟨fcrc, hfcrc, hmeta⟩ := halike.fcrc
  have hupper := (to_hex_of_parse_hex hvalue).2
  have hverdict : (g.running ≠ g.fcrc ∨ g.running ≠ HexVal nums g.parts[1] ∨ g.rcvd ≠ g.size) ↔
      (to_hex r.running ≠ upper crc ∨ to_hex r.running ≠ m.crc32 ∨ r.received ≠ m.size) := by
    have hsize : g.rcvd ≠ g.size ↔ r.received ≠ m.size := by
      rw [halike.rcvd, halike.size]
      omega
    have hword : g.parts[1] = crc := hword
    rw [hword, hexVal_eq hnums hvalue, halike.running, hfcrc, hsize, ← hmeta, ← hupper]
    simp only [ne_eq, setWidth_inj, to_hex_inj]
    exact or_left_comm
  have hfinish : r.finish m ["DONE".toList, crc] true =
      if to_hex r.running ≠ upper crc ∨ to_hex r.running ≠ m.crc32 ∨ r.received ≠ m.size then
        ({ r with phase := .returned false }, [.send (.failCrc (to_hex r.running))])
      else
        ({ r with phase := .commit }, [.send (.ok (to_hex r.running))]) := by
    simp [Recv.finish]
  rw [hfinish]
  dsimp only [finalCrc]
  rw [halike.running, hex8_setWidth, ← halike.running]
  simp only [hverdict]
  split_ifs with hbad hdone
  · refine ⟨.returned rfl rfl (fun how => Place.noConfusion), ?_⟩
    have hsent := act_reply (.failCrc (to_hex r.running))
    have hclosed : Effect.close.act? = none := rfl
    change [Effect.close, .send (Reply.failCrc (to_hex r.running)).line].filterMap Effect.act? = _
    rw [List.filterMap_cons_none hclosed, List.filterMap_cons_some hsent]
    rfl
  all_goals
    have hsettled : settled m ({ r with phase := .commit }, [.send (.ok (to_hex r.running))]) =
        ({ r with phase := .returned true },
          [.send (.ok (to_hex r.running)), .replace, .unlink]) := rfl
    rw [hsettled]
    have hsent := act_reply (.ok (to_hex r.running))
    have hclosed : Effect.close.act? = none := rfl
  · refine ⟨.returned rfl rfl (fun how => Place.noConfusion), ?_⟩
    change (Effect.close :: .send (Reply.ok (to_hex r.running)).line :: _).filterMap _ = _
    rw [List.filterMap_cons_none hclosed, List.filterMap_cons_some hsent]
    rfl
  · refine ⟨.returned rfl rfl (fun how => Place.noConfusion), ?_⟩
    change (Effect.close :: .send (Reply.ok (to_hex r.running)).line :: _).filterMap _ = _
    rw [List.filterMap_cons_none hclosed, List.filterMap_cons_some hsent]
    rfl

/-- Both give up on ERR. -/
theorem together_err
    (nums : Numbers) (now : Nat) {code : Line} (hcode : IsWord code) :
    Together m (settled m (r.onLine m (join ["ERR".toList, code]) true))
      (afterData nums g now (join ["ERR".toList, code])) := by
  have hspoken : Spoken m r ["ERR".toList, code] := .err hcode
  have hsplit := split_join hspoken.isWord
  have hline : ∃ exc, r.onLine m (join ["ERR".toList, code]) true = (r.raise exc, []) := by
    rw [Recv.onLine, hsplit]
    exact ⟨_, if_pos rfl⟩
  obtain ⟨exc, hline⟩ := hline
  have hafter : afterData nums g now (join ["ERR".toList, code]) = stop g .ended [.close] :=
    if_pos rfl
  rw [hline, hafter]
  exact ⟨.raised rfl (Or.inl rfl), rfl⟩

/-- Both answer CLOSE and read on. -/
theorem together_close
    (nums : Numbers) (now : Nat) (hphase : r.phase = .header) (halike : Alike m r g) :
    Together m (settled m (r.onLine m (join ["CLOSE".toList]) true))
      (afterData nums g now (join ["CLOSE".toList])) := by
  have hspoken : Spoken m r ["CLOSE".toList] := .close
  have hsplit := split_join hspoken.isWord
  have hline : r.onLine m (join ["CLOSE".toList]) true =
      ({ r with peer_closing := true }, [.send .bye]) := by
    rw [Recv.onLine, hsplit]
    simp [join, Words.unwords]
  have hheader : ({ r with peer_closing := true } : Recv).phase = .header := hphase
  rw [hline, settled_of_header hheader]
  exact together_reply (r := { r with peer_closing := true })
    (g := { g with peerDone := true }) hphase { halike with } .bye now

/-- Both answer BARRIER and read on. -/
theorem together_barrier
    (nums : Numbers) (now : Nat) (hflow : cfg.flow = true) (hphase : r.phase = .header)
    (halike : Alike m r g) {token : Line} (htoken : isdecimal token = true) :
    Together m (settled m (r.onLine m (join ["BARRIER".toList, token]) true))
      (afterData nums g now (join ["BARRIER".toList, token])) := by
  have hspoken : Spoken m r ["BARRIER".toList, token] := .barrier htoken
  have hwords := hspoken.isWord
  have hsplit := split_join hwords
  obtain ⟨parts, g', -, rfl, hafter⟩ := afterData_words nums g now
    (fun w hw => no_blank_of_isWord (hwords w hw)) (Nat.lt_of_sub_pos (Nat.succ_pos 7)) rfl
    (join_ne_close hwords (Nat.succ_ne_self 1))
  have halike' : Alike m r { g with parts } := { halike with }
  have hline : r.onLine m (join ["BARRIER".toList, token]) true =
      (r, [.send (.resume token r.expected)]) := by
    rw [Recv.onLine, hsplit]
    simp [hflow, htoken]
  have hreply : join ["RESUME".toList, token, Str g.seq] =
      (Reply.resume token r.expected).line := by
    rw [halike.seq]
    rfl
  have hother : "BARRIER".toList ≠ "RST".toList ∧ "BARRIER".toList ≠ "DONE".toList := by decide
  rw [hline, settled_of_header hphase, hafter, if_neg fun h => hother.1 h.1, if_neg hother.2,
    if_pos ⟨halike.flowOn, rfl⟩]
  exact hreply ▸ together_reply hphase halike' _ now

/-- Both start the file again at RST 0. -/
theorem together_rst
    (nums : Numbers) (now : Nat) (hphase : r.phase = .header) (halike : Alike m r g) {token : Line}
    (htoken : isdecimal token = true) :
    Together m (settled m (r.onLine m (join ["RST".toList, "0".toList, token]) true))
      (afterData nums g now (join ["RST".toList, "0".toList, token])) := by
  have hspoken : Spoken m r ["RST".toList, "0".toList, token] := .rst htoken
  have hwords := hspoken.isWord
  have hsplit := split_join hwords
  obtain ⟨parts, g', -, rfl, hafter⟩ := afterData_words nums g now
    (fun w hw => no_blank_of_isWord (hwords w hw)) (Nat.lt_of_sub_pos (Nat.succ_pos 6)) rfl
    (join_ne_close hwords (by simp))
  have hline : r.onLine m (join ["RST".toList, "0".toList, token]) true =
      (r.restart, [.truncate, .rmb (Recv.record m "RESET" r.restart),
        .send (.rstAck token)]) := by
    rw [Recv.onLine, hsplit]
    simp [htoken]
  have hheader : r.restart.phase = .header := hphase
  have htoken_ne : token ≠ [] := (isWord_of_isdecimal htoken).1
  rw [hline, settled_of_header hheader, hafter, if_pos ⟨rfl, rfl, htoken_ne⟩]
  refine ⟨.waits now hphase ?_, ?_⟩
  · exact { halike with
      seq := rfl
      rcvd := rfl
      running := rfl
      drops := rfl
      resets := rfl
      received_le := Nat.zero_le _ }
  · have hsent := act_reply (.rstAck token)
    change (_ ++ [Effect.send (Reply.rstAck token).line]).filterMap Effect.act? = _
    rw [List.filterMap_append, List.filterMap_cons_some hsent]
    rfl

include hnums in
/-- Both judge the file at DONE, after the last block. -/
theorem together_doneLine
    (halike : Alike m r g) {crc : Line} (hcrc : (parse_hex crc).isSome = true)
    (hall : r.expected = m.blocks) :
    Together m (settled m (r.onLine m (join ["DONE".toList, crc]) true))
      (afterData nums g now (join ["DONE".toList, crc])) := by
  have hspoken : Spoken m r ["DONE".toList, crc] := .done hcrc hall
  have hwords := hspoken.isWord
  have hsplit := split_join hwords
  obtain ⟨parts, g', hfields, rfl, hafter⟩ := afterData_words nums g now
    (fun w hw => no_blank_of_isWord (hwords w hw)) (Nat.lt_of_sub_pos (Nat.succ_pos 7)) rfl
    (join_ne_close hwords (Nat.succ_ne_self 1))
  have halike' : Alike m r { g with parts } := { halike with }
  have hline : r.onLine m (join ["DONE".toList, crc]) true =
      r.finish m ["DONE".toList, crc] true := by
    rw [Recv.onLine, hsplit]
    simp [hall]
  have hother : "DONE".toList ≠ "RST".toList := by decide
  have hseq : ¬ g.seq ≠ g.blocks := by
    rw [halike.seq, halike.blocks, hall]
    exact not_not.mpr rfl
  rw [hline, hafter, if_neg fun h => hother h.1, if_pos rfl, if_neg hseq]
  exact together_done hnums now halike' hcrc (hfields 1 (by decide))

include hnums hflow in
/-- Both read the payload that a DATA line announces. -/
theorem together_dataLine
    (halike : Alike m r g) {n ln crc : Line} (hn : isdecimal n = true) (hln : isdecimal ln = true)
    (hcrc : IsWord crc) (hn_lt : int n < 2 ^ 53) (hln_lt : int ln < 2 ^ 53) :
    Together m (settled m (r.onLine m (join ["DATA".toList, n, ln, crc]) true))
      (afterData nums g now (join ["DATA".toList, n, ln, crc])) := by
  have hspoken : Spoken m r ["DATA".toList, n, ln, crc] := .data hn hln hcrc hn_lt hln_lt
  have hwords := hspoken.isWord
  have hsplit := split_join hwords
  obtain ⟨parts, g', hfields, rfl, hafter⟩ := afterData_words nums g now
    (fun w hw => no_blank_of_isWord (hwords w hw)) (Nat.lt_of_sub_pos (Nat.succ_pos 5)) rfl
    (join_ne_close hwords (by simp))
  have halike' : Alike m r { g with parts } := { halike with }
  have hline : r.onLine m (join ["DATA".toList, n, ln, crc]) true =
      r.onData m ["DATA".toList, n, ln, crc] := by
    rw [Recv.onLine_of_other (join_ne_close hwords (by simp)) ?_, hsplit]
    rw [hsplit, word_zero]
    decide
  have hother : "DATA".toList ≠ "RST".toList ∧ "DATA".toList ≠ "DONE".toList ∧
      "DATA".toList ≠ "BARRIER".toList := by
    decide
  have hzipped : (g.zipOn && decide ("DATA".toList = "ZDATA".toList)) = false := by simp
  rw [hline, hafter, if_neg fun h => hother.1 h.1, if_neg hother.2.1,
    if_neg fun h => hother.2.2 h.2, hzipped, if_neg fun h => h.2 rfl]
  exact together_data hnums hflow now halike' hn hln hn_lt hln_lt hfields

include hnums hflow in
/-- Both read the payload that a ZDATA line announces, or give up where blocks are not packed. -/
theorem together_zdataLine
    (halike : Alike m r g) {n ln rawlen crc : Line} (hn : isdecimal n = true)
    (hln : isdecimal ln = true) (hrawlen : isdecimal rawlen = true) (hcrc : IsWord crc)
    (hn_lt : int n < 2 ^ 53) (hln_lt : int ln < 2 ^ 53) (hrawlen_le : int rawlen ≤ m.blocksize) :
    Together m (settled m (r.onLine m (join ["ZDATA".toList, n, ln, rawlen, crc]) true))
      (afterData nums g now (join ["ZDATA".toList, n, ln, rawlen, crc])) := by
  have hspoken : Spoken m r ["ZDATA".toList, n, ln, rawlen, crc] :=
    .zdata hn hln hrawlen hcrc hn_lt hln_lt hrawlen_le
  have hwords := hspoken.isWord
  have hsplit := split_join hwords
  obtain ⟨parts, g', hfields, rfl, hafter⟩ := afterData_words nums g now
    (fun w hw => no_blank_of_isWord (hwords w hw)) (Nat.lt_of_sub_pos (Nat.succ_pos 4)) rfl
    (join_ne_close hwords (by simp))
  have halike' : Alike m r { g with parts } := { halike with }
  have hline : r.onLine m (join ["ZDATA".toList, n, ln, rawlen, crc]) true =
      r.onData m ["ZDATA".toList, n, ln, rawlen, crc] := by
    rw [Recv.onLine_of_other (join_ne_close hwords (by simp)) ?_, hsplit]
    rw [hsplit, word_zero]
    decide
  have hother : "ZDATA".toList ≠ "RST".toList ∧ "ZDATA".toList ≠ "DONE".toList ∧
      "ZDATA".toList ≠ "BARRIER".toList := by
    decide
  have hzipped : (g.zipOn && decide ("ZDATA".toList = "ZDATA".toList)) = cfg.compression := by
    simp [halike.zipOn]
  rw [hline, hafter, if_neg fun h => hother.1 h.1, if_neg hother.2.1,
    if_neg fun h => hother.2.2 h.2, hzipped]
  by_cases hzip : cfg.compression = true
  · rw [hzip, if_neg fun h => Bool.noConfusion h.1]
    exact together_zdata hnums hflow now halike' hzip hn hln hrawlen hn_lt hln_lt hrawlen_le hfields
  · have hraise : ∃ exc, r.onData m ["ZDATA".toList, n, ln, rawlen, crc] = (r.raise exc, []) := by
      rw [Recv.onData.eq_def]
      exact ⟨_, if_pos (by simp [hzip])⟩
    obtain ⟨exc, hraise⟩ := hraise
    rw [hraise, if_pos ⟨Bool.eq_false_iff.mpr hzip, by decide⟩]
    exact ⟨.raised rfl (Or.inl rfl), rfl⟩

include hnums hflow in
/-- Both receivers on a line of the sender. -/
theorem together_line
    (hphase : r.phase = .header) (halike : Alike m r g) {ws : List Line}
    (hspoken : Spoken m r ws) :
    Together m (settled m (r.onLine m (join ws) true)) (afterData nums g now (join ws)) := by
  cases hspoken with
  | data hn hln hcrc hn_lt hln_lt =>
      exact together_dataLine hnums hflow now halike hn hln hcrc hn_lt hln_lt
  | zdata hn hln hrawlen hcrc hn_lt hln_lt hrawlen_le =>
      exact together_zdataLine hnums hflow now halike hn hln hrawlen hcrc hn_lt hln_lt hrawlen_le
  | barrier htoken => exact together_barrier nums now hflow hphase halike htoken
  | rst htoken => exact together_rst nums now hphase halike htoken
  | close => exact together_close nums now hphase halike
  | err hcode => exact together_err nums now hcode
  | done hcrc hall => exact together_doneLine hnums now halike hcrc hall

end Lines

end Pcutp.Picocalc
