import Mathlib.Tactic.SplitIfs
import Pcutp.Client
import Pcutp.Frames

/-!
# What the receiver does with each command

One lemma for each line the sender prints: what `_receive` answers and how its
counters change, when the accepted META is the one of the transfer.
-/

namespace Pcutp

/-- The receiver's META and its settings are those of the transfer. -/
structure AcceptedMeta.Matches {cfg : ClientConfig} (m : AcceptedMeta cfg) (job : Job) : Prop where
  flow : cfg.flow = job.session.flow
  compression : cfg.compression = job.session.compression
  target : m.target = job.filename.text
  size : m.size = job.size
  blocksize : m.blocksize = job.block_size
  blocks : m.blocks = job.blocks
  crc32 : m.crc32 = job.crc

namespace Recv

variable {cfg : ClientConfig} {m : AcceptedMeta cfg} {r : Recv}

/-- A command without a payload is one header line. -/
theorem read_line
    {c : Command} (hphase : r.phase = .header)
    (hline : ∀ h, (r.onLine m c.line true).1.phase ≠ .payload h) :
    r.read m c = some (r.onLine m c.line true) := by
  simp [read, step, hphase]

theorem read_ayt
    (hphase : r.phase = .header) (t : Nat) :
    r.read m (.ayt t) = some (r, [.send (.here (dec t) r.expected)]) := by
  have hwords : split (Command.ayt t).line = (Command.ayt t).words := Command.split_line trivial
  have hline : r.onLine m (Command.ayt t).line true =
      (r, [.send (.here (dec t) r.expected)]) := by
    rw [onLine, hwords]
    simp [Command.words]
  rw [read_line hphase (by rw [hline, hphase]; simp), hline]

theorem read_rst
    (hphase : r.phase = .header) (t : Nat) :
    r.read m (.rst t) =
      some (r.restart,
        [.truncate, .rmb (record m "RESET" r.restart), .send (.rstAck (dec t))]) := by
  have hwords : split (Command.rst t).line = (Command.rst t).words := Command.split_line trivial
  have hline : r.onLine m (Command.rst t).line true =
      (r.restart, [.truncate, .rmb (record m "RESET" r.restart), .send (.rstAck (dec t))]) := by
    rw [onLine, hwords]
    simp [Command.words]
  rw [read_line hphase (by rw [hline, restart, hphase]; simp), hline]

theorem onLine_barrier
    (hflow : cfg.flow = true) (t : Nat) :
    r.onLine m (Command.barrier t).line true = (r, [.send (.resume (dec t) r.expected)]) := by
  have hwords : split (Command.barrier t).line = (Command.barrier t).words :=
    Command.split_line trivial
  rw [onLine, hwords]
  simp [Command.words, hflow]

theorem read_barrier
    (hphase : r.phase = .header) (hflow : cfg.flow = true) (t : Nat) :
    r.read m (.barrier t) = some (r, [.send (.resume (dec t) r.expected)]) := by
  have hline : r.onLine m (Command.barrier t).line true =
      (r, [.send (.resume (dec t) r.expected)]) := onLine_barrier hflow t
  rw [read_line hphase (by rw [hline, hphase]; simp), hline]

theorem read_err
    (hphase : r.phase = .header) {report : Line} (hreport : IsWord report) :
    ∃ exc, exc.message = "ERR line" ∧
      r.read m (.err report) = some (r.raise exc, []) := by
  have hwords : split (Command.err report).line = (Command.err report).words :=
    Command.split_line hreport
  have hline : (r.onLine m (Command.err report).line true) =
      (r.raise { cls := .pcutp, message := "ERR line", code := report }, []) := by
    rw [onLine, hwords]
    simp [Command.words]
  exact ⟨_, rfl, by rw [read_line hphase (by rw [hline]; simp [raise]), hline]⟩

/-- The first words that `_receive` asks for before it takes a line for a data header. -/
def controlWords : List Line :=
  ["ERR".toList, "AYT?".toList, "RST".toList, "DONE".toList, "BARRIER".toList]

theorem onLine_of_other
    {header : Line} {closes : Bool} (hclose : header ≠ "CLOSE".toList)
    (hfirst : word (split header) 0 ∉ controlWords) :
    r.onLine m header closes = r.onData m (split header) := by
  simp only [controlWords, List.mem_cons, List.not_mem_nil, or_false, not_or] at hfirst
  obtain ⟨herr, hayt, hrst, hdone, hbarrier⟩ := hfirst
  have hone : ∀ w : Line, word (split header) 0 ≠ w → (split header).take 1 ≠ [w] := by
    intro w hne heq
    refine hne ?_
    have hword := congrArg (fun l => word l 0) heq
    simpa [word] using hword
  have htwo : (split header).take 2 ≠ ["RST".toList, "0".toList] := by
    intro heq
    refine hrst ?_
    have hword := congrArg (fun l => word l 0) heq
    simpa [word] using hword
  unfold onLine
  rw [if_neg (hone _ herr), if_neg (fun h => hayt h.2.1), if_neg (fun h => htwo h.2.1),
    if_neg (hone _ hdone), if_neg (fun h => hbarrier h.2.2), if_neg hclose]

/-- Lines that have no place in the data phase. -/
theorem read_stray
    {c : Command} (hphase : r.phase = .header) (hc : c.Printable)
    (hstray : (∃ f size bs n crc, c = .fileMeta f size bs n crc) ∨ c = .fetching ∨
      ∃ bit, c = .rmbAck bit) :
    r.read m c = some (r.raise (ProtocolError "expected DATA"), []) := by
  have hwords := Command.split_line hc
  have hdata : r.onData m c.words = (r.raise (ProtocolError "expected DATA"), []) := by
    rcases hstray with ⟨f, size, bs, n, crc, rfl⟩ | rfl | ⟨bit, rfl⟩ <;>
      simp [onData, Command.words]
  have hline : r.onLine m c.line true = (r.raise (ProtocolError "expected DATA"), []) := by
    rw [onLine_of_other (Command.line_ne_close hc), hwords, hdata]
    rw [hwords]
    rcases hstray with ⟨f, size, bs, n, crc, rfl⟩ | rfl | ⟨bit, rfl⟩
    · exact (by decide : "META".toList ∉ controlWords)
    · exact (by decide : "FETCHING".toList ∉ controlWords)
    · exact (by decide : "RMB-ACK".toList ∉ controlWords)
  rw [read_line hphase (by rw [hline]; simp [raise]), hline]

/-- DONE, for a receiver that counts and one that lacks blocks. -/
theorem onLine_done
    {crc : Line} (hcrc : IsWord crc) :
    r.onLine m (Command.done crc).line true =
      if r.expected ≠ m.blocks then
        (r.raise (ProtocolError "DONE before all blocks arrived"), [])
      else if to_hex r.running ≠ upper crc ∨ to_hex r.running ≠ m.crc32 ∨
          r.received ≠ m.size then
        ({ r with phase := .returned false }, [.send (.failCrc (to_hex r.running))])
      else
        ({ r with phase := .commit }, [.send (.ok (to_hex r.running))]) := by
  have hwords : split (Command.done crc).line = (Command.done crc).words :=
    Command.split_line hcrc
  rw [onLine, hwords]
  simp [Command.words, finish]

/-- DONE is no header of a frame. -/
theorem onLine_done_phase
    {crc : Line} (hcrc : IsWord crc) (h : DataHeader) :
    (r.onLine m (Command.done crc).line true).1.phase ≠ .payload h := by
  rw [onLine_done hcrc]
  split_ifs <;> simp [raise]

theorem read_done
    {crc : Line} (hphase : r.phase = .header) (hcrc : IsWord crc) :
    r.read m (.done crc) = some
      (if r.expected ≠ m.blocks then
        (r.raise (ProtocolError "DONE before all blocks arrived"), [])
      else if to_hex r.running ≠ upper crc ∨ to_hex r.running ≠ m.crc32 ∨
          r.received ≠ m.size then
        ({ r with phase := .returned false }, [.send (.failCrc (to_hex r.running))])
      else
        ({ r with phase := .commit }, [.send (.ok (to_hex r.running))])) := by
  rw [read_line hphase (onLine_done_phase hcrc), onLine_done hcrc]

section Frame

variable {job : Job}

/-- What the receiver does with a frame of block `seq`. -/
inductive FrameKind (m : AcceptedMeta cfg) (job : Job) (r : Recv) (seq : Nat) (c : Command) :
    Recv → List Effect → Prop
  | nak (why : Line) (hwhy : IsWord why) (hdamaged : ¬ c.Intact) :
      FrameKind m job r seq c r [.send (.nak r.expected why)]
  | old (hseq : seq < r.expected) :
      FrameKind m job r seq c r
        [.send (.ack (if cfg.flow = true then r.expected - 1 else seq))]
  | gap (hseq : r.expected < seq) :
      FrameKind m job r seq c (r.onGap seq).1 (r.onGap seq).2
  | store (hseq : seq = r.expected) :
      FrameKind m job r seq c (r.onBlock m seq (job.chunk seq)).1
        (r.onBlock m seq (job.chunk seq)).2

theorem onDecoded_damaged
    {seq : Nat} {c : Command} {h : DataHeader} {payload : Bytes} {length : Nat}
    (hwant : crc32_hex payload ≠ h.want) (hdamaged : ¬ c.Intact) :
    FrameKind m job r seq c (r.onDecoded m h payload length none).1
      (r.onDecoded m h payload length none).2 := by
  rw [onDecoded.eq_def, if_pos hwant]
  exact .nak _ (isWord_of_check (by decide)) hdamaged

theorem onDecoded_frame
    {seq : Nat} {c : Command} {h : DataHeader}
    (hm : m.Matches job) (hreceived : r.received = min (r.expected * m.blocksize) m.size)
    (hseq : h.seq = seq) (hwant : h.want = crc32_hex (job.chunk seq)) :
    FrameKind m job r seq c
      (r.onDecoded m h (job.chunk seq) (job.chunk seq).length none).1
      (r.onDecoded m h (job.chunk seq) (job.chunk seq).length none).2 := by
  rw [onDecoded, if_neg (by rw [hwant]; simp), hseq]
  split
  · rename_i hlt
    exact .old hlt
  · split
    · exact .gap (by omega)
    · rename_i hge hne
      have heq : seq = r.expected := Decidable.not_not.mp hne
      have hlen : (job.chunk seq).length = min m.blocksize (m.size - r.received) := by
        rw [job.length_chunk, hm.blocksize, hm.size, hreceived, hm.blocksize, hm.size, heq]
        omega
      rw [if_neg (not_not.mpr hlen)]
      exact .store heq

theorem onLine_data
    {seq : Nat} {payload : Bytes}
    (hm : m.Matches job) (hseq : seq < job.blocks) :
    r.onLine m (Command.data seq (job.chunk seq).length (crc32_hex (job.chunk seq)) payload).line
        true =
      ({ r with
          phase := .payload
            { seq
              length := (job.chunk seq).length
              raw_length := (job.chunk seq).length
              want := crc32_hex (job.chunk seq)
              packed := false } }, []) := by
  have hprintable : (Command.data seq (job.chunk seq).length (crc32_hex (job.chunk seq))
      payload).Printable :=
    isWord_crc32_hex _
  have hwords := Command.split_line hprintable
  have hlen := job.length_chunk_le seq
  rw [onLine_of_other (Command.line_ne_close hprintable), hwords]
  · simp [Command.words, onData, hm.blocks, hm.blocksize, hseq, hlen]
  · rw [hwords]
    exact (by decide : "DATA".toList ∉ controlWords)

theorem onLine_zdata
    {seq : Nat} {payload : Bytes}
    (hm : m.Matches job) (hcompression : job.session.compression = true)
    (hseq : seq < job.blocks) (hle : payload.length ≤ (job.chunk seq).length) :
    r.onLine m (Command.zdata seq payload.length (job.chunk seq).length
        (crc32_hex (job.chunk seq)) payload).line true =
      ({ r with
          phase := .payload
            { seq
              length := payload.length
              raw_length := (job.chunk seq).length
              want := crc32_hex (job.chunk seq)
              packed := true } }, []) := by
  have hprintable : (Command.zdata seq payload.length (job.chunk seq).length
      (crc32_hex (job.chunk seq)) payload).Printable :=
    isWord_crc32_hex _
  have hwords := Command.split_line hprintable
  have hlen := job.length_chunk_le seq
  have hcfg : cfg.compression = true := hm.compression.trans hcompression
  rw [onLine_of_other (Command.line_ne_close hprintable), hwords]
  · simp [Command.words, onData, hm.blocks, hm.blocksize, hseq, hlen, hcfg, hle.trans hlen]
  · rw [hwords]
    exact (by decide : "ZDATA".toList ∉ controlWords)

/-- The receiver meets a frame of the transfer. -/
theorem read_frame
    {seq : Nat} {c : Command}
    (hm : m.Matches job) (hphase : r.phase = .header)
    (hreceived : r.received = min (r.expected * m.blocksize) m.size)
    (hc : job.Carries seq c) :
    ∃ r' effects, r.read m c = some (r', effects) ∧ FrameKind m job r seq c r' effects := by
  have hback : { r with phase := .header } = r := by
    rw [← hphase]
  rcases hc.form with ⟨payload, hlen, rfl⟩ | ⟨hcompression, payload, hle, rfl⟩
  · have hread : r.read m
          (.data seq (job.chunk seq).length (crc32_hex (job.chunk seq)) payload) =
        some (r.onDecoded m
          { seq
            length := (job.chunk seq).length
            raw_length := (job.chunk seq).length
            want := crc32_hex (job.chunk seq)
            packed := false } payload (job.chunk seq).length none) := by
      simp [read, step, hphase, onLine_data hm hc.lt_blocks, Command.payload, hlen, onPayload,
        hback]
    refine ⟨_, _, hread, ?_⟩
    by_cases hwant : crc32_hex payload = crc32_hex (job.chunk seq)
    · have hintact : payload = job.chunk seq := by
        rcases hc.intact with hok | hbad
        · cases hok
          rfl
        · exact absurd ⟨payload, rfl, hwant⟩ hbad
      subst hintact
      exact onDecoded_frame hm hreceived rfl rfl
    · refine onDecoded_damaged hwant ?_
      rintro ⟨plain, hplain, hcrc⟩
      cases hplain
      exact hwant hcrc
  · cases hdecode : decompress payload (job.chunk seq).length with
    | error exc =>
        have hread : r.read m (.zdata seq payload.length (job.chunk seq).length
            (crc32_hex (job.chunk seq)) payload) =
              some (r, [.send (.nak r.expected "DECODE".toList)]) := by
          simp only [read, step, hphase, onLine_zdata hm hcompression hc.lt_blocks hle,
            Command.payload, onPayload, hback, hdecode, if_true]
          rfl
        refine ⟨_, _, hread, .nak _ (isWord_of_check (by decide)) ?_⟩
        rintro ⟨plain, hplain, _⟩
        rw [Command.decoded, hdecode] at hplain
        cases hplain
    | ok plain =>
        have hread : r.read m (.zdata seq payload.length (job.chunk seq).length
            (crc32_hex (job.chunk seq)) payload) =
              some (r.onDecoded m
                { seq
                  length := payload.length
                  raw_length := (job.chunk seq).length
                  want := crc32_hex (job.chunk seq)
                  packed := true } plain (job.chunk seq).length none) := by
          simp only [read, step, hphase, onLine_zdata hm hcompression hc.lt_blocks hle,
            Command.payload, onPayload, hback, hdecode, if_true]
          rfl
        refine ⟨_, _, hread, ?_⟩
        by_cases hwant : crc32_hex plain = crc32_hex (job.chunk seq)
        · have hintact : plain = job.chunk seq := by
            rcases hc.intact with hok | hbad
            · rw [Command.decoded, hdecode] at hok
              exact Except.ok.inj hok
            · exact absurd ⟨plain, hdecode, hwant⟩ hbad
          subst hintact
          exact onDecoded_frame hm hreceived rfl rfl
        · refine onDecoded_damaged hwant ?_
          rintro ⟨plain', hplain, hcrc⟩
          rw [Command.decoded, hdecode] at hplain
          cases hplain
          exact hwant hcrc

end Frame

section Turn

variable {job : Job}

/-- What `_receive` does with a command of the transfer. -/
inductive Turn (m : AcceptedMeta cfg) (job : Job) (r : Recv) :
    Command → Recv → List Effect → Prop
  | ayt (t : Nat) : Turn m job r (.ayt t) r [.send (.here (dec t) r.expected)]
  | rst (t : Nat) :
      Turn m job r (.rst t) r.restart
        [.truncate, .rmb (record m "RESET" r.restart), .send (.rstAck (dec t))]
  | barrier (t : Nat) : Turn m job r (.barrier t) r [.send (.resume (dec t) r.expected)]
  | early (hshort : r.expected ≠ m.blocks) :
      Turn m job r (.done job.crc) (r.raise (ProtocolError "DONE before all blocks arrived")) []
  | refused (hblocks : r.expected = m.blocks)
      (hbad : to_hex r.running ≠ m.crc32 ∨ r.received ≠ m.size) :
      Turn m job r (.done job.crc) { r with phase := .returned false }
        [.send (.failCrc (to_hex r.running))]
  | verified (hblocks : r.expected = m.blocks)
      (hgood : to_hex r.running = m.crc32 ∧ r.received = m.size) :
      Turn m job r (.done job.crc) { r with phase := .commit } [.send (.ok (to_hex r.running))]
  | raised (c : Command) (exc : PcutpError) (hframe : c.isFrame = false)
      (hc : c = job.announcement ∨ (∃ bit, c = .rmbAck bit) ∨ ∃ report, c = .err report)
      (hmessage : exc.message ≠ "DONE before all blocks arrived") :
      Turn m job r c (r.raise exc) []
  | frame (seq : Nat) (c : Command) (hc : job.Carries seq c) {r' : Recv} {effects : List Effect}
      (hkind : FrameKind m job r seq c r' effects) :
      Turn m job r c r' effects

/-- Without FLOW a BARRIER is no command. -/
theorem read_barrier_refused
    (hphase : r.phase = .header) (hflow : cfg.flow = false) (t : Nat) :
    r.read m (.barrier t) = some (r.raise (ProtocolError "expected DATA"), []) := by
  have hwords : split (Command.barrier t).line = (Command.barrier t).words :=
    Command.split_line trivial
  have hclose : (Command.barrier t).line ≠ "CLOSE".toList := Command.line_ne_close trivial
  have hline : r.onLine m (Command.barrier t).line true =
      (r.raise (ProtocolError "expected DATA"), []) := by
    rw [onLine, hwords]
    simp only [Command.words, hflow, onData, if_neg hclose]
    simp
  rw [read_line hphase (by rw [hline]; simp [raise]), hline]

/-- Only a receiver that waits for a header reads a command. -/
theorem header_of_read
    {c : Command} {p : Recv × List Effect} (h : r.read m c = some p) :
    r.phase = .header := by
  by_contra hne
  have hnone : r.step m (.line c.line true) = none := by
    rw [step]
    split
    · rename_i heq
      exact absurd heq hne
    · rfl
  rw [read, hnone] at h
  cases h

/-- What `_receive` does with anything that is on the line, when a BARRIER comes with FLOW
only. -/
theorem read_turn_of
    {c : Command} {r' : Recv} {effects : List Effect}
    (hm : m.Matches job) (hbarrier : ∀ t, c = .barrier t → cfg.flow = true)
    (hreceived : r.received = min (r.expected * m.blocksize) m.size)
    (hc : job.InFlight c) (h : r.read m c = some (r', effects)) :
    Turn m job r c r' effects := by
  have hphase := header_of_read h
  rcases hc with rfl | ⟨seq, hc⟩ | hc
  · rw [read_stray hphase job.announcement_printable (Or.inl ⟨_, _, _, _, _, rfl⟩)] at h
    cases h
    exact .raised _ _ rfl (Or.inl rfl) (by decide)
  · obtain ⟨r₁, effects₁, hread, hkind⟩ := read_frame hm hphase hreceived hc
    rw [hread] at h
    cases h
    exact .frame seq c hc hkind
  · cases c with
    | ayt t =>
        rw [read_ayt hphase] at h
        cases h
        exact .ayt t
    | rst t =>
        rw [read_rst hphase] at h
        cases h
        exact .rst t
    | barrier t =>
        rw [read_barrier hphase (hbarrier t rfl)] at h
        cases h
        exact .barrier t
    | rmbAck bit =>
        have hword : (Command.rmbAck bit).Printable := hc
        rw [read_stray hphase hword (Or.inr (Or.inr ⟨bit, rfl⟩))] at h
        cases h
        exact .raised _ _ rfl (Or.inr (Or.inl ⟨bit, rfl⟩)) (by decide)
    | err report =>
        obtain ⟨exc, hmessage, hread⟩ := read_err (m := m) hphase hc
        rw [hread] at h
        cases h
        exact .raised _ exc rfl (Or.inr (Or.inr ⟨report, rfl⟩)) (by rw [hmessage]; decide)
    | done crc =>
        obtain rfl : crc = job.crc := hc
        have hcrc : IsWord job.crc := isWord_crc32_hex _
        have hupper : upper job.crc = m.crc32 := by
          rw [Job.crc, upper_crc32_hex, hm.crc32, Job.crc]
        rw [read_done hphase hcrc, hupper] at h
        split_ifs at h with hshort hbad
        · cases h
          exact .early hshort
        · cases h
          refine .refused (Decidable.not_not.mp hshort) ?_
          rcases hbad with hbad | hbad | hbad
          · exact Or.inl hbad
          · exact Or.inl hbad
          · exact Or.inr hbad
        · cases h
          simp only [not_or, Decidable.not_not] at hbad
          exact .verified (Decidable.not_not.mp hshort) ⟨hbad.1, hbad.2.2⟩
    | _ => cases hc

/-- What `_receive` does with anything that is on the line in a FLOW transfer. -/
theorem read_turn
    {c : Command} {r' : Recv} {effects : List Effect}
    (hm : m.Matches job) (hflow : cfg.flow = true)
    (hreceived : r.received = min (r.expected * m.blocksize) m.size)
    (hc : job.InFlight c) (h : r.read m c = some (r', effects)) :
    r.phase = .header ∧ Turn m job r c r' effects :=
  ⟨header_of_read h, read_turn_of hm (fun _ _ => hflow) hreceived hc h⟩

end Turn

end Recv

end Pcutp
