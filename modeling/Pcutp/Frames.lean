import Pcutp.CompressionRoundTrip
import Pcutp.Flow

/-!
# Blocks and their frames

The blocks of a file put together give the file back, and the frame the sender
builds for a block decodes to it.  `Carries` describes every form in which the
frame of a block can stand on the line: as it was written, or with a payload
that no longer passes its CRC-32.
-/

namespace Pcutp

section Blocks

theorem length_slice_eq (data : Bytes) (start stop : Nat) :
    (slice data start stop).length = min stop data.length - start := by
  simp [slice]

theorem take_append_slice_eq
    (data : Bytes) {start stop : Nat} (h : start ≤ stop) :
    data.take start ++ slice data start stop = data.take stop := by
  have hpre : (data.take stop).take start = data.take start := by
    rw [List.take_take, Nat.min_eq_left h]
  rw [slice, ← hpre, List.take_append_drop]

/-- The blocks cover the file. -/
theorem le_blockCount_mul
    (size : Nat) {blocksize : Nat} (hpos : 1 ≤ blocksize) :
    size ≤ blockCount size blocksize * blocksize := by
  have hceil : (size + blocksize - 1) / blocksize ≤ blockCount size blocksize :=
    Nat.le_max_right _ _
  have hmul := Nat.mul_le_mul_right blocksize hceil
  have hdiv := Nat.div_add_mod (size + blocksize - 1) blocksize
  have hmod := Nat.mod_lt (size + blocksize - 1) hpos
  rw [Nat.mul_comm] at hdiv
  omega

/-- A file has no more blocks than bytes, and one block when it is empty. -/
theorem blockCount_le
    (size : Nat) {blocksize : Nat} (hpos : 1 ≤ blocksize) :
    blockCount size blocksize ≤ max 1 size := by
  refine Nat.max_le.mpr ⟨Nat.le_max_left _ _, ?_⟩
  have hle : (size + blocksize - 1) / blocksize ≤ size := by
    cases size with
    | zero =>
        rw [Nat.div_eq_of_lt (by omega)]
    | succ n =>
        apply Nat.div_le_of_le_mul
        have hsucc : blocksize * (n + 1) = blocksize * n + blocksize := Nat.mul_succ _ _
        have hmul : 1 * n ≤ blocksize * n := Nat.mul_le_mul_right _ hpos
        omega
  exact hle.trans (Nat.le_max_right _ _)

namespace Job

variable (job : Job)

theorem length_chunk (seq : Nat) :
    (job.chunk seq).length = min job.block_size (job.size - seq * job.block_size) := by
  rw [chunk, length_slice_eq, Nat.succ_mul, size]
  omega

theorem length_chunk_le (seq : Nat) :
    (job.chunk seq).length ≤ job.block_size := by
  rw [length_chunk]
  exact Nat.min_le_left _ _

/-- A prefix of whole blocks grows by the next block. -/
theorem take_append_chunk (seq : Nat) :
    job.data.take (seq * job.block_size) ++ job.chunk seq =
      job.data.take ((seq + 1) * job.block_size) :=
  take_append_slice_eq _ (Nat.mul_le_mul_right _ (Nat.le_succ _))

/-- The first `count` blocks, one after the other. -/
def firstBlocks (count : Nat) : Bytes :=
  (List.range count).flatMap job.chunk

theorem take_eq_firstBlocks (count : Nat) :
    job.data.take (count * job.block_size) = job.firstBlocks count := by
  induction count with
  | zero =>
      simp [firstBlocks]
  | succ count ih =>
      rw [← job.take_append_chunk, ih, firstBlocks, firstBlocks, List.range_succ,
        List.flatMap_append, List.flatMap_singleton]

/-- All blocks together are the file. -/
theorem take_blocks :
    job.data.take (job.blocks * job.block_size) = job.data :=
  List.take_of_length_le (le_blockCount_mul _ job.block_size_pos)

theorem block_size_le_max :
    job.block_size ≤ 4096 :=
  job.block_size_le.trans job.session.block_ok.2

end Job

end Blocks

namespace Command

/-- The block a data frame decodes to. -/
def decoded : Command → Except PcutpError Bytes
  | data _ _ _ payload => .ok payload
  | zdata _ _ raw_length _ payload => decompress payload raw_length
  | _ => .ok []

/-- The CRC word of a data frame. -/
def checksum : Command → Line
  | data _ _ crc _ => crc
  | zdata _ _ _ crc _ => crc
  | _ => []

/-- The payload passes the receiver's decoding and its CRC-32. -/
def Intact (c : Command) : Prop :=
  ∃ plain, c.decoded = .ok plain ∧ crc32_hex plain = c.checksum

end Command

namespace Job

variable (job : Job)

/-- The two frames a sender may build for a block. -/
theorem frame_cases (seq : Nat) :
    job.frame seq = job.rawFrame seq ∨
      ∃ packed, job.session.compression = true ∧
        packed.length ≤ (job.chunk seq).length ∧
        decompress packed (job.chunk seq).length = .ok (job.chunk seq) ∧
        job.frame seq =
          .zdata seq packed.length (job.chunk seq).length (crc32_hex (job.chunk seq)) packed := by
  rw [frame]
  split
  · rename_i packed hpacked
    right
    split_ifs at hpacked with huse
    have hlen := job.length_chunk_le seq
    have hmax := job.block_size_le_max
    refine ⟨packed, ?_, worthwhile_length hpacked,
      decompress_worthwhile hpacked (by omega), rfl⟩
    simp only [usesCompression, Bool.and_eq_true] at huse
    exact huse.1
  · exact Or.inl rfl

theorem seq_frame (seq : Nat) :
    (job.frame seq).seq? = some seq := by
  rcases job.frame_cases seq with heq | ⟨packed, _, _, _, heq⟩ <;>
    · rw [heq]
      rfl

theorem isFrame_frame (seq : Nat) :
    (job.frame seq).isFrame = true := by
  rcases job.frame_cases seq with heq | ⟨packed, _, _, _, heq⟩ <;>
    · rw [heq]
      rfl

/-- A frame the sender may write for block `seq`. -/
def IsFrameOf (seq : Nat) (c : Command) : Prop :=
  c = job.rawFrame seq ∨ c = job.frame seq

/-- What a frame of block `seq` looks like on the line, damaged or not. -/
structure Carries (seq : Nat) (c : Command) : Prop where
  lt_blocks : seq < job.blocks
  form :
    (∃ payload, payload.length = (job.chunk seq).length ∧
        c = .data seq (job.chunk seq).length (crc32_hex (job.chunk seq)) payload) ∨
      (job.session.compression = true ∧
        ∃ payload, payload.length ≤ (job.chunk seq).length ∧
          c = .zdata seq payload.length (job.chunk seq).length (crc32_hex (job.chunk seq))
            payload)
  intact : c.decoded = .ok (job.chunk seq) ∨ ¬ c.Intact

variable {job}

theorem IsFrameOf.carries
    {seq : Nat} {c : Command}
    (h : job.IsFrameOf seq c) (hseq : seq < job.blocks) :
    job.Carries seq c := by
  have hraw : job.Carries seq (job.rawFrame seq) :=
    { lt_blocks := hseq
      form := Or.inl ⟨_, rfl, rfl⟩
      intact := Or.inl rfl }
  rcases h with rfl | rfl
  · exact hraw
  · rcases job.frame_cases seq with heq | ⟨packed, hcompression, hle, hdecode, heq⟩
    · rw [heq]
      exact hraw
    · rw [heq]
      exact
        { lt_blocks := hseq
          form := Or.inr ⟨hcompression, packed, hle, rfl⟩
          intact := Or.inl hdecode }

/-- A frame of the sender decodes to its block. -/
theorem IsFrameOf.decoded
    {seq : Nat} {c : Command} (h : job.IsFrameOf seq c) :
    c.decoded = .ok (job.chunk seq) := by
  rcases h with rfl | rfl
  · rfl
  · rcases job.frame_cases seq with heq | ⟨packed, _, _, hdecode, heq⟩
    · rw [heq]
      rfl
    · rw [heq]
      exact hdecode

/-- A frame of the sender passes the checks of the receiver. -/
theorem IsFrameOf.intact
    {seq : Nat} {c : Command} (h : job.IsFrameOf seq c) :
    c.Intact := by
  have hraw : (job.rawFrame seq).Intact := ⟨_, rfl, rfl⟩
  rcases h with rfl | rfl
  · exact hraw
  · rcases job.frame_cases seq with heq | ⟨packed, _, _, hdecode, heq⟩
    · rw [heq]
      exact hraw
    · rw [heq]
      exact ⟨_, hdecode, rfl⟩

/-- A damaged frame still carries its block number. -/
theorem Carries.damage
    {seq : Nat} {c : Command} {bytes : Bytes}
    (h : job.Carries seq c) (hlen : bytes.length = c.payload.length)
    (hdamage : ¬ (c.withPayload bytes).Intact) :
    job.Carries seq (c.withPayload bytes) := by
  refine ⟨h.lt_blocks, ?_, Or.inr hdamage⟩
  rcases h.form with ⟨payload, hl, rfl⟩ | ⟨hcompression, payload, hle, rfl⟩
  · exact Or.inl ⟨bytes, hlen.trans hl, rfl⟩
  · refine Or.inr ⟨hcompression, bytes, hlen.trans_le hle, ?_⟩
    rw [Command.withPayload, hlen]
    rfl

theorem Carries.isFrame
    {seq : Nat} {c : Command} (h : job.Carries seq c) :
    c.isFrame = true ∧ c.seq? = some seq := by
  rcases h.form with ⟨_, _, rfl⟩ | ⟨_, _, _, rfl⟩ <;> exact ⟨rfl, rfl⟩

theorem Carries.printable
    {seq : Nat} {c : Command} (h : job.Carries seq c) :
    c.Printable := by
  rcases h.form with ⟨_, _, rfl⟩ | ⟨_, _, _, rfl⟩ <;> exact isWord_crc32_hex _

end Job

section InFlight

/-- The META line of a transfer. -/
def Job.announcement (job : Job) : Command :=
  .fileMeta job.filename.text job.size job.block_size job.blocks job.crc

/-- The lines without payload that the sender writes after META. -/
def Job.Control (job : Job) : Command → Prop
  | .ayt _ => True
  | .rst _ => True
  | .barrier _ => True
  | .done crc => crc = job.crc
  | .err report => IsWord report
  | .rmbAck bit => IsWord bit
  | _ => False

/-- What can be on the line to the receiver. -/
def Job.InFlight (job : Job) (c : Command) : Prop :=
  c = job.announcement ∨ (∃ seq, job.Carries seq c) ∨ job.Control c

theorem Job.announcement_printable (job : Job) :
    job.announcement.Printable :=
  ⟨job.filename.isWord, isWord_crc32_hex _⟩

theorem Job.Control.isFrame
    {job : Job} {c : Command} (h : job.Control c) :
    c.isFrame = false := by
  cases c <;> first | rfl | cases h

/-- A frame on the line carries a block. -/
theorem Job.InFlight.carries
    {job : Job} {c : Command} (h : job.InFlight c) (hframe : c.isFrame = true) :
    ∃ seq, job.Carries seq c := by
  rcases h with rfl | h | h
  · cases hframe
  · exact h
  · rw [h.isFrame] at hframe
    cases hframe

theorem Job.InFlight.damage
    {job : Job} {c : Command} {bytes : Bytes}
    (h : job.InFlight c) (hframe : c.isFrame = true) (hlen : bytes.length = c.payload.length)
    (hdamage : ¬ (c.withPayload bytes).Intact) :
    job.InFlight (c.withPayload bytes) := by
  obtain ⟨seq, hc⟩ := h.carries hframe
  exact Or.inr (Or.inl ⟨seq, hc.damage hlen hdamage⟩)

end InFlight

section WireLength

theorem length_dec_le
    {n k : Nat} (hk : 0 < k) (h : n < 10 ^ k) :
    (dec n).length ≤ k :=
  (Nat.length_toDigits_le_iff (by decide) hk).mpr h

variable {job : Job}

/-- The header, its LF and the payload of a frame fit in a block plus the frame overhead. -/
theorem Job.Carries.wireLength_le
    {seq : Nat} {c : Command}
    (h : job.Carries seq c) (hsize : job.size ≤ Const.MAX_FILE_SIZE) :
    c.wireLength ≤ job.block_size + Const.FRAME_OVERHEAD := by
  have hblocks := blockCount_le job.size job.block_size_pos
  have hseq : (dec seq).length ≤ 8 := by
    apply length_dec_le (by decide)
    have := h.lt_blocks
    rw [Job.blocks] at this
    simp only [Const.MAX_FILE_SIZE] at hsize
    omega
  have hchunk := job.length_chunk_le seq
  have hmax := job.block_size_le_max
  have hlength : ∀ n ≤ (job.chunk seq).length, (dec n).length ≤ 4 := by
    intro n hn
    apply length_dec_le (by decide)
    omega
  have hcrc : (crc32_hex (job.chunk seq)).length = 8 := length_hex8 _
  have hraw := hlength _ (Nat.le_refl _)
  rcases h.form with ⟨payload, hl, rfl⟩ | ⟨_, payload, hle, rfl⟩
  · simp [Command.wireLength, Command.line, Command.words, Command.payload, join,
      Words.unwords, hcrc, Const.FRAME_OVERHEAD]
    omega
  · have hpacked := hlength _ hle
    simp [Command.wireLength, Command.line, Command.words, Command.payload, join,
      Words.unwords, hcrc, Const.FRAME_OVERHEAD]
    omega

end WireLength

end Pcutp
