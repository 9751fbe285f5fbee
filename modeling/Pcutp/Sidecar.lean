import Pcutp.ClientInvariant

/-!
# The sidecar and the partial file

`_write_rmb` records how far a transfer got; the partial file is truncated by a
sender's `RST 0` and by the receiver's own drop limit.  The first writes a fresh
record after it truncates, the second does not, so the sidecar may go on
describing bytes that are gone.

`restart_cases` says when a step truncates and what it records.  A record that
still says `next_seq = 0` describes any file, which is what makes a restart
harmless, and the only thing that does.
-/

namespace Pcutp

/-- The record of a file, when it holds one. -/
def Content.rmb? : Content → Option Record
  | bytes _ => none
  | rmb record => some record

/-- The record in `<name>.PCUTP`. -/
def sidecar (filename : Line) (dir : Directory) : Option Record :=
  (dir (checkpointName filename)).bind Content.rmb?

/-- What a record promises of the variable `expected` and of the bytes in `.PART`. -/
structure Record.Describes (record : Record) (expected : Nat) (bytes : Bytes) : Prop where
  next_seq : record.next_seq ≤ expected
  received : record.received ≤ bytes.length
  running_crc32 : record.running_crc32 = to_hex (Pcutp.crc32 (bytes.take record.received) 0)

section Files

variable {f : Line} {dir : Directory}

theorem sidecar_rmb (record : Record) :
    sidecar f (Effect.apply f dir (.rmb record)) = some record := by
  simp [sidecar, Effect.apply, Content.rmb?]

theorem sidecar_unlink :
    sidecar f (Effect.apply f dir .unlink) = none := by
  simp [sidecar, Effect.apply]

/-- The other effects do not touch the sidecar. -/
theorem sidecar_apply
    {e : Effect} (hrmb : ∀ record, e ≠ .rmb record) (hunlink : e ≠ .unlink) :
    sidecar f (e.apply f dir) = sidecar f dir := by
  have hpart := (partName_ne_checkpointName f).symm
  cases e with
  | send => rfl
  | openPart => rw [sidecar, Effect.apply, Function.update_of_ne hpart, sidecar]
  | write => rw [sidecar, Effect.apply, Function.update_of_ne hpart, sidecar]
  | truncate => rw [sidecar, Effect.apply, Function.update_of_ne hpart, sidecar]
  | rmb record => exact absurd rfl (hrmb record)
  | replace =>
      rw [sidecar, Effect.apply, Function.update_of_ne hpart,
        Function.update_of_ne (checkpointName_ne f), sidecar]
  | unlink => exact absurd rfl hunlink

end Files

theorem Record.Describes.mono
    {record : Record} {expected expected' : Nat} {bytes : Bytes}
    (h : record.Describes expected bytes) (hle : expected ≤ expected') (more : Bytes) :
    record.Describes expected' (bytes ++ more) where
  next_seq := h.next_seq.trans hle
  received := by
    rw [List.length_append]
    exact h.received.trans (Nat.le_add_right _ _)
  running_crc32 := by
    rw [List.take_append_of_le_length h.received]
    exact h.running_crc32

namespace Recv

variable {cfg : ClientConfig} {m : AcceptedMeta cfg}

/-- The record in the sidecar after some effects, if there is one, is true. -/
def SidecarTrue (m : AcceptedMeta cfg) (dir : Directory) (expected : Nat)
    (trace : List Effect) : Prop :=
  ∀ record, sidecar m.target (applyEffects m.target dir trace) = some record →
    record.Describes expected (writtenBytes (sinceRestart trace))

/-- No block is recorded. -/
def RecordedZero (m : AcceptedMeta cfg) (dir : Directory) (trace : List Effect) : Prop :=
  ∀ record, sidecar m.target (applyEffects m.target dir trace) = some record →
    record.next_seq = 0

/-- A restart that the sender orders: `RST 0 <token>` where a header is read. -/
def HonoursReset (r : Recv) (ev : RecvEvent) : Prop :=
  r.phase = .header ∧ ∃ header closes, ev = .line header closes ∧
    (split header).length = 3 ∧ (split header).take 2 = ["RST".toList, "0".toList] ∧
    isdecimal (word (split header) 2) = true

/-- The payload of a frame, unpacked when its header says so. -/
def unpacked (h : DataHeader) (bytes : Bytes) : Option Bytes :=
  if h.packed then (decompress bytes h.raw_length).toOption else some bytes

/-- A restart of the receiver's own: an undamaged frame ahead of `expected` is one drop
too many, and a restart is left. -/
def DropsOut (r : Recv) (ev : RecvEvent) : Prop :=
  ∃ h bytes torn plain, r.phase = .payload h ∧ ev = .payload bytes torn ∧
    bytes.length = h.length ∧ unpacked h bytes = some plain ∧ crc32_hex plain = h.want ∧
    r.expected < h.seq ∧ Const.MAX_DROPS ≤ r.drops + 1 ∧ r.resets + 1 ≤ Const.MAX_RESETS

/-- A moment of a run of `_receive` on `events`: the value of `expected` and the effects
so far.  The first record is written before `.PART` is opened; within a step the variables
are assigned after its first effect. -/
inductive Moment (m : AcceptedMeta cfg) : List RecvEvent → Nat → List Effect → Prop
  | opening (n : Nat) : 2 ≤ n → Moment m [] 0 ((startEffects m).take n)
  | before {events : List RecvEvent} {r r' : Recv} {trace effects : List Effect}
      {ev : RecvEvent} :
      run m events = some (r, trace) → r.step m ev = some (r', effects) →
      Moment m (events ++ [ev]) r.expected (trace ++ effects.take 1)
  | after {events : List RecvEvent} {r r' : Recv} {trace effects : List Effect}
      {ev : RecvEvent} (n : Nat) :
      run m events = some (r, trace) → r.step m ev = some (r', effects) → 1 ≤ n →
      Moment m (events ++ [ev]) r'.expected (trace ++ effects.take n)

section Steps

/-- Effects that are all replies. -/
def Speaks (effects : List Effect) : Prop :=
  ∀ e ∈ effects, ∃ rep, e = .send rep

theorem speaks_nil : Speaks [] :=
  fun _ he => absurd he List.not_mem_nil

theorem speaks_one (rep : Reply) : Speaks [.send rep] :=
  fun _ he => ⟨rep, List.mem_singleton.mp he⟩

/-- What a step that does not restart does to the files. -/
def Keeps (m : AcceptedMeta cfg) (r' : Recv) (effects : List Effect) : Prop :=
  Effect.truncate ∉ effects ∧
    ∀ rec, Effect.rmb rec ∈ effects → ∃ state, rec = record m state r'

theorem Speaks.keeps
    {effects : List Effect} (h : Speaks effects) (r' : Recv) :
    Keeps m r' effects := by
  refine ⟨fun he => ?_, fun rec he => ?_⟩
  · obtain ⟨rep, hrep⟩ := h _ he
    cases hrep
  · obtain ⟨rep, hrep⟩ := h _ he
    cases hrep

theorem finish_speaks
    {r r' : Recv} {parts : List Line} {closes : Bool} {effects : List Effect}
    (h : r.finish m parts closes = (r', effects)) :
    Speaks effects := by
  unfold finish at h
  dsimp only at h
  split_ifs at h <;> cases h
  · exact speaks_nil
  · exact speaks_nil
  · exact speaks_one _
  · exact speaks_one _

theorem onData_speaks
    {r r' : Recv} {parts : List Line} {effects : List Effect}
    (h : r.onData m parts = (r', effects)) :
    Speaks effects := by
  unfold onData at h
  extract_lets packed seq length raw_length want at h
  split_ifs at h <;> cases h
  · exact speaks_nil
  · exact speaks_one _
  · exact speaks_one _
  · exact speaks_nil
  · exact speaks_nil

/-- A header line restarts the file when it is `RST 0 <token>`, and then records it. -/
theorem onLine_restart
    {r r' : Recv} {header : Line} {closes : Bool} {effects : List Effect}
    (hphase : r.phase = .header)
    (h : r.onLine m header closes = (r', effects)) :
    (HonoursReset r (.line header closes) ∧ r' = r.restart ∧
      ∃ rep, effects = [.truncate, .rmb (record m "RESET" r'), .send rep]) ∨
    (¬ HonoursReset r (.line header closes) ∧ Keeps m r' effects) := by
  have hread : ∀ {hdr : Line} {cl : Bool}, HonoursReset r (.line hdr cl) →
      (split hdr).length = 3 ∧ (split hdr).take 2 = ["RST".toList, "0".toList] ∧
        isdecimal (word (split hdr) 2) = true := by
    rintro hdr cl ⟨_, _, _, heq, hparts⟩
    cases heq
    exact hparts
  by_cases hreset : HonoursReset r (.line header closes)
  · obtain ⟨hlength, htake, hdecimal⟩ := hread hreset
    have herr : ¬ (split header).take 1 = ["ERR".toList] := by
      intro herr
      rw [show (split header).take 1 = ((split header).take 2).take 1 by
        rw [List.take_take]; rfl, htake] at herr
      exact absurd herr (by decide)
    refine Or.inl ⟨hreset, ?_⟩
    unfold onLine at h
    dsimp only at h
    rw [if_neg herr, if_neg (by simp [hlength]), if_pos ⟨hlength, htake, hdecimal⟩] at h
    cases h
    exact ⟨rfl, _, rfl⟩
  · refine Or.inr ⟨hreset, ?_⟩
    unfold onLine at h
    dsimp only at h
    split_ifs at h with h₁ h₁' h₂ h₃ h₄ h₅ h₆ h₇ h₈
    · cases h
      exact speaks_nil.keeps _
    · cases h
      exact speaks_nil.keeps _
    · cases h
      exact (speaks_one _).keeps _
    · exact absurd ⟨hphase, header, closes, rfl, h₃⟩ hreset
    · cases h
      exact speaks_nil.keeps _
    · exact (finish_speaks h).keeps _
    · cases h
      exact speaks_nil.keeps _
    · cases h
      exact (speaks_one _).keeps _
    · cases h
      exact (speaks_one _).keeps _
    · exact (onData_speaks h).keeps _

/-- A decoded frame restarts the file when it is one drop too many, and records nothing. -/
theorem onDecoded_restart
    {r r' : Recv} {h : DataHeader} {payload : Bytes} {length : Nat} {torn : Option Bytes}
    {effects : List Effect}
    (hstep : r.onDecoded m h payload length torn = (r', effects)) :
    ((crc32_hex payload = h.want ∧ r.expected < h.seq ∧ Const.MAX_DROPS ≤ r.drops + 1 ∧
        r.resets + 1 ≤ Const.MAX_RESETS) ∧
      r'.expected = 0 ∧ effects = [.truncate, .send .rst]) ∨
    (¬ (crc32_hex payload = h.want ∧ r.expected < h.seq ∧ Const.MAX_DROPS ≤ r.drops + 1 ∧
        r.resets + 1 ≤ Const.MAX_RESETS) ∧ Keeps m r' effects) := by
  unfold onDecoded at hstep
  split_ifs at hstep with h₁ h₂ h₂' h₃ h₄
  · cases hstep
    exact Or.inr ⟨fun hout => h₁ hout.1, (speaks_one _).keeps _⟩
  · cases hstep
    exact Or.inr ⟨fun hout => by omega, (speaks_one _).keeps _⟩
  · cases hstep
    exact Or.inr ⟨fun hout => by omega, (speaks_one _).keeps _⟩
  · -- A gap.
    rw [ne_eq, not_not] at h₁
    unfold onGap at hstep
    dsimp only at hstep
    split_ifs at hstep with hdrops hresets
    · cases hstep
      exact Or.inr ⟨fun hout => by omega, (speaks_one _).keeps _⟩
    · cases hstep
      exact Or.inl ⟨⟨h₁, by omega, hdrops, by omega⟩, rfl, rfl⟩
    · cases hstep
      exact Or.inr ⟨fun hout => hdrops hout.2.2.1, (speaks_one _).keeps _⟩
  · cases hstep
    exact Or.inr ⟨fun hout => by omega, (speaks_one _).keeps _⟩
  · refine Or.inr ⟨fun hout => by omega, ?_⟩
    cases torn with
    | some bytes =>
        cases hstep
        refine ⟨by simp, fun rec hrec => ?_⟩
        simp at hrec
    | none =>
        cases hstep
        refine ⟨fun he => ?_, fun rec hrec => ?_⟩
        · simp only [List.mem_append, List.mem_cons, reduceCtorEq, List.not_mem_nil, or_false,
            false_or] at he
          split_ifs at he
          · cases List.mem_singleton.mp he
          · exact absurd he List.not_mem_nil
        · simp only [List.mem_append, List.mem_cons, reduceCtorEq, List.not_mem_nil, or_false,
            false_or] at hrec
          split_ifs at hrec
          · cases List.mem_singleton.mp hrec
            exact ⟨"ACTIVE", rfl⟩
          · exact absurd hrec List.not_mem_nil

/-- When a step of `_receive` restarts the file, and what it then records. -/
theorem restart_cases
    {r r' : Recv} {ev : RecvEvent} {effects : List Effect}
    (h : r.step m ev = some (r', effects)) :
    (HonoursReset r ev ∧ r' = r.restart ∧
      ∃ rep, effects = [.truncate, .rmb (record m "RESET" r'), .send rep]) ∨
    (DropsOut r ev ∧ r'.expected = 0 ∧ effects = [.truncate, .send .rst]) ∨
    ((¬ HonoursReset r ev ∧ ¬ DropsOut r ev) ∧ Keeps m r' effects) := by
  cases ev with
  | line header closes =>
      simp only [step] at h
      split at h
      · rename_i hphase
        have hnot : ¬ DropsOut r (.line header closes) := by
          rintro ⟨_, _, _, _, _, heq, _⟩
          cases heq
        rcases onLine_restart hphase (Option.some.inj h) with hreset | ⟨hreset, hkeeps⟩
        · exact Or.inl hreset
        · exact Or.inr (Or.inr ⟨⟨hreset, hnot⟩, hkeeps⟩)
      · cases h
  | timeout =>
      simp only [step] at h
      split at h
      · cases h
        refine Or.inr (Or.inr ⟨⟨?_, ?_⟩, speaks_nil.keeps _⟩)
        · rintro ⟨_, _, _, heq, _⟩
          cases heq
        · rintro ⟨_, _, _, _, _, heq, _⟩
          cases heq
      · cases h
  | payload bytes torn =>
      simp only [step] at h
      split at h
      · rename_i hdr hphase
        split_ifs at h with hlength
        have hnot : ¬ HonoursReset r (.payload bytes torn) := by
          rintro ⟨_, _, _, heq, _⟩
          cases heq
        -- The drop test on the decoded payload is `DropsOut`.
        have hout : ∀ plain, unpacked hdr bytes = some plain →
            (DropsOut r (.payload bytes torn) ↔
              crc32_hex plain = hdr.want ∧ r.expected < hdr.seq ∧
                Const.MAX_DROPS ≤ r.drops + 1 ∧ r.resets + 1 ≤ Const.MAX_RESETS) := by
          intro plain hplain
          constructor
          · rintro ⟨hdr', bytes', torn', plain', hphase', heq, _, hplain', hrest⟩
            cases heq
            rw [hphase] at hphase'
            cases hphase'
            rw [hplain] at hplain'
            cases hplain'
            exact hrest
          · intro hrest
            exact ⟨hdr, bytes, torn, plain, hphase, rfl, hlength, hplain, hrest⟩
        have hh := Option.some.inj h
        unfold onPayload at hh
        dsimp only at hh
        have hdecoded : ∀ plain length, unpacked hdr bytes = some plain →
            ({ r with phase := .header } : Recv).onDecoded m hdr plain length torn =
              (r', effects) →
            (DropsOut r (.payload bytes torn) ∧ r'.expected = 0 ∧
              effects = [.truncate, .send .rst]) ∨
            (¬ DropsOut r (.payload bytes torn) ∧ Keeps m r' effects) := by
          intro plain length hplain hstep
          rw [hout plain hplain]
          have hcases := onDecoded_restart hstep
          exact hcases
        suffices hcases : (DropsOut r (.payload bytes torn) ∧ r'.expected = 0 ∧
              effects = [.truncate, .send .rst]) ∨
            (¬ DropsOut r (.payload bytes torn) ∧ Keeps m r' effects) by
          rcases hcases with hdrop | ⟨hdrop, hkeeps⟩
          · exact Or.inr (Or.inl hdrop)
          · exact Or.inr (Or.inr ⟨⟨hnot, hdrop⟩, hkeeps⟩)
        split_ifs at hh with hpacked
        · cases hdec : decompress bytes hdr.raw_length with
          | error exc =>
              rw [hdec] at hh
              cases hh
              refine Or.inr ⟨?_, (speaks_one _).keeps _⟩
              rintro ⟨hdr', bytes', torn', plain', hphase', heq, _, hplain', _⟩
              cases heq
              rw [hphase] at hphase'
              cases hphase'
              rw [unpacked, if_pos hpacked, hdec] at hplain'
              cases hplain'
          | ok plain =>
              rw [hdec] at hh
              exact hdecoded plain _ (by rw [unpacked, if_pos hpacked, hdec]; rfl) hh
        · exact hdecoded bytes _ (by rw [unpacked, if_neg hpacked]) hh
      · cases h
  | rawTimeout =>
      simp only [step] at h
      split at h
      · cases h
        refine Or.inr (Or.inr ⟨⟨?_, ?_⟩, (speaks_one _).keeps _⟩)
        · rintro ⟨_, _, _, heq, _⟩
          cases heq
        · rintro ⟨_, _, _, _, _, heq, _⟩
          cases heq
      · cases h
  | commit done =>
      simp only [step] at h
      split at h
      · rename_i hphase
        have hnot : ¬ HonoursReset r (.commit done) ∧ ¬ DropsOut r (.commit done) := by
          constructor
          · rintro ⟨_, _, _, heq, _⟩
            cases heq
          · rintro ⟨_, _, _, _, _, heq, _⟩
            cases heq
        split_ifs at h
        · cases h
          exact Or.inr (Or.inr ⟨hnot, by simp [Keeps]⟩)
        · cases h
          exact Or.inr (Or.inr ⟨hnot, speaks_nil.keeps _⟩)
      · cases h

end Steps

section Records

/-- A record as `_write_rmb` leaves it: true of the file, and counting whole blocks. -/
structure Recorded (m : AcceptedMeta cfg) (rec : Record) (expected : Nat)
    (bytes : Bytes) : Prop where
  describes : rec.Describes expected bytes
  whole : rec.received = min (rec.next_seq * m.blocksize) m.size

/-- The record in the sidecar after some effects is as `_write_rmb` left it. -/
def Sound (m : AcceptedMeta cfg) (dir : Directory) (expected : Nat)
    (trace : List Effect) : Prop :=
  ∀ rec, sidecar m.target (applyEffects m.target dir trace) = some rec →
    Recorded m rec expected (writtenBytes (sinceRestart trace))

variable {dir : Directory} {expected expected' : Nat} {trace : List Effect}

theorem Sound.sidecarTrue
    (h : Sound m dir expected trace) :
    SidecarTrue m dir expected trace :=
  fun rec hrec => (h rec hrec).describes

theorem recorded_now
    {r : Recv} {bytes : Bytes} (state : String)
    (hreceived : r.received = min (r.expected * m.blocksize) m.size)
    (hlength : bytes.length = r.received) (hrunning : r.running = Pcutp.crc32 bytes 0) :
    Recorded m (record m state r) r.expected bytes where
  describes :=
    { next_seq := Nat.le_refl _
      received := by rw [hlength]; exact Nat.le_refl _
      running_crc32 := by
        have htake : bytes.take r.received = bytes := by
          rw [← hlength, List.take_length]
        simp only [record, htake, hrunning] }
  whole := hreceived

/-- A record of no block is true of an empty file. -/
theorem Recorded.zero
    {rec : Record} {bytes : Bytes}
    (h : Recorded m rec expected bytes) (hzero : rec.next_seq = 0) (expected' : Nat) :
    Recorded m rec expected' [] := by
  have hreceived : rec.received = 0 := by
    rw [h.whole, hzero, Nat.zero_mul, Nat.zero_min]
  refine ⟨⟨?_, ?_, ?_⟩, h.whole⟩
  · rw [hzero]
    exact Nat.zero_le _
  · rw [hreceived]
    exact Nat.zero_le _
  · have := h.describes.running_crc32
    rw [hreceived, List.take_zero] at this
    rw [this, List.take_nil]

theorem sound_rmb
    {rec : Record}
    (h : Recorded m rec expected (writtenBytes (sinceRestart trace))) :
    Sound m dir expected (trace ++ [.rmb rec]) := by
  intro rec' hrec
  rw [applyEffects_concat, sidecar_rmb] at hrec
  cases hrec
  rw [sinceRestart_concat, if_neg (by simp), writtenBytes_append]
  simpa [writtenBytes] using h

theorem sound_truncate
    (h : Sound m dir expected trace) (hzero : RecordedZero m dir trace) (expected' : Nat) :
    Sound m dir expected' (trace ++ [.truncate]) := by
  intro rec hrec
  rw [applyEffects_concat, sidecar_apply (by simp) (by simp)] at hrec
  rw [sinceRestart_concat, if_pos rfl]
  exact (h rec hrec).zero (hzero rec hrec) expected'

/-- An effect that does not truncate, and writes no record but a true one. -/
theorem sound_concat
    {e : Effect}
    (h : Sound m dir expected trace) (hle : expected ≤ expected') (htruncate : e ≠ .truncate)
    (hrmb : ∀ rec, e = .rmb rec →
      Recorded m rec expected' (writtenBytes (sinceRestart trace))) :
    Sound m dir expected' (trace ++ [e]) := by
  by_cases he : ∃ rec, e = .rmb rec
  · obtain ⟨rec, rfl⟩ := he
    exact sound_rmb (hrmb rec rfl)
  · intro rec hrec
    rw [applyEffects_concat] at hrec
    by_cases hunlink : e = .unlink
    · rw [hunlink, sidecar_unlink] at hrec
      cases hrec
    · rw [sidecar_apply (fun rec' heq => he ⟨rec', heq⟩) hunlink] at hrec
      obtain ⟨hdescribes, hwhole⟩ := h rec hrec
      rw [sinceRestart_concat, if_neg htruncate, writtenBytes_append]
      exact ⟨hdescribes.mono hle _, hwhole⟩

theorem sound_append
    {effects : List Effect}
    (h : Sound m dir expected trace) (hle : expected ≤ expected')
    (htruncate : Effect.truncate ∉ effects)
    (hrmb : ∀ before rec, before ++ [Effect.rmb rec] <+: effects →
      Recorded m rec expected' (writtenBytes (sinceRestart (trace ++ before)))) :
    Sound m dir expected' (trace ++ effects) := by
  induction effects using List.reverseRecOn with
  | nil =>
      intro rec hrec
      rw [List.append_nil] at hrec ⊢
      obtain ⟨hdescribes, hwhole⟩ := h rec hrec
      refine ⟨?_, hwhole⟩
      have := hdescribes.mono hle []
      rwa [List.append_nil] at this
  | append_singleton effects e ih =>
      rw [List.mem_append, List.mem_singleton, not_or] at htruncate
      rw [← List.append_assoc]
      refine sound_concat (ih htruncate.1 ?_) (Nat.le_refl _) (Ne.symm htruncate.2) ?_
      · intro before rec hfront
        exact hrmb before rec (hfront.trans (List.prefix_append _ _))
      · rintro rec rfl
        exact hrmb effects rec (List.prefix_refl _)

/-- The record that a sender's reset writes is true of the emptied file. -/
theorem sound_reset
    (r : Recv) (rep : Reply) :
    Sound m dir 0 (trace ++ [.truncate, .rmb (record m "RESET" r.restart), .send rep]) := by
  have hempty : writtenBytes (sinceRestart (trace ++ [.truncate])) = [] := by
    rw [sinceRestart_concat, if_pos rfl]
    rfl
  have hnow : Recorded m (record m "RESET" r.restart) 0
      (writtenBytes (sinceRestart (trace ++ [.truncate]))) := by
    rw [hempty]
    exact recorded_now (r := r.restart) "RESET" (by simp [restart]) rfl (by simp [restart])
  have hrmb : Sound m dir 0 _ := sound_rmb hnow
  have := sound_concat (e := .send rep) hrmb (Nat.le_refl 0) (by simp) (fun _ heq => by cases heq)
  simpa using this

theorem sound_opening
    {n : Nat} (hn : 2 ≤ n) :
    Sound m dir 0 ((startEffects m).take n) := by
  have hnow : Recorded m (record m "ACTIVE" start) 0
      (writtenBytes (sinceRestart [.send .ready])) :=
    recorded_now (r := start) "ACTIVE" (by simp [start]) rfl
      (by simp [start, sinceRestart, writtenBytes])
  have hrmb : Sound m dir 0 ([.send .ready] ++ [.rmb (record m "ACTIVE" start)]) :=
    sound_rmb hnow
  obtain rfl | ⟨k, rfl⟩ : n = 2 ∨ ∃ k, n = k + 3 := by
    rcases Nat.lt_or_ge n 3 with h | h
    · exact Or.inl (by omega)
    · exact Or.inr ⟨n - 3, by omega⟩
  · exact hrmb
  · have := sound_concat (e := .openPart) hrmb (Nat.le_refl 0) (by simp)
      (fun _ heq => by cases heq)
    simpa [startEffects] using this

end Records

section Runs

variable {dir : Directory}

/-- A record written by a step that does not restart is true where it is written. -/
theorem StepKind.recorded
    {events : List RecvEvent} {r r' : Recv} {trace effects : List Effect} {ev : RecvEvent}
    (hcounts : Counts m events r trace) (hlive : r.Live)
    (hkind : StepKind m r r' ev effects) (hkeeps : Keeps m r' effects)
    {before : List Effect} {rec : Record}
    (hfront : before ++ [Effect.rmb rec] <+: effects) :
    before ≠ [] ∧ Recorded m rec r'.expected (writtenBytes (sinceRestart (trace ++ before))) := by
  have hmem : Effect.rmb rec ∈ effects :=
    hfront.subset (List.mem_append_right _ (List.mem_singleton.mpr rfl))
  cases hkind with
  | answer replies =>
      obtain ⟨rep, _, heq⟩ := List.mem_map.mp hmem
      cases heq
  | frame => exact absurd hmem List.not_mem_nil
  | restart rest => exact absurd List.mem_cons_self hkeeps.1
  | store payload tail hseq hpayload hexpected hreceived hrunning hphase htail =>
      obtain ⟨_, hlength, hcrc, _⟩ := hcounts.good hlive
      obtain ⟨state, rfl⟩ := hkeeps.2 rec hmem
      -- The write and the acknowledgement come before the record.
      rcases before with _ | ⟨e₁, _ | ⟨e₂, before⟩⟩
      · obtain ⟨heq, _⟩ := List.cons_prefix_cons.mp hfront
        cases heq
      · obtain ⟨_, hfront⟩ := List.cons_prefix_cons.mp hfront
        obtain ⟨heq, _⟩ := List.cons_prefix_cons.mp hfront
        cases heq
      · refine ⟨List.cons_ne_nil _ _, ?_⟩
        obtain ⟨rfl, hafter⟩ := List.cons_prefix_cons.mp hfront
        obtain ⟨rfl, hrecords⟩ := List.cons_prefix_cons.mp hafter
        have hidle : Idle (.send (.ack r.expected) :: before) := by
          intro e he
          rcases List.mem_cons.mp he with rfl | he
          · exact Or.inl ⟨_, rfl⟩
          · exact Or.inr (Or.inl (htail e (hrecords.subset (List.mem_append_left _ he))))
        have hbytes : writtenBytes (sinceRestart
            (trace ++ .write r.expected payload :: .send (.ack r.expected) :: before)) =
            writtenBytes (sinceRestart trace) ++ payload := by
          have hnone : Effect.truncate ∉
              .write r.expected payload :: .send (.ack r.expected) :: before := by
            rw [List.mem_cons, not_or]
            exact ⟨by simp, hidle.not_truncate⟩
          rw [sinceRestart_append hnone, writtenBytes_append, ← List.singleton_append,
            writtenBytes_append, hidle.writtenBytes]
          simp [writtenBytes]
        rw [hbytes]
        refine recorded_now state ?_ ?_ ?_
        · have hnext : Counts m (events ++ [ev]) r' _ :=
            hcounts.store hlive hseq hpayload hexpected hreceived hrunning hphase htail
          exact hnext.received_eq
        · rw [List.length_append, hlength, hreceived]
        · rw [Pcutp.crc32_append, ← hcrc, hrunning]
  | torn => simp at hmem
  | verified => simp at hmem
  | committed => simp at hmem

/-- `expected` only falls at a restart. -/
theorem StepKind.expected_le
    {r r' : Recv} {ev : RecvEvent} {effects : List Effect}
    (hkind : StepKind m r r' ev effects) (hkeeps : Keeps m r' effects) :
    r.expected ≤ r'.expected := by
  cases hkind with
  | answer replies hplace => exact hplace.1.ge
  | frame h hplace => exact hplace.1.ge
  | restart rest => exact absurd List.mem_cons_self hkeeps.1
  | store payload tail hseq hpayload hexpected => omega
  | torn bytes hplace => exact hplace.1.ge
  | verified header parts hplace => exact hplace.1.ge
  | committed hplace => exact hplace.1.ge

/-- Through a step that does not restart, the record stays true at every moment. -/
theorem sound_keeps
    {events : List RecvEvent} {r r' : Recv} {trace effects : List Effect} {ev : RecvEvent}
    (hcounts : Counts m events r trace) (hsound : Sound m dir r.expected trace)
    (hstep : r.step m ev = some (r', effects)) (hkeeps : Keeps m r' effects) (n : Nat) :
    Sound m dir r.expected (trace ++ effects.take 1) ∧
      Sound m dir r'.expected (trace ++ effects.take n) := by
  obtain ⟨hlive, hkind⟩ := step_cases hcounts.header hstep
  have hnone : ∀ k, Effect.truncate ∉ effects.take k :=
    fun k he => hkeeps.1 (List.mem_of_mem_take he)
  constructor
  · refine sound_append hsound (Nat.le_refl _) (hnone 1) (fun before rec hfront => ?_)
    obtain ⟨hne, _⟩ := hkind.recorded hcounts hlive hkeeps
      (hfront.trans (List.take_prefix 1 effects))
    have hlength := hfront.length_le.trans (List.length_take_le 1 effects)
    rw [List.length_append, List.length_singleton] at hlength
    exact absurd (List.length_eq_zero_iff.mp (by omega)) hne
  · refine sound_append hsound (hkind.expected_le hkeeps) (hnone n) (fun before rec hfront => ?_)
    exact (hkind.recorded hcounts hlive hkeeps
      (hfront.trans (List.take_prefix n effects))).2

/-- Through a step of a run, the record is true at rest unless a drop-limit restart leaves a
record of blocks. -/
theorem sound_step
    {events : List RecvEvent} {r r' : Recv} {trace effects : List Effect} {ev : RecvEvent}
    (hcounts : Counts m events r trace) (hsound : Sound m dir r.expected trace)
    (hstep : r.step m ev = some (r', effects))
    (hdrop : DropsOut r ev → RecordedZero m dir trace) :
    Sound m dir r'.expected (trace ++ effects) := by
  rcases restart_cases hstep with ⟨_, rfl, rep, rfl⟩ | ⟨hout, hexpected, rfl⟩ | ⟨_, hkeeps⟩
  · exact sound_reset r rep
  · have htruncate := sound_truncate hsound (hdrop hout) r'.expected
    have := sound_concat (e := .send .rst) htruncate (Nat.le_refl _) (by simp)
      (fun _ heq => by cases heq)
    rwa [List.append_assoc] at this
  · have := (sound_keeps hcounts hsound hstep hkeeps effects.length).2
    rwa [List.take_length] at this

/-- At every moment of a step the record is true, if it counts no block when the step
restarts. -/
theorem sound_inside
    {events : List RecvEvent} {r r' : Recv} {trace effects : List Effect} {ev : RecvEvent}
    (hcounts : Counts m events r trace) (hsound : Sound m dir r.expected trace)
    (hstep : r.step m ev = some (r', effects))
    (hzero : HonoursReset r ev ∨ DropsOut r ev → RecordedZero m dir trace)
    {n : Nat} (hn : 1 ≤ n) :
    Sound m dir r.expected (trace ++ effects.take 1) ∧
      Sound m dir r'.expected (trace ++ effects.take n) := by
  obtain ⟨k, rfl⟩ : ∃ k, n = k + 1 := ⟨n - 1, by omega⟩
  rcases restart_cases hstep with ⟨hreset, rfl, rep, rfl⟩ | ⟨hout, hexpected, rfl⟩ | ⟨_, hkeeps⟩
  · have htruncate := fun expected' => sound_truncate hsound (hzero (Or.inl hreset)) expected'
    refine ⟨htruncate _, ?_⟩
    rcases k with _ | _ | k
    · exact htruncate _
    · have hnow : Recorded m (record m "RESET" r.restart) 0
          (writtenBytes (sinceRestart (trace ++ [.truncate]))) := by
        rw [sinceRestart_concat, if_pos rfl]
        exact recorded_now (r := r.restart) "RESET" (by simp [restart]) rfl
          (by simp [restart, writtenBytes])
      have : Sound m dir 0 _ := sound_rmb hnow
      rwa [List.append_assoc] at this
    · rw [List.take_of_length_le (by simp)]
      exact sound_reset r rep
  · have htruncate := fun expected' => sound_truncate hsound (hzero (Or.inr hout)) expected'
    refine ⟨htruncate _, ?_⟩
    rcases k with _ | k
    · exact htruncate _
    · have := sound_step hcounts hsound hstep (fun hout => hzero (Or.inr hout))
      rwa [List.take_of_length_le (by simp)]
  · exact sound_keeps hcounts hsound hstep hkeeps _

/-- In a run whose drop-limit restarts find no block recorded, the record is true at rest. -/
theorem sound_run
    {events : List RecvEvent}
    (hdrop : ∀ pre ev, pre ++ [ev] <+: events → ∀ r trace, run m pre = some (r, trace) →
      DropsOut r ev → RecordedZero m dir trace)
    {r : Recv} {trace : List Effect} (hrun : run m events = some (r, trace)) :
    Sound m dir r.expected trace := by
  induction events using List.reverseRecOn generalizing r trace with
  | nil =>
      cases Option.some.inj hrun
      exact sound_opening (n := 3) (by omega)
  | append_singleton events ev ih =>
      obtain ⟨r₀, trace₀, r', effects, hrun₀, hstep, heq⟩ := Machine.run_concat hrun
      cases heq
      have hsound := ih
        (fun pre ev' hfront => hdrop pre ev' (hfront.trans (List.prefix_append _ _))) hrun₀
      exact sound_step (counts_run hrun₀) hsound hstep
        (hdrop events ev (List.prefix_refl _) r₀ trace₀ hrun₀)

/-- A restart can be stepped into, and empties the file first. -/
theorem step_restart
    {r : Recv} {ev : RecvEvent}
    (h : HonoursReset r ev ∨ DropsOut r ev) :
    ∃ r' rest, r.step m ev = some (r', .truncate :: rest) ∧ r'.expected = 0 := by
  have hstep : ∃ r' effects, r.step m ev = some (r', effects) := by
    rcases h with ⟨hphase, header, closes, rfl, _⟩ | ⟨hdr, bytes, torn, _, hphase, rfl, hlength, _⟩
    · exact ⟨_, _, by rw [step, hphase]⟩
    · exact ⟨_, _, by rw [step, hphase]; exact if_pos hlength⟩
  obtain ⟨r', effects, hstep⟩ := hstep
  rcases restart_cases hstep with ⟨_, rfl, rep, rfl⟩ | ⟨_, hexpected, rfl⟩ | ⟨hnot, _⟩
  · exact ⟨_, _, hstep, rfl⟩
  · exact ⟨_, _, hstep, hexpected⟩
  · exact absurd h (not_or.mpr hnot)

end Runs

end Recv

open Recv

/-- The sidecar is true at every moment of a run exactly when no restart finds a block
recorded in it.  Between the steps it is true exactly when no drop-limit restart does. -/
theorem sidecar_true_iff
    {cfg : ClientConfig} (m : AcceptedMeta cfg) (dir : Directory) (events : List RecvEvent) :
    ((∀ pre expected trace, pre <+: events → Moment m pre expected trace →
        SidecarTrue m dir expected trace) ↔
      ∀ pre ev r trace, pre ++ [ev] <+: events → run m pre = some (r, trace) →
        HonoursReset r ev ∨ DropsOut r ev → RecordedZero m dir trace) ∧
    ((∀ pre r trace, pre <+: events → run m pre = some (r, trace) →
        SidecarTrue m dir r.expected trace) ↔
      ∀ pre ev r trace, pre ++ [ev] <+: events → run m pre = some (r, trace) →
        DropsOut r ev → RecordedZero m dir trace) := by
  refine ⟨⟨?_, ?_⟩, ⟨?_, ?_⟩⟩
  · intro htrue pre ev r trace hfront hrun hrestart record hrecord
    obtain ⟨r', rest, hstep, hexpected⟩ := step_restart (m := m) hrestart
    -- The moment after the truncation.
    have hnow := htrue _ _ _ hfront (Moment.after 1 hrun hstep (Nat.le_refl 1)) record
      (by
        rw [List.take_succ_cons, List.take_zero, applyEffects_concat,
          sidecar_apply (by simp) (by simp)]
        exact hrecord)
    have := hnow.next_seq
    omega
  · intro hzero pre expected trace hfront hmoment
    have hrest : ∀ {before : List RecvEvent}, before <+: events → ∀ pre ev,
        pre ++ [ev] <+: before → ∀ r trace, run m pre = some (r, trace) → DropsOut r ev →
        RecordedZero m dir trace :=
      fun hbefore pre ev hpre r trace hrun hout =>
        hzero pre ev r trace (hpre.trans hbefore) hrun (Or.inr hout)
    cases hmoment with
    | opening n hn => exact (sound_opening hn).sidecarTrue
    | before hrun hstep =>
        have hsound := sound_run (hrest ((List.prefix_append _ _).trans hfront)) hrun
        exact (sound_inside (counts_run hrun) hsound hstep (hzero _ _ _ _ hfront hrun)
          (Nat.le_refl 1)).1.sidecarTrue
    | after n hrun hstep hn =>
        have hsound := sound_run (hrest ((List.prefix_append _ _).trans hfront)) hrun
        exact (sound_inside (counts_run hrun) hsound hstep (hzero _ _ _ _ hfront hrun)
          hn).2.sidecarTrue
  · intro htrue pre ev r trace hfront hrun hout record hrecord
    obtain ⟨r', rest, hstep, hexpected⟩ := step_restart (m := m) (Or.inr hout)
    rcases restart_cases hstep with ⟨hreset, _⟩ | ⟨_, _, heffects⟩ | ⟨hnot, _⟩
    · -- A frame is no reset line.
      obtain ⟨_, _, _, rfl, _⟩ := hreset
      obtain ⟨_, _, _, _, _, heq, _⟩ := hout
      cases heq
    · have hrun' : run m (pre ++ [ev]) = some (r', trace ++ [.truncate, .send .rst]) := by
        rw [heffects] at hstep
        rw [run] at hrun
        rw [run, Machine.run_append, hrun]
        simp only [Option.bind_some, Machine.run, hstep]
      have hnow := htrue _ _ _ hfront hrun' record (by
        rw [List.append_cons, applyEffects_concat, applyEffects_concat,
          sidecar_apply (by simp) (by simp), sidecar_apply (by simp) (by simp)]
        exact hrecord)
      have := hnow.next_seq
      omega
    · exact absurd hout hnot.2
  · intro hzero pre r trace hfront hrun
    exact (sound_run (fun pre' ev hpre r trace => hzero pre' ev r trace (hpre.trans hfront))
      hrun).sidecarTrue

/-- A ten-byte file in blocks of one byte. -/
def tenByteMeta : AcceptedMeta
    { max_block_size := 1, free_space := none, flow := true, compression := false } where
  filename := "A".toList
  size := 10
  blocksize := 1
  blocks := 10
  crc32 := "D3D99E8B".toList
  target := "A".toList
  target_eq := shortName_ok
  crc_ok := byteCrc_ok
  block_ok := byteBlock_ok
  size_ok := by decide
  blocks_eq := by decide
  fits := fun _ h => by cases h

/-- Blocks 0 to 7, then block 9 three times. -/
def skippedBlockEvents : List RecvEvent :=
  (List.range 8 ++ [9, 9, 9]).flatMap fun seq =>
    [.line ("DATA ".toList ++ dec seq ++ " 1 D3D99E8B".toList) true, .payload [65] none]

/-- The receiver starts again and its sidecar goes on recording eight blocks. -/
theorem sidecar_records_discarded_blocks :
    ∃ r trace record,
      run tenByteMeta skippedBlockEvents = some (r, trace) ∧
      sidecar "A".toList (applyEffects "A".toList (fun _ => none) trace) = some record ∧
      record.next_seq = 8 ∧ record.received = 8 ∧ r.expected = 0 ∧
      writtenBytes (sinceRestart trace) = [] ∧
      ¬ SidecarTrue tenByteMeta (fun _ => none) r.expected trace := by
  have hrun : ((run tenByteMeta skippedBlockEvents).any fun last =>
      decide (last.1.expected = 0) && decide (writtenBytes (sinceRestart last.2) = []) &&
        (sidecar "A".toList (applyEffects "A".toList (fun _ => none) last.2)).any
          fun record => decide (record.next_seq = 8) && decide (record.received = 8)) = true := by
    decide +kernel
  rw [Option.any_eq_true] at hrun
  obtain ⟨⟨r, trace⟩, hrun, hlast⟩ := hrun
  simp only [Bool.and_eq_true, decide_eq_true_eq] at hlast
  obtain ⟨⟨hexpected, hbytes⟩, hrecord⟩ := hlast
  rw [Option.any_eq_true] at hrecord
  obtain ⟨record, hsidecar, hfields⟩ := hrecord
  simp only [Bool.and_eq_true, decide_eq_true_eq] at hfields
  refine ⟨r, trace, record, hrun, hsidecar, hfields.1, hfields.2, hexpected, hbytes, ?_⟩
  intro htrue
  have := (htrue record hsidecar).next_seq
  omega

end Pcutp
