import Mathlib.Tactic.SplitIfs
import Pcutp.Client
import Pcutp.Decoder
import Pcutp.Lib.Machine

/-!
# The receiver's invariant against any peer

Whatever lines, payloads and timeouts a peer produces, the counters of
`_receive` describe the bytes it stored, its acknowledgements name stored
blocks, and the final name is touched once, after the file was verified.

`step_cases` says once what a step can do.  The invariant of the counters and
of the effects (`Counts`) follows from it case by case; what the effects do to
the directory (`Stores`) is a separate lemma about lists of effects.
-/

namespace Pcutp

section Effects

/-- The effects since the file was last truncated. -/
def sinceRestart (trace : List Effect) : List Effect :=
  trace.foldl (fun acc e => if e = .truncate then [] else acc ++ [e]) []

/-- The numbers of the blocks written, in order. -/
def writtenBlocks (effects : List Effect) : List Nat :=
  effects.filterMap (fun | .write seq _ => some seq | _ => none)

/-- The bytes written, in order. -/
def writtenBytes (effects : List Effect) : Bytes :=
  effects.flatMap (fun | .write _ payload => payload | _ => [])

/-- What a run leaves in the directory, until the final rename. -/
structure Stores (filename : Line) (dir : Directory) (trace : List Effect) : Prop where
  part : partBytes filename (applyEffects filename dir trace) =
    some (writtenBytes (sinceRestart trace))
  kept : applyEffects filename dir trace filename = dir filename

/-- Every acknowledgement names a block written before it. -/
def AcksWritten (effects : List Effect) : Prop :=
  ∀ before n after,
    effects = before ++ .send (.ack n) :: after → n ∈ writtenBlocks before

theorem sinceRestart_concat (trace : List Effect) (e : Effect) :
    sinceRestart (trace ++ [e]) =
      if e = .truncate then [] else sinceRestart trace ++ [e] := by
  simp [sinceRestart]

theorem sinceRestart_append
    {effects : List Effect}
    (h : Effect.truncate ∉ effects)
    (trace : List Effect) :
    sinceRestart (trace ++ effects) = sinceRestart trace ++ effects := by
  induction effects using List.reverseRecOn with
  | nil =>
      simp
  | append_singleton effects e ih =>
      simp only [List.mem_append, List.mem_singleton, not_or] at h
      rw [← List.append_assoc, sinceRestart_concat, if_neg (Ne.symm h.2), ih h.1,
        List.append_assoc]

@[simp] theorem writtenBlocks_append (a b : List Effect) :
    writtenBlocks (a ++ b) = writtenBlocks a ++ writtenBlocks b := by
  simp [writtenBlocks]

@[simp] theorem writtenBytes_append (a b : List Effect) :
    writtenBytes (a ++ b) = writtenBytes a ++ writtenBytes b := by
  simp [writtenBytes]

theorem acksWritten_nil : AcksWritten [] := by
  intro before n after h
  simp at h

theorem acksWritten_concat
    {effects : List Effect} {e : Effect}
    (heffects : AcksWritten effects)
    (he : ∀ n, e = .send (.ack n) → n ∈ writtenBlocks effects) :
    AcksWritten (effects ++ [e]) := by
  intro before n after h
  rcases List.eq_nil_or_concat after with rfl | ⟨after', e', rfl⟩
  · obtain ⟨rfl, hlast⟩ := List.append_inj' h rfl
    exact he n (List.singleton_inj.mp hlast)
  · rw [List.concat_eq_append, ← List.cons_append, ← List.append_assoc] at h
    obtain ⟨hinit, _⟩ := List.append_inj' h rfl
    exact heffects before n after' hinit

theorem acksWritten_append
    {effects : List Effect} (more : List Effect)
    (heffects : AcksWritten effects)
    (hmore : ∀ n, .send (.ack n) ∈ more → n ∈ writtenBlocks effects) :
    AcksWritten (effects ++ more) := by
  induction more using List.reverseRecOn with
  | nil =>
      simpa using heffects
  | append_singleton more e ih =>
      rw [← List.append_assoc]
      refine acksWritten_concat (ih (fun n hn => hmore n (List.mem_append_left _ hn))) ?_
      rintro n rfl
      rw [writtenBlocks_append]
      exact List.mem_append_left _ (hmore n (by simp))

/-- Effects that write nothing and do not truncate. -/
def Idle (effects : List Effect) : Prop :=
  ∀ e ∈ effects, (∃ rep, e = .send rep) ∨ (∃ record, e = .rmb record) ∨ e = .replace ∨
    e = .unlink

theorem Idle.writtenBlocks
    {effects : List Effect} (h : Idle effects) :
    writtenBlocks effects = [] := by
  refine List.filterMap_eq_nil_iff.mpr (fun e he => ?_)
  rcases h e he with ⟨rep, rfl⟩ | ⟨record, rfl⟩ | rfl | rfl <;> rfl

theorem Idle.writtenBytes
    {effects : List Effect} (h : Idle effects) :
    writtenBytes effects = [] := by
  refine List.flatMap_eq_nil_iff.mpr (fun e he => ?_)
  rcases h e he with ⟨rep, rfl⟩ | ⟨record, rfl⟩ | rfl | rfl <;> rfl

theorem Idle.not_truncate
    {effects : List Effect} (h : Idle effects) :
    Effect.truncate ∉ effects := by
  intro he
  rcases h _ he with ⟨rep, hrep⟩ | ⟨record, hrec⟩ | hrep | hun <;> contradiction

theorem idle_sends (replies : List Reply) :
    Idle (replies.map .send) := by
  intro e he
  obtain ⟨rep, _, rfl⟩ := List.mem_map.mp he
  exact Or.inl ⟨rep, rfl⟩

section Names

theorem partName_ne (f : Line) : partName f ≠ f := by
  intro h
  have := congrArg List.length h
  simp [partName] at this

theorem checkpointName_ne (f : Line) : checkpointName f ≠ f := by
  intro h
  have := congrArg List.length h
  simp [checkpointName] at this

theorem temporaryName_ne (f : Line) : temporaryName f ≠ f := by
  intro h
  have := congrArg List.length h
  simp [temporaryName, checkpointName] at this

theorem partName_ne_checkpointName (f : Line) : partName f ≠ checkpointName f := by
  intro h
  exact absurd (List.append_cancel_left h) (by decide)

theorem partName_ne_temporaryName (f : Line) : partName f ≠ temporaryName f := by
  intro h
  rw [temporaryName, checkpointName, List.append_assoc] at h
  exact absurd (List.append_cancel_left h) (by decide)

end Names

theorem applyEffects_concat
    (filename : Line) (dir : Directory) (trace : List Effect) (e : Effect) :
    applyEffects filename dir (trace ++ [e]) =
      e.apply filename (applyEffects filename dir trace) := by
  simp [applyEffects]

/-- The final name is not among the files that the other effects touch. -/
theorem apply_final
    {f : Line} {e : Effect} (dir : Directory)
    (he : e ≠ .replace) :
    e.apply f dir f = dir f := by
  cases e with
  | send => rfl
  | openPart => exact Function.update_of_ne (partName_ne f).symm _ _
  | write => exact Function.update_of_ne (partName_ne f).symm _ _
  | truncate => exact Function.update_of_ne (partName_ne f).symm _ _
  | rmb =>
      rw [Effect.apply, Function.update_of_ne (checkpointName_ne f).symm,
        Function.update_of_ne (temporaryName_ne f).symm]
  | replace => exact absurd rfl he
  | unlink => exact Function.update_of_ne (checkpointName_ne f).symm _ _

/-- Each effect but the opening and the rename keeps `.PART` equal to the bytes written. -/
theorem stores_concat
    {f : Line} {dir : Directory} {trace : List Effect} {e : Effect}
    (h : Stores f dir trace) (hopen : e ≠ .openPart) (hreplace : e ≠ .replace) :
    Stores f dir (trace ++ [e]) := by
  refine ⟨?_, by rw [applyEffects_concat, apply_final _ hreplace, h.kept]⟩
  rw [applyEffects_concat, sinceRestart_concat]
  have hpart := h.part
  generalize applyEffects f dir trace = now at hpart
  cases e with
  | send => simpa [Effect.apply, writtenBytes] using hpart
  | openPart => exact absurd rfl hopen
  | write seq payload =>
      simp only [Effect.apply, hpart, Option.getD_some]
      simp [partBytes, Content.bytes?, writtenBytes]
  | truncate => simp [Effect.apply, partBytes, Content.bytes?, writtenBytes]
  | rmb record =>
      rw [partBytes, Effect.apply, Function.update_of_ne (partName_ne_checkpointName f),
        Function.update_of_ne (partName_ne_temporaryName f)]
      simpa [partBytes, writtenBytes] using hpart
  | replace => exact absurd rfl hreplace
  | unlink =>
      rw [partBytes, Effect.apply, Function.update_of_ne (partName_ne_checkpointName f)]
      simpa [partBytes, writtenBytes] using hpart

theorem stores_append
    {f : Line} {dir : Directory} {trace effects : List Effect}
    (h : Stores f dir trace) (hopen : Effect.openPart ∉ effects)
    (hreplace : Effect.replace ∉ effects) :
    Stores f dir (trace ++ effects) := by
  induction effects using List.reverseRecOn with
  | nil =>
      simpa using h
  | append_singleton effects e ih =>
      simp only [List.mem_append, List.mem_singleton, not_or] at hopen hreplace
      rw [← List.append_assoc]
      exact stores_concat (ih hopen.1 hreplace.1) (Ne.symm hopen.2) (Ne.symm hreplace.2)

end Effects

namespace Recv

variable {cfg : ClientConfig} {m : AcceptedMeta cfg}

/-- A run of `_receive` on a list of events. -/
def run (m : AcceptedMeta cfg) (events : List RecvEvent) : Option (Recv × List Effect) :=
  Machine.run (step m) (start, startEffects m) events

/-- The same position in the file. -/
def SamePlace (r r' : Recv) : Prop :=
  r'.expected = r.expected ∧ r'.received = r.received ∧ r'.running = r.running

/-- A phase that promises nothing: waiting for a header, given up, or an exception. -/
def Plain : RecvPhase → Prop
  | .header => True
  | .returned ok => ok = false
  | .raised _ => True
  | _ => False

/-- What one step of `_receive` can do. -/
inductive StepKind (m : AcceptedMeta cfg) (r r' : Recv) : RecvEvent → List Effect → Prop
  /-- Answer, or give up, in the same place. -/
  | answer {ev : RecvEvent} (replies : List Reply) :
      SamePlace r r' → Plain r'.phase →
      (∀ n, Reply.ack n ∈ replies → n < r.expected) →
      StepKind m r r' ev (replies.map .send)
  /-- A data header was accepted. -/
  | frame {ev : RecvEvent} (h : DataHeader) :
      SamePlace r r' → r'.phase = .payload h → h.seq < m.blocks →
      StepKind m r r' ev []
  /-- The file starts again. -/
  | restart {ev : RecvEvent} (rest : List Effect) :
      r'.expected = 0 → r'.received = 0 → r'.running = 0 → Plain r'.phase →
      (∀ e ∈ rest, (∃ record, e = .rmb record) ∨ ∃ rep, e = .send rep ∧ ∀ n, rep ≠ .ack n) →
      StepKind m r r' ev (.truncate :: rest)
  /-- The expected block is stored and acknowledged. -/
  | store {ev : RecvEvent} (payload : Bytes) (tail : List Effect) :
      r.expected < m.blocks → payload.length = min m.blocksize (m.size - r.received) →
      r'.expected = r.expected + 1 → r'.received = r.received + payload.length →
      r'.running = Pcutp.crc32 payload r.running → r'.phase = .header →
      (∀ e ∈ tail, ∃ record, e = .rmb record) →
      StepKind m r r' ev
        (.write r.expected payload :: .send (.ack r.expected) :: tail)
  /-- The write failed. -/
  | torn {ev : RecvEvent} (bytes : Bytes) :
      SamePlace r r' → r'.phase = .raised (.pcutp (StorageError "file write failed")) →
      StepKind m r r' ev [.write r.expected bytes, .send (.err "WRITE".toList)]
  /-- The file was verified against META and DONE. -/
  | verified (header : Line) (parts : List Line) :
      SamePlace r r' → r'.phase = .commit → r.expected = m.blocks → r.received = m.size →
      to_hex r.running = m.crc32 → split header = parts →
      parts.length = 2 → word parts 0 = "DONE".toList →
      upper (word parts 1) = to_hex r.running →
      StepKind m r r' (.line header true) [.send (.ok (to_hex r.running))]
  /-- The verified file gets its final name. -/
  | committed :
      SamePlace r r' → r.phase = .commit → r'.phase = .returned true →
      StepKind m r r' (.commit true) [.replace, .unlink]

theorem StepKind.answerOne
    {r r' : Recv} {ev : RecvEvent} (rep : Reply)
    (hplace : SamePlace r r') (hplain : Plain r'.phase)
    (hack : ∀ n, rep = .ack n → n < r.expected) :
    StepKind m r r' ev [.send rep] :=
  StepKind.answer [rep] hplace hplain (fun n hn => hack n (List.mem_singleton.mp hn).symm)

theorem StepKind.silent
    {r r' : Recv} {ev : RecvEvent}
    (hplace : SamePlace r r') (hplain : Plain r'.phase) :
    StepKind m r r' ev [] :=
  StepKind.answer [] hplace hplain (fun _ hn => absurd hn List.not_mem_nil)

theorem samePlace_refl (r : Recv) : SamePlace r r :=
  ⟨rfl, rfl, rfl⟩

theorem finish_kind
    {r r' : Recv} {header : Line} {closes : Bool} {effects : List Effect}
    (hblocks : r.expected = m.blocks)
    (h : r.finish m (split header) closes = (r', effects)) :
    StepKind m r r' (.line header closes) effects := by
  unfold finish at h
  dsimp only at h
  split_ifs at h with hcloses hform hcrc
  · cases h
    exact .silent ⟨rfl, rfl, rfl⟩ trivial
  · cases h
    exact .silent ⟨rfl, rfl, rfl⟩ trivial
  · cases h
    exact .answerOne _ ⟨rfl, rfl, rfl⟩ rfl (fun n hn => by cases hn)
  · cases h
    have hcloses' : closes = true := by simpa using hcloses
    subst hcloses'
    simp only [not_or, ne_eq, not_not] at hform hcrc
    exact .verified header (split header) ⟨rfl, rfl, rfl⟩ rfl hblocks hcrc.2.2 hcrc.2.1 rfl
      hform.1 hform.2 hcrc.1.symm

theorem onData_kind
    {r r' : Recv} {ev : RecvEvent} {parts : List Line} {effects : List Effect}
    (h : r.onData m parts = (r', effects)) :
    StepKind m r r' ev effects := by
  unfold onData at h
  extract_lets packed seq length raw_length want at h
  split_ifs at h with h₁ h₂ h₃ h₄
  · cases h
    exact .silent ⟨rfl, rfl, rfl⟩ trivial
  · cases h
    exact .answerOne _ ⟨rfl, rfl, rfl⟩ trivial (fun n hn => by cases hn)
  · cases h
    exact .answerOne _ ⟨rfl, rfl, rfl⟩ trivial (fun n hn => by cases hn)
  · cases h
    simp only [not_or, not_not] at h₃
    exact .frame { seq, length, raw_length, want, packed } ⟨rfl, rfl, rfl⟩ rfl h₃.2
  · cases h
    exact .silent ⟨rfl, rfl, rfl⟩ trivial

theorem onLine_kind
    {r r' : Recv} {header : Line} {closes : Bool} {effects : List Effect}
    (hphase : r.phase = .header)
    (h : r.onLine m header closes = (r', effects)) :
    StepKind m r r' (.line header closes) effects := by
  have hplain : Plain r.phase := by
    rw [hphase]
    trivial
  unfold onLine at h
  dsimp only at h
  split_ifs at h with h₁ h₂ h₃ h₄ h₅ h₆ h₇ h₈ h₉
  · cases h
    exact .silent ⟨rfl, rfl, rfl⟩ trivial
  · cases h
    exact .silent ⟨rfl, rfl, rfl⟩ trivial
  · cases h
    exact .answerOne _ (samePlace_refl r) hplain (fun n hn => by cases hn)
  · cases h
    refine .restart _ rfl rfl rfl hplain ?_
    intro e he
    simp only [List.mem_cons, List.not_mem_nil, or_false] at he
    rcases he with rfl | rfl
    · exact Or.inl ⟨_, rfl⟩
    · exact Or.inr ⟨_, rfl, fun n hn => by cases hn⟩
  · cases h
    exact .silent ⟨rfl, rfl, rfl⟩ trivial
  · exact finish_kind (by simpa using h₆) h
  · cases h
    exact .silent ⟨rfl, rfl, rfl⟩ trivial
  · cases h
    exact .answerOne _ (samePlace_refl r) hplain (fun n hn => by cases hn)
  · cases h
    exact .answerOne _ ⟨rfl, rfl, rfl⟩ hplain (fun n hn => by cases hn)
  · exact onData_kind h

theorem onGap_kind
    {r r' : Recv} {ev : RecvEvent} {seq : Nat} {effects : List Effect}
    (hphase : r.phase = .header)
    (h : r.onGap seq = (r', effects)) :
    StepKind m r r' ev effects := by
  have hplain : Plain r.phase := by
    rw [hphase]
    trivial
  unfold onGap at h
  dsimp only at h
  split_ifs at h
  · cases h
    exact .answerOne _ ⟨rfl, rfl, rfl⟩ trivial (fun n hn => by cases hn)
  · cases h
    refine .restart _ rfl rfl rfl hplain ?_
    intro e he
    exact Or.inr ⟨_, List.mem_singleton.mp he, fun n hn => by cases hn⟩
  · cases h
    exact .answerOne _ ⟨rfl, rfl, rfl⟩ hplain (fun n hn => by cases hn)

theorem onDecoded_kind
    {r r' : Recv} {ev : RecvEvent} {h : DataHeader} {payload : Bytes} {length : Nat}
    {torn : Option Bytes} {effects : List Effect}
    (hphase : r.phase = .header) (hseq : h.seq < m.blocks) (hlength : payload.length = length)
    (hstep : r.onDecoded m h payload length torn = (r', effects)) :
    StepKind m r r' ev effects := by
  have hplain : Plain r.phase := by
    rw [hphase]
    trivial
  unfold onDecoded at hstep
  split_ifs at hstep with h₁ h₂ h₃ h₄ h₅
  · cases hstep
    exact .answerOne _ (samePlace_refl r) hplain (fun n hn => by cases hn)
  · cases hstep
    refine .answerOne _ (samePlace_refl r) hplain (fun n hn => ?_)
    cases hn
    omega
  · cases hstep
    refine .answerOne _ (samePlace_refl r) hplain (fun n hn => ?_)
    cases hn
    exact h₂
  · exact onGap_kind hphase hstep
  · cases hstep
    exact .answerOne _ ⟨rfl, rfl, rfl⟩ trivial (fun n hn => by cases hn)
  · have hexpected : h.seq = r.expected := by simpa using h₄
    rw [ne_eq, not_not] at h₅
    cases torn with
    | some bytes =>
        cases hstep
        rw [hexpected]
        exact .torn bytes ⟨rfl, rfl, rfl⟩ rfl
    | none =>
        cases hstep
        rw [hexpected] at hseq ⊢
        refine .store payload _ hseq (hlength.trans h₅) rfl rfl rfl hphase ?_
        intro e he
        split_ifs at he
        · exact ⟨_, List.mem_singleton.mp he⟩
        · exact absurd he List.not_mem_nil

/-- The bound that a pending payload's header passed. -/
def HeaderOk (m : AcceptedMeta cfg) (r : Recv) : Prop :=
  ∀ h, r.phase = .payload h → h.seq < m.blocks

/-- A decoded block has the declared length. -/
theorem length_of_decompress
    {data out : Bytes} {size : Nat}
    (h : decompress data size = .ok out) :
    out.length = size := by
  rw [decompress] at h
  split_ifs at h
  obtain ⟨_, _, _, _, _, _, hsize⟩ := decompressLoop_ok h
  rwa [Int.toNat_natCast] at hsize

theorem onPayload_kind
    {r r' : Recv} {ev : RecvEvent} {h : DataHeader} {payload : Bytes} {torn : Option Bytes}
    {effects : List Effect}
    (hseq : h.seq < m.blocks) (hlength : payload.length = h.length)
    (hstep : r.onPayload m h payload torn = (r', effects)) :
    StepKind m r r' ev effects := by
  -- The turn starts by leaving the payload phase; the place is unchanged by that.
  have hmove : ∀ {r'' : Recv} {es : List Effect},
      StepKind m { r with phase := .header } r'' ev es → StepKind m r r'' ev es := by
    intro r'' es hkind
    cases hkind with
    | answer replies hplace hplain hack => exact .answer replies hplace hplain hack
    | frame h' hplace hphase hseq' => exact .frame h' hplace hphase hseq'
    | restart rest h₁ h₂ h₃ hplain hrest => exact .restart rest h₁ h₂ h₃ hplain hrest
    | store p tail h₁ h₂ h₃ h₄ h₅ h₆ h₇ => exact .store p tail h₁ h₂ h₃ h₄ h₅ h₆ h₇
    | torn bytes hplace hphase => exact .torn bytes hplace hphase
    | verified header parts h₁ h₂ h₃ h₄ h₅ h₆ h₇ h₈ h₉ =>
        exact .verified header parts h₁ h₂ h₃ h₄ h₅ h₆ h₇ h₈ h₉
    | committed hplace hphase hphase' => cases hphase
  apply hmove
  unfold onPayload at hstep
  dsimp only at hstep
  split_ifs at hstep with hpacked
  · cases hdec : decompress payload h.raw_length with
    | error exc =>
        rw [hdec] at hstep
        cases hstep
        exact .answerOne _ (samePlace_refl _) trivial (fun n hn => by cases hn)
    | ok plain =>
        rw [hdec] at hstep
        exact onDecoded_kind rfl hseq (length_of_decompress hdec) hstep
  · exact onDecoded_kind rfl hseq hlength hstep

/-- `_receive` is still running. -/
def Live (r : Recv) : Prop :=
  match r.phase with
  | .header => True
  | .payload _ => True
  | .commit => True
  | _ => False

/-- Every step of `_receive` is of one of the kinds. -/
theorem step_cases
    {r r' : Recv} {ev : RecvEvent} {effects : List Effect}
    (hok : HeaderOk m r)
    (h : r.step m ev = some (r', effects)) :
    r.Live ∧ StepKind m r r' ev effects := by
  cases ev with
  | line header closes =>
      simp only [step] at h
      split at h
      · rename_i hphase
        exact ⟨by simp [Live, hphase], onLine_kind hphase (Option.some.inj h)⟩
      · cases h
  | timeout =>
      simp only [step] at h
      split at h
      · rename_i hphase
        cases h
        exact ⟨by simp [Live, hphase], .silent ⟨rfl, rfl, rfl⟩ trivial⟩
      · cases h
  | payload bytes torn =>
      simp only [step] at h
      split at h
      · rename_i h' hphase
        split_ifs at h with hlength
        exact ⟨by simp [Live, hphase],
          onPayload_kind (hok h' hphase) hlength (Option.some.inj h)⟩
      · cases h
  | rawTimeout =>
      simp only [step] at h
      split at h
      · rename_i h' hphase
        cases h
        refine ⟨by simp [Live, hphase], .answerOne _ ⟨rfl, rfl, rfl⟩ trivial (fun n hn => ?_)⟩
        split at hn <;> cases hn
      · cases h
  | commit done =>
      simp only [step] at h
      split at h
      · rename_i hphase
        split_ifs at h with hdone
        · cases h
          subst hdone
          exact ⟨by simp [Live, hphase], .committed ⟨rfl, rfl, rfl⟩ hphase rfl⟩
        · cases h
          exact ⟨by simp [Live, hphase], .silent ⟨rfl, rfl, rfl⟩ trivial⟩
      · cases h

/-- The failed write is the only way to leave part of a block behind. -/
def WriteFailed (r : Recv) : Prop :=
  r.phase = .raised (.pcutp (StorageError "file write failed"))

/-- The last line read was a DONE that agrees with the running checksum. -/
def DoneRead (r : Recv) (events : List RecvEvent) : Prop :=
  ∃ before header parts,
    events = before ++ [.line header true] ∧ split header = parts ∧ parts.length = 2 ∧
      word parts 0 = "DONE".toList ∧ upper (word parts 1) = to_hex r.running

/-- The whole file was stored and agrees with META. -/
def Complete (m : AcceptedMeta cfg) (r : Recv) : Prop :=
  r.expected = m.blocks ∧ r.received = m.size ∧ to_hex r.running = m.crc32

/-- Counters and effects of a run of `_receive`. -/
structure Counts (m : AcceptedMeta cfg) (events : List RecvEvent) (r : Recv)
    (trace : List Effect) : Prop where
  expected_le : r.expected ≤ m.blocks
  received_eq : r.received = min (r.expected * m.blocksize) m.size
  stored : ∃ good bad,
    sinceRestart trace = good ++ bad ∧
      writtenBlocks good = List.range r.expected ∧
      (writtenBytes good).length = r.received ∧
      r.running = Pcutp.crc32 (writtenBytes good) 0 ∧
      (bad ≠ [] → r.WriteFailed ∧ ∃ bytes,
        bad = [.write r.expected bytes, .send (.err "WRITE".toList)])
  acks : AcksWritten (sinceRestart trace)
  header : HeaderOk m r
  commit : r.phase = .commit → Complete m r ∧ DoneRead r events
  returned : r.phase = .returned true →
    Complete m r ∧ ∃ before, events = before ++ [.commit true] ∧ DoneRead r before
  replaced : Effect.replace ∈ trace → r.phase = .returned true ∧
    ∃ before, trace = before ++ [.replace, .unlink] ∧ Effect.replace ∉ before
  once : trace.count .replace ≤ 1

theorem counts_start (m : AcceptedMeta cfg) :
    Counts m [] start (startEffects m) where
  expected_le := Nat.zero_le _
  received_eq := by simp [start]
  stored := by
    refine ⟨startEffects m, [], rfl, rfl, rfl, ?_, fun h => absurd rfl h⟩
    simp [start, startEffects, writtenBytes]
  acks := by
    intro before n after h
    simp only [sinceRestart, startEffects, List.foldl_cons, List.foldl_nil, reduceCtorEq,
      if_false, List.nil_append, List.cons_append] at h
    rcases before with _ | ⟨_, _ | ⟨_, _ | ⟨_, _⟩⟩⟩ <;> simp at h
  header := fun h hphase => by cases hphase
  commit := fun hphase => by cases hphase
  returned := fun hphase => by cases hphase
  replaced := by simp [startEffects]
  once := by simp [startEffects]

/-- While `_receive` runs, everything since the last restart is whole blocks. -/
theorem Counts.good
    {events : List RecvEvent} {r : Recv} {trace : List Effect}
    (hinv : Counts m events r trace) (hlive : r.Live) :
    writtenBlocks (sinceRestart trace) = List.range r.expected ∧
      (writtenBytes (sinceRestart trace)).length = r.received ∧
      r.running = Pcutp.crc32 (writtenBytes (sinceRestart trace)) 0 ∧
      Effect.replace ∉ trace := by
  obtain ⟨good, bad, hsplit, hblocks, hlength, hrunning, hbad⟩ := hinv.stored
  have hnil : bad = [] := by
    by_contra hne
    have hfailed := (hbad hne).1
    rw [WriteFailed] at hfailed
    simp [Live, hfailed] at hlive
  subst hnil
  rw [List.append_nil] at hsplit
  rw [hsplit]
  refine ⟨hblocks, hlength, hrunning, fun hmem => ?_⟩
  simp [Live, (hinv.replaced hmem).1] at hlive

/-- A step that stays in place and only answers keeps the counters. -/
theorem Counts.idle
    {events : List RecvEvent} {r r' : Recv} {trace effects : List Effect} {ev : RecvEvent}
    (hinv : Counts m events r trace) (hlive : r.Live)
    (hplace : SamePlace r r') (hidle : Idle effects)
    (hacks : ∀ n, Effect.send (.ack n) ∈ effects → n < r.expected)
    (hheader : HeaderOk m r')
    (hcommit : r'.phase = .commit → Complete m r' ∧ DoneRead r' (events ++ [ev]))
    (hreturned : r'.phase = .returned true →
      Complete m r' ∧ ∃ before, events ++ [ev] = before ++ [.commit true] ∧ DoneRead r' before)
    (hreplaced : Effect.replace ∈ effects →
      r'.phase = .returned true ∧ effects = [.replace, .unlink])
    (honce : effects.count .replace ≤ 1) :
    Counts m (events ++ [ev]) r' (trace ++ effects) := by
  obtain ⟨hblocks, hlength, hrunning, hnone⟩ := hinv.good hlive
  obtain ⟨hexpected, hreceived, hcrc⟩ := hplace
  refine
    { expected_le := hexpected ▸ hinv.expected_le
      received_eq := by rw [hreceived, hexpected]; exact hinv.received_eq
      stored := ⟨sinceRestart trace ++ effects, [], ?_, ?_, ?_, ?_, fun h => absurd rfl h⟩
      acks := ?_
      header := hheader
      commit := hcommit
      returned := hreturned
      replaced := ?_
      once := ?_ }
  · rw [sinceRestart_append hidle.not_truncate, List.append_nil]
  · rw [writtenBlocks_append, hidle.writtenBlocks, List.append_nil, hblocks, hexpected]
  · rw [writtenBytes_append, hidle.writtenBytes, List.append_nil, hlength, hreceived]
  · rw [writtenBytes_append, hidle.writtenBytes, List.append_nil, hcrc, hrunning]
  · rw [sinceRestart_append hidle.not_truncate]
    refine acksWritten_append _ hinv.acks (fun n hn => ?_)
    rw [hblocks]
    exact List.mem_range.mpr (hacks n hn)
  · intro hmem
    obtain ⟨hphase, rfl⟩ := hreplaced ((List.mem_append.mp hmem).resolve_left hnone)
    exact ⟨hphase, trace, rfl, hnone⟩
  · rw [List.count_append, List.count_eq_zero.mpr hnone, Nat.zero_add]
    exact honce

theorem plain_ne
    {r : Recv} (h : Plain r.phase) :
    r.phase ≠ .commit ∧ r.phase ≠ .returned true ∧ ∀ h', r.phase ≠ .payload h' := by
  refine ⟨?_, ?_, ?_⟩
  · intro hphase
    simp [hphase, Plain] at h
  · intro hphase
    simp [hphase, Plain] at h
  · intro h' hphase
    simp [hphase, Plain] at h

/-- A restart leaves an empty file and zero counters. -/
theorem Counts.restart
    {events : List RecvEvent} {r r' : Recv} {trace rest : List Effect} {ev : RecvEvent}
    (hinv : Counts m events r trace) (hlive : r.Live)
    (hexpected : r'.expected = 0) (hreceived : r'.received = 0) (hcrc : r'.running = 0)
    (hplain : Plain r'.phase)
    (hrest : ∀ e ∈ rest, (∃ record, e = .rmb record) ∨
      ∃ rep, e = .send rep ∧ ∀ n, rep ≠ .ack n) :
    Counts m (events ++ [ev]) r' (trace ++ .truncate :: rest) := by
  obtain ⟨_, _, _, hnone⟩ := hinv.good hlive
  obtain ⟨hc, hret, hpay⟩ := plain_ne hplain
  have hidle : Idle rest := by
    intro e he
    rcases hrest e he with ⟨record, rfl⟩ | ⟨rep, rfl, _⟩
    · exact Or.inr (Or.inl ⟨record, rfl⟩)
    · exact Or.inl ⟨rep, rfl⟩
  have hnoack : ∀ n, Effect.send (.ack n) ∉ rest := by
    intro n hn
    rcases hrest _ hn with ⟨record, hrec⟩ | ⟨rep, hrep, hne⟩
    · cases hrec
    · exact hne n (Effect.send.inj hrep).symm
  have hnoreplace : Effect.replace ∉ rest := by
    intro hn
    rcases hrest _ hn with ⟨record, hrec⟩ | ⟨rep, hrep, _⟩
    · cases hrec
    · cases hrep
  have hsince : sinceRestart (trace ++ .truncate :: rest) = rest := by
    rw [List.append_cons, sinceRestart_append hidle.not_truncate, sinceRestart_concat,
      if_pos rfl, List.nil_append]
  refine
    { expected_le := by rw [hexpected]; exact Nat.zero_le _
      received_eq := by simp [hexpected, hreceived]
      stored := ⟨rest, [], by rw [hsince, List.append_nil], ?_, ?_, ?_, fun h => absurd rfl h⟩
      acks := ?_
      header := fun h' hphase => absurd hphase (hpay h')
      commit := fun hphase => absurd hphase hc
      returned := fun hphase => absurd hphase hret
      replaced := ?_
      once := ?_ }
  · rw [hidle.writtenBlocks, hexpected]
    rfl
  · rw [hidle.writtenBytes, hreceived]
    rfl
  · rw [hidle.writtenBytes, hcrc, Pcutp.crc32_nil]
  · rw [hsince, ← List.nil_append rest]
    exact acksWritten_append _ acksWritten_nil (fun n hn => absurd hn (hnoack n))
  · intro hmem
    rcases List.mem_append.mp hmem with hmem | hmem
    · exact absurd hmem hnone
    · exact absurd (List.mem_cons.mp hmem) (by simp [hnoreplace])
  · rw [List.count_append, List.count_eq_zero.mpr hnone,
      List.count_eq_zero.mpr (by simp [hnoreplace])]
    exact Nat.zero_le _

/-- Bytes stored after one more block, in terms of the block count. -/
theorem received_succ (e bs size : Nat) :
    min (e * bs) size + min bs (size - min (e * bs) size) = min ((e + 1) * bs) size := by
  rw [Nat.add_mul, Nat.one_mul]
  omega

/-- Storing the expected block moves all counters on together. -/
theorem Counts.store
    {events : List RecvEvent} {r r' : Recv} {trace tail : List Effect} {ev : RecvEvent}
    {payload : Bytes}
    (hinv : Counts m events r trace) (hlive : r.Live)
    (hlt : r.expected < m.blocks)
    (hlen : payload.length = min m.blocksize (m.size - r.received))
    (hexpected : r'.expected = r.expected + 1)
    (hreceived : r'.received = r.received + payload.length)
    (hcrc : r'.running = Pcutp.crc32 payload r.running)
    (hphase : r'.phase = .header)
    (htail : ∀ e ∈ tail, ∃ record, e = .rmb record) :
    Counts m (events ++ [ev]) r'
      (trace ++ .write r.expected payload :: .send (.ack r.expected) :: tail) := by
  obtain ⟨hblocks, hlength, hrunning, hnone⟩ := hinv.good hlive
  have hidle : Idle (.send (.ack r.expected) :: tail) := by
    intro e he
    rcases List.mem_cons.mp he with rfl | he
    · exact Or.inl ⟨_, rfl⟩
    · exact Or.inr (Or.inl (htail e he))
  have hnoreplace : Effect.replace ∉ tail := by
    intro hn
    obtain ⟨record, hrec⟩ := htail _ hn
    cases hrec
  have hsince :
      sinceRestart (trace ++ .write r.expected payload :: .send (.ack r.expected) :: tail) =
        sinceRestart trace ++ [.write r.expected payload] ++
          (.send (.ack r.expected) :: tail) := by
    rw [List.append_cons, sinceRestart_append hidle.not_truncate, sinceRestart_concat,
      if_neg (by simp)]
  have hwrote : writtenBlocks (sinceRestart trace ++ [.write r.expected payload]) =
      List.range (r.expected + 1) := by
    rw [writtenBlocks_append, hblocks, List.range_succ]
    rfl
  have hbytes : writtenBytes [.write r.expected payload] = payload := by
    simp [writtenBytes]
  refine
    { expected_le := by rw [hexpected]; exact hlt
      received_eq := by
        rw [hreceived, hexpected, hlen, hinv.received_eq]
        exact received_succ _ _ _
      stored := ⟨_, [], by rw [hsince, List.append_nil], ?_, ?_, ?_, fun h => absurd rfl h⟩
      acks := ?_
      header := fun h' hp => by rw [hphase] at hp; cases hp
      commit := fun hp => by rw [hphase] at hp; cases hp
      returned := fun hp => by rw [hphase] at hp; cases hp
      replaced := ?_
      once := ?_ }
  · rw [writtenBlocks_append, hidle.writtenBlocks, List.append_nil, hwrote, hexpected]
  · rw [writtenBytes_append, hidle.writtenBytes, List.append_nil, writtenBytes_append, hbytes,
      List.length_append, hlength, hreceived]
  · rw [writtenBytes_append, hidle.writtenBytes, List.append_nil, writtenBytes_append, hbytes,
      hcrc, hrunning, Pcutp.crc32_append]
  · rw [hsince]
    refine acksWritten_append _ (acksWritten_concat hinv.acks (fun n hn => by cases hn)) ?_
    intro n hn
    rcases List.mem_cons.mp hn with hn | hn
    · cases hn
      rw [hwrote]
      exact List.mem_range.mpr (Nat.lt_succ_self _)
    · obtain ⟨record, hrec⟩ := htail _ hn
      cases hrec
  · intro hmem
    rcases List.mem_append.mp hmem with hmem | hmem
    · exact absurd hmem hnone
    · simp [hnoreplace] at hmem
  · rw [List.count_append, List.count_eq_zero.mpr hnone,
      List.count_eq_zero.mpr (by simp [hnoreplace])]
    exact Nat.zero_le _

/-- A failed write leaves the counters where they were. -/
theorem Counts.torn
    {events : List RecvEvent} {r r' : Recv} {trace : List Effect} {ev : RecvEvent}
    {bytes : Bytes}
    (hinv : Counts m events r trace) (hlive : r.Live)
    (hplace : SamePlace r r') (hphase : WriteFailed r') :
    Counts m (events ++ [ev]) r'
      (trace ++ [.write r.expected bytes, .send (.err "WRITE".toList)]) := by
  obtain ⟨hblocks, hlength, hrunning, hnone⟩ := hinv.good hlive
  obtain ⟨hexpected, hreceived, hcrc⟩ := hplace
  have hsince :
      sinceRestart (trace ++ [.write r.expected bytes, .send (.err "WRITE".toList)]) =
        sinceRestart trace ++ [.write r.expected bytes, .send (.err "WRITE".toList)] :=
    sinceRestart_append (by simp) trace
  refine
    { expected_le := hexpected ▸ hinv.expected_le
      received_eq := by rw [hreceived, hexpected]; exact hinv.received_eq
      stored := ⟨_, _, hsince, by rw [hblocks, hexpected], by rw [hlength, hreceived],
        by rw [hcrc, hrunning], fun _ => ⟨hphase, bytes, by rw [hexpected]⟩⟩
      acks := ?_
      header := fun h' hp => by rw [hphase] at hp; cases hp
      commit := fun hp => by rw [hphase] at hp; cases hp
      returned := fun hp => by rw [hphase] at hp; cases hp
      replaced := fun hmem => by simp [hnone] at hmem
      once := ?_ }
  · rw [hsince]
    refine acksWritten_append _ hinv.acks (fun n hn => ?_)
    simp at hn
  · rw [List.count_append, List.count_eq_zero.mpr hnone]
    simp

/-- Every step keeps the counters and effects in agreement. -/
theorem counts_step
    {events : List RecvEvent} {r r' : Recv} {trace effects : List Effect} {ev : RecvEvent}
    (hinv : Counts m events r trace)
    (hstep : r.step m ev = some (r', effects)) :
    Counts m (events ++ [ev]) r' (trace ++ effects) := by
  obtain ⟨hlive, hkind⟩ := step_cases hinv.header hstep
  cases hkind with
  | answer replies hplace hplain hacks =>
      obtain ⟨hc, hret, hpay⟩ := plain_ne hplain
      refine hinv.idle hlive hplace (idle_sends replies) ?_
        (fun h' hp => absurd hp (hpay h')) (fun hp => absurd hp hc)
        (fun hp => absurd hp hret) ?_ ?_
      · intro n hn
        obtain ⟨rep, hrep, heq⟩ := List.mem_map.mp hn
        cases heq
        exact hacks n hrep
      · intro hmem
        obtain ⟨rep, _, heq⟩ := List.mem_map.mp hmem
        cases heq
      · rw [List.count_eq_zero.mpr]
        · exact Nat.zero_le _
        · intro hmem
          obtain ⟨rep, _, heq⟩ := List.mem_map.mp hmem
          cases heq
  | frame h hplace hphase hseq =>
      refine hinv.idle hlive hplace (fun e he => absurd he List.not_mem_nil)
        (fun n hn => absurd hn List.not_mem_nil) ?_ ?_ ?_
        (fun hn => absurd hn List.not_mem_nil) (Nat.zero_le _)
      · intro h' hp
        rw [hphase] at hp
        cases hp
        exact hseq
      · intro hp
        rw [hphase] at hp
        cases hp
      · intro hp
        rw [hphase] at hp
        cases hp
  | restart rest h₁ h₂ h₃ hplain hrest =>
      exact hinv.restart hlive h₁ h₂ h₃ hplain hrest
  | store payload tail h₁ h₂ h₃ h₄ h₅ h₆ h₇ =>
      exact hinv.store hlive h₁ h₂ h₃ h₄ h₅ h₆ h₇
  | torn bytes hplace hphase =>
      exact hinv.torn hlive hplace hphase
  | verified header parts hplace hphase hblocks hsize hcrc hparts hlength hdone hword =>
      obtain ⟨hexpected, hreceived, hrunning⟩ := hplace
      refine hinv.idle hlive ⟨hexpected, hreceived, hrunning⟩ (idle_sends [_]) ?_ ?_ ?_ ?_ ?_ ?_
      · intro n hn
        simp at hn
      · intro h' hp
        rw [hphase] at hp
        cases hp
      · intro _
        refine ⟨⟨by rw [hexpected, hblocks], by rw [hreceived, hsize], by rw [hrunning, hcrc]⟩,
          events, header, parts, rfl, hparts, hlength, hdone, by rw [hrunning, hword]⟩
      · intro hp
        rw [hphase] at hp
        cases hp
      · intro hmem
        simp at hmem
      · simp
  | committed hplace hphase hphase' =>
      obtain ⟨hexpected, hreceived, hrunning⟩ := hplace
      obtain ⟨⟨hblocks, hsize, hcrc⟩, hdone⟩ := hinv.commit hphase
      refine hinv.idle hlive ⟨hexpected, hreceived, hrunning⟩ ?_ ?_ ?_ ?_ ?_
        (fun _ => ⟨hphase', rfl⟩) ?_
      · intro e he
        simp only [List.mem_cons, List.not_mem_nil, or_false] at he
        exact Or.inr (Or.inr he)
      · intro n hn
        simp at hn
      · intro h' hp
        rw [hphase'] at hp
        cases hp
      · intro hp
        rw [hphase'] at hp
        cases hp
      · intro _
        refine ⟨⟨by rw [hexpected, hblocks], by rw [hreceived, hsize], by rw [hrunning, hcrc]⟩,
          events, rfl, ?_⟩
        rw [DoneRead, hrunning]
        exact hdone
      · simp

/-- Counters and effects agree after every run. -/
theorem counts_run
    {events : List RecvEvent} {r : Recv} {trace : List Effect}
    (hrun : run m events = some (r, trace)) :
    Counts m events r trace :=
  Machine.run_induction (Counts m) (counts_start m)
    (fun _ _ _ _ _ _ hinv hstep => counts_step hinv hstep) hrun

theorem stores_start (m : AcceptedMeta cfg) (dir : Directory) :
    Stores m.target dir (startEffects m) where
  part := by
    simp [startEffects, applyEffects, Effect.apply, partBytes, Content.bytes?, sinceRestart,
      writtenBytes]
  kept := by
    simp only [startEffects, applyEffects, List.foldl_cons, List.foldl_nil]
    rw [apply_final _ (by simp), apply_final _ (by simp), apply_final _ (by simp)]

/-- `.PART` is opened once, before the loop. -/
theorem StepKind.not_open
    {r r' : Recv} {ev : RecvEvent} {effects : List Effect}
    (h : StepKind m r r' ev effects) :
    Effect.openPart ∉ effects := by
  intro hmem
  cases h with
  | answer replies =>
      obtain ⟨rep, _, heq⟩ := List.mem_map.mp hmem
      cases heq
  | frame => exact absurd hmem List.not_mem_nil
  | restart rest _ _ _ _ hrest =>
      rcases List.mem_cons.mp hmem with heq | hmem
      · cases heq
      · rcases hrest _ hmem with ⟨record, heq⟩ | ⟨rep, heq, _⟩ <;> cases heq
  | store payload tail _ _ _ _ _ _ htail =>
      simp only [List.mem_cons, reduceCtorEq, false_or] at hmem
      obtain ⟨record, heq⟩ := htail _ hmem
      cases heq
  | torn => simp at hmem
  | verified => simp at hmem
  | committed => simp at hmem

/-- Until the rename, the directory holds what the counters say. -/
theorem stores_run
    {events : List RecvEvent} {r : Recv} {trace : List Effect} (dir : Directory)
    (hrun : run m events = some (r, trace)) :
    Counts m events r trace ∧ (Effect.replace ∉ trace → Stores m.target dir trace) := by
  refine Machine.run_induction
    (fun events r trace => Counts m events r trace ∧
      (Effect.replace ∉ trace → Stores m.target dir trace))
    ⟨counts_start m, fun _ => stores_start m dir⟩ ?_ hrun
  rintro events r trace ev r' effects ⟨hcounts, hstores⟩ hstep
  refine ⟨counts_step hcounts hstep, fun hnone => ?_⟩
  have hopen := (step_cases hcounts.header hstep).2.not_open
  rw [List.mem_append, not_or] at hnone
  exact stores_append (hstores hnone.1) hopen hnone.2

/-- After the rename the final name holds what `.PART` held. -/
theorem final_of_rename
    {f : Line} {dir : Directory} {before : List Effect}
    (h : Stores f dir before) :
    applyEffects f dir (before ++ [.replace]) f =
      some (.bytes (writtenBytes (sinceRestart before))) := by
  have hpart := h.part
  rw [applyEffects_concat, Effect.apply, Function.update_of_ne (partName_ne f).symm,
    Function.update_self]
  rw [partBytes, Option.bind_eq_some_iff] at hpart
  obtain ⟨content, hcontent, hbytes⟩ := hpart
  rw [hcontent]
  cases content with
  | bytes b =>
      rw [Content.bytes?, Option.some.injEq] at hbytes
      rw [hbytes]
  | rmb record => cases hbytes

theorem final_of_replace
    {f : Line} {dir : Directory} {before : List Effect}
    (h : Stores f dir before) :
    applyEffects f dir (before ++ [.replace, .unlink]) f =
      some (.bytes (writtenBytes (sinceRestart before))) := by
  rw [List.append_cons, applyEffects_concat, apply_final _ (by simp), final_of_rename h]

/-- A transfer that ended well left what it had written under the final name. -/
theorem final_of_returned
    {events : List RecvEvent} {r : Recv} {trace : List Effect} (dir : Directory)
    (hrun : run m events = some (r, trace)) (hphase : r.phase = .returned true) :
    applyEffects m.target dir trace m.target =
      some (.bytes (writtenBytes (sinceRestart trace))) := by
  obtain ⟨_, front, rfl, _⟩ := (counts_run hrun).returned hphase
  obtain ⟨s, out, s', out', hrun₀, hstep, heq⟩ := Machine.run_concat hrun
  cases heq
  have hcommit : s.phase = .commit ∧ out' = [.replace, .unlink] := by
    simp only [step] at hstep
    split at hstep
    · simp only [if_true, Option.some.injEq, Prod.mk.injEq] at hstep
      exact ⟨‹_›, hstep.2.symm⟩
    · cases hstep
  obtain ⟨hbefore, rfl⟩ := hcommit
  -- The rename was not made before, since nothing follows it.
  have hnone : Effect.replace ∉ out := by
    intro hmem
    have := ((counts_run hrun₀).replaced hmem).1
    rw [hbefore] at this
    cases this
  rw [final_of_replace ((stores_run dir hrun₀).2 hnone), sinceRestart_append (by simp),
    writtenBytes_append]
  simp [writtenBytes]

end Recv

/-- What holds of `_receive` in every state it reaches, for the directory it started in. -/
structure ReceiverInvariant {cfg : ClientConfig} (m : AcceptedMeta cfg) (dir : Directory)
    (events : List RecvEvent) (r : Recv) (trace : List Effect) : Prop where
  expected_le : r.expected ≤ m.blocks
  received_eq : r.received = min (r.expected * m.blocksize) m.size
  /-- Before the rename `.PART` holds the counted bytes; only a failed write adds to them. -/
  part : Effect.replace ∉ trace → ∃ stored torn,
    partBytes m.target (applyEffects m.target dir trace) = some (stored ++ torn) ∧
      stored.length = r.received ∧ r.running = Pcutp.crc32 stored 0 ∧
      (torn ≠ [] → r.WriteFailed)
  /-- An acknowledgement names a block written before it and since the last restart. -/
  acks : AcksWritten (sinceRestart trace)
  nodup : (writtenBlocks (sinceRestart trace)).Nodup
  kept : Effect.replace ∉ trace → applyEffects m.target dir trace m.target = dir m.target
  once : trace.count .replace ≤ 1
  /-- The rename comes right after a DONE that agrees with META and with the stored bytes. -/
  verified : Effect.replace ∈ trace → ∃ before header crc file,
    events = before ++ [.line header true, .commit true] ∧
      split header = ["DONE".toList, crc] ∧ r.expected = m.blocks ∧
      applyEffects m.target dir trace m.target = some (.bytes file) ∧
      file.length = m.size ∧ to_hex (Pcutp.crc32 file 0) = m.crc32 ∧
      to_hex (Pcutp.crc32 file 0) = upper crc

/-- The receiver's invariant, against any peer. -/
theorem receive_invariant
    {cfg : ClientConfig} (m : AcceptedMeta cfg) (dir : Directory)
    (events : List RecvEvent) (r : Recv) (trace : List Effect)
    (hrun : Recv.run m events = some (r, trace)) :
    ReceiverInvariant m dir events r trace := by
  obtain ⟨hcounts, hstores⟩ := Recv.stores_run dir hrun
  obtain ⟨good, bad, hsplit, hblocks, hlength, hrunning, hbad⟩ := hcounts.stored
  have hnodup : (writtenBlocks (sinceRestart trace)).Nodup := by
    rw [hsplit, writtenBlocks_append, hblocks]
    by_cases hnil : bad = []
    · rw [hnil]
      simpa [writtenBlocks] using List.nodup_range
    · obtain ⟨_, bytes, rfl⟩ := hbad hnil
      have hone : writtenBlocks
          [.write r.expected bytes, .send (.err "WRITE".toList)] = [r.expected] := rfl
      rw [hone, ← List.range_succ]
      exact List.nodup_range
  refine
    { expected_le := hcounts.expected_le
      received_eq := hcounts.received_eq
      part := ?_
      acks := hcounts.acks
      nodup := hnodup
      kept := fun hnone => (hstores hnone).kept
      once := hcounts.once
      verified := ?_ }
  · intro hnone
    refine ⟨writtenBytes good, writtenBytes bad, ?_, hlength, hrunning, fun hne => ?_⟩
    · rw [(hstores hnone).part, hsplit, writtenBytes_append]
    · refine (hbad (fun hnil => hne ?_)).1
      rw [hnil]
      rfl
  · intro hmem
    obtain ⟨hphase, _⟩ := hcounts.replaced hmem
    obtain ⟨⟨hexpected, hreceived, hmeta⟩, front, hevents, pre, header, parts, hfront, hparts,
      hlen, hdone, hword⟩ := hcounts.returned hphase
    -- Nothing was written after the last restart but whole blocks.
    have hnil : bad = [] := by
      by_contra hne
      have hfailed := (hbad hne).1
      rw [Recv.WriteFailed, hphase] at hfailed
      cases hfailed
    obtain ⟨d, w, rfl⟩ : ∃ d w, parts = [d, w] := List.length_eq_two.mp hlen
    simp only [word_zero, word_succ] at hdone hword
    refine ⟨pre, header, w, writtenBytes good, ?_, ?_, hexpected, ?_, ?_, ?_, ?_⟩
    · rw [hevents, hfront, List.append_assoc]
      rfl
    · rw [hparts, hdone]
    · rw [Recv.final_of_returned dir hrun hphase, hsplit, hnil, List.append_nil]
    · rw [hlength, hreceived]
    · rw [← hrunning, hmeta]
    · rw [← hrunning, hword]

/-- One letter is a name. -/
theorem shortName_ok :
    sanitize_filename "A".toList = .ok "A".toList := by
  decide +kernel

theorem byteCrc_ok :
    (parse_hex "D3D99E8B".toList).isSome = true := by
  decide +kernel

theorem byteBlock_ok :
    1 ≤ 1 ∧ 1 ≤ 1 :=
  ⟨le_rfl, le_rfl⟩

/-- A one-byte file, as `META A 1 1 1 D3D99E8B` announces it. -/
def oneByteMeta : AcceptedMeta
    { max_block_size := 1, free_space := none, flow := true, compression := false } where
  filename := "A".toList
  size := 1
  blocksize := 1
  blocks := 1
  crc32 := "D3D99E8B".toList
  target := "A".toList
  target_eq := shortName_ok
  crc_ok := byteCrc_ok
  block_ok := byteBlock_ok
  size_ok := by decide
  blocks_eq := by decide
  fits := fun _ h => by cases h

/-- Its transfer, with a damaged frame and a repeated one. -/
def oneByteEvents : List RecvEvent :=
  [.line "DATA 0 1 D3D99E8B".toList true, .payload [66] none,
    .line "DATA 0 1 D3D99E8B".toList true, .payload [65] none,
    .line "DATA 0 1 D3D99E8B".toList true, .payload [65] none,
    .line "DONE D3D99E8B".toList true, .commit true]

theorem receive_invariant_one_byte :
    ∃ r trace, Recv.run oneByteMeta oneByteEvents = some (r, trace) ∧
      Effect.replace ∈ trace ∧
      ReceiverInvariant oneByteMeta (fun _ => none) oneByteEvents r trace := by
  have hrun : ((Recv.run oneByteMeta oneByteEvents).any
      fun last => last.2.contains Effect.replace) = true := by
    decide +kernel
  rw [Option.any_eq_true] at hrun
  obtain ⟨⟨r, trace⟩, hrun, hmem⟩ := hrun
  exact ⟨r, trace, hrun, List.contains_iff_mem.mp hmem,
    receive_invariant oneByteMeta (fun _ => none) oneByteEvents r trace hrun⟩

end Pcutp
