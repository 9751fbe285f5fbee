import Pcutp.StopWait

/-!
# What a verified transfer means

The receiver sends OK when the closed `.PART` agrees with META and DONE, and
renames it afterwards.  So a sender that returns `verified=True` knows that the
other end has the file, not that the file has its final name yet.

`StoreEvent` adds to the steps of a transfer the ways in which the receiver's
file operations can fail: a write that stores a part of its bytes, a `.PART`
that does not close, a rename that raises, and any other operation that cuts a
turn short.
-/

namespace Pcutp

/-- A turn on a command, when closing `.PART` may fail and a write may be torn. -/
def Recv.attempt
    {cfg : ClientConfig} (m : AcceptedMeta cfg) (r : Recv) (c : Command) (closes : Bool)
    (torn : Option Bytes) : Option (Recv × List Effect) :=
  match r.step m (.line c.line closes) with
  | none => none
  | some (r', effects) =>
      match r'.phase with
      | .payload _ => (r'.step m (.payload c.payload torn)).map fun p => (p.1, effects ++ p.2)
      | _ => some (r', effects)

/-- What can happen to a transfer when file operations can fail. -/
inductive StoreEvent
  | line (e : Event)
  /-- The receiver reads a command. -/
  | attempt (closes : Bool) (torn : Option Bytes)
  /-- `os.replace(part, final)` raises. -/
  | replaceFails
  /-- Another file operation raises, after the first `kept` effects of the turn. -/
  | abort (kept : Nat)

namespace Transfer

variable {cfg : ClientConfig}

/-- An `OSError` leaves `_receive`. -/
def abandoned : Client cfg → Client cfg
  | .receiving m r => .receiving m { r with phase := .raised .os }
  | _ => .stopped .os

/-- One step of a transfer whose file operations can fail. -/
def storeStep (job : Job) (s : Transfer cfg) : StoreEvent → Option (Transfer cfg)
  | .line e => s.step job e
  | .attempt closes torn =>
      match s.client, s.commands with
      | .receiving m r, c :: commands =>
          (r.attempt m c closes torn).map fun p =>
            { s with commands }.received (.receiving m p.1, p.2)
      | _, _ => none
  | .replaceFails => (s.client.act (.commit false)).map s.received
  | .abort kept =>
      match s.client.act (.commit true), s.commands with
      | some p, _ => some (s.received (abandoned p.1, p.2.take kept))
      | none, c :: commands =>
          (s.client.read c).map fun p =>
            { s with commands }.received (abandoned p.1, p.2.take kept)
      | none, [] => none

/-- Whatever the line, the clock and the receiver's file system do. -/
def Undergoes (job : Job) : Transfer cfg → Transfer cfg → Prop :=
  Transition.Steps (storeStep job) (fun _ _ => True)

end Transfer

section Sender

variable {job : Job} {s s' : Sender} {out : List Command}

/-- Only OK makes `send_file` return `verified=True`. -/
theorem Sender.ok_of_verified
    {r : Reply} (hr : r.Printable) {late : Bool} {result : TransferResult}
    (h : s.step job (.line r.line late) = some (s', out))
    (hphase : s'.phase = .returned (some result)) (hverified : result.verified = true) :
    r = .ok job.crc := by
  cases hp : s.phase with
  | final =>
      rw [step_final_line hr hp, Option.some.injEq, onFinal] at h
      split at h
      · split at h <;> cases h
        · cases hphase
        · rw [hp] at hphase
          cases hphase
      · cases h
        cases hphase
        simp only [result, decide_eq_true_eq] at hverified
        cases r <;> simp [Reply.words] at hverified
        rw [hverified]
  | block attempt timeouts =>
      have hkind := block_reply hr hp h
      cases hkind <;> cases hphase
  | _ =>
      have hkind := reply_kind hr (by rw [hp]; simp) h
      cases hkind with
      | wait r phase hwait =>
          rw [hp] at hwait
          cases hwait <;> cases hphase
      | failed r s' exc out hbusy hraised =>
          rw [hraised] at hphase
          cases hphase
      | ended r phase hfinal =>
          rw [hp] at hfinal
          cases hfinal
      | _ => cases hphase

/-- `send_file` returns after a read only, and not for want of one. -/
theorem Sender.not_returned_of_timeout
    {p : Sender × List Command} (h : s.step job .timeout = some p)
    (result : Option TransferResult) :
    p.1.phase ≠ .returned result := by
  have hask : ∀ left, (s.ask left).1.phase ≠ .returned result := by
    intro left
    cases left <;> simp [ask]
  have hreset : ∀ left, (s.askReset left).1.phase ≠ .returned result := by
    intro left
    cases left <;> simp [askReset, fail]
  have hbarrier : ∀ reset left, (s.askBarrier reset left).1.phase ≠ .returned result := by
    intro reset left
    cases left <;> simp [askBarrier, fail]
  have hblock : ∀ attempt timeouts,
      (s.onBlockTimeout job attempt timeouts).1.phase ≠ .returned result := by
    intro attempt timeouts
    rw [onBlockTimeout]
    split
    · simp [fail]
    · rw [sendAgain]
      split
      · simp [sendBlock]
      · simp [fail]
  rw [step, onTimeout] at h
  split at h
  · obtain rfl := Option.some.inj h
    simp [raise]
  · obtain rfl := Option.some.inj h
    simp
  · exact Option.some.inj h ▸ hask _
  · exact Option.some.inj h ▸ hask _
  · exact Option.some.inj h ▸ hreset _
  · exact Option.some.inj h ▸ hbarrier _ _
  · exact Option.some.inj h ▸ hblock _ _
  · obtain rfl := Option.some.inj h
    simp [raise]
  · cases h

theorem Sender.not_returned_of_run
    (h : s.step job .run = some (s', out)) (result : Option TransferResult) :
    s'.phase ≠ .returned result := by
  cases hflow : job.session.flow with
  | false =>
      rcases (fill_block hflow h).2 with ⟨_, rfl, _⟩ | ⟨_, rfl, _⟩ <;> simp [sendBlock]
  | true =>
      obtain ⟨hphase, hkind⟩ := fill_kind hflow h
      cases hkind <;> simp [writeFrame, hphase, fail]

/-- What the sender keeps to, with FLOW and without. -/
structure Sender.Sound (job : Job) (s : Sender) : Prop where
  frames : (∀ exc, s.phase ≠ .raised exc) → ∀ seq c, s.frames seq = some c → job.IsFrameOf seq c
  block : ∀ attempt timeouts, s.phase = .block attempt timeouts → s.base < job.blocks

/-- A read with no effect on the cache but to drop frames. -/
theorem Sender.Sound.read
    {reply : Option Reply} (hs : s.Sound job) (h : s.ReadKind job reply s' out) :
    s'.Sound job ∧ ∀ c ∈ out, job.InFlight c := by
  refine ⟨⟨fun hraised seq c hc => ?_, fun attempt timeouts hphase => ?_⟩,
    fun c hc => Or.inr (Or.inr (h.control c hc))⟩
  · exact hs.frames h.not_raised seq c (h.frames hraised seq c hc)
  · exact absurd hphase (h.not_block attempt timeouts)

/-- A read of `_send_block`. -/
theorem Sender.Sound.readBlock
    {reply : Option Reply} (hs : s.Sound job) {attempt timeouts : Nat}
    (hphase : s.phase = .block attempt timeouts) (h : s.BlockKind job reply s' out) :
    s'.Sound job ∧ ∀ c ∈ out, job.InFlight c := by
  have hframes := hs.frames (by rw [hphase]; simp)
  have hnone : ∀ c ∈ ([] : List Command), job.InFlight c := fun _ hc => absurd hc List.not_mem_nil
  cases h with
  | acked => exact ⟨⟨fun _ => hframes, fun _ _ hblock => by cases hblock⟩, hnone⟩
  | again attempt timeouts =>
      have hlt := hs.block _ _ hphase
      have hof : job.IsFrameOf s.base (job.rawFrame s.base) := Or.inl rfl
      refine ⟨⟨fun _ => hframes, fun _ _ _ => hlt⟩, fun c hc => ?_⟩
      rw [List.mem_singleton.mp hc]
      exact Or.inr (Or.inl ⟨_, hof.carries hlt⟩)
  | failed exc hcls hcode =>
      refine ⟨⟨fun _ => hframes, fun _ _ hblock => by cases hblock⟩, fun c hc => ?_⟩
      rw [List.mem_singleton.mp hc]
      refine Or.inr (Or.inr ?_)
      rw [Job.Control, hcode]
      exact isWord_code _
  | refused => exact ⟨⟨fun _ => hframes, fun _ _ hblock => by cases hblock⟩, hnone⟩

/-- What the sender does without a read. -/
theorem Sender.Sound.run
    (hs : s.Sound job) (h : s.step job .run = some (s', out)) :
    s'.Sound job ∧ ∀ c ∈ out, job.InFlight c := by
  cases hflow : job.session.flow with
  | false =>
      obtain ⟨hphase, hfill⟩ := fill_block hflow h
      have hframes := hs.frames (by rw [hphase]; simp)
      rcases hfill with ⟨hlt, rfl, rfl⟩ | ⟨_, rfl, rfl⟩
      · have hof : job.IsFrameOf s.base (job.rawFrame s.base) := Or.inl rfl
        refine ⟨⟨fun _ => hframes, fun _ _ _ => hlt⟩, fun c hc => ?_⟩
        rw [List.mem_singleton.mp hc]
        exact Or.inr (Or.inl ⟨_, hof.carries hlt⟩)
      · refine ⟨⟨fun _ => hframes, fun _ _ hblock => by cases hblock⟩, fun c hc => ?_⟩
        rw [List.mem_singleton.mp hc]
        exact Or.inr (Or.inr rfl)
  | true =>
      obtain ⟨hphase, hkind⟩ := fill_kind hflow h
      have hframes := hs.frames (by rw [hphase]; simp)
      cases hkind with
      | frame frame hframe hblocks =>
          have hof := hframe ▸ isFrameOf_cached hframes
          refine ⟨⟨fun _ seq c hc => ?_, fun _ _ hblock => ?_⟩, fun c hc => ?_⟩
          · dsimp only [writeFrame] at hc
            by_cases hseq : seq = s.next_seq
            · subst hseq
              rw [Function.update_self] at hc
              cases hc
              exact hof
            · rw [Function.update_of_ne hseq] at hc
              exact hframes seq c hc
          · rw [writeFrame, hphase] at hblock
            cases hblock
          · rw [List.mem_singleton.mp hc]
            exact Or.inr (Or.inl ⟨_, hof.carries hblocks⟩)
      | wait =>
          exact ⟨⟨fun _ => hframes, fun _ _ hblock => by cases hblock⟩,
            fun c hc => absurd hc List.not_mem_nil⟩
      | done =>
          refine ⟨⟨fun _ => hframes, fun _ _ hblock => by cases hblock⟩, fun c hc => ?_⟩
          rw [List.mem_singleton.mp hc]
          exact Or.inr (Or.inr rfl)
      | failed exc hcls hmessage hcode =>
          refine ⟨⟨fun _ => hframes, fun _ _ hblock => by cases hblock⟩, fun c hc => ?_⟩
          rw [List.mem_singleton.mp hc]
          refine Or.inr (Or.inr ?_)
          rw [Job.Control, hcode]
          exact isWord_code _

/-- A reply, whatever it is. -/
theorem Sender.Sound.reply
    (hs : s.Sound job) {r : Reply} (hr : r.Printable) {late : Bool}
    (h : s.step job (.line r.line late) = some (s', out)) :
    s'.Sound job ∧ ∀ c ∈ out, job.InFlight c := by
  by_cases hblock : ∃ attempt timeouts, s.phase = .block attempt timeouts
  · obtain ⟨attempt, timeouts, hphase⟩ := hblock
    exact hs.readBlock hphase (block_reply hr hphase h)
  · exact hs.read (reply_kind hr (by simpa using hblock) h)

theorem Sender.Sound.timeout
    (hs : s.Sound job) (h : s.step job .timeout = some (s', out)) :
    s'.Sound job ∧ ∀ c ∈ out, job.InFlight c := by
  by_cases hblock : ∃ attempt timeouts, s.phase = .block attempt timeouts
  · obtain ⟨attempt, timeouts, hphase⟩ := hblock
    exact hs.readBlock hphase (block_timeout hphase h)
  · exact hs.read (timeout_kind (by simpa using hblock) h)

end Sender

section Receiver

variable {cfg : ClientConfig} {job : Job} {m : AcceptedMeta cfg} {r : Recv}

/-- A `.PART` that does not close leaves the turn as it is, or ends it. -/
theorem Recv.onLine_closes
    (header : Line) (closes : Bool) :
    r.onLine m header closes = r.onLine m header true ∨
      r.onLine m header closes = ({ r with phase := .raised .os }, []) := by
  cases closes with
  | true => exact Or.inl rfl
  | false =>
      simp only [onLine]
      split_ifs
      any_goals exact Or.inl rfl
      -- DONE ends the loop, and with it the `with` block of the file.
      exact Or.inr rfl

/-- A torn write leaves the turn as it is, or ends it. -/
theorem Recv.onPayload_torn
    (h : DataHeader) (bytes : Bytes) (torn : Option Bytes) :
    r.onPayload m h bytes torn = r.onPayload m h bytes none ∨
      ∃ r₁ : Recv, ∃ seq stored, r.onPayload m h bytes torn =
        (r₁.raise (StorageError "file write failed"),
          [.write seq stored, .send (.err "WRITE".toList)]) := by
  have hdecoded : ∀ (r : Recv) (plain : Bytes) (length : Nat),
      r.onDecoded m h plain length torn = r.onDecoded m h plain length none ∨
        ∃ r₁ : Recv, ∃ seq stored, r.onDecoded m h plain length torn =
          (r₁.raise (StorageError "file write failed"),
            [.write seq stored, .send (.err "WRITE".toList)]) := by
    intro r plain length
    cases torn with
    | none => exact Or.inl rfl
    | some stored =>
        simp only [onDecoded]
        split_ifs
        · exact Or.inl rfl
        · exact Or.inl rfl
        · exact Or.inl rfl
        · exact Or.inl rfl
        · exact Or.inl rfl
        · exact Or.inr ⟨_, _, _, rfl⟩
  simp only [onPayload]
  split
  · split
    · exact Or.inl rfl
    · exact hdecoded _ _ _
  · exact hdecoded _ _ _

/-- A header that asks for a payload is not answered yet. -/
theorem Recv.onLine_effects_of_payload
    {header : Line} {closes : Bool} {h : DataHeader} (hphase : r.phase = .header)
    (hpayload : (r.onLine m header closes).1.phase = .payload h) :
    (r.onLine m header closes).2 = [] := by
  have hkind : StepKind m r (r.onLine m header closes).1 (.line header closes)
      (r.onLine m header closes).2 := onLine_kind hphase rfl
  generalize (r.onLine m header closes).1 = r' at hkind hpayload
  generalize (r.onLine m header closes).2 = effects at hkind
  cases hkind with
  | frame => rfl
  | answer replies hplace hplain => simp [Plain, hpayload] at hplain
  | restart rest _ _ _ hplain => simp [Plain, hpayload] at hplain
  | store payload tail _ _ _ _ _ hheader => simp [hpayload] at hheader
  | torn bytes hplace hraised => simp [hpayload] at hraised
  | verified header parts hplace hcommit => simp [hpayload] at hcommit

/-- A failed file operation of a turn on a command raises, and sends no OK. -/
theorem Recv.attempt_cases
    {c : Command} {closes : Bool} {torn : Option Bytes} {p : Recv × List Effect}
    (h : r.attempt m c closes torn = some p) :
    r.phase = .header ∧ (r.read m c = some p ∨
      (∃ exc, p.1.phase = .raised exc) ∧ (∀ crc, Effect.send (.ok crc) ∉ p.2) ∧
        (∀ reply ∈ sends p.2, reply.Printable) ∧ Effect.replace ∉ p.2) := by
  have hphase : r.phase = .header := by
    by_contra hne
    have hnone : r.step m (.line c.line closes) = none := by
      rw [step]
      split
      · rename_i heq
        exact absurd heq hne
      · rfl
    rw [attempt, hnone] at h
    cases h
  refine ⟨hphase, ?_⟩
  have hline : ∀ closes, r.step m (.line c.line closes) = some (r.onLine m c.line closes) := by
    intro closes
    simp [step, hphase]
  rw [attempt, hline] at h
  dsimp only at h
  rcases r.onLine_closes (m := m) c.line closes with hsame | hraised
  · rw [hsame] at h
    cases hp : (r.onLine m c.line true).1.phase with
    | payload frame =>
        rw [hp] at h
        rw [read, hline]
        dsimp only at h ⊢
        rw [hp]
        dsimp only
        rw [Option.map_eq_some_iff] at h
        obtain ⟨q, hq, rfl⟩ := h
        simp only [step, hp] at hq ⊢
        split at hq
        · rename_i hlength
          rw [if_pos hlength]
          rw [Option.some.injEq] at hq
          subst hq
          have heffects := onLine_effects_of_payload hphase hp
          rcases (r.onLine m c.line true).1.onPayload_torn (m := m) frame c.payload torn with
            htorn | ⟨r₁, seq, stored, htorn⟩
          · rw [htorn]
            exact Or.inl rfl
          · right
            rw [htorn, heffects]
            refine ⟨⟨_, rfl⟩, by simp, fun reply hreply => ?_, by simp⟩
            rw [show sends ([] ++ [Effect.write seq stored, .send (.err "WRITE".toList)]) =
              [.err "WRITE".toList] from rfl, List.mem_singleton] at hreply
            rw [hreply]
            exact isWord_of_check (by decide)
        · cases hq
    | _ =>
        rw [hp] at h
        left
        rw [read, hline]
        dsimp only
        rw [hp]
        exact h
  · rw [hraised] at h
    cases h
    exact Or.inr ⟨⟨_, rfl⟩, by simp, by simp, by simp⟩

end Receiver

/-- Only the turn on DONE sends OK, and no turn renames the file. -/
theorem Recv.Turn.confirms
    {cfg : ClientConfig} {job : Job} {m : AcceptedMeta cfg} {r r' : Recv} {c : Command}
    {effects : List Effect} (h : Recv.Turn m job r c r' effects) :
    (∀ crc, Effect.send (.ok crc) ∈ effects →
      effects = [.send (.ok crc)] ∧ r.expected = m.blocks ∧ r'.phase = .commit) ∧
    Effect.replace ∉ effects := by
  cases h with
  | verified hblocks =>
      refine ⟨fun crc hmem => ?_, by simp⟩
      have heq : crc = to_hex r.running := by simpa using hmem
      rw [heq]
      exact ⟨rfl, hblocks, rfl⟩
  | frame seq c hc hkind =>
      cases hkind with
      | gap =>
          simp only [onGap]
          split
          · split <;> exact ⟨by simp, by simp⟩
          · exact ⟨by simp, by simp⟩
      | store =>
          simp only [onBlock]
          split <;> exact ⟨by simp, by simp⟩
      | _ => exact ⟨by simp, by simp⟩
  | _ => exact ⟨by simp, by simp⟩

/-- The rename waits for an OK that was sent. -/
theorem Recv.ok_of_commit
    {cfg : ClientConfig} {m : AcceptedMeta cfg} {events : List RecvEvent} {r : Recv}
    {trace : List Effect} (hrun : Recv.run m events = some (r, trace)) (hphase : r.phase = .commit) :
    ∃ crc, Effect.send (.ok crc) ∈ trace := by
  refine (Machine.run_induction
    (fun events r trace => Recv.Counts m events r trace ∧
      (r.phase = .commit → ∃ crc, Effect.send (.ok crc) ∈ trace))
    ⟨Recv.counts_start m, fun hcommit => by cases hcommit⟩ ?_ hrun).2 hphase
  rintro events r trace ev r' effects ⟨hcounts, _⟩ hstep
  refine ⟨Recv.counts_step hcounts hstep, fun hcommit => ?_⟩
  cases (Recv.step_cases hcounts.header hstep).2 with
  | verified header parts =>
      exact ⟨to_hex r.running, List.mem_append_right _ (List.mem_singleton_self _)⟩
  | answer replies hplace hplain => simp [Recv.Plain, hcommit] at hplain
  | restart rest _ _ _ hplain => simp [Recv.Plain, hcommit] at hplain
  | frame _ _ hpayload => simp [hcommit] at hpayload
  | store _ _ _ _ _ _ _ hheader => simp [hcommit] at hheader
  | torn _ _ hraised => simp [hcommit] at hraised
  | committed _ _ hreturned => simp [hcommit] at hreturned

section Confirmed

variable {f : Line} {data : Bytes} {dir : Directory} {trace : List Effect}

/-- What an OK promises: the bytes are in `.PART`, and the rename keeps them. -/
structure Confirmed (f : Line) (data : Bytes) (dir : Directory) (trace : List Effect) : Prop where
  /-- OK comes before the rename. -/
  announced : ∀ before after, trace = before ++ .replace :: after →
    ∃ crc, Effect.send (.ok crc) ∈ before
  /-- When OK is sent, `.PART` holds the file and has not been renamed. -/
  order : ∀ before crc after, trace = before ++ .send (.ok crc) :: after →
    Effect.replace ∉ before ∧ partBytes f (applyEffects f dir before) = some data
  pending : (∃ crc, Effect.send (.ok crc) ∈ trace) → Effect.replace ∉ trace →
    partBytes f (applyEffects f dir trace) = some data
  renamed : Effect.replace ∈ trace → applyEffects f dir trace f = some (.bytes data)

/-- Without OK and rename nothing is promised. -/
theorem Confirmed.of_quiet
    (hok : ∀ crc, Effect.send (.ok crc) ∉ trace) (hreplace : Effect.replace ∉ trace) :
    Confirmed f data dir trace where
  announced := by
    rintro before after rfl
    exact absurd (by simp) hreplace
  order := by
    rintro before crc after rfl
    exact absurd (by simp) (hok crc)
  pending := fun ⟨crc, hmem⟩ => absurd hmem (hok crc)
  renamed := fun hmem => absurd hmem hreplace

/-- The OK that is sent when `.PART` holds the file. -/
theorem Confirmed.confirm
    (hok : ∀ crc, Effect.send (.ok crc) ∉ trace) (hreplace : Effect.replace ∉ trace)
    (hpart : partBytes f (applyEffects f dir trace) = some data) (crc : Line) :
    Confirmed f data dir (trace ++ [.send (.ok crc)]) where
  announced := by
    intro before after heq
    refine absurd ?_ (by simpa using hreplace : Effect.replace ∉ trace ++ [.send (.ok crc)])
    rw [heq]
    simp
  order := by
    intro before crc' after heq
    rcases List.eq_nil_or_concat after with rfl | ⟨after', e, rfl⟩
    · obtain ⟨rfl, _⟩ := List.append_inj' heq rfl
      exact ⟨hreplace, hpart⟩
    · rw [List.concat_eq_append, ← List.cons_append, ← List.append_assoc] at heq
      obtain ⟨rfl, _⟩ := List.append_inj' heq rfl
      exact absurd (by simp) (hok crc')
  pending := by
    intro _ _
    rw [applyEffects_concat]
    exact hpart
  renamed := fun hmem => by simp [hreplace] at hmem

/-- What follows an OK may rename. -/
theorem announced_append
    (hok : ∃ crc, Effect.send (.ok crc) ∈ trace) (hreplace : Effect.replace ∉ trace)
    (tail before after : List Effect) (heq : trace ++ tail = before ++ .replace :: after) :
    ∃ crc, Effect.send (.ok crc) ∈ before := by
  obtain ⟨crc, hmem⟩ := hok
  refine ⟨crc, ?_⟩
  rcases List.append_eq_append_iff.mp heq with ⟨middle, rfl, _⟩ | ⟨middle, htrace, hmiddle⟩
  · exact List.mem_append_left _ hmem
  · cases middle with
    | nil =>
        rw [List.append_nil] at htrace
        exact htrace ▸ hmem
    | cons e middle =>
        rw [List.cons_append, List.cons.injEq] at hmiddle
        refine absurd ?_ hreplace
        rw [htrace, ← hmiddle.1]
        simp

/-- The rename, or what was done of it, keeps the promise. -/
theorem Confirmed.commit
    (h : Confirmed f data dir trace) (hstores : Pcutp.Stores f dir trace)
    (hok : ∃ crc, Effect.send (.ok crc) ∈ trace) (hreplace : Effect.replace ∉ trace)
    (hdata : writtenBytes (sinceRestart trace) = data) (kept : Nat) :
    Confirmed f data dir (trace ++ ([.replace, .unlink] : List Effect).take kept) := by
  have horder : ∀ tail : List Effect, (∀ crc, Effect.send (.ok crc) ∉ tail) →
      ∀ before crc after, trace ++ tail = before ++ .send (.ok crc) :: after →
        Effect.replace ∉ before ∧ partBytes f (applyEffects f dir before) = some data := by
    intro tail htail before crc after heq
    rcases List.append_eq_append_iff.mp heq with ⟨middle, rfl, hmiddle⟩ | ⟨middle, htrace, hmiddle⟩
    · refine absurd ?_ (htail crc)
      rw [hmiddle]
      simp
    · cases middle with
      | nil =>
          refine absurd ?_ (htail crc)
          rw [← List.nil_append tail, ← hmiddle]
          simp
      | cons e middle =>
          rw [List.cons_append, List.cons.injEq] at hmiddle
          rw [← hmiddle.1] at htrace
          exact h.order before crc middle htrace
  match kept with
  | 0 =>
      rw [List.take_zero, List.append_nil]
      exact h
  | 1 =>
      exact
        { announced := announced_append hok hreplace [.replace]
          order := horder [.replace] (by simp)
          pending := fun _ hnone => absurd (by simp) hnone
          renamed := fun _ => by rw [← hdata]; exact Recv.final_of_rename hstores }
  | kept + 2 =>
      rw [List.take_of_length_le (by simp)]
      exact
        { announced := announced_append hok hreplace [.replace, .unlink]
          order := horder [.replace, .unlink] (by simp)
          pending := fun _ hnone => absurd (by simp) hnone
          renamed := fun _ => by rw [← hdata]; exact Recv.final_of_replace hstores }

end Confirmed

section Sound

variable {cfg : ClientConfig} {job : Job} {dir : Directory} {s s' : Transfer cfg}

/-- What holds of every transfer, whatever the line, the clock and the file system do. -/
structure Sound (job : Job) (dir : Directory) (s : Transfer cfg) : Prop where
  sender : s.sender.Sound job
  commands : ∀ c ∈ s.commands, job.InFlight c
  replies : ∀ r ∈ s.replies, r.Printable ∧ Effect.send r ∈ s.trace
  awaiting : ∀ fetching, s.client = .awaiting fetching → fetching = true ∧ s.trace = []
  receiving : ∀ m r, s.client = .receiving m r → m.Matches job ∧
    (r.phase = .header ∨ r.phase = .commit → (∃ events, Recv.run m events = some (r, s.trace)) ∧
      writtenBytes (sinceRestart s.trace) = job.data.take (r.expected * job.block_size))
  waiting : ∀ m r, s.client = .receiving m r → r.phase = .header →
    ∀ crc, Effect.send (.ok crc) ∉ s.trace
  confirmed : Confirmed job.filename.text job.data dir s.trace
  verified : ∀ result, s.sender.phase = .returned (some result) → result.verified = true →
    Effect.send (.ok job.crc) ∈ s.trace

/-- The sender moves. -/
theorem Sound.sent
    (hs : Sound job dir s) {p : Sender × List Command} {replies : List Reply}
    (hp : p.1.Sound job ∧ ∀ c ∈ p.2, job.InFlight c) (hreplies : ∀ r ∈ replies, r ∈ s.replies)
    (hverified : ∀ result, p.1.phase = .returned (some result) → result.verified = true →
      Effect.send (.ok job.crc) ∈ s.trace) :
    Sound job dir ({ s with replies }.sent p) :=
  { hs with
    sender := hp.1
    commands := fun c hc => (List.mem_append.mp hc).elim (hs.commands c) (hp.2 c)
    replies := fun r hr => hs.replies r (hreplies r hr)
    verified := hverified }

/-- A receiver that waits for a header ends its turn. -/
theorem Sound.turned
    (hs : Sound job dir s) {m : AcceptedMeta cfg} {r : Recv} {client : Client cfg}
    {effects : List Effect} {commands : List Command}
    (hclient : s.client = .receiving m r) (hheader : r.phase = .header)
    (hcommands : ∀ c ∈ commands, c ∈ s.commands)
    (hreceiving : ∃ r', client = .receiving m r' ∧
      (r'.phase = .header ∨ r'.phase = .commit →
        (∃ events, Recv.run m events = some (r', s.trace ++ effects)) ∧
          writtenBytes (sinceRestart (s.trace ++ effects)) =
            job.data.take (r'.expected * job.block_size)) ∧
      ∀ crc, Effect.send (.ok crc) ∈ effects →
        effects = [.send (.ok crc)] ∧ r.expected = m.blocks ∧ r'.phase ≠ .header)
    (hsends : ∀ reply ∈ sends effects, reply.Printable)
    (hreplace : Effect.replace ∉ effects) :
    Sound job dir ({ s with commands }.received (client, effects)) := by
  obtain ⟨r', rfl, hrun', hok⟩ := hreceiving
  obtain ⟨hm, hlive⟩ := hs.receiving m r hclient
  obtain ⟨⟨events, hrun⟩, hbytes⟩ := hlive (Or.inl hheader)
  have hquiet := hs.waiting m r hclient hheader
  have hnone : Effect.replace ∉ s.trace :=
    ((Recv.counts_run hrun).good (by simp [Recv.Live, hheader])).2.2.2
  refine
    { sender := hs.sender
      commands := fun c hc => hs.commands c (hcommands c hc)
      replies := fun reply hreply => ?_
      awaiting := fun _ heq => by cases heq
      receiving := fun m' r'' heq => ?_
      waiting := fun m' r'' heq hheader' crc hmem => ?_
      confirmed := ?_
      verified := fun result hphase hverified => ?_ }
  · rcases List.mem_append.mp hreply with hreply | hreply
    · exact ⟨(hs.replies reply hreply).1, List.mem_append_left _ (hs.replies reply hreply).2⟩
    · exact ⟨hsends reply hreply, List.mem_append_right _ (mem_sends.mp hreply)⟩
  · cases heq
    exact ⟨hm, hrun'⟩
  · cases heq
    rcases List.mem_append.mp hmem with hmem | hmem
    · exact hquiet crc hmem
    · exact (hok crc hmem).2.2 hheader'
  · by_cases hsome : ∃ crc, Effect.send (.ok crc) ∈ effects
    · obtain ⟨crc, hmem⟩ := hsome
      obtain ⟨rfl, hblocks, _⟩ := hok crc hmem
      refine Confirmed.confirm hquiet hnone ?_ crc
      rw [← hm.target, ((Recv.stores_run dir hrun).2 hnone).part, hbytes, hblocks, hm.blocks,
        job.take_blocks]
    · refine Confirmed.of_quiet (fun crc hmem => ?_) (fun hmem => ?_)
      · rcases List.mem_append.mp hmem with hmem | hmem
        · exact hquiet crc hmem
        · exact hsome ⟨crc, hmem⟩
      · rcases List.mem_append.mp hmem with hmem | hmem
        · exact hnone hmem
        · exact hreplace hmem
  · exact List.mem_append_left _ (hs.verified result hphase hverified)

/-- A receiver that waits for META ends its turn. -/
theorem Sound.met
    (hs : Sound job dir s) {client : Client cfg} {effects : List Effect}
    {commands : List Command} (hclient : s.client = .awaiting true)
    (hcommands : ∀ c ∈ commands, c ∈ s.commands)
    (hreceiving : (∃ m r, client = .receiving m r ∧ m.Matches job ∧
      (r.phase = .header ∨ r.phase = .commit → r = Recv.start ∧ effects = Recv.startEffects m)) ∨
        ∃ exc, client = .stopped exc)
    (hsends : ∀ reply ∈ sends effects, reply.Printable ∧ ∀ crc, reply ≠ .ok crc)
    (hreplace : Effect.replace ∉ effects) :
    Sound job dir ({ s with commands }.received (client, effects)) := by
  have htrace := (hs.awaiting true hclient).2
  have hok : ∀ crc, Effect.send (.ok crc) ∉ effects := fun crc hmem =>
    (hsends _ (mem_sends.mpr hmem)).2 crc rfl
  refine
    { sender := hs.sender
      commands := fun c hc => hs.commands c (hcommands c hc)
      replies := fun reply hreply => ?_
      awaiting := fun _ heq => ?_
      receiving := fun m r heq => ?_
      waiting := fun m r heq hheader crc hmem => ?_
      confirmed := ?_
      verified := fun result hphase hverified => ?_ }
  · rcases List.mem_append.mp hreply with hreply | hreply
    · exact ⟨(hs.replies reply hreply).1, List.mem_append_left _ (hs.replies reply hreply).2⟩
    · exact ⟨(hsends reply hreply).1, List.mem_append_right _ (mem_sends.mp hreply)⟩
  · rcases hreceiving with ⟨m, r, rfl, _⟩ | ⟨exc, rfl⟩ <;> cases heq
  · rcases hreceiving with ⟨m, r, rfl, hm, hstart⟩ | ⟨exc, rfl⟩
    · cases heq
      refine ⟨hm, fun hlive => ?_⟩
      obtain ⟨rfl, rfl⟩ := hstart hlive
      refine ⟨⟨[], ?_⟩, ?_⟩
      · simp [Transfer.received, htrace, Recv.run, Machine.run]
      · simp [Transfer.received, htrace, Recv.startEffects, sinceRestart, writtenBytes, Recv.start]
    · cases heq
  · rw [Transfer.received, htrace] at hmem
    exact hok crc hmem
  · rw [Transfer.received, htrace]
    exact Confirmed.of_quiet hok hreplace
  · exact List.mem_append_left _ (hs.verified result hphase hverified)

/-- The rename ends, one way or another. -/
theorem Sound.committed
    (hs : Sound job dir s) {m : AcceptedMeta cfg} {r r' : Recv}
    (hclient : s.client = .receiving m r) (hphase : r.phase = .commit)
    (hphase' : r'.phase ≠ .header ∧ r'.phase ≠ .commit) (kept : Nat) :
    Sound job dir (s.received (.receiving m r',
      ([.replace, .unlink] : List Effect).take kept)) := by
  obtain ⟨hm, hlive⟩ := hs.receiving m r hclient
  obtain ⟨⟨events, hrun⟩, hbytes⟩ := hlive (Or.inr hphase)
  have hcounts := Recv.counts_run hrun
  have hnone : Effect.replace ∉ s.trace := (hcounts.good (by simp [Recv.Live, hphase])).2.2.2
  have hdata : writtenBytes (sinceRestart s.trace) = job.data := by
    rw [hbytes, (hcounts.commit hphase).1.1, hm.blocks, job.take_blocks]
  have hstores : Pcutp.Stores job.filename.text dir s.trace :=
    hm.target ▸ (Recv.stores_run dir hrun).2 hnone
  have hsends : sends (([.replace, .unlink] : List Effect).take kept) = [] := by
    rcases kept with _ | _ | kept
    · rfl
    · rfl
    · rw [List.take_of_length_le (by simp)]
      rfl
  refine
    { sender := hs.sender
      commands := hs.commands
      replies := fun reply hreply => ?_
      awaiting := fun _ heq => by cases heq
      receiving := fun m' r'' heq => ?_
      waiting := fun m' r'' heq hheader => ?_
      confirmed := hs.confirmed.commit hstores (Recv.ok_of_commit hrun hphase) hnone hdata kept
      verified := fun result hret hverified =>
        List.mem_append_left _ (hs.verified result hret hverified) }
  · rw [Transfer.received, hsends, List.append_nil] at hreply
    exact ⟨(hs.replies reply hreply).1, List.mem_append_left _ (hs.replies reply hreply).2⟩
  · cases heq
    exact ⟨hm, fun hlive => hlive.elim (absurd · hphase'.1) (absurd · hphase'.2)⟩
  · cases heq
    exact absurd hheader hphase'.1

/-- What a whole turn of the receiver does. -/
theorem Sound.turn
    (hs : Sound job dir s) {m : AcceptedMeta cfg} {r : Recv} {c : Command}
    {p : Recv × List Effect} (hclient : s.client = .receiving m r) (hc : c ∈ s.commands)
    (h : r.read m c = some p) :
    ((∃ events, Recv.run m events = some (p.1, s.trace ++ p.2)) ∧
        writtenBytes (sinceRestart (s.trace ++ p.2)) =
          job.data.take (p.1.expected * job.block_size)) ∧
      (∀ crc, Effect.send (.ok crc) ∈ p.2 →
        p.2 = [.send (.ok crc)] ∧ r.expected = m.blocks ∧ p.1.phase ≠ .header) ∧
      (∀ reply ∈ sends p.2, reply.Printable) ∧ Effect.replace ∉ p.2 := by
  have hheader := Recv.header_of_read h
  obtain ⟨hm, hlive⟩ := hs.receiving m r hclient
  obtain ⟨⟨events, hrun⟩, hbytes⟩ := hlive (Or.inl hheader)
  have hcounts := Recv.counts_run hrun
  obtain ⟨events', hrun'⟩ := run_read hrun h
  by_cases hbarrier : ∀ t, c = .barrier t → cfg.flow = true
  · have hturn : Recv.Turn m job r c p.1 p.2 :=
      Recv.read_turn_of hm hbarrier hcounts.received_eq (hs.commands c hc) h
    obtain ⟨hconfirms, hreplace⟩ := hturn.confirms
    refine ⟨⟨⟨events', hrun'⟩, turn_writes hturn hbytes⟩, fun crc hmem => ?_,
      turn_printable hturn, hreplace⟩
    obtain ⟨heffects, hblocks, hphase⟩ := hconfirms crc hmem
    exact ⟨heffects, hblocks, by rw [hphase]; simp⟩
  · obtain ⟨t, rfl, hflow⟩ : ∃ t, c = .barrier t ∧ cfg.flow = false := by
      simpa using hbarrier
    rw [Recv.read_barrier_refused hheader hflow] at h
    cases h
    refine ⟨⟨⟨events', hrun'⟩, ?_⟩, fun crc hmem => absurd hmem List.not_mem_nil,
      fun reply hreply => absurd hreply List.not_mem_nil, List.not_mem_nil⟩
    rw [List.append_nil]
    exact hbytes

/-- The receiver that waits for META reads it, and may be cut short. -/
theorem Sound.greet
    (hs : Sound job dir s) (hpair : Paired job.session cfg) {c : Command}
    {commands : List Command} {p : Client cfg × List Effect}
    (hclient : s.client = .awaiting true) (hcommands : s.commands = c :: commands)
    (h : s.client.read c = some p) (kept : Nat) :
    Sound job dir ({ s with commands }.received p) ∧
      Sound job dir ({ s with commands }.received (Transfer.abandoned p.1, p.2.take kept)) := by
  have hrest : ∀ c' ∈ commands, c' ∈ s.commands :=
    fun c' hc' => hcommands ▸ List.mem_cons_of_mem _ hc'
  have hread : Client.onMeta cfg true c.line = p := by
    rw [hclient, Client.read, Option.some.injEq] at h
    exact h
  have hflight := hs.commands c (hcommands ▸ List.mem_cons_self)
  obtain ⟨hreceiving, habandoned, hsends, hreplace⟩ :
      ((∃ m r, p.1 = .receiving m r ∧ m.Matches job ∧
        (r.phase = .header ∨ r.phase = .commit → r = Recv.start ∧ p.2 = Recv.startEffects m)) ∨
          ∃ exc, p.1 = .stopped exc) ∧
      ((∃ m r, Transfer.abandoned p.1 = .receiving m r ∧ m.Matches job ∧
        r.phase = .raised .os) ∨ ∃ exc, Transfer.abandoned p.1 = .stopped exc) ∧
      (∀ reply ∈ sends p.2, reply.Printable ∧ ∀ crc, reply ≠ .ok crc) ∧
      Effect.replace ∉ p.2 := by
    rcases onMeta_cases hpair hflight with ⟨m, _, hm, hmeta⟩ | ⟨exc, effects, hmeta, heffects⟩
    · rw [← hread, hmeta]
      refine ⟨Or.inl ⟨m, _, rfl, hm, fun _ => ⟨rfl, rfl⟩⟩, Or.inl ⟨m, _, rfl, hm, rfl⟩,
        fun reply hreply => ?_, by simp [Recv.startEffects]⟩
      rw [List.mem_singleton.mp hreply]
      exact ⟨trivial, by simp⟩
    · rw [← hread, hmeta]
      refine ⟨Or.inr ⟨exc, rfl⟩, Or.inr ⟨.os, rfl⟩, fun reply hreply => ?_, ?_⟩
      · rcases heffects with rfl | ⟨_, code, hcode, rfl⟩
        · exact absurd hreply List.not_mem_nil
        · rw [List.mem_singleton.mp hreply]
          exact ⟨hcode, by simp⟩
      · rcases heffects with rfl | ⟨_, code, hcode, rfl⟩ <;> simp
  refine ⟨hs.met hclient hrest hreceiving hsends hreplace, ?_⟩
  have hsends' : ∀ reply ∈ sends (p.2.take kept), reply.Printable ∧ ∀ crc, reply ≠ .ok crc :=
    fun reply hreply =>
      hsends reply (mem_sends.mpr (List.mem_of_mem_take (mem_sends.mp hreply)))
  have hreplace' : Effect.replace ∉ p.2.take kept := fun hmem =>
    hreplace (List.mem_of_mem_take hmem)
  refine hs.met hclient hrest ?_ hsends' hreplace'
  rcases habandoned with ⟨m, r, heq, hm, hraised⟩ | hstopped
  · exact Or.inl ⟨m, r, heq, hm, fun hlive => by simp [hraised] at hlive⟩
  · exact Or.inr hstopped

/-- The receiver reads a command, and may be cut short. -/
theorem Sound.command
    (hs : Sound job dir s) (hpair : Paired job.session cfg) {c : Command}
    {commands : List Command} {p : Client cfg × List Effect}
    (hcommands : s.commands = c :: commands) (h : s.client.read c = some p) (kept : Nat) :
    Sound job dir ({ s with commands }.received p) ∧
      Sound job dir ({ s with commands }.received (Transfer.abandoned p.1, p.2.take kept)) := by
  have hrest : ∀ c' ∈ commands, c' ∈ s.commands :=
    fun c' hc' => hcommands ▸ List.mem_cons_of_mem _ hc'
  have hc : c ∈ s.commands := hcommands ▸ List.mem_cons_self
  cases hclient : s.client with
  | awaiting fetching =>
      obtain ⟨rfl, _⟩ := hs.awaiting fetching hclient
      exact hs.greet hpair hclient hcommands h kept
  | receiving m r =>
      rw [hclient, Client.read, Option.map_eq_some_iff] at h
      obtain ⟨q, hq, rfl⟩ := h
      have hheader := Recv.header_of_read hq
      obtain ⟨hrun, hok, hsends, hreplace⟩ := hs.turn hclient hc hq
      constructor
      · exact hs.turned hclient hheader hrest ⟨q.1, rfl, fun _ => hrun, hok⟩ hsends hreplace
      · refine hs.turned hclient hheader hrest
          ⟨{ q.1 with phase := .raised .os }, rfl, fun hlive => by simp at hlive, ?_⟩ ?_ ?_
        · intro crc hmem
          obtain ⟨heffects, hblocks, _⟩ := hok crc (List.mem_of_mem_take hmem)
          refine ⟨?_, hblocks, by simp⟩
          dsimp only at hmem ⊢
          rw [heffects] at hmem ⊢
          cases kept with
          | zero => exact absurd hmem List.not_mem_nil
          | succ kept => exact List.take_of_length_le (by simp)
        · exact fun reply hreply =>
            hsends reply (mem_sends.mpr (List.mem_of_mem_take (mem_sends.mp hreply)))
        · exact fun hmem => hreplace (List.mem_of_mem_take hmem)
  | stopped exc =>
      rw [hclient, Client.read] at h
      cases h

/-- The receiver's clock runs out. -/
theorem Sound.giveUp
    (hs : Sound job dir s) {p : Client cfg × List Effect} (h : s.client.act .timeout = some p) :
    Sound job dir (s.received p) := by
  cases hclient : s.client with
  | awaiting fetching =>
      obtain ⟨rfl, _⟩ := hs.awaiting fetching hclient
      rw [hclient] at h
      cases h
      exact hs.met hclient (fun _ hc => hc) (Or.inr ⟨_, rfl⟩)
        (fun _ hreply => absurd hreply List.not_mem_nil) List.not_mem_nil
  | receiving m r =>
      rw [hclient, Client.act, Option.map_eq_some_iff] at h
      obtain ⟨q, hq, rfl⟩ := h
      rw [Recv.step] at hq
      split at hq
      · rename_i hheader
        cases hq
        exact hs.turned hclient hheader (fun _ hc => hc)
          ⟨_, rfl, fun hlive => by simp [Recv.raise] at hlive,
            fun _ hmem => absurd hmem List.not_mem_nil⟩
          (fun _ hreply => absurd hreply List.not_mem_nil) List.not_mem_nil
      · cases hq
  | stopped exc =>
      rw [hclient] at h
      cases h

/-- The rename is made, or raises, or is cut short. -/
theorem Sound.commit
    (hs : Sound job dir s) {done : Bool} {p : Client cfg × List Effect}
    (h : s.client.act (.commit done) = some p) (kept : Nat) :
    Sound job dir (s.received p) ∧
      (done = true → Sound job dir (s.received (Transfer.abandoned p.1, p.2.take kept))) := by
  cases hclient : s.client with
  | awaiting fetching =>
      rw [hclient] at h
      cases h
  | receiving m r =>
      rw [hclient, Client.act, Option.map_eq_some_iff] at h
      obtain ⟨q, hq, rfl⟩ := h
      rw [Recv.step] at hq
      split at hq
      · rename_i hphase
        split at hq
        · cases hq
          exact ⟨hs.committed hclient hphase (by simp) 2,
            fun _ => hs.committed hclient hphase (by simp) kept⟩
        · rename_i hfails
          cases hq
          exact ⟨hs.committed hclient hphase (by simp) 0, fun hdone => absurd hdone hfails⟩
      · cases hq
  | stopped exc =>
      rw [hclient] at h
      cases h

/-- The steps of a transfer over any line. -/
theorem Sound.move
    (hs : Sound job dir s) (hpair : Paired job.session cfg) {e : Event}
    (h : s.step job e = some s') :
    Sound job dir s' := by
  have hline : ∀ {commands : List Command} {replies : List Reply},
      (∀ c ∈ commands, job.InFlight c) → (∀ r ∈ replies, r ∈ s.replies) →
        Sound job dir { s with commands, replies } := fun hcommands hreplies =>
    { hs with
      commands := hcommands
      replies := fun r hr => hs.replies r (hreplies r hr) }
  cases e with
  | run =>
      rw [Transfer.step, Option.map_eq_some_iff] at h
      obtain ⟨p, hp, rfl⟩ := h
      exact hs.sent (hs.sender.run hp) (fun _ hr => hr)
        (fun result hphase => absurd hphase (Sender.not_returned_of_run hp _))
  | timeout =>
      rw [Transfer.step, Option.map_eq_some_iff] at h
      obtain ⟨p, hp, rfl⟩ := h
      exact hs.sent (hs.sender.timeout hp) (fun _ hr => hr)
        (fun result hphase => absurd hphase (Sender.not_returned_of_timeout hp _))
  | reply late =>
      rw [Transfer.step] at h
      split at h
      · cases h
      · rename_i r replies hreplies
        rw [Option.map_eq_some_iff] at h
        obtain ⟨p, hp, rfl⟩ := h
        obtain ⟨hr, hsent⟩ := hs.replies r (hreplies ▸ List.mem_cons_self)
        refine hs.sent (hs.sender.reply hr hp)
          (fun r' hr' => hreplies ▸ List.mem_cons_of_mem _ hr') (fun result hphase hverified => ?_)
        rw [Sender.ok_of_verified hr hp hphase hverified] at hsent
        exact hsent
  | command =>
      rw [Transfer.step] at h
      split at h
      · cases h
      · rename_i c commands hcommands
        rw [Option.map_eq_some_iff] at h
        obtain ⟨p, hp, rfl⟩ := h
        exact (hs.command hpair hcommands hp 0).1
  | commit =>
      rw [Transfer.step, Option.map_eq_some_iff] at h
      obtain ⟨p, hp, rfl⟩ := h
      exact (hs.commit hp 0).1
  | giveUp =>
      rw [Transfer.step, Option.map_eq_some_iff] at h
      obtain ⟨p, hp, rfl⟩ := h
      exact hs.giveUp hp
  | loseCommand i =>
      rw [Transfer.step] at h
      split at h <;> cases h
      exact hline (fun c hc => hs.commands c (List.mem_of_mem_eraseIdx hc)) (fun _ hr => hr)
  | loseReply i =>
      rw [Transfer.step] at h
      split at h <;> cases h
      exact hline hs.commands (fun r hr => List.mem_of_mem_eraseIdx hr)
  | copyCommand i =>
      rw [Transfer.step] at h
      split at h <;> cases h
      exact hline (fun c hc => hs.commands c (Channel.mem_of_mem_copyAt hc)) (fun _ hr => hr)
  | copyReply i =>
      rw [Transfer.step] at h
      split at h <;> cases h
      exact hline hs.commands (fun r hr => Channel.mem_of_mem_copyAt hr)
  | swapCommands i =>
      rw [Transfer.step] at h
      split at h <;> cases h
      exact hline (fun c hc => hs.commands c (Channel.mem_of_mem_swapAt hc)) (fun _ hr => hr)
  | swapReplies i =>
      rw [Transfer.step] at h
      split at h <;> cases h
      exact hline hs.commands (fun r hr => Channel.mem_of_mem_swapAt hr)
  | damage i bytes =>
      rw [Transfer.step] at h
      split at h
      · cases h
      · rename_i c hc
        split at h <;> cases h
        rename_i hdamage
        refine hline (fun c' hc' => ?_) (fun _ hr => hr)
        rcases List.mem_or_eq_of_mem_set hc' with hc' | rfl
        · exact hs.commands c' hc'
        · exact (hs.commands c (List.mem_of_getElem? hc)).damage hdamage.1 hdamage.2.1 hdamage.2.2

/-- Nor do failing file operations break what holds. -/
theorem Sound.storeMove
    (hs : Sound job dir s) (hpair : Paired job.session cfg) {e : StoreEvent}
    (h : s.storeStep job e = some s') :
    Sound job dir s' := by
  cases e with
  | line e => exact hs.move hpair h
  | attempt closes torn =>
      rw [Transfer.storeStep] at h
      split at h
      · rename_i m r c commands hclient hcommands
        rw [Option.map_eq_some_iff] at h
        obtain ⟨p, hp, rfl⟩ := h
        obtain ⟨hheader, hread | ⟨⟨exc, hraised⟩, hok, hsends, hreplace⟩⟩ :=
          Recv.attempt_cases hp
        · have hclientRead : s.client.read c = some (.receiving m p.1, p.2) := by
            simp [hclient, Client.read, hread]
          exact (hs.command hpair hcommands hclientRead 0).1
        · exact hs.turned hclient hheader
            (fun c' hc' => hcommands ▸ List.mem_cons_of_mem _ hc')
            ⟨p.1, rfl, fun hlive => by simp [hraised] at hlive,
              fun crc hmem => absurd hmem (hok crc)⟩ hsends hreplace
      · cases h
  | replaceFails =>
      rw [Transfer.storeStep, Option.map_eq_some_iff] at h
      obtain ⟨p, hp, rfl⟩ := h
      exact (hs.commit hp 0).1
  | abort kept =>
      rw [Transfer.storeStep] at h
      split at h
      · rename_i p hp
        cases h
        exact (hs.commit hp kept).2 rfl
      · rename_i c commands _ hcommands
        rw [Option.map_eq_some_iff] at h
        obtain ⟨p, hp, rfl⟩ := h
        exact (hs.command hpair hcommands hp kept).2
      · cases h

theorem sound_start
    (barrier_id : Nat) (reset_token : Option Line) :
    Sound job dir (Transfer.start cfg job barrier_id reset_token) where
  sender :=
    { frames := fun _ _ _ hc => by cases hc
      block := fun _ _ hphase => by cases hphase }
  commands := fun c hc => Or.inl (List.mem_singleton.mp hc)
  replies := fun _ hr => absurd hr List.not_mem_nil
  awaiting := fun _ heq => by
    cases heq
    exact ⟨rfl, rfl⟩
  receiving := fun _ _ heq => by cases heq
  waiting := fun _ _ heq => by cases heq
  confirmed := Confirmed.of_quiet (fun _ hmem => absurd hmem List.not_mem_nil) List.not_mem_nil
  verified := fun _ hphase => by cases hphase

/-- Verified means received: the bytes are in `.PART` when OK goes out, the rename comes after an
OK, and they are under the final name once it has been made. -/
theorem verified_means_received
    (job : Job) (cfg : ClientConfig) (hpair : Paired job.session cfg) (dir : Directory)
    (barrier_id : Nat) (reset_token : Option Line) (s : Transfer cfg)
    (hruns : Transfer.Undergoes job (Transfer.start cfg job barrier_id reset_token) s) :
    (∀ before crc after, s.trace = before ++ .send (.ok crc) :: after →
      Effect.replace ∉ before ∧
        partBytes job.filename.text (applyEffects job.filename.text dir before) =
          some job.data) ∧
    (∀ before after, s.trace = before ++ .replace :: after →
      ∃ crc, Effect.send (.ok crc) ∈ before) ∧
    ∀ result, s.sender.phase = .returned (some result) → result.verified = true →
      Effect.send (.ok job.crc) ∈ s.trace ∧
        if Effect.replace ∈ s.trace then
          applyEffects job.filename.text dir s.trace job.filename.text = some (.bytes job.data)
        else
          partBytes job.filename.text (applyEffects job.filename.text dir s.trace) =
            some job.data := by
  have hs : Sound job dir s :=
    Transition.Steps.invariant (Sound job dir)
      (fun _ _ _ hs _ hstep => hs.storeMove hpair hstep) hruns
      (sound_start barrier_id reset_token)
  refine ⟨hs.confirmed.order, hs.confirmed.announced, fun result hphase hverified => ?_⟩
  have hok := hs.verified result hphase hverified
  refine ⟨hok, ?_⟩
  split
  · rename_i hmem
    exact hs.confirmed.renamed hmem
  · rename_i hnone
    exact hs.confirmed.pending ⟨_, hok⟩ hnone

end Sound

section Small

/-- The transfer of one byte up to the reply that makes it verified, and then `e`. -/
def verifiedThen (e : StoreEvent) : List StoreEvent :=
  ([.command, .reply false, .run, .run, .command, .reply false, .run, .command,
    .reply false] : List Event).map .line ++ [e]

/-- The receiver has raised an `OSError`. -/
def Transfer.breaks {cfg : ClientConfig} (s : Transfer cfg) : Bool :=
  match s.client with
  | .receiving _ r => match r.phase with
    | .raised .os => true
    | _ => false
  | _ => false

/-- Verified, and yet there is no file of that name: the rename raised after OK. -/
theorem verified_without_file :
    ∃ (s : Transfer smallClient) (result : TransferResult),
      Transfer.Undergoes (smallJob [65]) (Transfer.start smallClient (smallJob [65]) 0 none) s ∧
        s.sender.phase = .returned (some result) ∧ result.verified = true ∧
        (∃ m r, s.client = .receiving m r ∧ r.phase = .raised .os) ∧
        applyEffects "A".toList (fun _ => none) s.trace "A".toList = none := by
  have hrun : (Transition.exec (Transfer.storeStep (smallJob [65])) (fun _ _ => True)
      (Transfer.start smallClient (smallJob [65]) 0 none) (verifiedThen .replaceFails)).any
        (fun s => s.returns (·.verified) && s.breaks &&
          (applyEffects "A".toList (fun _ => none) s.trace "A".toList).isNone) = true := by
    decide +kernel
  rw [Option.any_eq_true] at hrun
  obtain ⟨s, hexec, hend⟩ := hrun
  simp only [Bool.and_eq_true, Option.isNone_iff_eq_none] at hend
  obtain ⟨⟨hverified, hraised⟩, hnone⟩ := hend
  obtain ⟨result, hphase, hresult⟩ := Transfer.exists_of_returns hverified
  rw [Transfer.breaks] at hraised
  split at hraised
  · rename_i m r hclient
    split at hraised
    · exact ⟨s, result, .of_exec hexec, hphase, hresult, ⟨m, r, hclient, ‹_›⟩, hnone⟩
    · cases hraised
  · cases hraised

/-- The same transfer with its rename, which comes after OK. -/
theorem verified_means_received_one_byte :
    ∃ s : Transfer smallClient,
      (∃ before after crc, s.trace = before ++ .replace :: after ∧
        Effect.send (.ok crc) ∈ before) ∧
      Effect.send (.ok (smallJob [65]).crc) ∈ s.trace ∧
      applyEffects "A".toList (fun _ => none) s.trace "A".toList = some (.bytes [65]) := by
  have hrun : (Transition.exec (Transfer.storeStep (smallJob [65])) (fun _ _ => True)
      (Transfer.start smallClient (smallJob [65]) 0 none) (verifiedThen (.line .commit))).any
        (fun s => s.returns (·.verified) && s.trace.contains .replace) = true := by
    decide +kernel
  rw [Option.any_eq_true] at hrun
  obtain ⟨s, hexec, hend⟩ := hrun
  simp only [Bool.and_eq_true] at hend
  obtain ⟨hverified, hreplace⟩ := hend
  obtain ⟨result, hphase, hresult⟩ := Transfer.exists_of_returns hverified
  obtain ⟨_, hannounced, hreceived⟩ := verified_means_received (smallJob [65]) smallClient small_paired
    (fun _ => none) 0 none s (.of_exec hexec)
  obtain ⟨hok, hfile⟩ := hreceived result hphase hresult
  have hmem := List.contains_iff_mem.mp hreplace
  rw [if_pos hmem] at hfile
  obtain ⟨before, after, hsplit⟩ := List.append_of_mem hmem
  obtain ⟨crc, hbefore⟩ := hannounced before after hsplit
  exact ⟨s, ⟨before, after, crc, hsplit, hbefore⟩, hok, hfile⟩

end Small

end Pcutp
