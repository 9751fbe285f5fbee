import Pcutp.Complete
import Pcutp.Picocalc.Call
import Pcutp.Picocalc.Contents
import Pcutp.Picocalc.Saved
import Pcutp.Picocalc.Spelling
import Pcutp.Recovery
import Pcutp.Storage

/-!
# The server and the firmware on one line

`send_file` on one side and the data loop of `PCUTP.BAS` on the other, with a
line between them that may lose, repeat, reorder and damage what it carries, and
a drive behind the firmware.  The program does the statements of a turn one
after the other, and the server can move between any two of them.  Every run is
mirrored by a transfer to `_receive`, which reads the same bytes; so the drive
holds what `_receive` would have written, and a file that the server takes for
verified is on the drive.
-/

namespace Pcutp.Picocalc

open Channel (copyAt swapAt)

section Defs

/-- The sender, the commands on the line, the program with the bytes that it has not read, what
its turn has still to do, its lines on the way back, and everything that it has done since META. -/
structure Wired where
  sender : Sender
  commands : List Command
  pico : State
  pending : List Effect
  lines : List Line
  out : List Effect

/-- What can happen next. -/
inductive WiredEvent
  /-- The sender does what needs no read. -/
  | run
  /-- A read of the sender times out. -/
  | timeout
  /-- The sender reads a line, perhaps when its deadline has passed. -/
  | reply (late : Bool)
  /-- The bytes of a command come in, all of them. -/
  | arrive
  /-- A turn of the data loop. -/
  | tick (now : Nat)
  /-- The program does the next statement of its turn. -/
  | perform
  | loseCommand (i : Nat)
  | loseLine (i : Nat)
  | copyCommand (i : Nat)
  | copyLine (i : Nat)
  | swapCommands (i : Nat)
  | swapLines (i : Nat)
  /-- The payload of a frame is overwritten. -/
  | damage (i : Nat) (bytes : Bytes)

namespace Wired

/-- The program has read META, which may come again. -/
def start (nums : Numbers) (job : Job) (g : Globals) (now again barrier_id : Nat)
    (reset_token : Option Line) : Wired where
  sender := Sender.start barrier_id reset_token
  commands := List.replicate again job.announcement
  pico := begun nums g now job.announcement.line
  pending := (afterMeta nums g now job.announcement.line).out
  lines := []
  out := []

/-- The sender has moved. -/
def sent (s : Wired) (p : Sender × List Command) : Wired :=
  { s with
    sender := p.1
    commands := s.commands ++ p.2 }

/-- The program has had a turn, and knows what to do. -/
def ticked (s : Wired) (p : State × List Effect) : Wired :=
  { s with
    pico := p.1
    pending := p.2 }

/-- The program has done some of it. -/
def performed (s : Wired) (done pending : List Effect) : Wired :=
  { s with
    pending
    lines := s.lines ++ sentLines done
    out := s.out ++ done }

/-- One step of the system. -/
def step (nums : Numbers) (job : Job) (s : Wired) : WiredEvent → Option Wired
  | .run => (s.sender.step job .run).map s.sent
  | .timeout => (s.sender.step job .timeout).map s.sent
  | .reply late =>
      match s.lines with
      | [] => none
      | line :: lines => (s.sender.step job (.line line late)).map { s with lines }.sent
  | .arrive =>
      match s.commands with
      | [] => none
      | c :: commands =>
          some { s with commands, pico := { s.pico with queue := s.pico.queue ++ onWire c } }
  | .tick now =>
      if s.pending = [] then
        (dataStep nums s.pico { now, arrived := [], key := none }).map s.ticked
      else
        none
  | .perform =>
      match s.pending with
      | [] => none
      | e :: pending => some (s.performed [e] pending)
  | .loseCommand i => some { s with commands := s.commands.eraseIdx i }
  | .loseLine i => some { s with lines := s.lines.eraseIdx i }
  | .copyCommand i => some { s with commands := copyAt s.commands i }
  | .copyLine i => some { s with lines := copyAt s.lines i }
  | .swapCommands i => some { s with commands := swapAt s.commands i }
  | .swapLines i => some { s with lines := swapAt s.lines i }
  | .damage i bytes =>
      match s.commands[i]? with
      | none => none
      | some c =>
          if c.isFrame = true ∧ bytes.length = c.payload.length ∧
              ¬ (c.withPayload bytes).Intact then
            some { s with commands := s.commands.set i (c.withPayload bytes) }
          else
            none

/-- The tokens of the sender are short enough for a line of `RecvLine$`. -/
def Short (s : Wired) (_ : WiredEvent) : Prop :=
  (Command.barrier s.sender.barrier_id).line.length ≤ 250

instance (s : Wired) (e : WiredEvent) : Decidable (s.Short e) :=
  inferInstanceAs (Decidable ((Command.barrier s.sender.barrier_id).line.length ≤ 250))

/-- What the system can do from a state. -/
def Leads (nums : Numbers) (job : Job) : Wired → Wired → Prop :=
  Transition.Steps (step nums job) Short

end Wired

/-- The file of the server is on the drive, under its name or still as `.PART`. -/
def HasCopy (job : Job) (name : Line) (d : Disk) : Prop :=
  d.files (entry (dest name)) = some (.data job.data) ∨
    d.files (entry (dest name ++ ".PART".toList)) = some (.data job.data)

variable {cfg : ClientConfig}

/-- A transfer to `_receive` that the system mirrors, and the drive behind the program as it is
when its turn is done. -/
structure Mirrors (job : Job) (m : AcceptedMeta cfg) (name : Line) (d₀ : Disk) (s : Wired)
    (t : Transfer cfg) (f : Fed) (d : Disk) : Prop where
  genuine : Genuine job t
  holds : Holds job t
  sender : t.sender = s.sender
  written : ∀ c ∈ t.commands, Written job s.sender.barrier_id c
  lines : ∀ line ∈ s.lines, Effect.send line ∈ s.out
  printable : ∀ line, Effect.send line ∈ s.out ++ s.pending →
    ∃ r : Reply, r.Printable ∧ r.line = line
  agrees : Agrees m f s.pico
  spells : Spells m f s.pico.queue s.commands t
  fn : s.pico.g.fn = name
  peerDone : s.pico.g.peerDone = false
  after : d₀.after (s.out ++ s.pending) = some d
  onDrive : OnDrive s.pico d
  part : receiving s.pico.place = true →
    d.files (entry (partPath s.pico.g)) = some (.data (writtenBytes (sinceRestart t.trace)))
  saved : confirms (s.out ++ s.pending) = true →
    receiving s.pico.place = false ∧ d.files (entry (dest name)) = some (.data job.data)
  held : ∀ d₁, d₀.after s.out = some d₁ → confirms (s.out ++ s.pending) = true →
    d₁.Cuts (HasCopy job name) s.pending
  verdict : ∀ result, s.sender.phase = .returned (some result) → result.verified = true →
    confirms s.out = true

end Defs

section Traces

variable {cfg : ClientConfig} {m : AcceptedMeta cfg}

/-- `_receive` opens `.PART` once, when it accepts META. -/
theorem opens_run
    {events : List RecvEvent} {r : Recv} {trace : List Pcutp.Effect}
    (hrun : Recv.run m events = some (r, trace)) :
    trace.count .openPart = 1 := by
  have hboth : Recv.Counts m events r trace ∧ trace.count .openPart = 1 := by
    refine Machine.run_induction
      (fun events r trace => Recv.Counts m events r trace ∧ trace.count .openPart = 1)
      ⟨Recv.counts_start m, rfl⟩ ?_ hrun
    rintro events r trace ev r' effects ⟨hcounts, hone⟩ hstep
    refine ⟨Recv.counts_step hcounts hstep, ?_⟩
    have hnone : Pcutp.Effect.openPart ∉ effects := by
      obtain ⟨-, hkind⟩ := Recv.step_cases hcounts.header hstep
      cases hkind with
      | restart rest hexpected hreceived hrunning hplain hrest =>
          intro hmem
          rcases hrest _ ((List.mem_cons.mp hmem).resolve_left Pcutp.Effect.noConfusion) with
            ⟨_, heq⟩ | ⟨_, heq, _⟩
          · cases heq
          · cases heq
      | store payload tail hlt hlen hexpected hreceived hrunning hheader htail =>
          simp only [List.mem_cons, reduceCtorEq, false_or]
          intro hmem
          obtain ⟨_, heq⟩ := htail _ hmem
          cases heq
      | _ => simp
    rw [List.count_append, hone, List.count_eq_zero.mpr hnone]
  exact hboth.2

/-- What the acts make of the partial file. -/
theorem grown_acts
    {effects : List Pcutp.Effect} (hopen : Pcutp.Effect.openPart ∉ effects)
    (trace : List Pcutp.Effect) :
    (effects.filterMap act?).foldl grown (writtenBytes (sinceRestart trace)) =
      writtenBytes (sinceRestart (trace ++ effects)) := by
  induction effects using List.reverseRecOn with
  | nil =>
      rw [List.append_nil]
      rfl
  | append_singleton effects e ih =>
      rw [List.mem_append, not_or, List.mem_singleton] at hopen
      rw [List.filterMap_append, List.foldl_append, ih hopen.1, ← List.append_assoc,
        sinceRestart_concat]
      cases e with
      | openPart => exact absurd rfl hopen.2
      | truncate => rfl
      | rmb record =>
          have hnone : [Pcutp.Effect.rmb record].filterMap act? = [] := rfl
          simp [hnone, writtenBytes]
      | unlink =>
          have hnone : [Pcutp.Effect.unlink].filterMap act? = [] := rfl
          simp [hnone, writtenBytes]
      | _ => simp [act?, grown, writtenBytes]

theorem grown_of_talks
    {out : List Effect} (h : talks out = true) (part : Bytes) :
    (out.filterMap Effect.act?).foldl grown part = part := by
  induction out with
  | nil => rfl
  | cons e out ih =>
      have hone := List.all_eq_true.mp h e List.mem_cons_self
      have hrest := ih (List.all_eq_true.mpr fun e' he' =>
        List.all_eq_true.mp h e' (List.mem_cons_of_mem _ he'))
      cases e with
      | send line => exact (grown_cons_send line out part).trans hrest
      | «show» line => exact hrest
      | _ => cases hone

theorem grown_replacing (g : Globals) (reply : Line) (part : Bytes) :
    ((replacing g reply).filterMap Effect.act?).foldl grown part = part :=
  grown_cons_send reply _ part

end Traces

section Spelled

variable {cfg : ClientConfig} {job : Job} {m : AcceptedMeta cfg} {f : Fed} {queue : Bytes}
  {rest : List Command} {t : Transfer cfg}

theorem Written.inFlight
    {id : Nat} {c : Command} (h : Written job id c) :
    job.InFlight c := by
  cases h with
  | announcement => exact Or.inl rfl
  | frame hc => exact Or.inr (Or.inl ⟨_, hc⟩)
  | done => exact Or.inr (Or.inr rfl)
  | err cls => exact Or.inr (Or.inr (Sender.isWord_code cls))
  | _ => exact Or.inr (Or.inr trivial)

/-- Bytes that come in change nothing else. -/
theorem Agrees.arrive
    {st : State} (h : Agrees m f st) (queue : Bytes) :
    Agrees m f { st with queue } := by
  cases h with
  | waits hphase hplace hs halike => exact .waits hphase hplace hs halike
  | reads hphase hplace hgot hlt hbuf hframed halike =>
      exact .reads hphase hplace hgot hlt hbuf hframed halike
  | returned hphase hnot hrunning => exact .returned hphase hnot hrunning
  | raised hphase hplace hhow => exact .raised hphase hplace hhow

theorem Spells.client
    (h : Spells m f queue rest t) :
    ∃ r, t.client = .receiving m r := by
  cases h with
  | between ported hclient => exact ⟨_, hclient⟩
  | within c ported hclient => exact ⟨_, hclient⟩
  | ended ported hclient => exact ⟨_, hclient⟩

/-- The bytes of the next command come in. -/
theorem Spells.arrive
    {c : Command} (h : Spells m f queue (c :: rest) t) :
    Spells m f (queue ++ onWire c) rest t := by
  have hsplit : ∀ ported : List Command, ported ++ c :: rest = (ported ++ [c]) ++ rest :=
    fun ported => List.append_cons ported c rest
  have hone : [c].flatMap onWire = onWire c := List.flatMap_singleton ..
  cases h with
  | between ported hclient hphase hcommands hbytes hlf =>
      refine .between (ported ++ [c]) hclient hphase (hcommands.trans (hsplit ported)) ?_ hlf
      rw [← List.append_assoc, hbytes, List.flatMap_append, hone]
  | within c' ported hclient hheader hline hphase hlen hcommands hbytes =>
      refine .within c' (ported ++ [c]) hclient hheader hline hphase hlen
        (hcommands.trans (congrArg (c' :: ·) (hsplit ported))) ?_
      rw [← List.append_assoc, hbytes, List.flatMap_append, hone, List.append_assoc]
  | ended ported hclient hover hcommands =>
      exact .ended (ported ++ [c]) hclient hover (hcommands.trans (hsplit ported))

/-- What happens to the commands whose bytes have not come. -/
theorem Spells.exchange
    (h : Spells m f queue rest t) (rest' : List Command) :
    ∃ ported, t.commands = ported ++ rest ∧
      Spells m f queue rest' { t with commands := ported ++ rest' } := by
  cases h with
  | between ported hclient hphase hcommands hbytes hlf =>
      exact ⟨ported, hcommands, .between ported hclient hphase rfl hbytes hlf⟩
  | within c ported hclient hheader hline hphase hlen hcommands hbytes =>
      exact ⟨c :: ported, hcommands, .within c ported hclient hheader hline hphase hlen rfl hbytes⟩
  | ended ported hclient hover hcommands =>
      exact ⟨ported, hcommands, .ended ported hclient hover rfl⟩

end Spelled

section Steps

variable {cfg : ClientConfig} {job : Job} {m : AcceptedMeta cfg} {name : Line} {d₀ d : Disk}
  {s : Wired} {t : Transfer cfg} {f : Fed} {nums : Numbers}

/-- The line has its way with the commands. -/
theorem Mirrors.exchange
    (h : Mirrors job m name d₀ s t f d) {commands : List Command}
    (hall : ∀ c ∈ commands, Written job s.sender.barrier_id c) :
    ∃ t', Mirrors job m name d₀ { s with commands } t' f d := by
  obtain ⟨ported, hcommands, hspells⟩ := h.spells.exchange commands
  have hwritten : ∀ c ∈ ported ++ commands, Written job s.sender.barrier_id c := by
    intro c hc
    rcases List.mem_append.mp hc with hc | hc
    · exact h.written c (hcommands ▸ List.mem_append_left _ hc)
    · exact hall c hc
  have hgenuine : Genuine job { t with commands := ported ++ commands } :=
    { h.genuine with commands := fun c hc => (hwritten c hc).inFlight }
  exact ⟨_, { h with genuine := hgenuine, written := hwritten, spells := hspells }⟩

theorem Mirrors.waiting
    (h : Mirrors job m name d₀ s t f d) :
    ∀ c ∈ s.commands, Written job s.sender.barrier_id c := by
  obtain ⟨ported, hcommands, -⟩ := h.spells.exchange []
  exact fun c hc => h.written c (hcommands ▸ List.mem_append_right _ hc)

/-- The line has its way with the lines of the program. -/
theorem Mirrors.onLines
    (h : Mirrors job m name d₀ s t f d) {lines : List Line}
    (hall : ∀ line ∈ lines, line ∈ s.lines) :
    Mirrors job m name d₀ { s with lines } t f d :=
  { h with lines := fun line hline => h.lines line (hall line hline) }

theorem Mirrors.arrive
    (h : Mirrors job m name d₀ s t f d) {c : Command} {commands : List Command}
    (hcommands : s.commands = c :: commands) :
    Mirrors job m name d₀
      { s with commands, pico := { s.pico with queue := s.pico.queue ++ onWire c } } t f d := by
  have hspells : Spells m f s.pico.queue (c :: commands) t := hcommands ▸ h.spells
  exact
    { h with
      spells := hspells.arrive
      agrees := h.agrees.arrive _
      onDrive := ⟨h.onDrive.maxblk, h.onDrive.placed⟩ }

/-- The sender moves. -/
theorem Mirrors.sent
    (h : Mirrors job m name d₀ s t f d) {p : Sender × List Command} (hg : Genuine job (t.sent p))
    (hid : s.sender.barrier_id ≤ p.1.barrier_id)
    (hout : ∀ c ∈ p.2, Written job p.1.barrier_id c)
    (hverdict : ∀ result, p.1.phase = .returned (some result) → result.verified = true →
      confirms s.out = true) :
    ∃ t', Mirrors job m name d₀ (s.sent p) t' f d := by
  have hgenuine : Genuine job { t with sender := p.1 } :=
    ⟨h.genuine.commands, h.genuine.replies, hg.frames, hg.block, h.genuine.awaiting,
      h.genuine.receiving⟩
  have hspells : Spells m f s.pico.queue s.commands { t with sender := p.1 } := by
    cases h.spells with
    | between ported hclient hphase hcommands hbytes hlf =>
        exact .between ported hclient hphase hcommands hbytes hlf
    | within c ported hclient hheader hline hphase hlen hcommands hbytes =>
        exact .within c ported hclient hheader hline hphase hlen hcommands hbytes
    | ended ported hclient hover hcommands => exact .ended ported hclient hover hcommands
  have hmoved : Mirrors job m name d₀ { s with sender := p.1 } { t with sender := p.1 } f d :=
    { h with
      genuine := hgenuine
      holds := h.holds
      sender := rfl
      written := fun c hc => (h.written c hc).mono hid
      spells := hspells
      verdict := hverdict }
  refine hmoved.exchange fun c hc => ?_
  rcases List.mem_append.mp hc with hc | hc
  · exact (h.waiting c hc).mono hid
  · exact hout c hc

theorem confirms_of_mem
    {out : List Effect} {line : Line} (hline : begins "OK " line = true)
    (h : Effect.send line ∈ out) :
    confirms out = true :=
  List.any_eq_true.mpr ⟨_, h, hline⟩

/-- The sender reads a line of the program. -/
theorem Mirrors.reply
    (hflow : job.session.flow = true) (h : Mirrors job m name d₀ s t f d) {late : Bool} {line : Line}
    {p : Sender × List Command} (hline : line ∈ s.lines)
    (hstep : s.sender.step job (.line line late) = some p) :
    ∃ t', Mirrors job m name d₀ (s.sent p) t' f d := by
  have hsent := h.lines line hline
  obtain ⟨r, hr, rfl⟩ := h.printable line (List.mem_append_left _ hsent)
  rw [← h.sender] at hstep
  have hkind := Sender.reply_kind hr h.genuine.block hstep
  refine h.sent (h.genuine.read hkind) (h.sender ▸ hkind.tokens.1) (written_read hkind) ?_
  intro result hphase hverified
  obtain rfl := verified_of_read hr hflow h.genuine.block hstep hphase hverified
  exact confirms_of_mem rfl hsent

/-- The sender moves on its own. -/
theorem Mirrors.run
    (hflow : job.session.flow = true) (h : Mirrors job m name d₀ s t f d)
    {p : Sender × List Command} (hstep : s.sender.step job .run = some p) :
    ∃ t', Mirrors job m name d₀ (s.sent p) t' f d := by
  rw [← h.sender] at hstep
  obtain ⟨hphase, hkind⟩ := Sender.fill_kind hflow hstep
  have hframes := h.genuine.frames (by rw [hphase]; simp)
  obtain ⟨hid, hout⟩ := written_fill hframes hkind
  refine h.sent (h.genuine.move (.fill p hphase hkind)) (h.sender ▸ hid.ge) (hid ▸ hout) ?_
  exact fun result hphase' => absurd hphase' (Sender.not_returned_of_run hstep _)

theorem Mirrors.timeout
    (h : Mirrors job m name d₀ s t f d) {p : Sender × List Command}
    (hstep : s.sender.step job .timeout = some p) :
    ∃ t', Mirrors job m name d₀ (s.sent p) t' f d := by
  rw [← h.sender] at hstep
  have hkind := Sender.timeout_kind h.genuine.block hstep
  refine h.sent (h.genuine.read hkind) (h.sender ▸ hkind.tokens.1) (written_read hkind) ?_
  exact fun result hphase => absurd hphase (Sender.not_returned_of_timeout hstep _)

end Steps

section Ticks

variable {cfg : ClientConfig} {job : Job} {m : AcceptedMeta cfg} {name : Line} {d₀ d : Disk}
  {s : Wired} {t t' : Transfer cfg} {f f' : Fed} {nums : Numbers} {st' : State} {rest : List Command}
  {effects : List Pcutp.Effect} {out : List Effect}

theorem Reads.both
    (hpair : Paired job.session cfg) (hflow : job.session.flow = true) (h : Reads job t t' effects)
    (hg : Genuine job t) (hholds : Holds job t) :
    Genuine job t' ∧ Holds job t' := by
  refine Transition.Steps.invariant (fun t => Genuine job t ∧ Holds job t) ?_ h.leads ⟨hg, hholds⟩
  rintro t e t' ⟨hg, hholds⟩ _ hstep
  have hmove := step_move hpair hflow hg hstep
  exact ⟨hg.move hmove, hholds.move hg hmove⟩

/-- `_receive` does not open `.PART` again. -/
theorem Reads.not_open
    (h : Reads job t t' effects) (hg : Genuine job t) (hg' : Genuine job t') {r r' : Recv}
    (hclient : t.client = .receiving m r) (hclient' : t'.client = .receiving m r') :
    Pcutp.Effect.openPart ∉ effects := by
  obtain ⟨_, events, hrun⟩ := hg.receiving m r hclient
  obtain ⟨_, events', hrun'⟩ := hg'.receiving m r' hclient'
  have hone := opens_run hrun'
  rw [h.trace, List.count_append, opens_run hrun] at hone
  exact List.count_eq_zero.mp (by omega)

/-- What a tick makes of the partial file is what `_receive` makes of it. -/
theorem Ticked.grown
    (h : Ticked job m rest t t' f' st' effects out) (hopen : Pcutp.Effect.openPart ∉ effects) :
    (out.filterMap Effect.act?).foldl grown (writtenBytes (sinceRestart t.trace)) =
      writtenBytes (sinceRestart t'.trace) := by
  rw [h.reads.trace]
  rcases h.acts with hacts | ⟨rfl, rfl⟩
  · rw [hacts, grown_acts hopen]
  · rw [List.append_nil]
    rfl

/-- The lines that a tick sends are replies. -/
theorem Ticked.printable
    (h : Ticked job m rest t t' f' st' effects out) (hg' : Genuine job t')
    (hcalm : out.all Effect.calm = true) {line : Line} (hline : Effect.send line ∈ out) :
    ∃ r : Reply, r.Printable ∧ r.line = line := by
  rcases h.acts with hacts | ⟨rfl, rfl⟩
  · have hne : line ≠ "CLOSE".toList := by
      rintro rfl
      exact absurd (List.all_eq_true.mp hcalm _ hline) (by decide)
    have hact : Act.reply line ∈ out.filterMap Effect.act? :=
      List.mem_filterMap.mpr ⟨_, hline, if_neg hne⟩
    rw [hacts] at hact
    obtain ⟨e, he, heq⟩ := List.mem_filterMap.mp hact
    cases e with
    | send r =>
        cases heq
        refine ⟨r, hg'.replies r ?_, rfl⟩
        rw [h.reads.replies]
        exact List.mem_append_right _ (mem_sends.mpr he)
    | _ => cases heq
  · rcases List.mem_pair.mp hline with heq | heq
    · cases heq
      exact ⟨.err "PROTOCOL".toList, isWord_of_check (by decide), rfl⟩
    · cases heq

/-- Where a tick takes the file to its name, `_receive` has the whole file. -/
theorem Ticked.whole
    (h : Ticked job m rest t t' f' st' effects out) (hg' : Genuine job t') (hholds' : Holds job t')
    {old new : Line} (hrename : Effect.rename old new ∈ out) :
    writtenBytes (sinceRestart t'.trace) = job.data := by
  have hreplace : Pcutp.Effect.replace ∈ effects := by
    rcases h.acts with hacts | ⟨rfl, rfl⟩
    · have hact : Act.installed ∈ out.filterMap Effect.act? :=
        List.mem_filterMap.mpr ⟨_, hrename, rfl⟩
      rw [hacts] at hact
      obtain ⟨e, he, heq⟩ := List.mem_filterMap.mp hact
      cases e with
      | replace => exact he
      | _ => cases heq
    · simp at hrename
  obtain ⟨r', hclient'⟩ := h.spells.client
  obtain ⟨hm, events, hrun⟩ := hg'.receiving m r' hclient'
  have hcounts := Recv.counts_run hrun
  have hmem : Pcutp.Effect.replace ∈ t'.trace :=
    h.reads.trace ▸ List.mem_append_right _ hreplace
  obtain ⟨⟨hblocks, _, _⟩, _⟩ := hcounts.returned (hcounts.replaced hmem).1
  rw [hholds' m r' hclient', hblocks, hm.blocks, job.take_blocks]

/-- A line of the sender is not CLOSE. -/
theorem Mirrors.not_close
    (h : Mirrors job m name d₀ s t f d) (hsize : job.size ≤ Const.MAX_FILE_SIZE)
    (hbarrier : (Command.barrier s.sender.barrier_id).line.length ≤ 250) {l : RecvLine}
    {queue : Bytes} (hplace : s.pico.place = .line .data l) (hqueue : s.pico.queue = LF :: queue) :
    l.s ≠ "CLOSE".toList := by
  have hspells : Spells m f (LF :: queue) s.commands t := hqueue ▸ h.spells
  cases h.agrees with
  | waits hphase hplace' hs halike =>
      rw [hplace] at hplace'
      cases hplace'
      obtain ⟨c, ported, hc, hsendable, _, _, hpart, _⟩ :=
        spelled_line hsize hbarrier h.written hphase hspells
      rw [hs, hpart, kept_encode hsendable.ascii hc.noCr (hc.short hsize hbarrier)]
      exact Command.line_ne_close hc.printable
  | reads hphase hplace' =>
      rw [hplace] at hplace'
      cases hplace'
  | returned hphase hnot =>
      rw [hplace] at hnot
      cases hnot
  | raised hphase hplace' =>
      rw [hplace] at hplace'
      cases hplace'

/-- What the drive holds after a turn. -/
theorem Mirrors.drive
    (h : Mirrors job m name d₀ s t f d) (hidle : s.pending = [])
    (hreceiving : receiving s.pico.place = true)
    (hkeeps : KeepsTick s.pico.g st'.g st'.place out)
    (hticked : Ticked job m rest t t' f' st' effects out) (hg' : Genuine job t')
    (hholds' : Holds job t') (hopen : Pcutp.Effect.openPart ∉ effects) {d' : Disk}
    (hafter : d.after out = some d') :
    (receiving st'.place = true →
      d'.files (entry (partPath st'.g)) = some (.data (writtenBytes (sinceRestart t'.trace)))) ∧
    (confirms (s.out ++ out) = true →
      (receiving st'.place = false ∧ d'.files (entry (dest name)) = some (.data job.data)) ∧
        d.Cuts (HasCopy job name) out) := by
  have hpart := h.part hreceiving
  have hisOpen : d.open2 = some (entry (partPath s.pico.g)) :=
    (h.onDrive.placed.noted hreceiving).isOpen
  have hgrown := hticked.grown hopen
  rcases hkeeps.fits with hall | ⟨hnot, said, reply, htalks, rfl⟩
  · constructor
    · intro _
      have hafter' := after_fits hall hafter
        (fun path hpath => Option.some.inj (hpath.symm.trans hisOpen)) hpart
      rw [hgrown] at hafter'
      rw [partPath, hkeeps.fn]
      exact hafter'
    · intro hconfirms
      have hsaved := h.saved
      rw [confirms_append, confirms_of_fits hall, Bool.or_false] at hconfirms
      rw [hidle, List.append_nil] at hsaved
      rw [(hsaved hconfirms).1] at hreceiving
      cases hreceiving
  · have hrename : Effect.rename (partPath s.pico.g) (dest s.pico.g.fn) ∈
        said ++ replacing s.pico.g reply :=
      List.mem_append_right _ (by simp [replacing])
    have hstill : ((said ++ replacing s.pico.g reply).filterMap Effect.act?).foldl grown
        (writtenBytes (sinceRestart t.trace)) = writtenBytes (sinceRestart t.trace) := by
      rw [List.filterMap_append, List.foldl_append, grown_of_talks htalks, grown_replacing]
    rw [hgrown, hticked.whole hg' hholds' hrename] at hstill
    rw [← hstill] at hpart
    obtain ⟨d'', hreplaced, -, hfile, -, hcuts⟩ := after_replacing hisOpen hpart reply
    have hboth : d.after (said ++ replacing s.pico.g reply) = some d'' := by
      rw [Disk.after_append, Disk.after_talks htalks]
      exact hreplaced
    obtain rfl : d' = d'' := Option.some.inj (hafter.symm.trans hboth)
    have hcopy : d.Cuts (HasCopy job name) (replacing s.pico.g reply) :=
      hcuts.mono fun _ hcopy => h.fn ▸ hcopy
    rw [h.fn] at hfile
    exact ⟨fun hyes => absurd (hnot.symm.trans hyes) Bool.false_ne_true, fun _ =>
      ⟨⟨hnot, hfile⟩, (Disk.Cuts.of_talks hcopy.head htalks).append (Disk.after_talks htalks d) hcopy⟩⟩

/-- A turn of the data loop. -/
theorem Mirrors.tick
    (hnums : ReadsNumbers nums) (hpair : Paired job.session cfg) (hflow : job.session.flow = true)
    (hsize : job.size ≤ Const.MAX_FILE_SIZE)
    (hbarrier : (Command.barrier s.sender.barrier_id).line.length ≤ 250)
    (h : Mirrors job m name d₀ s t f d) (hidle : s.pending = []) {now : Nat}
    {p : State × List Effect}
    (hstep : dataStep nums s.pico { now, arrived := [], key := none } = some p) :
    ∃ t' f' d', Mirrors job m name d₀ (s.ticked p) t' f' d' := by
  obtain ⟨st', out⟩ := p
  have hqueue : s.pico.queue ++ [] = s.pico.queue := List.append_nil _
  have hspells : Spells m f (s.pico.queue ++ []) s.commands t := hqueue.symm ▸ h.spells
  obtain ⟨f', t', effects, hticked⟩ :=
    ticked_step hnums hpair h.genuine hflow hsize hbarrier h.written h.agrees hspells hstep
  obtain ⟨hg', hholds'⟩ := hticked.reads.both hpair hflow h.genuine h.holds
  obtain ⟨r, hclient⟩ := h.spells.client
  obtain ⟨r', hclient'⟩ := hticked.spells.client
  have hopen := hticked.reads.not_open h.genuine hg' hclient hclient'
  have hnext := hstep
  rw [dataStep] at hnext
  split_ifs at hnext with hreceiving
  obtain ⟨d', hdoes, hdrive⟩ := onDrive_step nums h.onDrive hnext
  have hkeeps := keepsTick_step nums hreceiving h.peerDone
    (fun l rest hplace hrest => h.not_close hsize hbarrier hplace (hqueue.symm.trans hrest)) hnext
  obtain ⟨hpart, hconfirmed⟩ := h.drive hidle hreceiving hkeeps hticked hg' hholds' hopen hdoes.after
  have hbefore : d₀.after s.out = some d := by
    have hafter := h.after
    rwa [hidle, List.append_nil] at hafter
  have hprintable : ∀ line, Effect.send line ∈ s.out → ∃ r : Reply, r.Printable ∧ r.line = line :=
    fun line hline => h.printable line (List.mem_append_left _ hline)
  refine ⟨t', f', d', ?_⟩
  exact
    { genuine := hg'
      holds := hholds'
      sender := hticked.reads.sender.trans h.sender
      written := fun c hc => h.written c (hticked.reads.commands c hc)
      lines := h.lines
      printable := fun line hline => by
        rcases List.mem_append.mp hline with hline | hline
        · exact hprintable line hline
        · exact hticked.printable hg' hkeeps.calm hline
      agrees := hticked.agrees
      spells := hticked.spells
      fn := hkeeps.fn.trans h.fn
      peerDone := hkeeps.peerDone.trans h.peerDone
      after := Disk.after_trans hbefore hdoes.after
      onDrive := hdrive
      part := hpart
      saved := fun hconfirms => (hconfirmed hconfirms).1
      held := fun d₁ hd₁ hconfirms => by
        obtain rfl : d = d₁ := Option.some.inj (hbefore.symm.trans hd₁)
        exact (hconfirmed hconfirms).2
      verdict := h.verdict }

/-- The program does the next statement of its turn. -/
theorem Mirrors.perform
    (h : Mirrors job m name d₀ s t f d) {e : Effect} {pending : List Effect}
    (hpending : s.pending = e :: pending) :
    Mirrors job m name d₀ (s.performed [e] pending) t f d := by
  have hsplit : s.out ++ [e] ++ pending = s.out ++ s.pending := by
    rw [hpending, List.append_assoc]
    rfl
  exact
    { h with
      lines := fun line hline => by
        rcases List.mem_append.mp hline with hline | hline
        · exact List.mem_append_left _ (h.lines line hline)
        · obtain ⟨e', he', heq⟩ := List.mem_filterMap.mp hline
          cases e' with
          | send line' =>
              cases heq
              exact List.mem_append_right _ he'
          | _ => cases heq
      printable := fun line hline => h.printable line (hsplit ▸ hline)
      after := (congrArg d₀.after hsplit).trans h.after
      saved := fun hconfirms => h.saved (hsplit ▸ hconfirms)
      held := fun d₂ hd₂ hconfirms => by
        obtain ⟨d₁, hd₁, hlast⟩ := Disk.exists_of_after_append hd₂
        obtain ⟨-, d', he, hcuts⟩ := hpending ▸ h.held d₁ hd₁ (hsplit ▸ hconfirms)
        obtain rfl : d' = d₂ := Option.some.inj ((Disk.after_cons he rfl).symm.trans hlast)
        exact hcuts
      verdict := fun result hphase hverified => by
        change confirms (s.out ++ [e]) = true
        rw [confirms_append, h.verdict result hphase hverified, Bool.true_or] }

end Ticks

section Runs

variable {cfg : ClientConfig} {job : Job} {m : AcceptedMeta cfg} {name : Line} {d₀ d : Disk}
  {s s' : Wired} {t : Transfer cfg} {f : Fed} {nums : Numbers}

/-- Every step is mirrored. -/
theorem Mirrors.step
    (hnums : ReadsNumbers nums) (hpair : Paired job.session cfg) (hflow : job.session.flow = true)
    (hsize : job.size ≤ Const.MAX_FILE_SIZE) (h : Mirrors job m name d₀ s t f d) {e : WiredEvent}
    (hshort : s.Short e) (hstep : s.step nums job e = some s') :
    ∃ t' f' d', Mirrors job m name d₀ s' t' f' d' := by
  have hkeep : ∀ {s : Wired}, (∃ t', Mirrors job m name d₀ s t' f d) →
      ∃ t' f' d', Mirrors job m name d₀ s t' f' d' := fun ⟨t', h'⟩ => ⟨t', f, d, h'⟩
  cases e with
  | run =>
      rw [Wired.step, Option.map_eq_some_iff] at hstep
      obtain ⟨p, hp, rfl⟩ := hstep
      exact hkeep (h.run hflow hp)
  | timeout =>
      rw [Wired.step, Option.map_eq_some_iff] at hstep
      obtain ⟨p, hp, rfl⟩ := hstep
      exact hkeep (h.timeout hp)
  | reply late =>
      rw [Wired.step] at hstep
      split at hstep
      · cases hstep
      · rename_i line lines hlines
        rw [Option.map_eq_some_iff] at hstep
        obtain ⟨p, hp, rfl⟩ := hstep
        obtain ⟨t', h'⟩ := h.reply hflow (hlines ▸ List.mem_cons_self) hp
        exact ⟨t', f, d, h'.onLines fun line' hline' => hlines ▸ List.mem_cons_of_mem _ hline'⟩
  | arrive =>
      rw [Wired.step] at hstep
      split at hstep
      · cases hstep
      · rename_i c commands hcommands
        cases hstep
        exact ⟨t, f, d, h.arrive hcommands⟩
  | tick now =>
      rw [Wired.step] at hstep
      split_ifs at hstep with hidle
      obtain ⟨p, hp, rfl⟩ := Option.map_eq_some_iff.mp hstep
      exact h.tick hnums hpair hflow hsize hshort hidle hp
  | perform =>
      rw [Wired.step] at hstep
      split at hstep
      · cases hstep
      · rename_i e pending hpending
        cases hstep
        exact ⟨t, f, d, h.perform hpending⟩
  | loseCommand i =>
      cases hstep
      exact hkeep (h.exchange fun c hc => h.waiting c (List.mem_of_mem_eraseIdx hc))
  | copyCommand i =>
      cases hstep
      exact hkeep (h.exchange fun c hc => h.waiting c (Channel.mem_of_mem_copyAt hc))
  | swapCommands i =>
      cases hstep
      exact hkeep (h.exchange fun c hc => h.waiting c (Channel.mem_of_mem_swapAt hc))
  | loseLine i =>
      cases hstep
      exact ⟨t, f, d, h.onLines fun line hline => List.mem_of_mem_eraseIdx hline⟩
  | copyLine i =>
      cases hstep
      exact ⟨t, f, d, h.onLines fun line hline => Channel.mem_of_mem_copyAt hline⟩
  | swapLines i =>
      cases hstep
      exact ⟨t, f, d, h.onLines fun line hline => Channel.mem_of_mem_swapAt hline⟩
  | damage i bytes =>
      rw [Wired.step] at hstep
      split at hstep
      · cases hstep
      · rename_i c hc
        split_ifs at hstep with hdamage
        cases hstep
        refine hkeep (h.exchange fun c' hc' => ?_)
        rcases List.mem_or_eq_of_mem_set hc' with hc' | rfl
        · exact h.waiting c' hc'
        · exact (h.waiting c (List.mem_of_getElem? hc)).damage hdamage.1 hdamage.2.1 hdamage.2.2

/-- Once the program has said OK the file is on the drive. -/
theorem Mirrors.copy
    (h : Mirrors job m name d₀ s t f d) {d₁ : Disk} (hdone : d₀.after s.out = some d₁)
    (hconfirms : confirms s.out = true) :
    HasCopy job name d₁ ∧ d.files (entry (dest name)) = some (.data job.data) := by
  have hboth : confirms (s.out ++ s.pending) = true := by
    rw [confirms_append, hconfirms, Bool.true_or]
  exact ⟨(h.held d₁ hdone hboth).head, (h.saved hboth).2⟩

/-- Every run is mirrored. -/
theorem Mirrors.leads
    (hnums : ReadsNumbers nums) (hpair : Paired job.session cfg) (hflow : job.session.flow = true)
    (hsize : job.size ≤ Const.MAX_FILE_SIZE) (h : Mirrors job m name d₀ s t f d)
    (hleads : Wired.Leads nums job s s') :
    ∃ t' f' d', Mirrors job m name d₀ s' t' f' d' := by
  refine Transition.Steps.invariant (fun s => ∃ t f d, Mirrors job m name d₀ s t f d) ?_ hleads
    ⟨t, f, d, h⟩
  rintro s e s' ⟨t, f, d, h⟩ hshort hstep
  exact h.step hnums hpair hflow hsize hshort hstep

end Runs

section Start

variable {cfg : ClientConfig} {job : Job} {nums : Numbers} {g : Globals}

/-- `_recv_meta` accepts the META of the transfer. -/
theorem accepts_announcement
    (hpair : Paired job.session cfg) (hsize : job.size ≤ Const.MAX_FILE_SIZE)
    (hspace : cfg.free_space = none) :
    ∃ (announced : Meta) (m : AcceptedMeta cfg),
      parseMeta job.announcement.line = .ok announced ∧ acceptMeta cfg announced = .ok m ∧
        m.Matches job ∧ Client.onMeta cfg true job.announcement.line =
          (.receiving m Recv.start, Recv.startEffects m) := by
  obtain ⟨m, hm, hmeta⟩ := accept_announcement hpair hsize fun space heq => by
    rw [hspace] at heq
    cases heq
  refine ⟨_, m, parse_announcement job, ?_, hm, hmeta⟩
  have herr : (split job.announcement.line).take 1 ≠ ["ERR".toList] := by
    rw [Command.split_line job.announcement_printable]
    simp [Job.announcement, Command.words]
  rw [Client.onMeta, if_neg herr, if_neg (by simp), parse_announcement] at hmeta
  dsimp only at hmeta
  split at hmeta
  · cases hmeta
  · rename_i m' haccept
    cases hmeta
    exact haccept

/-- Nothing has been received at the start. -/
theorem Stands.rcvd_start
    {m : AcceptedMeta cfg} {g : Globals} {place : Place} (h : Stands m Recv.start g place) :
    g.rcvd = 0 := by
  cases h with
  | waits now hphase halike => exact halike.rcvd
  | reads now hphase => cases hphase
  | returned hphase => cases hphase
  | raised hphase => cases hphase

theorem Stands.receiving_start
    {m : AcceptedMeta cfg} {g : Globals} {place : Place} (h : Stands m Recv.start g place) :
    receiving place = true := by
  cases h with
  | waits now hphase halike => rfl
  | reads now hphase => cases hphase
  | returned hphase => cases hphase
  | raised hphase => cases hphase

/-- What the program says after META. -/
structure Begins (g : Globals) (next : Next) : Prop where
  fn : next.g.fn = g.fn
  peerDone : next.g.peerDone = g.peerDone
  silent : confirms next.out = false
  printable : ∀ line, Effect.send line ∈ next.out → ∃ r : Reply, r.Printable ∧ r.line = line

theorem begins_afterMeta (nums : Numbers) (g : Globals) (now : Nat) (s : Line) :
    Begins g (afterMeta nums g now s) := by
  have hnone : ∀ line, Effect.send line ∈ ([] : List Effect) →
      ∃ r : Reply, r.Printable ∧ r.line = line := fun line h => absurd h List.not_mem_nil
  have herr : ∀ line, Effect.send line ∈ [Effect.send "ERR PROTOCOL".toList] →
      ∃ r : Reply, r.Printable ∧ r.line = line := by
    intro line h
    cases List.mem_singleton.mp h
    exact ⟨.err "PROTOCOL".toList, isWord_of_check (by decide), rfl⟩
  unfold afterMeta
  cases Split s g.parts with
  | none => exact ⟨rfl, rfl, rfl, hnone⟩
  | some parts =>
      dsimp only
      split_ifs
      · exact ⟨rfl, rfl, rfl, hnone⟩
      · exact ⟨rfl, rfl, rfl, herr⟩
      · exact ⟨rfl, rfl, rfl, herr⟩
      · refine ⟨rfl, rfl, rfl, fun line h => ?_⟩
        obtain rfl : line = "READY".toList := by
          simpa [receive, recvLine, SaveRmb] using h
        exact ⟨.ready, trivial, rfl⟩

/-- The client that stands for the firmware. -/
def firmwareClient (g : Globals) : ClientConfig where
  max_block_size := g.maxblk.toNat
  free_space := none
  flow := true
  compression := g.zipOn

/-- The firmware after a greeting of the session, with a file name and nothing open. -/
structure Ready (job : Job) (g : Globals) (d : Disk) : Prop where
  flow : job.session.flow = true
  size : job.size ≤ Const.MAX_FILE_SIZE
  flowOn : g.flowOn = true
  zipOn : g.zipOn = job.session.compression
  limit : (job.session.negotiated_block_limit : Int) ≤ g.maxblk
  maxblk : g.maxblk ≤ Const.BLKMAX
  peerDone : g.peerDone = false
  name : ValidName g.fn = true
  closed : d.open2 = none

/-- The firmware accepts the META of the transfer as `_recv_meta` does. -/
theorem stands_start
    (hnums : ReadsNumbers nums) {d₀ : Disk} (h : Ready job g d₀) (now : Nat) :
    Paired job.session (firmwareClient g) ∧ ∃ m : AcceptedMeta (firmwareClient g), m.Matches job ∧
      Client.onMeta (firmwareClient g) true job.announcement.line =
        (.receiving m Recv.start, Recv.startEffects m) ∧
      Stands m Recv.start (afterMeta nums g now job.announcement.line).g
        (afterMeta nums g now job.announcement.line).place := by
  have hlimit := h.limit
  have hmaxblk := h.maxblk
  have hmax : Const.BLKMAX = 4096 := rfl
  have hpair : Paired job.session (firmwareClient g) := by
    refine ⟨h.flow.symm, h.zipOn, ?_⟩
    change job.session.negotiated_block_limit ≤ g.maxblk.toNat
    omega
  obtain ⟨announced, m, hparse, haccept, hm, hmeta⟩ := accepts_announcement hpair h.size rfl
  have hwords : ∀ w ∈ job.announcement.words, IsWord w :=
    Command.isWord_of_mem_words job.announcement_printable
  have hblk : g.maxblk = ((firmwareClient g).max_block_size : Nat) := by
    change g.maxblk = (g.maxblk.toNat : Nat)
    omega
  have hblock : (m.blocksize : Int) ≤ g.maxblk := by
    have hblock_ok := m.block_ok
    omega
  exact ⟨hpair, m, hm, hmeta,
    alike_start hnums h.flowOn rfl (by omega) now hwords hparse haccept hblock⟩

/-- The system is mirrored from META on. -/
theorem mirrors_start
    (hnums : ReadsNumbers nums) {d₀ : Disk} (h : Ready job g d₀) (now again barrier_id : Nat)
    (reset_token : Option Line) :
    Paired job.session (firmwareClient g) ∧
      ∃ (m : AcceptedMeta (firmwareClient g)) (t : Transfer (firmwareClient g)) (f : Fed) (d : Disk),
        Mirrors job m g.fn d₀ (Wired.start nums job g now again barrier_id reset_token) t f d := by
  obtain ⟨hpair, m, hm, -, hstands⟩ := stands_start hnums h now
  refine ⟨hpair, ?_⟩
  have hbegins := begins_afterMeta nums g now job.announcement.line
  obtain ⟨d, hdoes⟩ :=
    does_afterMeta nums now h.name h.maxblk h.closed job.announcement.line
  let t₀ : Transfer (firmwareClient g) := Transfer.start _ job barrier_id reset_token
  have hg₀ : Genuine job t₀ := genuine_start barrier_id reset_token
  have haccepts : Move job t₀ .command
      ({ t₀ with commands := [] }.received (.receiving m Recv.start, Recv.startEffects m)) :=
    .accept m [] rfl rfl hm
  have hg₁ := hg₀.move haccepts
  have hholds₀ : Holds job t₀ := fun m r heq => by cases heq
  have hholds₁ := hholds₀.move hg₀ haccepts
  have hall : ∀ c ∈ List.replicate again job.announcement, c = job.announcement := fun c hc =>
    List.eq_of_mem_replicate hc
  let t₁ : Transfer (firmwareClient g) :=
    { ({ t₀ with commands := [] }.received (.receiving m Recv.start, Recv.startEffects m)) with
      commands := List.replicate again job.announcement }
  have hgenuine : Genuine job t₁ :=
    { hg₁ with commands := fun c hc => Or.inl (hall c hc) }
  have hagrees := hstands.agrees []
  refine ⟨m, t₁, ⟨Recv.start, []⟩, d, ?_⟩
  exact
    { genuine := hgenuine
      holds := hholds₁
      sender := rfl
      written := fun c hc => by
        rw [hall c hc]
        exact .announcement
      lines := fun line hline => absurd hline List.not_mem_nil
      printable := hbegins.printable
      agrees := hagrees
      spells := .between [] rfl rfl rfl rfl List.not_mem_nil
      fn := hbegins.fn
      peerDone := hbegins.peerDone.trans h.peerDone
      after := hdoes.after
      onDrive := ⟨hdoes.maxblk, hdoes.placed⟩
      part := fun hreceiving => by
        obtain ⟨bytes, hbytes, hcount, -⟩ := (hdoes.placed.noted hreceiving).part
        have hnothing : writtenBytes (sinceRestart t₁.trace) = [] := rfl
        rw [hstands.rcvd_start] at hcount
        have hrcvd : bytes.length = 0 := (Int.ofNat.inj hcount).symm
        rw [hnothing, ← List.eq_nil_of_length_eq_zero hrcvd]
        exact hbytes
      saved := fun hconfirms => absurd (hbegins.silent.symm.trans hconfirms) Bool.false_ne_true
      held := fun _ _ hconfirms => absurd (hbegins.silent.symm.trans hconfirms) Bool.false_ne_true
      verdict := fun result hphase => by cases hphase }

/-- In every run from META on the system is mirrored. -/
theorem mirrors_run
    (hnums : ReadsNumbers nums) {d₀ : Disk} (h : Ready job g d₀) {now again barrier_id : Nat}
    {reset_token : Option Line} {s : Wired}
    (hleads : Wired.Leads nums job (Wired.start nums job g now again barrier_id reset_token) s) :
    ∃ (m : AcceptedMeta (firmwareClient g)) (t : Transfer (firmwareClient g)) (f : Fed) (d : Disk),
      Mirrors job m g.fn d₀ s t f d := by
  obtain ⟨hpair, m, t, f, d, hstart⟩ := mirrors_start hnums h now again barrier_id reset_token
  exact ⟨m, hstart.leads hnums hpair h.flow h.size hleads⟩

end Start

section Results

variable (nums : Numbers) (job : Job) (g : Globals)

/-- The effects of the program are possible on the drive, those that are done and those that its
turn has still to do.  While it receives, they leave `.PART` with the first bytes of the server's
file, as many as are counted; when it has said OK, the file of the server is on the drive, and
they leave it under its name. -/
theorem wired_integrity
    (hnums : ReadsNumbers nums) (d₀ : Disk) (h : Ready job g d₀) (now again barrier_id : Nat)
    (reset_token : Option Line) (s : Wired)
    (hleads : Wired.Leads nums job (Wired.start nums job g now again barrier_id reset_token) s) :
    ∃ d d', d₀.after s.out = some d ∧ d.after s.pending = some d' ∧
      (receiving s.pico.place = true →
        d'.files (entry (partPath g)) = some (.data (job.data.take s.pico.g.rcvd.toNat))) ∧
      (confirms s.out = true →
        HasCopy job g.fn d ∧ d'.files (entry (dest g.fn)) = some (.data job.data)) := by
  obtain ⟨m, t, f, d', hmirrors⟩ := mirrors_run hnums h hleads
  obtain ⟨d, hdone, hpending⟩ := Disk.exists_of_after_append hmirrors.after
  refine ⟨d, d', hdone, hpending, fun hreceiving => ?_, hmirrors.copy hdone⟩
  obtain ⟨r, hclient⟩ := hmirrors.spells.client
  have hpart := hmirrors.part hreceiving
  rw [hmirrors.holds m r hclient] at hpart
  obtain ⟨bytes, hbytes, hcount, -⟩ := (hmirrors.onDrive.placed.noted hreceiving).part
  have hsame : bytes = job.data.take (r.expected * job.block_size) :=
    Contents.data.inj (Option.some.inj (hbytes.symm.trans hpart))
  have hprefix : bytes = job.data.take bytes.length :=
    List.prefix_iff_eq_take.mp (hsame ▸ List.take_prefix _ _)
  rw [hcount, Int.toNat_natCast, ← hprefix, partPath, ← hmirrors.fn]
  exact hbytes

/-- The firmware is ready for a file of one byte. -/
theorem ready_one_byte :
    Ready (smallJob [65]) oneByteGlobals emptyDisk :=
  ⟨rfl, by decide, rfl, rfl, by decide, by decide, rfl, by decide, rfl⟩

/-- READY is read, and the only frame of a file of one byte is written, comes in and is stored. -/
def oneFrame : List WiredEvent :=
  List.replicate 3 .perform ++ [.reply false, .run, .run, .arrive] ++
    List.replicate 19 (.tick 0) ++ List.replicate 3 .perform

/-- Then DONE is written and comes in, and the program says OK. -/
def oneFile : List WiredEvent :=
  oneFrame ++ [.reply false, .run, .arrive] ++ List.replicate 14 (.tick 0) ++
    List.replicate 2 .perform

theorem wired_integrity_one_byte :
    (∃ (s : Wired) (d : Disk), emptyDisk.after s.out = some d ∧
      d.files (entry (partPath oneByteGlobals)) = some (.data [65])) ∧
    ∃ (s : Wired) (d d' : Disk), emptyDisk.after s.out = some d ∧ s.pending ≠ [] ∧
      d.after s.pending = some d' ∧ HasCopy (smallJob [65]) oneByteGlobals.fn d ∧
      d'.files (entry (dest oneByteGlobals.fn)) = some (.data [65]) := by
  constructor
  · have hrun : (Transition.exec (Wired.step integers (smallJob [65])) Wired.Short
        (Wired.start integers (smallJob [65]) oneByteGlobals 0 0 0 none) oneFrame).any
          (fun s => receiving s.pico.place && decide (s.pico.g.rcvd = 1) &&
            decide (s.pending = [])) = true := by
      decide +kernel
    rw [Option.any_eq_true] at hrun
    obtain ⟨s, hexec, hall⟩ := hrun
    obtain ⟨hboth, hidle⟩ := Bool.and_eq_true_iff.mp hall
    obtain ⟨hreceiving, hrcvd⟩ := Bool.and_eq_true_iff.mp hboth
    obtain ⟨d, d', hafter, hrest, hpart, -⟩ := wired_integrity integers (smallJob [65])
      oneByteGlobals readsNumbers_integers emptyDisk ready_one_byte 0 0 0 none s (.of_exec hexec)
    have hfile := hpart hreceiving
    rw [of_decide_eq_true hidle] at hrest
    cases hrest
    rw [of_decide_eq_true hrcvd] at hfile
    exact ⟨s, d, hafter, hfile⟩
  · have hrun : (Transition.exec (Wired.step integers (smallJob [65])) Wired.Short
        (Wired.start integers (smallJob [65]) oneByteGlobals 0 0 0 none) oneFile).any
          (fun s => confirms s.out && decide (s.pending ≠ [])) = true := by
      decide +kernel
    rw [Option.any_eq_true] at hrun
    obtain ⟨s, hexec, hboth⟩ := hrun
    obtain ⟨hconfirms, hpending⟩ := Bool.and_eq_true_iff.mp hboth
    obtain ⟨d, d', hafter, hrest, -, hsaved⟩ := wired_integrity integers (smallJob [65])
      oneByteGlobals readsNumbers_integers emptyDisk ready_one_byte 0 0 0 none s (.of_exec hexec)
    obtain ⟨hcopy, hfile⟩ := hsaved hconfirms
    exact ⟨s, d, d', hafter, of_decide_eq_true hpending, hrest, hcopy, hfile⟩

/-- A file that the server takes for verified is on the drive, under its name when the program has
done what its turn has still to do. -/
theorem wired_verdict
    (hnums : ReadsNumbers nums) (d₀ : Disk) (h : Ready job g d₀) (now again barrier_id : Nat)
    (reset_token : Option Line) (s : Wired)
    (hleads : Wired.Leads nums job (Wired.start nums job g now again barrier_id reset_token) s)
    (result : TransferResult) (hphase : s.sender.phase = .returned (some result))
    (hverified : result.verified = true) :
    ∃ d d', d₀.after s.out = some d ∧ d.after s.pending = some d' ∧ HasCopy job g.fn d ∧
      d'.files (entry (dest g.fn)) = some (.data job.data) := by
  obtain ⟨m, t, f, d', hmirrors⟩ := mirrors_run hnums h hleads
  obtain ⟨d, hdone, hpending⟩ := Disk.exists_of_after_append hmirrors.after
  obtain ⟨hcopy, hfile⟩ := hmirrors.copy hdone (hmirrors.verdict result hphase hverified)
  exact ⟨d, d', hdone, hpending, hcopy, hfile⟩

/-- The server has its verdict before the program has renamed `.PART`. -/
theorem wired_verdict_one_byte :
    ∃ (s : Wired) (d d' : Disk), s.pending.length = 3 ∧ emptyDisk.after s.out = some d ∧
      d.after s.pending = some d' ∧ HasCopy (smallJob [65]) oneByteGlobals.fn d ∧
      d'.files (entry (dest oneByteGlobals.fn)) = some (.data [65]) := by
  have hrun : (Transition.exec (Wired.step integers (smallJob [65])) Wired.Short
      (Wired.start integers (smallJob [65]) oneByteGlobals 0 0 0 none)
        (oneFile ++ [.reply false])).any
        (fun s => decide (s.pending.length = 3) && decide
          (s.sender.phase = .returned (some (s.sender.result (smallJob [65]) true)))) = true := by
    decide +kernel
  rw [Option.any_eq_true] at hrun
  obtain ⟨s, hexec, hboth⟩ := hrun
  obtain ⟨hpending, hphase⟩ := Bool.and_eq_true_iff.mp hboth
  obtain ⟨d, d', hafter, hrest, hcopy, hfile⟩ := wired_verdict integers (smallJob [65])
    oneByteGlobals readsNumbers_integers emptyDisk ready_one_byte 0 0 0 none s (.of_exec hexec) _
    (of_decide_eq_true hphase) rfl
  exact ⟨s, d, d', of_decide_eq_true hpending, hafter, hrest, hcopy, hfile⟩

end Results

end Pcutp.Picocalc
