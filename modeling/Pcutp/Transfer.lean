import Pcutp.ClientSteps
import Pcutp.Lib.Channel
import Pcutp.Lib.Transition
import Pcutp.ServerSteps

/-!
# A transfer over the line

The sender, the receiver and the two channels between them, as one transition
system.  `commands` holds what the sender has written and the receiver has not
read, oldest first; `replies` the other direction.  Delay needs no step of its
own: an item stays in its channel until it is read.

`Faults` says what the line and the clock may do.  Everything the sender wrote
and every effect of the receiver are recorded in `written` and `trace`.
-/

namespace Pcutp

open Channel (copyAt swapAt)

/-- The settings of the two ends agree, as a greeting leaves them. -/
structure Paired (session : Session) (cfg : ClientConfig) : Prop where
  flow : cfg.flow = session.flow
  compression : cfg.compression = session.compression
  block : session.negotiated_block_limit ≤ cfg.max_block_size

/-- The replies among some effects. -/
def sends (effects : List Effect) : List Reply :=
  effects.filterMap fun
    | .send r => some r
    | _ => none

@[simp] theorem sends_nil :
    sends [] = [] :=
  rfl

@[simp] theorem sends_send (r : Reply) (effects : List Effect) :
    sends (.send r :: effects) = r :: sends effects :=
  rfl

@[simp] theorem sends_write (seq : Nat) (payload : Bytes) (effects : List Effect) :
    sends (.write seq payload :: effects) = sends effects :=
  rfl

@[simp] theorem sends_truncate (effects : List Effect) :
    sends (.truncate :: effects) = sends effects :=
  rfl

@[simp] theorem sends_rmb (record : Record) (effects : List Effect) :
    sends (.rmb record :: effects) = sends effects :=
  rfl

@[simp] theorem sends_append (xs ys : List Effect) :
    sends (xs ++ ys) = sends xs ++ sends ys :=
  List.filterMap_append ..

theorem mem_sends
    {r : Reply} {effects : List Effect} :
    r ∈ sends effects ↔ Effect.send r ∈ effects := by
  simp only [sends, List.mem_filterMap]
  constructor
  · rintro ⟨e, he, hr⟩
    cases e <;> cases hr
    exact he
  · exact fun h => ⟨_, h, rfl⟩

/-- Both ends, the channels between them and what happened so far. -/
structure Transfer (cfg : ClientConfig) where
  sender : Sender
  client : Client cfg
  commands : List Command
  replies : List Reply
  written : List Command
  trace : List Effect

/-- What can happen next. -/
inductive Event
  /-- The sender does what needs no read. -/
  | run
  /-- A read of the sender times out. -/
  | timeout
  /-- The sender reads a reply, perhaps when its deadline has passed. -/
  | reply (late : Bool)
  /-- The receiver reads a command. -/
  | command
  /-- The receiver renames the verified file. -/
  | commit
  /-- A read of the receiver times out. -/
  | giveUp
  | loseCommand (i : Nat)
  | loseReply (i : Nat)
  | copyCommand (i : Nat)
  | copyReply (i : Nat)
  | swapCommands (i : Nat)
  | swapReplies (i : Nat)
  /-- The payload of a frame is overwritten. -/
  | damage (i : Nat) (bytes : Bytes)

/-- What the line may do to what is on it, and whether the sender's clock may run out. -/
structure Faults where
  loss : Bool
  duplication : Bool
  reordering : Bool
  damage : Bool
  timeouts : Bool

/-- Whether an environment may cause an event. -/
def Faults.permit (faults : Faults) : Event → Bool
  | .run => true
  | .timeout => faults.timeouts
  | .reply late => !late || faults.timeouts
  | .command => true
  | .commit => true
  | .giveUp => faults.timeouts
  | .loseCommand _ => faults.loss
  | .loseReply _ => faults.loss
  | .copyCommand _ => faults.duplication
  | .copyReply _ => faults.duplication
  | .swapCommands _ => faults.reordering
  | .swapReplies _ => faults.reordering
  | .damage _ _ => faults.damage

instance (c : Command) : Decidable c.Intact :=
  match h : c.decoded with
  | .error _ => .isFalse fun ⟨_, hplain, _⟩ => by
      rw [h] at hplain
      cases hplain
  | .ok plain =>
      decidable_of_iff (crc32_hex plain = c.checksum)
        ⟨fun hcrc => ⟨plain, h, hcrc⟩, fun ⟨plain', hplain, hcrc⟩ => by
          rw [h] at hplain
          cases hplain
          exact hcrc⟩

namespace Transfer

variable {cfg : ClientConfig}

/-- The state when `send_file` has written META, for a server whose earlier transfers left
a counter and a token behind. -/
def start (cfg : ClientConfig) (job : Job) (barrier_id : Nat) (reset_token : Option Line) :
    Transfer cfg where
  sender := Sender.start barrier_id reset_token
  client := .awaiting true
  commands := [job.announcement]
  replies := []
  written := [job.announcement]
  trace := []

/-- The sender has moved. -/
def sent (s : Transfer cfg) (p : Sender × List Command) : Transfer cfg :=
  { s with
    sender := p.1
    commands := s.commands ++ p.2
    written := s.written ++ p.2 }

/-- The receiver has moved. -/
def received (s : Transfer cfg) (p : Client cfg × List Effect) : Transfer cfg :=
  { s with
    client := p.1
    replies := s.replies ++ sends p.2
    trace := s.trace ++ p.2 }

/-- One step of the system. -/
def step (job : Job) (s : Transfer cfg) : Event → Option (Transfer cfg)
  | .run => (s.sender.step job .run).map s.sent
  | .timeout => (s.sender.step job .timeout).map s.sent
  | .reply late =>
      match s.replies with
      | [] => none
      | r :: replies =>
          (s.sender.step job (.line r.line late)).map fun p => { s with replies }.sent p
  | .command =>
      match s.commands with
      | [] => none
      | c :: commands => (s.client.read c).map fun p => { s with commands }.received p
  | .commit => (s.client.act (.commit true)).map s.received
  | .giveUp => (s.client.act .timeout).map s.received
  | .loseCommand i =>
      if i < s.commands.length then some { s with commands := s.commands.eraseIdx i } else none
  | .loseReply i =>
      if i < s.replies.length then some { s with replies := s.replies.eraseIdx i } else none
  | .copyCommand i =>
      if i < s.commands.length then some { s with commands := copyAt s.commands i } else none
  | .copyReply i =>
      if i < s.replies.length then some { s with replies := copyAt s.replies i } else none
  | .swapCommands i =>
      if i + 1 < s.commands.length then some { s with commands := swapAt s.commands i }
      else none
  | .swapReplies i =>
      if i + 1 < s.replies.length then some { s with replies := swapAt s.replies i } else none
  | .damage i bytes =>
      match s.commands[i]? with
      | none => none
      | some c =>
          if c.isFrame = true ∧ bytes.length = c.payload.length ∧
              ¬ (c.withPayload bytes).Intact then
            some { s with commands := s.commands.set i (c.withPayload bytes) }
          else
            none

/-- What a line with the given faults can do from a state. -/
def Leads (faults : Faults) (job : Job) : Transfer cfg → Transfer cfg → Prop :=
  Transition.Steps (step job) (fun _ e => faults.permit e = true)

/-- A line with the given faults can lead through a list of events. -/
def exec (faults : Faults) (job : Job) (s : Transfer cfg) (events : List Event) :
    Option (Transfer cfg) :=
  Transition.exec (step job) (fun _ e => faults.permit e = true) s events

/-- A test of the result that `send_file` has returned. -/
def returns (s : Transfer cfg) (test : TransferResult → Bool) : Bool :=
  match s.sender.phase with
  | .returned (some result) => test result
  | _ => false

theorem exists_of_returns
    {s : Transfer cfg} {test : TransferResult → Bool}
    (h : s.returns test = true) :
    ∃ result, s.sender.phase = .returned (some result) ∧ test result = true := by
  rw [returns] at h
  split at h
  · rename_i result hphase
    exact ⟨result, hphase, h⟩
  · cases h

end Transfer

section Small

/-- A server that sends blocks of one byte. -/
def smallServer : ServerConfig where
  auto_block := false
  block_limit := 1
  window_limit := 2
  compression_enabled := false
  max_retries := Const.MAX_RETRIES
  probe_retries := Const.PROBE_RETRIES
  estimates := { saves := fun _ _ _ => false, cheaper := fun _ _ _ => false }
  block_ok := oneByte_ok
  window_ok := widestWindow_ok

/-- A FLOW session with blocks of one byte and the widest window. -/
def smallSession : Session where
  config := smallServer
  negotiated_block_limit := 1
  window_size := 2
  flow := true
  compression := false
  identity := true
  block_ok := oneByte_ok
  window_ok := widestWindow_ok
  compression_flow := by decide
  window_flow := by decide

/-- The transfer of a file named `A` in such a session. -/
def smallJob (data : Bytes) : Job where
  session := smallSession
  filename :=
    { text := "A".toList
      chars := List.forall_iff_forall_mem.mp (by decide)
      nonempty := by decide
      short := by decide
      notDot := by decide
      notDotDot := by decide }
  data

/-- The receiver of such a session. -/
def smallClient : ClientConfig where
  max_block_size := 1
  free_space := none
  flow := true
  compression := false

theorem small_paired :
    Paired smallSession smallClient :=
  ⟨rfl, rfl, by decide⟩

end Small

end Pcutp
