import Pcutp.Flow

/-!
# The sender

`PcutpServer.send_file` as a state machine, from the META line it has just
written to its return: `_send_window` with `_probe_receiver` and
`_recover_window`, `_send_block`, and the wait for the final reply.

Between two reads of the line the sender stands in one of the phases of
`SendPhase`; `Sender` keeps the variables of the loops.  An event is what a
read can do: deliver a line, or time out.  The deadlines of the source are
measured on a clock, so a line may also arrive when its deadline has passed;
`late` says so.  `fill` is the part of `_send_window` that runs without
reading, one frame at a time.
-/

namespace Pcutp

/-- What `send_file` returns. -/
structure TransferResult where
  filename : Line
  size : Nat
  blocks : Nat
  crc32 : Line
  retransmits : Nat
  verified : Bool
  compressed_blocks : Nat
  data_wire_bytes : Nat
  deriving DecidableEq

/-- Where `send_file` stands. -/
inductive SendPhase
  /-- It waits for the reply to META. -/
  | ready
  /-- It may write a frame. -/
  | fill
  /-- `_send_window` waits for a reply. -/
  | reply
  /-- `_probe_receiver` waits for its guard; `again` when the deadline had passed on a HERE. -/
  | guard (again : Bool)
  /-- `_probe_receiver` waits for HERE, with `left` probes to go. -/
  | ayt (left : Nat)
  /-- `_probe_receiver` waits for RST-ACK, with `left` requests to go. -/
  | rst (left : Nat)
  /-- `_recover_window` waits for RESUME, with `left` barriers to go. -/
  | barrier (reset : Bool) (left : Nat)
  /-- `_send_block` waits for a reply. -/
  | block (attempt timeouts : Nat)
  /-- DONE was written. -/
  | final
  | returned (result : Option TransferResult)
  | raised (exc : PcutpError)
  deriving DecidableEq

/-- The variables of `send_file` and the loops it runs. -/
structure Sender where
  phase : SendPhase
  base : Nat
  next_seq : Nat
  retransmits : Nat
  recoveries : Nat
  resets : Nat
  cwnd : Nat
  clean_acks : Nat
  attempts : Nat → Nat
  frames : Nat → Option Command
  barrier_id : Nat
  reset_token : Option Line
  compressed_blocks : Nat
  data_wire_bytes : Nat

/-- What a read of the sender can do, and the step that needs no read. -/
inductive SendEvent
  | run
  | timeout
  | line (text : Line) (late : Bool)

namespace Sender

/-- `raise exc`, past every handler of `send_file`. -/
def raise (s : Sender) (exc : PcutpError) : Sender × List Command :=
  ({ s with phase := .raised exc }, [])

/-- `self._fail(exc); raise`. -/
def fail (s : Sender) (exc : PcutpError) : Sender × List Command :=
  ({ s with phase := .raised exc }, [.err exc.code])

/-- The variables after META, given the counter and the token of earlier transfers. -/
def start (barrier_id : Nat) (reset_token : Option Line) : Sender where
  phase := .ready
  base := 0
  next_seq := 0
  retransmits := 0
  recoveries := 0
  resets := 0
  cwnd := 1
  clean_acks := 0
  attempts := fun _ => 0
  frames := fun _ => none
  barrier_id
  reset_token
  compressed_blocks := 0
  data_wire_bytes := 0

/-- `{seq: n for seq, n in d.items() if seq >= base}`, for counts and for frames. -/
def dropBelow {α : Type} (base : Nat) (empty : α) (d : Nat → α) : Nat → α :=
  fun seq => if base ≤ seq then d seq else empty

section Probe

/-- The next AYT? of `_probe_receiver`, or the RST request after the last one. -/
def ask (s : Sender) : Nat → Sender × List Command
  | left + 1 =>
      ({ s with phase := .ayt left, barrier_id := s.barrier_id + 1 },
        [.ayt (s.barrier_id + 1)])
  | 0 =>
      ({ s with phase := .rst (Const.RST_RETRIES - 1), barrier_id := s.barrier_id + 1 },
        [.rst (s.barrier_id + 1)])

/-- The next RST request with the same token. -/
def askReset (s : Sender) : Nat → Sender × List Command
  | left + 1 => ({ s with phase := .rst left }, [.rst s.barrier_id])
  | 0 => s.fail (LinkLostError "receiver did not acknowledge transfer reset")

end Probe

section Recover

/-- The head of `_recover_window` and its first BARRIER. -/
def recover (job : Job) (s : Sender) (reset : Bool) : Sender × List Command :=
  ({ s with
      phase := .barrier reset job.session.config.max_retries
      barrier_id := s.barrier_id + 1 },
    [.barrier (s.barrier_id + 1)])

/-- The next BARRIER with the same token. -/
def askBarrier (s : Sender) (reset : Bool) : Nat → Sender × List Command
  | left + 1 => ({ s with phase := .barrier reset left }, [.barrier s.barrier_id])
  | 0 => s.fail (TimeoutError_ "recovery barrier was not acknowledged")

/-- What `_send_window` does with the value `_recover_window` returned. -/
def resume (job : Job) (s : Sender) (reset : Bool) (seq : Nat) : Sender × List Command :=
  if reset = true then
    if seq ≠ 0 then
      s.fail (ProtocolError "receiver did not reset to sequence zero")
    else
      ({ s with
          phase := .fill
          base := 0
          next_seq := 0
          cwnd := 1
          clean_acks := 0
          attempts := fun _ => 0
          recoveries := 0 }, [])
  else
    let recoveries := if s.base < seq then 0 else s.recoveries + 1
    if recoveries > job.session.config.max_retries then
      ({ s with base := seq, recoveries } : Sender).fail
        (RetryError "window recovery exhausted retries")
    else
      ({ s with
          phase := .fill
          base := seq
          next_seq := seq
          recoveries
          attempts := dropBelow seq 0 s.attempts
          frames := dropBelow seq none s.frames }, [])

/-- A line read by `_recover_window`. -/
def onBarrier (job : Job) (s : Sender) (reset : Bool) (left : Nat) (parts : List Line)
    (late : Bool) : Sender × List Command :=
  let lo := if reset = true then 0 else s.base
  if parts.length = 3 ∧ parts.take 2 = ["RESUME".toList, dec s.barrier_id] then
    if isdecimal (word parts 2) = true ∧ lo ≤ int (word parts 2) ∧
        int (word parts 2) ≤ s.next_seq then
      s.resume job reset (int (word parts 2))
    else
      s.fail (ProtocolError "invalid recovery sequence")
  else if (∃ token ∈ s.reset_token, parts = ["RST-ACK".toList, token, "0".toList]) ∨
      word parts 0 ∈ ["ACK".toList, "NAK".toList, "DROP".toList, "RESUME".toList,
        "HERE".toList] then
    if late = true then s.askBarrier reset left else (s, [])
  else
    s.fail (ProtocolError "unexpected recovery reply")

end Recover

section Window

/-- `self._old_resume(parts)`. -/
def oldResume (s : Sender) (parts : List Line) : Bool :=
  parts.length == 3 && word parts 0 == "RESUME".toList && isdecimal (word parts 1) &&
    (decide (0 < int (word parts 1)) && decide (int (word parts 1) ≤ s.barrier_id)) &&
    isdecimal (word parts 2)

/-- An ACK that moves the window. -/
def advance (job : Job) (s : Sender) (ack : Nat) : Sender :=
  { s with
    phase := .fill
    base := ack + 1
    clean_acks := s.clean_acks + 1
    cwnd := if Const.FLOW_GROW_ACKS ≤ s.clean_acks + 1 then job.session.window_size else s.cwnd
    attempts := dropBelow (ack + 1) 0 s.attempts
    frames := dropBelow (ack + 1) none s.frames
    recoveries := 0 }

/-- What `_send_window` does with a reply that is not HERE. -/
def dispatch (job : Job) (s : Sender) (parts : List Line) (late : Bool) :
    Sender × List Command :=
  if parts.length = 2 ∧ word parts 0 = "ACK".toList ∧ isdecimal (word parts 1) = true then
    let ack := int (word parts 1)
    if s.next_seq ≤ ack then
      s.fail (ProtocolError "ACK for unsent block")
    else if ack < s.base then
      if late = true then
        s.fail (TimeoutError_ "only duplicate ACKs received")
      else
        ({ s with phase := .reply }, [])
    else
      (s.advance job ack, [])
  else if parts.length = 2 ∧ word parts 0 = "RST".toList ∧ word parts 1 = "0".toList then
    if s.resets + 1 > Const.MAX_RESETS then
      ({ s with resets := s.resets + 1 } : Sender).fail
        (RetryError "receiver exhausted full-file resets")
    else
      ({ s with resets := s.resets + 1 } : Sender).recover job true
  else if parts = [] ∨ word parts 0 = "NAK".toList ∨ word parts 0 = "DROP".toList then
    ({ s with cwnd := 1, clean_acks := 0 } : Sender).recover job false
  else if s.oldResume parts = true ∧ late = false then
    ({ s with phase := .reply }, [])
  else
    s.fail (ProtocolError "unexpected window reply")

/-- A line read by `_send_window`. -/
def onReply (job : Job) (s : Sender) (parts : List Line) (late : Bool) :
    Sender × List Command :=
  if parts.take 1 = ["HERE".toList] then
    if late = true then
      -- The deadline has passed: `_send_window` probes once more.
      ({ s with phase := .guard true }, [])
    else
      (s, [])
  else
    s.dispatch job parts late

/-- A line read by the guard of `_probe_receiver`.  The deadline of the reply has passed. -/
def onGuard (job : Job) (s : Sender) (again : Bool) (text : Line) : Sender × List Command :=
  if text = [] then
    s.ask job.session.config.probe_retries
  else if again = false ∧ (split text).take 1 = ["HERE".toList] then
    ({ s with phase := .guard true }, [])
  else
    s.dispatch job (split text) true

/-- A line read while `_probe_receiver` waits for HERE. -/
def onProbe (job : Job) (s : Sender) (left : Nat) (parts : List Line) (late : Bool) :
    Sender × List Command :=
  if parts.length = 3 ∧ parts.take 2 = ["HERE".toList, dec s.barrier_id] ∧
      isdecimal (word parts 2) = true then
    let next_seq := dec (int (word parts 2))
    s.dispatch job ["DROP".toList, next_seq, next_seq] true
  else if word parts 0 ∈ ["ACK".toList, "NAK".toList, "DROP".toList, "RST".toList,
      "ERR".toList] then
    s.dispatch job parts true
  else if late = true then
    s.ask left
  else
    (s, [])

/-- A line read while `_probe_receiver` waits for RST-ACK. -/
def onReset (job : Job) (s : Sender) (left : Nat) (parts : List Line) (late : Bool) :
    Sender × List Command :=
  if parts = ["RST-ACK".toList, dec s.barrier_id, "0".toList] then
    ({ s with reset_token := some (dec s.barrier_id) } : Sender).dispatch job
      ["RST".toList, "0".toList] true
  else if word parts 0 ∈ ["ACK".toList, "NAK".toList, "DROP".toList, "HERE".toList,
      "RESUME".toList] then
    if late = true then s.askReset left else (s, [])
  else
    s.fail (ProtocolError "unexpected reset reply")

/-- The counts of a frame that is written, and the frame itself in the cache. -/
def writeFrame (s : Sender) (frame : Command) : Sender :=
  { s with
    attempts := Function.update s.attempts s.next_seq (s.attempts s.next_seq + 1)
    retransmits := s.retransmits + if s.attempts s.next_seq = 0 then 0 else 1
    frames := Function.update s.frames s.next_seq (some frame)
    compressed_blocks := s.compressed_blocks +
      if (s.frames s.next_seq).isNone && frame.isPacked then 1 else 0
    data_wire_bytes := s.data_wire_bytes + frame.wireLength
    next_seq := s.next_seq + 1 }

/-- The part of `_send_window` before a read: a frame, a wait, or DONE. -/
def fillWindow (job : Job) (s : Sender) : Sender × List Command :=
  if s.base < job.blocks then
    if s.next_seq < min job.blocks (s.base + s.cwnd) then
      if s.attempts s.next_seq > job.session.config.max_retries then
        s.fail (RetryError "block exhausted retries")
      else
        let frame := (s.frames s.next_seq).getD (job.frame s.next_seq)
        (s.writeFrame frame, [frame])
    else
      ({ s with phase := .reply }, [])
  else
    ({ s with phase := .final }, [.done job.crc])

end Window

section Block

/-- One attempt of `_send_block`. -/
def sendBlock (job : Job) (s : Sender) (attempt timeouts : Nat) : Sender × List Command :=
  let frame := job.rawFrame s.base
  ({ s with
      phase := .block attempt timeouts
      data_wire_bytes := s.data_wire_bytes + frame.wireLength }, [frame])

/-- The attempt after a failed one. -/
def sendAgain (job : Job) (s : Sender) (attempt timeouts : Nat) : Sender × List Command :=
  if attempt + 1 ≤ job.session.config.max_retries then
    s.sendBlock job (attempt + 1) timeouts
  else
    s.fail (RetryError "block failed")

/-- The block loop of `send_file` without FLOW. -/
def fillBlock (job : Job) (s : Sender) : Sender × List Command :=
  if s.base < job.blocks then
    s.sendBlock job 0 0
  else
    ({ s with phase := .final }, [.done job.crc])

/-- A line read by `_send_block`. -/
def onBlock (job : Job) (s : Sender) (attempt timeouts : Nat) (parts : List Line) :
    Sender × List Command :=
  if parts.take 2 = ["ACK".toList, dec s.base] then
    ({ s with phase := .fill, base := s.base + 1, retransmits := s.retransmits + attempt }, [])
  else if word parts 0 = "NAK".toList then
    s.sendAgain job attempt timeouts
  else if word parts 0 = "ERR".toList then
    s.raise (ProtocolError "client aborted")
  else
    s.raise (ProtocolError "unexpected reply to DATA")

/-- The timeout of `_send_block`. -/
def onBlockTimeout (job : Job) (s : Sender) (attempt timeouts : Nat) : Sender × List Command :=
  if timeouts + 1 ≥ Const.MAX_TIMEOUTS then
    s.fail (TimeoutError_ "no ACK for block")
  else
    s.sendAgain job attempt (timeouts + 1)

end Block

section Result

/-- The `TransferResult` of the current variables. -/
def result (job : Job) (s : Sender) (verified : Bool) : TransferResult where
  filename := job.filename.text
  size := job.size
  blocks := job.blocks
  crc32 := job.crc
  retransmits := s.retransmits
  verified
  compressed_blocks := s.compressed_blocks
  data_wire_bytes := s.data_wire_bytes

/-- A line read after DONE. -/
def onFinal (job : Job) (s : Sender) (parts : List Line) (late : Bool) : Sender × List Command :=
  if job.session.flow = true ∧
      ((parts.length = 2 ∧ word parts 0 = "ACK".toList ∧ isdecimal (word parts 1) = true ∧
          int (word parts 1) < job.blocks) ∨
        s.oldResume parts = true) then
    if late = true then s.raise (TimeoutError_ "no final file confirmation") else (s, [])
  else
    ({ s with
        phase := .returned
          (some (s.result job (decide (parts.take 2 = ["OK".toList, job.crc])))) }, [])

end Result

/-- What a read does when its time is over. -/
def onTimeout (job : Job) (s : Sender) (exc : PcutpError) : Option (Sender × List Command) :=
  match s.phase with
  | .ready => some (s.raise exc)
  | .reply => some ({ s with phase := .guard false, cwnd := 1, clean_acks := 0 }, [])
  | .guard _ => some (s.ask job.session.config.probe_retries)
  | .ayt left => some (s.ask left)
  | .rst left => some (s.askReset left)
  | .barrier reset left => some (s.askBarrier reset left)
  | .block attempt timeouts => some (s.onBlockTimeout job attempt timeouts)
  | .final => some (s.raise exc)
  | _ => none

/-- What a read does with a line that `_recv_line` returns. -/
def onLine (job : Job) (s : Sender) (text : Line) (late : Bool) :
    Option (Sender × List Command) :=
  match s.phase with
  | .ready =>
      if text = "READY".toList then some ({ s with phase := .fill }, [])
      else some ({ s with phase := .returned none }, [])
  | .reply => some (s.onReply job (split text) late)
  | .guard again => some (s.onGuard job again text)
  | .ayt left => some (s.onProbe job left (split text) late)
  | .rst left => some (s.onReset job left (split text) late)
  | .barrier reset left => some (s.onBarrier job reset left (split text) late)
  | .block attempt timeouts => some (s.onBlock job attempt timeouts (split text))
  | .final => some (s.onFinal job (split text) late)
  | _ => none

/-- The control lines that `_recv_line` answers itself. -/
def isRmb (text : Line) : Bool :=
  decide (2 ≤ (split text).length) && word (split text) 0 == "RMB".toList &&
    (word (split text) 1 == "0".toList || word (split text) 1 == "1".toList)

/-- Whether the sender waits in a read. -/
def reads (s : Sender) : Bool :=
  match s.phase with
  | .fill => false
  | .returned _ => false
  | .raised _ => false
  | _ => true

/-- One step of `send_file`; `none` when the event cannot occur in this phase. -/
def step (job : Job) (s : Sender) : SendEvent → Option (Sender × List Command)
  | .run =>
      if s.phase = .fill then
        some (if job.session.flow = true then s.fillWindow job else s.fillBlock job)
      else
        none
  | .timeout => s.onTimeout job (TimeoutError_ "timed out waiting for a control line")
  | .line text late =>
      if isRmb text = true then
        if s.reads = false then
          none
        else
          let answer := Command.rmbAck (word (split text) 1)
          if late = true then
            (s.onTimeout job (TimeoutError_ "only control replies received")).map
              fun p => (p.1, answer :: p.2)
          else
            some (s, [answer])
      else
        s.onLine job text late

end Sender

end Pcutp
