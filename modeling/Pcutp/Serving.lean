import Pcutp.Fetch
import Pcutp.Handshake
import Pcutp.Lib.Machine
import Pcutp.NameGrammar
import Pcutp.Teardown

/-!
# The daemon loop and its two flags

`run_serial` around `serve_once`, as one machine: the greeting, the requests,
the fetch and the transfer of each GET, the close exchange, the reconnects, and
`shutdown`.  The greeting, the transfer and the close exchange are the machines
of `HandleHello`, `Sender` and `ClosePhase`.

What a step writes is queued, and the head of the queue is being written.  A
transport can raise an `OSError` at every write and at every read, and Ctrl-C
can come at any time.

`_transfer_active` and `_raw_write_active` outlive the session in which they
were set.  `serve_once` clears them when a GET returns and when it raises a
`PcutpError`; an `OSError` leaves them as they are, and `run_serial` goes on
with the same server when the cable is back.
-/

namespace Pcutp

/-- `LINK_LOST_THRESHOLD` of `daemon.py`. -/
def Const.LINK_LOST_THRESHOLD : Nat := 2

/-- One write of the transport: a line, or a command with its payload. -/
inductive Output
  | line (text : Line)
  | command (c : Command)

/-- Whether the write is the `send_line_and_raw` of a block. -/
def Output.isFrame : Output → Bool
  | line _ => false
  | command c => c.isFrame

/-- Where the daemon stands when it is not writing. -/
inductive ServePlace
  /-- `serve_once` waits for a HELLO, or `_handle_hello` runs. -/
  | hello (h : HandleHello)
  /-- `serve_once` waits for a request. -/
  | request (session : Session)
  /-- The close exchange that the peer began. -/
  | closing (phase : ClosePhase)
  /-- `_handle_get` waits for the fetcher. -/
  | fetching (session : Session) (filename : SafeName)
  /-- `_handle_get` has reported an error and returns `None`. -/
  | refused (session : Session)
  | sending (job : Job) (sender : Sender)
  /-- `exc` is raised, by `_handle_get` when `get` is set. -/
  | raising (get : Bool) (exc : PcutpError)
  /-- `run_serial` waits for the port; `get` tells that an exception left a GET. -/
  | reconnecting (get : Bool)
  /-- The close exchange of `shutdown`. -/
  | shutdown (phase : ClosePhase)
  /-- The ERR line of `shutdown`. -/
  | aborting
  | stopped
  /-- An exception has left `run_serial`. -/
  | died

/-- The attributes of the server, and the variables of `run_serial`. -/
structure Serving where
  place : ServePlace
  queue : List Output
  pending : Option Line
  transfer_active : Bool
  raw_write_active : Bool
  barrier_id : Nat
  reset_token : Option Line
  lost_streak : Nat

/-- What can happen to the daemon. -/
inductive ServeEvent
  /-- The write in progress returns. -/
  | wrote
  /-- The part of the program up to its next write or read. -/
  | run (now : Nat)
  | line (text : Line) (late : Bool) (now : Nat)
  | timeout (now : Nat)
  /-- `recv_line` raises another exception of the program. -/
  | failed (exc : PcutpError) (now : Nat)
  /-- The fetcher returns or raises. -/
  | fetched (outcome : Except Exc Bytes)
  /-- The transport raises an `OSError`. -/
  | osError
  /-- The port is back. -/
  | reconnected
  /-- Ctrl-C. -/
  | interrupt (now : Nat)

/-- How `shutdown` ends what goes on. -/
inductive Goodbye
  | close
  | abort
  | silence
  deriving DecidableEq

namespace ServePlace

/-- Whether `_handle_get` runs. -/
def inGet : ServePlace → Bool
  | fetching _ _ => true
  | refused _ => true
  | sending _ _ => true
  | raising get _ => get
  | _ => false

/-- Whether the exchange waits for a line. -/
def waits : ClosePhase → Bool
  | .fin _ _ => true
  | .await _ => true
  | .linger _ => true
  | _ => false

/-- Whether the greeting waits for a line. -/
def greets (h : HandleHello) : Bool :=
  match h.phase with
  | .returned _ => false
  | .raised _ => false
  | _ => true

end ServePlace

namespace Serving

/-- The server of a new daemon, in its first `serve_once`. -/
def start : Serving where
  place := .hello HandleHello.start
  queue := []
  pending := none
  transfer_active := false
  raw_write_active := false
  barrier_id := 0
  reset_token := none
  lost_streak := 0

/-- Whether the daemon waits in a read. -/
def reads (s : Serving) : Bool :=
  match s.place with
  | .hello h => ServePlace.greets h
  | .request _ => s.pending.isNone
  | .closing phase => ServePlace.waits phase
  | .sending _ sender => sender.reads
  | .shutdown phase => ServePlace.waits phase
  | _ => false

section Writes

/-- Whether control is inside `send_line_and_raw`. -/
def inFrame (s : Serving) : Bool :=
  match s.queue with
  | out :: _ => out.isFrame
  | [] => false

/-- Writing begins: the flag is set in front of a frame. -/
def write (s : Serving) (queue : List Output) : Serving :=
  let s := { s with queue }
  { s with raw_write_active := s.inFrame || s.raw_write_active }

/-- The head of the queue is written: the flag is cleared behind a frame. -/
def wrote (s : Serving) : Option (Serving × List Output) :=
  match s.queue with
  | [] => none
  | out :: rest =>
      some (({ s with raw_write_active := !out.isFrame && s.raw_write_active }).write rest, [out])

end Writes

section RunSerial

/-- What leaves `serve_once` reaches `run_serial`. -/
def leave (s : Serving) (outcome : Except Exc Unit) : Serving :=
  match run_serial outcome with
  | .serving =>
      { s with place := .hello HandleHello.start, queue := [], pending := none, lost_streak := 0 }
  | .unplugged =>
      { s with place := .reconnecting s.place.inGet, queue := [], lost_streak := 0 }
  | .linkLost =>
      if s.lost_streak + 1 < Const.LINK_LOST_THRESHOLD then
        { s with
          place := .hello HandleHello.start
          queue := []
          pending := none
          lost_streak := s.lost_streak + 1 }
      else
        { s with
          place := .reconnecting false, queue := [], lost_streak := s.lost_streak + 1 }
  | .transferFailed =>
      { s with place := .hello HandleHello.start, queue := [], pending := none }
  | .died => { s with place := .died, queue := [] }

/-- `except PcutpError` around `_handle_get`. -/
def leaveGet (s : Serving) (exc : PcutpError) : Serving :=
  { s with transfer_active := false, raw_write_active := false }.leave (.error (.pcutp exc))

/-- `_handle_get` returns. -/
def returnGet (s : Serving) (session : Session) : Serving :=
  { s with place := .request session, transfer_active := false }

end RunSerial

section Shutdown

/-- The choice of `shutdown`. -/
def goodbye (s : Serving) : Goodbye :=
  if s.transfer_active = true then
    if s.raw_write_active = true then .silence else .abort
  else .close

/-- `shutdown()` up to its first read. -/
def shutdown (s : Serving) (now : Nat) : Serving :=
  match s.goodbye with
  | .close =>
      { s with
        place := .shutdown (ClosePhase.send_fin now).1
        queue := (ClosePhase.send_fin now).2.map Output.line }
  | .abort => { s with place := .aborting, queue := [.command (.err (RetryError "").code)] }
  | .silence => { s with place := .stopped, queue := [] }

/-- A read of `shutdown` times out; it awaits the CLOSE of the peer in any case. -/
def expire (now : Nat) : ClosePhase → ClosePhase × List Line
  | .fin 0 _ => (ClosePhase.await_fin now, [])
  | phase => phase.expire now

end Shutdown

section Requests

variable (config : ServerConfig) (baud : Nat)

/-- The greeting goes on. -/
def greet (s : Serving) (next : HandleHello × List Line) : Serving :=
  { s with place := .hello next.1 }.write (next.2.map Output.line)

/-- The close exchange of `serve_once` goes on. -/
def close (s : Serving) (next : ClosePhase × List Line) : Serving :=
  { s with place := .closing next.1 }.write (next.2.map Output.line)

/-- The close exchange of `shutdown` goes on. -/
def finish (s : Serving) (next : ClosePhase × List Line) : Serving :=
  { s with place := .shutdown next.1 }.write (next.2.map Output.line)

/-- The transfer goes on. -/
def transfer (s : Serving) (job : Job) (next : Sender × List Command) : Serving :=
  { s with
    place := .sending job next.1
    barrier_id := next.1.barrier_id
    reset_token := next.1.reset_token }.write (next.2.map Output.command)

/-- `_handle_get(request)` up to the fetcher. -/
def handleGet (s : Serving) (session : Session) (text : Line) : Option Serving :=
  let parts := split text
  if parts.length ≠ 3 ∨ word parts 0 ≠ "GET".toList then
    let exc := ProtocolError "expected GET"
    some ({ s with place := .raising true exc }.write [.line exc.wire])
  else
    match sanitize_filename (word parts 1) with
    | .error exc => some ({ s with place := .refused session }.write [.line exc.wire])
    | .ok filename =>
        -- A word of a line always gives a name: `ofText_isSome`.
        (SafeName.ofText filename).map fun filename =>
          { s with place := .fetching session filename }.write [.command .fetching]

/-- What `serve_once` does with a request. -/
def onRequest (s : Serving) (session : Session) (text : Line) (now : Nat) : Option Serving :=
  if text = closeLine then
    some (s.close (ClosePhase.read false now .serving text))
  else if "HELLO ".toList.isPrefixOf text = true ∨ "HELLO? ".toList.isPrefixOf text = true then
    some (s.greet (HandleHello.onFirst config baud HandleHello.start text))
  else
    { s with transfer_active := true }.handleGet session text

/-- The fetcher returns or raises. -/
def onFetched (s : Serving) (session : Session) (filename : SafeName) :
    Except Exc Bytes → Serving
  | .ok data =>
      let job : Job := { session, filename, data }
      s.transfer job (Sender.start s.barrier_id s.reset_token,
        [.fileMeta job.filename.text job.size job.block_size job.blocks job.crc])
  | .error (.pcutp exc) => { s with place := .refused session }.write [.line exc.wire]
  | .error (.library exc) => s.leave (.error (.library exc))

end Requests

section Steps

variable (config : ServerConfig) (baud : Nat)

/-- The next part of the program that reads nothing. -/
def onRun (s : Serving) (now : Nat) : Option Serving :=
  match s.place with
  | .hello h =>
      match h.phase with
      | .returned true =>
          h.session.map fun session =>
            { s with place := .request session, pending := h.pending }
      | .returned false => some (s.leave (.ok ()))
      | .raised exc => some (s.leave (.error (.pcutp exc)))
      | _ => none
  | .request session =>
      match s.pending with
      | some text => { s with pending := none }.onRequest config baud session text now
      | none => none
  | .closing .over => some (s.leave (.ok ()))
  | .refused session => some (s.returnGet session)
  | .raising true exc => some (s.leaveGet exc)
  | .raising false exc => some (s.leave (.error (.pcutp exc)))
  | .sending job sender =>
      match sender.phase with
      | .returned _ => some (s.returnGet job.session)
      | .raised exc => some (s.leaveGet exc)
      | _ => (sender.step job .run).map (s.transfer job)
  | .shutdown .over => some { s with place := .stopped }
  | .aborting => some { s with place := .stopped }
  | _ => none

/-- `_handle_hello` after `_recv_line` has answered an RMB line; its deadline may have passed. -/
def greetLate (late : Bool) (next : HandleHello × List Line) :
    Option (HandleHello × List Line) :=
  if late = true then
    (next.1.step config baud .timeout).map fun after => (after.1, next.2 ++ after.2)
  else
    some next

/-- A line is read. -/
def onLine (s : Serving) (text : Line) (late : Bool) (now : Nat) : Option Serving :=
  match s.place with
  | .hello h =>
      ((h.step config baud (.line text)).bind
        (greetLate config baud (Sender.isRmb text && late))).map s.greet
  | .request session =>
      if Sender.isRmb text = true then
        let place := if late = true then
            .raising false (TimeoutError_ "only control replies received")
          else .request session
        some ({ s with place }.write [.command (.rmbAck (word (split text) 1))])
      else
        s.onRequest config baud session text now
  | .closing phase => some (s.close (phase.read false now text))
  | .sending job sender => (sender.step job (.line text late)).map (s.transfer job)
  | .shutdown phase => some (s.finish (phase.read true now text))
  | _ => none

/-- A read times out. -/
def onTimeout (s : Serving) (now : Nat) : Option Serving :=
  match s.place with
  | .hello h => (h.step config baud .timeout).map s.greet
  | .request _ =>
      some (s.leave (.error (.pcutp (TimeoutError_ "timed out waiting for a control line"))))
  | .closing phase => some (s.close (phase.expire now))
  | .sending job sender => (sender.step job .timeout).map (s.transfer job)
  | .shutdown phase => some (s.finish (expire now phase))
  | _ => none

/-- Whether `send_file` reports what a read raises. -/
def reports (sender : Sender) : Bool :=
  match sender.phase with
  | .reply => true
  | .guard _ => true
  | .ayt _ => true
  | .rst _ => true
  | .barrier _ _ => true
  | _ => false

/-- A read raises another exception. -/
def onFailed (s : Serving) (exc : PcutpError) (now : Nat) : Serving :=
  match s.place with
  | .closing phase =>
      if exc.cls = .protocol then s.close (phase.expire now) else s.leave (.error (.pcutp exc))
  | .sending job sender =>
      s.transfer job (if reports sender = true then sender.fail exc else sender.raise exc)
  | .shutdown phase =>
      if exc.cls = .protocol then s.finish (expire now phase) else { s with place := .stopped }
  | _ => s.leave (.error (.pcutp exc))

/-- The transport raises an `OSError`, in a write or in a read. -/
def onOSError (s : Serving) : Option Serving :=
  if s.queue = [] ∧ s.reads = false then
    none
  else
    match s.place with
    | .shutdown _ => some { s with place := .died, queue := [] }
    | .aborting => some { s with place := .died, queue := [] }
    | _ => some (s.leave (.error (.library .osError)))

/-- Ctrl-C; the second one ends `shutdown`. -/
def onInterrupt (s : Serving) (now : Nat) : Option Serving :=
  match s.place with
  | .stopped => none
  | .died => none
  | .shutdown _ => some { s with place := .stopped, queue := [] }
  | .aborting => some { s with place := .stopped, queue := [] }
  | _ => some (s.shutdown now)

/-- The event of a read. -/
def onRead (s : Serving) : ServeEvent → Option Serving
  | .line text late now => s.onLine config baud text late now
  | .timeout now => s.onTimeout config baud now
  | .failed exc now => if exc.cls = .timeout then none else some (s.onFailed exc now)
  | _ => none

/-- One step of the daemon; `none` when the event cannot occur. -/
def step (s : Serving) (e : ServeEvent) : Option (Serving × List Output) :=
  match e with
  | .wrote => s.wrote
  | .osError => s.onOSError.map fun s' => (s', [])
  | .interrupt now => (s.onInterrupt now).map fun s' => (s', [])
  | .reconnected =>
      match s.place with
      | .reconnecting _ =>
          some ({ s with place := .hello HandleHello.start, pending := none }, [])
      | _ => none
  | .run now =>
      if s.queue ≠ [] then none else (s.onRun config baud now).map fun s' => (s', [])
  | .fetched outcome =>
      match s.place with
      | .fetching session filename =>
          if s.queue ≠ [] then none else some (s.onFetched session filename outcome, [])
      | _ => none
  | e =>
      if s.queue ≠ [] ∨ s.reads = false then none
      else (s.onRead config baud e).map fun s' => (s', [])

end Steps

section Flags

/-- `serve_once` waits for a HELLO or for the next request. -/
def idle (s : Serving) : Bool :=
  match s.place with
  | .hello h => decide (h.phase = .idle)
  | .request _ => true
  | _ => false

/-- The flags describe the place, and `shutdown` goes by them: idle it begins the close exchange,
and inside a frame it writes nothing. -/
def Accurate (s : Serving) (e : ServeEvent) (s' : Serving) (out : List Output) : Prop :=
  (s'.idle = true → s'.transfer_active = false ∧ s'.raw_write_active = false) ∧
  (s'.inFrame = true → s'.transfer_active = true ∧ s'.raw_write_active = true) ∧
  match e with
  | .interrupt now =>
      (s.idle = true → s' =
        { s with
          place := .shutdown (ClosePhase.send_fin now).1
          queue := [.line closeLine] }) ∧
      (s.inFrame = true → s'.place = .stopped ∧ s'.queue = [] ∧ out = [])
  | _ => True

/-- The daemon does not come back from an exception of the transport that left a GET. -/
def Resumes (s : Serving) (e : ServeEvent) (_ : Serving) (_ : List Output) : Prop :=
  match e, s.place with
  | .reconnected, .reconnecting get => get = false
  | _, _ => True

end Flags

section Kept

/-- What the place says about the flags. -/
inductive Standing
  /-- Outside a GET. -/
  | quiet
  /-- Inside one. -/
  | get
  /-- After one that an exception of the transport has left. -/
  | lost
  /-- While `shutdown` sends its ERR line. -/
  | parting
  /-- The daemon has ended. -/
  | gone

/-- The standing of a place. -/
def standing : ServePlace → Standing
  | .fetching _ _ => .get
  | .refused _ => .get
  | .sending _ _ => .get
  | .raising get _ => if get then .get else .quiet
  | .reconnecting get => if get then .lost else .quiet
  | .aborting => .parting
  | .stopped => .gone
  | .died => .gone
  | _ => .quiet

/-- No block is written. -/
def Plain (queue : List Output) : Prop :=
  ∀ out ∈ queue, out.isFrame = false

/-- What every step keeps: outside a GET both flags are cleared, inside one the first is set and
the second tells whether a block is being written. -/
def Kept (s : Serving) : Prop :=
  match standing s.place with
  | .quiet => s.transfer_active = false ∧ s.raw_write_active = false ∧ Plain s.queue
  | .get => s.transfer_active = true ∧ s.raw_write_active = s.inFrame
  | .lost => s.transfer_active = true ∧ s.queue = []
  | .parting => Plain s.queue
  | .gone => s.queue = []

variable {s s' : Serving} {queue : List Output}

theorem Plain.inFrame (h : Plain s.queue) :
    s.inFrame = false := by
  unfold Serving.inFrame
  split
  · rename_i out rest heq
    exact h out (heq ▸ List.mem_cons_self)
  · rfl

theorem plain_nil : Plain [] :=
  fun _ hout => absurd hout List.not_mem_nil

theorem plain_lines (lines : List Line) :
    Plain (lines.map Output.line) := by
  intro out hout
  obtain ⟨_, _, rfl⟩ := List.mem_map.mp hout
  rfl

/-- Both flags are cleared. -/
def Cleared (s : Serving) : Prop :=
  s.transfer_active = false ∧ s.raw_write_active = false

theorem kept_quiet
    (hplace : standing s.place = .quiet) :
    Kept s ↔ Cleared s ∧ Plain s.queue := by
  rw [Kept, hplace, Cleared, and_assoc]

theorem kept_get
    (hplace : standing s.place = .get) :
    Kept s ↔ s.transfer_active = true ∧ s.raw_write_active = s.inFrame := by
  rw [Kept, hplace]

theorem kept_gone
    (hplace : standing s.place = .gone) :
    Kept s ↔ s.queue = [] := by
  rw [Kept, hplace]

/-- Lines are written outside a GET. -/
theorem Cleared.write
    (h : Cleared s) (hplace : standing s.place = .quiet) (hqueue : Plain queue) :
    Kept (s.write queue) := by
  have hframe : ({ s with queue } : Serving).inFrame = false :=
    Plain.inFrame hqueue
  have hraw : (s.write queue).raw_write_active = false := by
    change (({ s with queue } : Serving).inFrame || s.raw_write_active) = false
    rw [hframe, h.2]
    rfl
  exact (kept_quiet (s := s.write queue) hplace).mpr ⟨⟨h.1, hraw⟩, hqueue⟩

/-- Anything is written inside a GET. -/
theorem write_get
    (htransfer : s.transfer_active = true) (hraw : s.raw_write_active = false)
    (hplace : standing s.place = .get) :
    Kept (s.write queue) := by
  have hframe : (s.write queue).raw_write_active = (s.write queue).inFrame := by
    simp only [Serving.write, hraw, Bool.or_false]
    rfl
  exact (kept_get (s := s.write queue) hplace).mpr ⟨htransfer, hframe⟩

/-- Once the flags are cleared, whatever leaves `serve_once` finds them so. -/
theorem Cleared.leave
    {outcome : Except Exc Unit} (h : Cleared s)
    (hget : s.place.inGet = false ∨ ∃ exc, outcome = .error (.pcutp exc)) :
    Kept (s.leave outcome) := by
  have hfresh : ∀ h' : HandleHello, standing (.hello h') = .quiet := fun _ => rfl
  unfold Serving.leave
  split
  · exact (kept_quiet (hfresh _)).mpr ⟨h, plain_nil⟩
  · rename_i hunplugged
    have hplace : s.place.inGet = false := by
      rcases hget with hget | ⟨exc, rfl⟩
      · exact hget
      · simp only [run_serial] at hunplugged
        split at hunplugged <;> cases hunplugged
    refine (kept_quiet ?_).mpr ⟨h, plain_nil⟩
    simp only [standing, hplace]
    rfl
  · split
    · exact (kept_quiet (hfresh _)).mpr ⟨h, plain_nil⟩
    · exact (kept_quiet rfl).mpr ⟨h, plain_nil⟩
  · exact (kept_quiet (hfresh _)).mpr ⟨h, plain_nil⟩
  · exact (kept_gone rfl).mpr rfl

/-- An exception of a library that leaves a GET leaves the flags as they are. -/
theorem leave_library
    {exc : LibraryError} (htransfer : s.transfer_active = true) (hget : s.place.inGet = true) :
    Kept (s.leave (.error (.library exc))) := by
  cases hos : exc.isOSError with
  | false =>
      have hdied : run_serial (.error (.library exc) : Except Exc Unit) = .died := by
        simp [run_serial, hos]
      rw [Serving.leave, hdied]
      exact (kept_gone rfl).mpr rfl
  | true =>
      have hunplugged : run_serial (.error (.library exc) : Except Exc Unit) = .unplugged := by
        simp [run_serial, hos]
      rw [Serving.leave, hunplugged]
      simp only [Kept, standing, hget, if_true]
      exact ⟨htransfer, trivial⟩

/-- Between two writes outside a GET the flags are cleared. -/
theorem Kept.cleared
    {place : ServePlace} (h : Kept s) (hplace : s.place = place)
    (hquiet : standing place = .quiet) :
    Cleared s :=
  ((kept_quiet (hplace ▸ hquiet)).mp h).1

/-- Between two writes inside a GET only the first flag is set. -/
theorem Kept.inside
    {place : ServePlace} (h : Kept s) (hqueue : s.queue = []) (hplace : s.place = place)
    (hget : standing place = .get) :
    s.transfer_active = true ∧ s.raw_write_active = false := by
  obtain ⟨htransfer, hraw⟩ := (kept_get (hplace ▸ hget)).mp h
  refine ⟨htransfer, ?_⟩
  rw [hraw, Serving.inFrame, hqueue]

theorem Cleared.leaveAt
    {place : ServePlace} {outcome : Except Exc Unit} (h : Cleared s) (hplace : s.place = place)
    (hget : place.inGet = false) :
    Kept (s.leave outcome) :=
  h.leave (Or.inl (hplace ▸ hget))

/-- A write ends. -/
theorem kept_wrote
    {out : List Output} (h : Kept s) (hstep : s.wrote = some (s', out)) :
    Kept s' := by
  unfold Serving.wrote at hstep
  split at hstep
  · cases hstep
  · rename_i head rest hqueue
    cases hstep
    cases hplace : standing s.place with
    | quiet =>
        obtain ⟨hcleared, hplain⟩ := (kept_quiet hplace).mp h
        rw [hqueue] at hplain
        refine Cleared.write ⟨hcleared.1, ?_⟩ hplace
          (fun out hout => hplain out (List.mem_cons_of_mem _ hout))
        simp [hcleared.2]
    | get =>
        obtain ⟨htransfer, hraw⟩ := (kept_get hplace).mp h
        refine write_get htransfer ?_ hplace
        have hhead : s.inFrame = head.isFrame := by
          rw [Serving.inFrame, hqueue]
        simp [hraw, hhead]
    | lost =>
        simp only [Kept, hplace, hqueue] at h
        cases h.2
    | parting =>
        simp only [Kept, hplace, hqueue] at h
        simp only [Kept, Serving.write, hplace]
        exact fun out hout => h out (List.mem_cons_of_mem _ hout)
    | gone =>
        simp only [Kept, hplace, hqueue] at h
        cases h

section Requests

variable {config : ServerConfig} {baud : Nat} {session : Session} {text : Line} {now : Nat}

theorem kept_greet
    {next : HandleHello × List Line} (h : Cleared s) :
    Kept (s.greet next) :=
  Cleared.write h rfl (plain_lines _)

theorem kept_close
    {next : ClosePhase × List Line} (h : Cleared s) :
    Kept (s.close next) :=
  Cleared.write h rfl (plain_lines _)

theorem kept_finish
    {next : ClosePhase × List Line} (h : Cleared s) :
    Kept (s.finish next) :=
  Cleared.write h rfl (plain_lines _)

theorem kept_transfer
    {job : Job} {next : Sender × List Command}
    (htransfer : s.transfer_active = true) (hraw : s.raw_write_active = false) :
    Kept (s.transfer job next) :=
  write_get htransfer hraw rfl

theorem handleGet_isSome (s : Serving) (session : Session) (text : Line) :
    (s.handleGet session text).isSome = true := by
  unfold handleGet
  dsimp only
  split_ifs with hparts
  · rfl
  · simp only [not_or, not_not] at hparts
    have hmem : word (split text) 1 ∈ split text := by
      have hlt : 1 < (split text).length := by omega
      rw [word, List.getD_eq_getElem?_getD, List.getElem?_eq_getElem hlt, Option.getD_some]
      exact List.getElem_mem hlt
    split
    · rfl
    · rename_i filename hname
      rw [Option.isSome_map]
      exact ofText_isSome (Words.isWord_of_mem_words hmem) hname

/-- Every request is answered. -/
theorem onRequest_isSome
    (config : ServerConfig) (baud : Nat) (s : Serving) (session : Session) (text : Line)
    (now : Nat) :
    (s.onRequest config baud session text now).isSome = true := by
  unfold onRequest
  split_ifs
  · rfl
  · rfl
  · exact handleGet_isSome _ session text

theorem kept_handleGet
    (htransfer : s.transfer_active = true) (hraw : s.raw_write_active = false)
    (hstep : s.handleGet session text = some s') :
    Kept s' := by
  unfold Serving.handleGet at hstep
  dsimp only at hstep
  split_ifs at hstep
  · cases hstep
    exact write_get htransfer hraw rfl
  · split at hstep
    · cases hstep
      exact write_get htransfer hraw rfl
    · obtain ⟨_, _, rfl⟩ := Option.map_eq_some_iff.mp hstep
      exact write_get htransfer hraw rfl

theorem kept_onRequest
    (h : Cleared s) (hstep : s.onRequest config baud session text now = some s') :
    Kept s' := by
  unfold Serving.onRequest at hstep
  split_ifs at hstep
  · cases hstep
    exact kept_close h
  · cases hstep
    exact kept_greet h
  · exact kept_handleGet (s := { s with transfer_active := true }) rfl h.2 hstep

theorem kept_onFetched
    {filename : SafeName} {outcome : Except Exc Bytes}
    (hplace : s.place = .fetching session filename)
    (htransfer : s.transfer_active = true) (hraw : s.raw_write_active = false) :
    Kept (s.onFetched session filename outcome) := by
  unfold Serving.onFetched
  split
  · exact kept_transfer htransfer hraw
  · exact write_get htransfer hraw rfl
  · exact leave_library htransfer (by rw [hplace]; rfl)

/-- A GET that raises a `PcutpError` clears both flags. -/
theorem kept_leaveGet
    {exc : PcutpError} :
    Kept (s.leaveGet exc) :=
  Cleared.leave ⟨rfl, rfl⟩ (Or.inr ⟨exc, rfl⟩)

theorem kept_returnGet
    (hraw : s.raw_write_active = false) (hqueue : s.queue = []) :
    Kept (s.returnGet session) :=
  (kept_quiet (s := s.returnGet session) rfl).mpr
    ⟨⟨rfl, hraw⟩, hqueue ▸ plain_nil⟩

end Requests

section Steps

variable {config : ServerConfig} {baud now : Nat}

theorem kept_onRun
    (h : Kept s) (hqueue : s.queue = []) (hstep : s.onRun config baud now = some s') :
    Kept s' := by
  have hkeep : ∀ place, standing place = .quiet → Cleared s →
      ∀ pending, Kept { s with place, pending } := fun place hplace hcleared pending =>
    (kept_quiet (s := { s with place, pending }) hplace).mpr ⟨hcleared, hqueue ▸ plain_nil⟩
  unfold Serving.onRun at hstep
  split at hstep
  · -- The greeting.
    rename_i h' hplace
    have hcleared := h.cleared hplace rfl
    split at hstep
    · obtain ⟨session, _, rfl⟩ := Option.map_eq_some_iff.mp hstep
      exact hkeep _ rfl hcleared _
    · cases hstep
      exact hcleared.leaveAt hplace rfl
    · cases hstep
      exact hcleared.leaveAt hplace rfl
    · cases hstep
  · -- A request that stood for HRU.
    rename_i session hplace
    have hcleared := h.cleared hplace rfl
    split at hstep
    · exact kept_onRequest (s := { s with pending := none }) hcleared hstep
    · cases hstep
  · rename_i hplace
    cases hstep
    exact (h.cleared hplace rfl).leaveAt hplace rfl
  · rename_i session hplace
    cases hstep
    exact kept_returnGet (h.inside hqueue hplace rfl).2 hqueue
  · cases hstep
    exact kept_leaveGet
  · rename_i exc hplace
    cases hstep
    exact (h.cleared hplace rfl).leaveAt hplace rfl
  · -- A transfer.
    rename_i job sender hplace
    obtain ⟨htransfer, hraw⟩ := h.inside hqueue hplace rfl
    split at hstep
    · cases hstep
      exact kept_returnGet hraw hqueue
    · cases hstep
      exact kept_leaveGet
    · obtain ⟨_, _, rfl⟩ := Option.map_eq_some_iff.mp hstep
      exact kept_transfer htransfer hraw
  · cases hstep
    exact (kept_gone rfl).mpr hqueue
  · cases hstep
    exact (kept_gone rfl).mpr hqueue
  · cases hstep

theorem kept_onLine
    {text : Line} {late : Bool}
    (h : Kept s) (hqueue : s.queue = []) (hstep : s.onLine config baud text late now = some s') :
    Kept s' := by
  unfold Serving.onLine at hstep
  split at hstep
  · rename_i h' hplace
    obtain ⟨_, _, rfl⟩ := Option.map_eq_some_iff.mp hstep
    exact kept_greet (h.cleared hplace rfl)
  · rename_i session hplace
    have hcleared := h.cleared hplace rfl
    split at hstep
    · cases hstep
      refine Cleared.write hcleared ?_ (fun out hout => ?_)
      · cases late <;> rfl
      · rw [List.mem_singleton.mp hout]
        rfl
    · exact kept_onRequest hcleared hstep
  · rename_i phase hplace
    cases hstep
    exact kept_close (h.cleared hplace rfl)
  · rename_i job sender hplace
    obtain ⟨htransfer, hraw⟩ := h.inside hqueue hplace rfl
    obtain ⟨_, _, rfl⟩ := Option.map_eq_some_iff.mp hstep
    exact kept_transfer htransfer hraw
  · rename_i phase hplace
    cases hstep
    exact kept_finish (h.cleared hplace rfl)
  · cases hstep

theorem kept_onTimeout
    (h : Kept s) (hqueue : s.queue = []) (hstep : s.onTimeout config baud now = some s') :
    Kept s' := by
  unfold Serving.onTimeout at hstep
  split at hstep
  · rename_i h' hplace
    obtain ⟨_, _, rfl⟩ := Option.map_eq_some_iff.mp hstep
    exact kept_greet (h.cleared hplace rfl)
  · rename_i session hplace
    cases hstep
    exact (h.cleared hplace rfl).leaveAt hplace rfl
  · rename_i phase hplace
    cases hstep
    exact kept_close (h.cleared hplace rfl)
  · rename_i job sender hplace
    obtain ⟨htransfer, hraw⟩ := h.inside hqueue hplace rfl
    obtain ⟨_, _, rfl⟩ := Option.map_eq_some_iff.mp hstep
    exact kept_transfer htransfer hraw
  · rename_i phase hplace
    cases hstep
    exact kept_finish (h.cleared hplace rfl)
  · cases hstep

theorem kept_onFailed
    {exc : PcutpError} (h : Kept s) (hqueue : s.queue = []) (hreads : s.reads = true) :
    Kept (s.onFailed exc now) := by
  unfold Serving.onFailed
  split
  · rename_i phase hplace
    have hcleared := h.cleared hplace rfl
    split
    · exact kept_close hcleared
    · exact hcleared.leave (Or.inr ⟨exc, rfl⟩)
  · rename_i job sender hplace
    obtain ⟨htransfer, hraw⟩ := h.inside hqueue hplace rfl
    exact kept_transfer htransfer hraw
  · rename_i phase hplace
    split
    · exact kept_finish (h.cleared hplace rfl)
    · exact (kept_gone rfl).mpr hqueue
  · -- Only the greeting and the wait for a request are left.
    have hplace : standing s.place = .quiet := by
      unfold Serving.reads at hreads
      split at hreads <;> simp_all [standing]
    exact (h.cleared rfl hplace).leave (Or.inr ⟨exc, rfl⟩)

/-- Only a session and the close exchanges read. -/
theorem standing_of_reads
    (h : s.reads = true) :
    standing s.place = .quiet ∨ standing s.place = .get := by
  unfold Serving.reads at h
  split at h <;> simp_all [standing]

theorem inGet_iff (place : ServePlace) :
    place.inGet = true ↔ standing place = .get := by
  cases place with
  | raising get _ => cases get <;> simp [ServePlace.inGet, standing]
  | reconnecting get => cases get <;> simp [ServePlace.inGet, standing]
  | _ => simp [ServePlace.inGet, standing]

theorem parting_iff (place : ServePlace) :
    standing place = .parting ↔ place = .aborting := by
  cases place with
  | raising get _ => cases get <;> simp [standing]
  | reconnecting get => cases get <;> simp [standing]
  | _ => simp [standing]

theorem gone_iff (place : ServePlace) :
    standing place = .gone ↔ place = .stopped ∨ place = .died := by
  cases place with
  | raising get _ => cases get <;> simp [standing]
  | reconnecting get => cases get <;> simp [standing]
  | _ => simp [standing]

theorem kept_onOSError
    (h : Kept s) (hstep : s.onOSError = some s') :
    Kept s' := by
  unfold Serving.onOSError at hstep
  split_ifs at hstep with hidle
  split at hstep
  · cases hstep
    exact (kept_gone rfl).mpr rfl
  · cases hstep
    exact (kept_gone rfl).mpr rfl
  · rename_i _ haborting
    cases hstep
    have hreads : s.queue = [] → standing s.place = .quiet ∨ standing s.place = .get :=
      fun hqueue => standing_of_reads (by simpa [hqueue] using hidle)
    cases hstand : standing s.place with
    | quiet =>
        refine ((kept_quiet hstand).mp h).1.leave (Or.inl ?_)
        simp [← Bool.not_eq_true, inGet_iff, hstand]
    | get => exact leave_library ((kept_get hstand).mp h).1 ((inGet_iff _).mpr hstand)
    | lost =>
        simp only [Kept, hstand] at h
        rcases hreads h.2 with hne | hne <;> simp [hstand] at hne
    | parting => exact absurd ((parting_iff _).mp hstand) haborting
    | gone =>
        rcases hreads ((kept_gone hstand).mp h) with hne | hne <;> simp [hstand] at hne

theorem kept_shutdown
    (h : Kept s) (hplace : standing s.place ≠ .parting ∧ standing s.place ≠ .gone) :
    Kept (s.shutdown now) := by
  unfold Serving.shutdown
  split
  · rename_i hclose
    have htransfer : s.transfer_active = false := by
      unfold Serving.goodbye at hclose
      split_ifs at hclose with htransfer
      exact Bool.not_eq_true _ ▸ htransfer
    cases hstand : standing s.place with
    | quiet => exact (kept_quiet rfl).mpr ⟨((kept_quiet hstand).mp h).1, plain_lines _⟩
    | get => exact absurd (((kept_get hstand).mp h).1.symm.trans htransfer) (by decide)
    | lost =>
        simp only [Kept, hstand] at h
        exact absurd (h.1.symm.trans htransfer) (by decide)
    | parting => exact absurd hstand hplace.1
    | gone => exact absurd hstand hplace.2
  · intro out hout
    rw [List.mem_singleton.mp hout]
    rfl
  · exact (kept_gone rfl).mpr rfl

theorem kept_onInterrupt
    (h : Kept s) (hstep : s.onInterrupt now = some s') :
    Kept s' := by
  unfold Serving.onInterrupt at hstep
  split at hstep
  · cases hstep
  · cases hstep
  · cases hstep
    exact (kept_gone rfl).mpr rfl
  · cases hstep
    exact (kept_gone rfl).mpr rfl
  · rename_i hstopped hdied _ haborting
    cases hstep
    refine kept_shutdown h ⟨fun hparting => haborting ((parting_iff _).mp hparting), ?_⟩
    intro hgone
    rcases (gone_iff _).mp hgone with hplace | hplace
    · exact hstopped hplace
    · exact hdied hplace

/-- One step keeps the flags, unless the daemon comes back from an exception of the transport
that left a GET. -/
theorem kept_step
    {e : ServeEvent} {out : List Output}
    (h : Kept s) (hstep : s.step config baud e = some (s', out)) (hresumes : Resumes s e s' out) :
    Kept s' := by
  unfold Serving.step at hstep
  split at hstep
  · exact kept_wrote h hstep
  · obtain ⟨s₁, hnext, heq⟩ := Option.map_eq_some_iff.mp hstep
    cases heq
    exact kept_onOSError h hnext
  · obtain ⟨s₁, hnext, heq⟩ := Option.map_eq_some_iff.mp hstep
    cases heq
    exact kept_onInterrupt h hnext
  · split at hstep
    · rename_i get hplace
      cases hstep
      have hget : get = false := by
        simpa [Resumes, hplace] using hresumes
      subst hget
      have hstand : standing s.place = .quiet := by
        rw [hplace]
        rfl
      exact (kept_quiet rfl).mpr ((kept_quiet hstand).mp h)
    · cases hstep
  · split_ifs at hstep with hqueue
    obtain ⟨s₁, hnext, heq⟩ := Option.map_eq_some_iff.mp hstep
    cases heq
    exact kept_onRun h (not_not.mp hqueue) hnext
  · split at hstep
    · rename_i session filename hplace
      split_ifs at hstep with hqueue
      cases hstep
      obtain ⟨htransfer, hraw⟩ := h.inside (not_not.mp hqueue) hplace rfl
      exact kept_onFetched hplace htransfer hraw
    · cases hstep
  · split_ifs at hstep with hbusy
    simp only [not_or, not_not, Bool.not_eq_false] at hbusy
    obtain ⟨s₁, hnext, heq⟩ := Option.map_eq_some_iff.mp hstep
    cases heq
    unfold Serving.onRead at hnext
    split at hnext
    · exact kept_onLine h hbusy.1 hnext
    · exact kept_onTimeout h hbusy.1 hnext
    · split_ifs at hnext
      cases hnext
      exact kept_onFailed h hbusy.1 hbusy.2
    · cases hnext

end Steps

section Result

variable {config : ServerConfig} {baud : Nat} {e : ServeEvent} {out : List Output}

theorem standing_of_idle
    (h : s.idle = true) :
    standing s.place = .quiet := by
  unfold Serving.idle at h
  split at h
  · rename_i hplace
    rw [hplace]
    rfl
  · rename_i hplace
    rw [hplace]
    rfl
  · cases h

/-- A block is only written inside a GET. -/
theorem Kept.of_inFrame
    (h : Kept s) (hframe : s.inFrame = true) :
    standing s.place = .get ∧ s.transfer_active = true ∧ s.raw_write_active = true := by
  have hplain : ¬ Plain s.queue := fun hplain => by
    rw [hplain.inFrame] at hframe
    cases hframe
  cases hstand : standing s.place with
  | quiet => exact absurd ((kept_quiet hstand).mp h).2 hplain
  | get =>
      obtain ⟨htransfer, hraw⟩ := (kept_get hstand).mp h
      exact ⟨rfl, htransfer, hraw.trans hframe⟩
  | lost =>
      simp only [Kept, hstand] at h
      exact absurd (h.2 ▸ plain_nil) hplain
  | parting =>
      simp only [Kept, hstand] at h
      exact absurd h hplain
  | gone => exact absurd ((kept_gone hstand).mp h ▸ plain_nil) hplain

/-- Ctrl-C while the server is idle. -/
theorem interrupt_idle
    {now : Nat} (h : Kept s) (hidle : s.idle = true) (hstep : s.onInterrupt now = some s') :
    s' = { s with
      place := .shutdown (ClosePhase.send_fin now).1
      queue := [.line closeLine] } := by
  have hcleared := ((kept_quiet (standing_of_idle hidle)).mp h).1
  have hgoodbye : s.goodbye = .close := by
    rw [Serving.goodbye, hcleared.1]
    rfl
  have hshutdown : s.onInterrupt now = some (s.shutdown now) := by
    unfold Serving.onInterrupt
    unfold Serving.idle at hidle
    split <;> simp_all
  rw [hshutdown, Serving.shutdown, hgoodbye] at hstep
  exact (Option.some.inj hstep).symm

/-- Ctrl-C while a block is written. -/
theorem interrupt_inFrame
    {now : Nat} (h : Kept s) (hframe : s.inFrame = true) (hstep : s.onInterrupt now = some s') :
    s'.place = .stopped ∧ s'.queue = [] := by
  obtain ⟨hstand, htransfer, hraw⟩ := h.of_inFrame hframe
  have hgoodbye : s.goodbye = .silence := by
    rw [Serving.goodbye, htransfer, hraw]
    rfl
  have hshutdown : s.onInterrupt now = some (s.shutdown now) := by
    unfold Serving.onInterrupt
    split <;> simp_all [standing]
  rw [hshutdown, Serving.shutdown, hgoodbye] at hstep
  cases hstep
  exact ⟨rfl, rfl⟩

theorem accurate_of_kept
    (h : Kept s) (h' : Kept s') (hstep : s.step config baud e = some (s', out)) :
    Accurate s e s' out := by
  refine ⟨fun hidle => ((kept_quiet (standing_of_idle hidle)).mp h').1,
    fun hframe => (h'.of_inFrame hframe).2, ?_⟩
  cases e with
  | interrupt now =>
      obtain ⟨s₁, hnext, heq⟩ := Option.map_eq_some_iff.mp hstep
      cases heq
      refine ⟨fun hidle => interrupt_idle h hidle hnext, fun hframe => ?_⟩
      obtain ⟨hplace, hqueue⟩ := interrupt_inFrame h hframe hnext
      exact ⟨hplace, hqueue, rfl⟩
  | _ => trivial

/-- Back from an exception of the transport that left a GET, the server waits for a HELLO with
the flag of that GET. -/
theorem resumes_of_accurate
    (h : Kept s) (hstep : s.step config baud e = some (s', out)) (haccurate : Accurate s e s' out) :
    Resumes s e s' out := by
  unfold Resumes
  split
  · rename_i get hplace
    cases get with
    | false => rfl
    | true =>
        simp only [Serving.step, hplace] at hstep
        cases hstep
        simp only [Kept, hplace, standing, if_true] at h
        have hidle := haccurate.1 rfl
        exact absurd (h.1.symm.trans hidle.1) (by decide)
  · trivial

theorem kept_start :
    Kept start :=
  (kept_quiet rfl).mpr ⟨⟨rfl, rfl⟩, plain_nil⟩

end Result

end Kept

end Serving

open Serving

/-- The two flags describe where the server stands, and `shutdown` that goes by them is polite,
in every run in which the daemon does not come back from an exception of the transport that
left a GET; in any other run they do not. -/
theorem flags_accurate_iff
    (config : ServerConfig) (baud : Nat) (events : List ServeEvent) :
    Machine.Always (Serving.step config baud) Accurate Serving.start events ↔
      Machine.Always (Serving.step config baud) Resumes Serving.start events := by
  refine Machine.always_iff_of_inv Kept (fun s e s' out h hstep => ?_)
    (fun s e s' out h hstep hresumes => kept_step h hstep hresumes) kept_start
  exact ⟨fun haccurate => resumes_of_accurate h hstep haccurate,
    fun hresumes => accurate_of_kept h (kept_step h hstep hresumes) hstep⟩

/-- A server of plain transfers. -/
def plainServer : ServerConfig where
  auto_block := false
  block_limit := 1
  window_limit := 1
  compression_enabled := false
  max_retries := Const.MAX_RETRIES
  probe_retries := Const.PROBE_RETRIES
  estimates := { saves := fun _ _ _ => false, cheaper := fun _ _ _ => false }
  block_ok := oneByte_ok
  window_ok := plainWindow_ok

/-- The cable is pulled while the server writes FETCHING, and put back. -/
def pulledCable : List ServeEvent :=
  [.line "HELLO PCUTP/2".toList false 0, .wrote, .line "HRU".toList false 0, .run 0,
    .line "GET A http://a/".toList false 0, .osError, .reconnected]

/-- The server waits for a HELLO and takes a transfer for active. -/
theorem flags_stale_after_pulled_cable :
    ¬ Machine.Always (Serving.step plainServer 115200) Accurate Serving.start pulledCable := by
  intro h
  have hflag : Machine.Always (Serving.step plainServer 115200)
      (fun _ _ s' _ => s'.idle = true → s'.transfer_active = false) Serving.start pulledCable :=
    Machine.always_of_inv (fun _ => True)
      (fun _ _ _ _ _ _ haccurate => ⟨fun hidle => (haccurate.1 hidle).1, trivial⟩) trivial h
  revert hflag
  decide +kernel

end Pcutp
