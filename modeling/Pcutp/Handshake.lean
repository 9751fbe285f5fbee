import Pcutp.Server

/-!
# The greeting

`PcutpClient.hello` and `PcutpServer._handle_hello` as two machines.  Each has
its own retry loop: the client repeats HELLO as `HELLO?` and later HRU, the
server repeats its proposal as OHRU, and both also answer a repetition of the
other side at once.

Between two reads a side stands in a phase; a read delivers a line or times
out.  The attempts that the `for` loops count are part of the phases.
-/

namespace Pcutp

namespace Const

def PROTOCOL_VERSION : Line := "PCUTP/2".toList
def HELLO_RETRIES : Nat := 10

end Const

/-- The f-string format `{key}={n}` of a capability. -/
def capability (key : String) (n : Nat) : Line :=
  key.toList ++ '=' :: dec n

/-- `HRU`. -/
def hruLine : Line :=
  "HRU".toList

/-- `WHO? 0`. -/
def whoLine : Line :=
  join ["WHO?".toList, "0".toList]

/-- The client's answer to `WHO? 0`. -/
def iamLine : Line :=
  join ["IAM".toList, "0".toList, "TYPE=PYTHON".toList, "ROLE=CLIENT".toList, "VER=2.1".toList]

/-- The constructor arguments that `hello` reads, with the checks of the constructor. -/
structure HelloConfig where
  max_block_size : Nat
  window_limit : Nat
  receive_buffer : Nat
  compression_enabled : Bool
  block_ok : 1 ≤ max_block_size ∧ max_block_size ≤ Const.MAX_BLOCK_SIZE
  window_ok : 1 ≤ window_limit ∧ window_limit ≤ Const.MAX_WINDOW
  buffer_ok : max_block_size + Const.FRAME_OVERHEAD ≤ receive_buffer

/-- `PcutpClient.__init__`; `none` where it raises `ValueError`. -/
def PcutpClient (max_block_size window_size receive_buffer : Nat) (compression : Bool) :
    Option HelloConfig :=
  if h : (1 ≤ max_block_size ∧ max_block_size ≤ Const.MAX_BLOCK_SIZE) ∧
      (1 ≤ window_size ∧ window_size ≤ Const.MAX_WINDOW) ∧
      max_block_size + Const.FRAME_OVERHEAD ≤ receive_buffer then
    some
      { max_block_size
        window_limit := window_size
        receive_buffer
        compression_enabled := compression
        block_ok := h.1
        window_ok := h.2.1
        buffer_ok := h.2.2 }
  else
    none

/-- What a read of the greeting can do. -/
inductive GreetEvent
  | timeout
  | line (text : Line)

section Client

/-- Where `hello` stands. -/
inductive HelloPhase
  /-- It waits for the answer to its HELLO of this attempt. -/
  | answer (attempt : Nat)
  /-- HRU was sent; it waits for `WHO? 0`. -/
  | who (attempt : Nat)
  | returned (maxblk : Nat)
  | raised (exc : PcutpError)
  deriving DecidableEq

/-- The attributes that `hello` sets, and its variable `maxblk`. -/
structure Hello where
  phase : HelloPhase
  flow : Bool
  compression : Bool
  identity : Bool
  window_size : Nat
  maxblk : Nat
  deriving DecidableEq

namespace Hello

variable (config : HelloConfig)

/-- The words of `offer`. -/
def offer : List Line :=
  [Const.PROTOCOL_VERSION, capability "FLOW" 1, capability "MAXBLK" config.max_block_size,
    capability "WINDOW" config.window_limit, capability "RXBUF" config.receive_buffer] ++
    (if config.compression_enabled then [capability "LZ4" 1] else []) ++ [capability "IDENTITY" 1]

/-- The greeting of an attempt. -/
def greeting (attempt : Nat) : Line :=
  join ((if attempt = 0 then "HELLO".toList else "HELLO?".toList) :: offer config)

/-- The attributes of a new client, and its first line. -/
def start : Hello × List Line :=
  ({ phase := .answer 0
     flow := false
     compression := false
     identity := false
     window_size := 1
     maxblk := 0 }, [greeting config 0])

def raise (h : Hello) (exc : PcutpError) : Hello × List Line :=
  ({ h with phase := .raised exc }, [])

/-- The part of `hello` from the capabilities of the proposal to the HRU line. -/
def accept (h : Hello) (capabilities : Capabilities) : Hello × List Line :=
  let maxblk := (capabilities .MAXBLK).getD Const.DEFAULT_BLOCK_SIZE
  let flow := decide (capabilities .FLOW = some 1)
  let compression := flow && decide (capabilities .LZ4 = some 1)
  let identity := decide (capabilities .IDENTITY = some 1)
  let h := { h with flow, compression, identity }
  if compression = true ∧ config.compression_enabled = false then
    h.raise (ProtocolError "unrequested compression")
  else
    let window_size := if flow then (capabilities .WINDOW).getD 1 else 1
    let h := { h with window_size }
    if maxblk > config.max_block_size ∨ window_size > config.window_limit ∨
        window_size * (maxblk + Const.FRAME_OVERHEAD) > config.receive_buffer then
      h.raise (ProtocolError "sender exceeded receiver capabilities")
    else
      ({ h with phase := if identity then .who 0 else .returned maxblk, maxblk }, [hruLine])

/-- `parts[:3] == ["HELLO", PROTOCOL_VERSION, "HRU?"]`. -/
def isNormal (parts : List Line) : Bool :=
  parts.take 3 == ["HELLO".toList, Const.PROTOCOL_VERSION, "HRU?".toList]

/-- `parts[:2] == ["OHRU", PROTOCOL_VERSION]`. -/
def isRepeated (parts : List Line) : Bool :=
  parts.take 2 == ["OHRU".toList, Const.PROTOCOL_VERSION]

/-- The answer to a HELLO. -/
def onAnswer (h : Hello) (text : Line) : Hello × List Line :=
  let parts := split text
  if parts.take 1 = ["ERR".toList] then
    h.raise
      { cls := .pcutp
        message := "ERR line"
        code := if 1 < parts.length then word parts 1 else "PROTOCOL".toList }
  else if isNormal parts = false ∧ isRepeated parts = false then
    h.raise (ProtocolError "expected HELLO ... HRU? or OHRU")
  else
    match options (parts.drop (if isNormal parts then 3 else 2)) with
    | .error exc => h.raise exc
    | .ok capabilities => accept config h capabilities

/-- A line read while `hello` waits for `WHO? 0`. -/
def onWho (h : Hello) (attempt : Nat) (text : Line) : Hello × List Line :=
  let who := split text
  if who = ["WHO?".toList, "0".toList] then
    ({ h with phase := .returned h.maxblk }, [iamLine])
  else if isNormal who = true ∨ isRepeated who = true then
    -- The last turn of the loop ends it without a WHO? as well.
    ({ h with
        phase := if attempt + 1 < Const.HELLO_RETRIES then .who (attempt + 1)
          else .returned h.maxblk }, [hruLine])
  else
    h.raise (ProtocolError "expected WHO? 0")

/-- One step of `hello`; `none` when it reads no more. -/
def step (h : Hello) : GreetEvent → Option (Hello × List Line)
  | .timeout =>
      match h.phase with
      | .answer attempt =>
          if attempt + 1 < Const.HELLO_RETRIES then
            some ({ h with phase := .answer (attempt + 1) }, [greeting config (attempt + 1)])
          else
            some (h.raise (TimeoutError_ "timed out waiting for a control line"))
      | .who attempt =>
          if attempt + 1 < Const.HELLO_RETRIES then
            some ({ h with phase := .who (attempt + 1) }, [hruLine])
          else
            some (h.raise (TimeoutError_ "timed out waiting for a control line"))
      | _ => none
  | .line text =>
      match h.phase with
      | .answer _ => some (onAnswer config h text)
      | .who attempt => some (h.onWho attempt text)
      | _ => none

end Hello

end Client

section Server

/-- Where `serve_once` stands up to the end of `_handle_hello`. -/
inductive GreetPhase
  /-- It waits for the first line of a session. -/
  | idle
  /-- The proposal was sent; it waits for HRU. -/
  | hru (attempt : Nat)
  /-- `WHO? 0` was sent; it waits for IAM. -/
  | who (attempt : Nat)
  | returned (ok : Bool)
  | raised (exc : PcutpError)
  deriving DecidableEq

/-- What `_handle_hello` sets: the session, the proposal, and a request that stands for HRU. -/
structure HandleHello where
  phase : GreetPhase
  session : Option Session
  proposal_tail : List Line
  pending : Option Line

namespace HandleHello

variable (config : ServerConfig) (baud : Nat)

/-- A server before its first line. -/
def start : HandleHello where
  phase := .idle
  session := none
  proposal_tail := []
  pending := none

/-- The words of `proposal_tail` after the version. -/
def tailWords (session : Session) : List Line :=
  [capability "BAUD" baud, capability "MAXBLK" session.negotiated_block_limit] ++
    (if session.flow then
      [capability "FLOW" 1, capability "WINDOW" session.window_size] ++
        (if session.compression then [capability "LZ4" 1] else [])
    else []) ++
    (if session.identity then [capability "IDENTITY" 1] else [])

/-- The first proposal to a HELLO. -/
def normalLine (tail : List Line) : Line :=
  join ("HELLO".toList :: Const.PROTOCOL_VERSION :: "HRU?".toList :: tail)

/-- `"OHRU " + proposal_tail`. -/
def ohruLine (tail : List Line) : Line :=
  join ("OHRU".toList :: Const.PROTOCOL_VERSION :: tail)

def raise (s : HandleHello) (exc : PcutpError) : HandleHello × List Line :=
  ({ s with phase := .raised exc }, [])

/-- `self._fail(exc); return False`. -/
def refuse (s : HandleHello) (exc : PcutpError) : HandleHello × List Line :=
  ({ s with phase := .returned false }, [exc.wire])

/-- `_handle_hello(line)` up to its first read. -/
def onFirst (s : HandleHello) (text : Line) : HandleHello × List Line :=
  let parts := split text
  if parts.length < 2 ∨ ¬ (word parts 0 = "HELLO".toList ∨ word parts 0 = "HELLO?".toList) then
    s.refuse (ProtocolError "expected HELLO")
  else if word parts 1 ≠ Const.PROTOCOL_VERSION then
    s.refuse { cls := .version, message := "unsupported version" }
  else
    match negotiate config (parts.drop 2) with
    | .error exc => s.raise exc
    | .ok (session, _) =>
        let tail := tailWords baud session
        ({ s with phase := .hru 0, session := some session, proposal_tail := tail },
          [if word parts 0 = "HELLO".toList then normalLine tail else ohruLine tail])

/-- The next turn of the HRU loop after a repeated proposal. -/
def nextHru (s : HandleHello) (attempt : Nat) : HandleHello × List Line :=
  if attempt + 1 < Const.HELLO_RETRIES then
    ({ s with phase := .hru (attempt + 1) }, [ohruLine s.proposal_tail])
  else
    ({ s with phase := .returned false },
      [ohruLine s.proposal_tail, (TimeoutError_ "timed out waiting for HRU").wire])

/-- The identity of the session, `False` before one. -/
def identity (s : HandleHello) : Bool :=
  match s.session with
  | some session => session.identity
  | none => false

/-- The part of `_handle_hello` after the HRU loop. -/
def connected (s : HandleHello) : HandleHello × List Line :=
  if s.identity = true then ({ s with phase := .who 0 }, [whoLine])
  else ({ s with phase := .returned true }, [])

/-- `reply.startswith((f"HELLO {PROTOCOL_VERSION}", f"HELLO? {PROTOCOL_VERSION}"))`. -/
def isAgain (text : Line) : Bool :=
  (join ["HELLO".toList, Const.PROTOCOL_VERSION]).isPrefixOf text ||
    (join ["HELLO?".toList, Const.PROTOCOL_VERSION]).isPrefixOf text

/-- A line read by the HRU loop. -/
def onHru (s : HandleHello) (attempt : Nat) (text : Line) : HandleHello × List Line :=
  if isAgain text = true then
    s.nextHru attempt
  else if text = hruLine then
    s.connected
  else if s.identity = false ∧ "GET ".toList.isPrefixOf text = true then
    { s with pending := some text }.connected
  else
    s.refuse (ProtocolError "expected HRU")

/-- The timeout of the HRU loop. -/
def onHruTimeout (s : HandleHello) (attempt : Nat) : HandleHello × List Line :=
  if attempt + 1 = Const.HELLO_RETRIES then
    s.refuse (TimeoutError_ "timed out waiting for HRU")
  else
    s.nextHru attempt

/-- A line read while `_handle_hello` waits for IAM. -/
def onIam (s : HandleHello) (attempt : Nat) (text : Line) : HandleHello × List Line :=
  let iam := split text
  if iam = [hruLine] then
    if attempt + 1 < Const.HELLO_RETRIES then ({ s with phase := .who (attempt + 1) }, [whoLine])
    else s.raise (TimeoutError_ "identity handshake was not acknowledged")
  else if 3 ≤ iam.length ∧ iam.take 2 = ["IAM".toList, "0".toList] ∧
      "TYPE=".toList.isPrefixOf (word iam 2) = true then
    ({ s with phase := .returned true }, [])
  else
    s.raise (ProtocolError "invalid IAM response")

/-- One step of `serve_once` up to the end of `_handle_hello`; `none` when it is over. -/
def step (s : HandleHello) : GreetEvent → Option (HandleHello × List Line)
  | .timeout =>
      match s.phase with
      | .idle => some (s.raise (TimeoutError_ "timed out waiting for a control line"))
      | .hru attempt => some (s.onHruTimeout attempt)
      | .who _ => some (s.raise (TimeoutError_ "timed out waiting for a control line"))
      | _ => none
  | .line text =>
      match s.phase with
      | .returned _ => none
      | .raised _ => none
      | phase =>
          if Sender.isRmb text = true then
            -- `_recv_line` answers and reads on.
            some (s, [join ["RMB-ACK".toList, word (split text) 1]])
          else
            match phase with
            | .idle => some (onFirst config baud s text)
            | .hru attempt => some (s.onHru attempt text)
            | .who attempt => some (s.onIam attempt text)
            | _ => none

end HandleHello

end Server

end Pcutp
