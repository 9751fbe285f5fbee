import Pcutp.Lib.Machine
import Pcutp.Picocalc.Reader

/-!
# The program of the PicoCalc

`PCUTP.BAS` from its first HELLO on.  The program always stands in one of its
three readers, and a place says in which, on whose behalf, and with which
locals.  Between two reads it runs straight through: what follows each read is a
function here, from the global variables to the next place.

A tick gives the program the time, the bytes that have arrived at COM2 and the
key that is hit.  `Run` starts the program again, with fresh variables; here it
is a place in which the program has stopped.
-/

namespace Pcutp.Picocalc

section Places

/-- Who waits for a line in `RecvLine$`. -/
inductive Wait
  /-- The answer to the n-th HELLO. -/
  | dial (helloTry : Nat)
  /-- WHO? after HRU. -/
  | who
  /-- The answer to GET. -/
  | answer
  /-- META after FETCHING. -/
  | fetched
  /-- A line of the transfer. -/
  | data
  /-- BYE, after the k-th CLOSE. -/
  | bye (k : Nat)
  /-- The CLOSE of the other end, from a time on. -/
  | close (t0 : Nat)
  /-- A repeated CLOSE, from a time on. -/
  | linger (t0 : Nat)
  deriving DecidableEq

/-- The timeout that each of them gives `RecvLine$`. -/
def Wait.tmo : Wait → Nat
  | .dial _ | .who | .answer => Const.HSTMO
  | .fetched => Const.FETTMO
  | .data => Const.RSTTMO
  | .bye _ | .close _ => Const.CLSTMO
  | .linger _ => Const.LINGERMS

/-- The prompts. -/
inductive Prompt
  | url
  | filename (url : Line)
  deriving DecidableEq

/-- What a DATA or ZDATA line says of its block. -/
structure Frame where
  n : Int
  ln : Int
  rawlen : Int
  want : Line
  zipped : Bool
  deriving DecidableEq

/-- How the program stops. -/
inductive Stop
  | ended
  | rerun
  /-- The error for an index that an array does not have. -/
  | indexError
  /-- An access outside the arrays. -/
  | addressError
  deriving DecidableEq

/-- Where the program stands. -/
inductive Place
  | line (wait : Wait) (l : RecvLine)
  | prompt (p : Prompt) (l : InputAlive)
  | raw (frame : Frame) (l : RecvRaw)
  | stopped (how : Stop)
  deriving DecidableEq

/-- What the program does between two reads. -/
structure Next where
  g : Globals
  place : Place
  out : List Effect

end Places

section Calls

variable (g : Globals) (now : Nat)

/-- `RecvLine$` is called. -/
def recvLine (wait : Wait) (out : List Effect) : Next :=
  ⟨g, .line wait { s := [], t := now, t0 := now }, out⟩

/-- `InputAlive$` is called. -/
def inputAlive (p : Prompt) (out : List Effect) : Next :=
  ⟨g, .prompt p { u := [], txt := [] }, out⟩

def stop (how : Stop) (out : List Effect) : Next :=
  ⟨g, .stopped how, out⟩

end Calls

section Closing

variable (g : Globals) (now : Nat)

/-- `Linger`. -/
def Linger (out : List Effect) : Next :=
  recvLine g now (.linger now) out

/-- The loop of `Linger` after a line. -/
def afterLinger (t0 : Nat) (s : Line) : Next :=
  let out := if s = "CLOSE".toList then [Effect.send "BYE".toList] else []
  if now - t0 < Const.LINGERMS then recvLine g now (.linger t0) out else stop g .ended out

/-- The second half of `CloseSession`. -/
def awaitClose (out : List Effect) : Next :=
  if g.peerDone then Linger g now out else recvLine g now (.close now) out

/-- The wait for the CLOSE of the other end, after a line. -/
def afterClose (t0 : Nat) (s : Line) : Next :=
  if s = [] then Linger g now []
  else if s = "CLOSE".toList then Linger g now [.send "BYE".toList]
  else if now - t0 < Const.CLSTMO then recvLine g now (.close t0) []
  else Linger g now []

/-- `CloseSession`. -/
def CloseSession (out : List Effect) : Next :=
  recvLine g now (.bye 1) (out ++ [.send "CLOSE".toList])

/-- The loop of `CloseSession` after a line. -/
def afterBye (k : Nat) (s : Line) : Next :=
  if s = "BYE".toList then
    awaitClose g now []
  else
    let closes := s = "CLOSE".toList
    let g := if closes then { g with peerDone := true } else g
    let out := if closes then [Effect.send "BYE".toList] else []
    if k < Const.CLSRTY then recvLine g now (.bye (k + 1)) (out ++ [.send "CLOSE".toList])
    else awaitClose g now out

end Closing

section Dialing

variable (nums : Numbers) (g : Globals) (now : Nat)

/-- `VER$`. -/
def VER : Line :=
  "PCUTP/2".toList

/-- The line of the n-th call. -/
def helloLine (helloTry : Nat) : Line :=
  join [(if helloTry = 1 then "HELLO" else "HELLO?").toList, VER, "FLOW=1".toList,
    "MAXBLK=".toList ++ Str Const.BLKMAX, "WINDOW=".toList ++ Str Const.WINMAX,
    "RXBUF=".toList ++ Str Const.RXBUFSZ, "LZ4=1".toList, "IDENTITY=1".toList]

/-- One round of the loop that dials, up to the read. -/
def dial (helloTry : Nat) : Next :=
  recvLine { g with lastRx := now } now (.dial helloTry) [.send (helloLine helloTry)]

/-- The prefix test on the answer. -/
def isProposal (s : Line) : Bool :=
  begins "HELLO PCUTP/2 HRU?" s || begins "OHRU PCUTP/2" s

/-- The fields of the proposal from `answerAt` on, in turn; `none` for `Invalid MAXBLK`. -/
def readFields (g : Globals) : List Line → Option Globals
  | [] => some g
  | field :: fields =>
      let maxblk := if begins "MAXBLK=" field then nums.Val (Mid field 8) else g.maxblk
      if begins "MAXBLK=" field ∧ (maxblk < 1 ∨ Const.BLKMAX < maxblk) then
        none
      else
        readFields
          { g with
            maxblk
            flowOn := g.flowOn || field = "FLOW=1".toList
            zipOn := g.zipOn || field = "LZ4=1".toList
            winsz := if begins "WINDOW=" field then nums.Val (Mid field 8) else g.winsz }
          fields

/-- `Print "CONNECT ..."`, and the first prompt. -/
def connect (out : List Effect) : Next :=
  inputAlive g .url (out ++ [.show "CONNECT 115200".toList])

/-- What was proposed is checked and confirmed with HRU. -/
def confirm (s : Line) : Next :=
  if g.winsz < 1 ∨ Const.WINMAX < g.winsz then stop g .ended []
  else if Const.RXBUFSZ < g.winsz * (g.maxblk + 64) then stop g .ended []
  else if "IDENTITY=1".toList <:+: s then recvLine g now .who [.send "HRU".toList]
  else connect g [.send "HRU".toList]

/-- The proposal `s` from `answerAt` on. -/
def acceptProposal (answerAt : Nat) (s : Line) : Next :=
  let g := { g with maxblk := Const.BLKMAX, winsz := 1, flowOn := false, zipOn := false }
  match readFields nums g (g.parts.toList.drop answerAt) with
  | none => stop g .ended []
  | some g => confirm (if g.flowOn then g else { g with winsz := 1 }) now s

/-- What follows the loop that dials, with the last line read. -/
def answered (s : Line) : Next :=
  if begins "ERR" s then stop g .ended []
  else if isProposal s then
    match Split s g.parts with
    | none => stop g .indexError []
    | some parts =>
        let g := { g with parts }
        if parts[0] = "HELLO".toList ∧ parts[1] = VER ∧ parts[2] = "HRU?".toList then
          acceptProposal nums g now 3 s
        else if parts[0] = "OHRU".toList ∧ parts[1] = VER then
          acceptProposal nums g now 2 s
        else
          stop g .ended []
  else
    stop g .rerun []

/-- The loop that dials, after a line. -/
def afterDial (helloTry : Nat) (s : Line) : Next :=
  if isProposal s then answered nums g now s
  else if helloTry < Const.HELLO_RETRIES then dial g now (helloTry + 1)
  else answered nums g now s

/-- The read after HRU. -/
def afterWho (s : Line) : Next :=
  connect g
    (if s = "WHO? 0".toList then
      [.send "IAM 0 TYPE=MCU NAME=PicoCalc ROLE=CLIENT VER=2.1".toList]
    else [])

end Dialing

section Prompts

variable (g : Globals) (now : Nat)

/-- `ValidUrl(u$)`. -/
def ValidUrl (u : Line) : Bool :=
  (begins "http://" u || begins "https://" u) && u.all fun ch => 32 ≤ ch.toNat && ch.toNat ≤ 126

/-- `ValidName(n$)`. -/
def ValidName (n : Line) : Bool :=
  (1 ≤ n.length && n.length ≤ 64) &&
    n.all fun ch =>
      (48 ≤ ch.toNat && ch.toNat ≤ 57) || (65 ≤ ch.toNat && ch.toNat ≤ 90) ||
        (97 ≤ ch.toNat && ch.toNat ≤ 122) || ch.toNat = 46 || ch.toNat = 95 || ch.toNat = 45

/-- The variables of a transfer at zero. -/
def cleared (rmbState : RmbState) : Globals :=
  { g with
    rmbState, size := 0, blksz := 0, blocks := 0, seq := 0, rcvd := 0, fcrc := 0, running := 0 }

/-- What follows the prompt for a URL. -/
def afterUrl (url : Line) : Next :=
  if url = [] then CloseSession g now []
  else if ValidUrl url then inputAlive g (.filename url) []
  else inputAlive g .url []

/-- What follows the prompt for a file name: GET. -/
def afterFilename (url name : Line) : Next :=
  let g := { g with fn := name }
  if name = [] then
    inputAlive g .url []
  else if ValidName name then
    recvLine (cleared g .fetching) now .answer [.send (join ["GET".toList, name, url])]
  else
    inputAlive g (.filename url) []

end Prompts

section Fetching

variable (nums : Numbers) (g : Globals) (now : Nat)

/-- The path of the partial file. -/
def partPath : Line :=
  dest g.fn ++ ".PART".toList

/-- The number of blocks of a file. -/
def blockCount (size blksz : Int) : Int :=
  let n := (size + blksz - 1) / blksz
  if n = 0 then 1 else n

/-- READY, and the transfer begins. -/
def receive : Next :=
  let g := { g with
    kaWin := Const.RSTTMO, running := 0, seq := 0, rcvd := 0, drops := 0, resets := 0
    rmbState := .active }
  recvLine g now .data ([.openPart (partPath g), .send "READY".toList] ++ SaveRmb g g.rmbState)

/-- A line that should be META. -/
def afterMeta (s : Line) : Next :=
  match Split s g.parts with
  | none => stop g .indexError []
  | some parts =>
      let g := { g with parts }
      if parts[0] ≠ "META".toList then
        stop g .ended []
      else
        let g : Globals := { g with
          size := nums.Val parts[2]
          blksz := nums.Val parts[3]
          blocks := nums.Val parts[4]
          fcrc := HexVal nums parts[5] }
        if g.blksz < 1 ∨ g.maxblk < g.blksz ∨ g.size < 0 ∨ 16777216 < g.size then
          stop g .ended [.send "ERR PROTOCOL".toList]
        else if g.blocks ≠ blockCount g.size g.blksz then
          stop g .ended [.send "ERR PROTOCOL".toList]
        else
          receive g now

/-- The answer to GET. -/
def afterAnswer (s : Line) : Next :=
  if begins "ERR" s then inputAlive (cleared g .none) .url []
  else if s = "FETCHING".toList then recvLine { g with kaWin := Const.FETTMO } now .fetched []
  else afterMeta nums g now s

/-- The line after FETCHING. -/
def afterFetched (s : Line) : Next :=
  let g := { g with kaWin := Const.KATMO }
  if begins "ERR" s then inputAlive (cleared g .none) .url []
  else afterMeta nums g now s

end Fetching

section Transfer

variable (nums : Numbers) (g : Globals) (now : Nat)

/-- The transfer starts over: the partial file is emptied. -/
def restarted (resets : Int) : Globals :=
  { g with running := 0, seq := 0, rcvd := 0, drops := 0, resets, rmbState := .reset }

/-- `Print #1, "ERR PROTOCOL": Close #2: End`. -/
def protocolError : Next :=
  stop g .ended [.send "ERR PROTOCOL".toList, .close]

/-- The verdict on the file: the final CRC. -/
def finalCrc : Next :=
  let g := { g with kaWin := Const.KATMO }
  if g.running ≠ g.fcrc ∨ g.running ≠ HexVal nums g.parts[1] ∨ g.rcvd ≠ g.size then
    inputAlive g .url [.close, .send ("FAIL FILECRC ".toList ++ Hex8 g.running)]
  else
    let out := [.close, .send ("OK ".toList ++ Hex8 g.running), .kill (dest g.fn),
      .rename (partPath g) (dest g.fn), .kill (dest g.fn ++ ".PCUTP".toList)]
    let g := { g with seq := 0, rmbState := .done }
    if g.peerDone then CloseSession g now out else inputAlive g .url out

/-- The bytes of a block on their way to the file: from `wpos` on they are copied to `ws$`, at
most 255 at a time, and `none` when a copy left `buf%()`. -/
def writeLoop (buf : Memory.Area 4096) (ln wpos : Nat) : Option Bytes :=
  if wpos < ln then
    let wchunk := if ln - wpos > 255 then 255 else ln - wpos
    match buf.read wpos wchunk with
    | none => none
    | some ws => (writeLoop buf ln (wpos + wchunk)).map (ws ++ ·)
  else
    some []
termination_by ln - wpos
decreasing_by
  split <;> omega

/-- A block that has its place: the bytes go to the file. -/
def commit (n ln : Int) (running : BitVec 64) : Next :=
  let wchunk := if g.blksz < g.size - g.rcvd then g.blksz else g.size - g.rcvd
  if ln ≠ wchunk then
    protocolError g
  else
    match writeLoop g.arrays.buf ln.toNat 0 with
    | none => stop g .addressError []
    | some data =>
        let g := { g with running, seq := g.seq + 1, drops := 0, rcvd := g.rcvd + ln }
        let saves := g.seq % 8 = 0 ∨ g.rcvd = g.size
        let g := if saves then { g with rmbState := .active } else g
        recvLine g now .data
          ([.write data, .send ("ACK ".toList ++ Str n)] ++
            if saves then SaveRmb g g.rmbState else [])

/-- A block of another sequence number. -/
def outOfPlace (n : Int) : Next :=
  let g := { g with drops := g.drops + 1 }
  if Const.DROP_MAX ≤ g.drops then
    let g := { g with resets := g.resets + 1 }
    if Const.RESET_MAX < g.resets then
      stop g .ended [.send "ERR RETRY".toList, .close]
    else
      let g := restarted g g.resets
      recvLine g now .data
        ([.close, .openPart (partPath g)] ++ SaveRmb g g.rmbState ++ [.send "RST 0".toList])
  else
    recvLine g now .data [.send (join ["DROP".toList, Str g.seq, Str n])]

/-- A block of `ln` bytes in `buf%()`: its checksum, and its place in the file. -/
def checkBlock (frame : Frame) (ln : Int) : Next :=
  match CrcBoth g.arrays.buf 0 g.running ln.toNat with
  | none => stop g .addressError []
  | some (crcBlockOut, crcRunningOut) =>
      if Hex8 crcBlockOut ≠ frame.want then
        recvLine g now .data [.send (join ["NAK".toList, Str g.seq, "CRC".toList])]
      else if frame.n < g.seq then
        -- A duplicate is acknowledged again.
        recvLine g now .data
          [.send ("ACK ".toList ++ Str (if g.flowOn then g.seq - 1 else frame.n))]
      else if frame.n ≠ g.seq then
        outOfPlace g now frame.n
      else
        commit g now frame.n ln crcRunningOut

/-- The bytes of a block are in `buf%()`. -/
def afterRaw (frame : Frame) : Next :=
  if frame.zipped then
    match UnpackLZ4 frame.ln.toNat frame.rawlen.toNat g.arrays with
    | none => stop g .addressError []
    | some (false, arrays) =>
        recvLine { g with arrays } now .data
          [.send (join ["NAK".toList, Str g.seq, "DECODE".toList])]
    | some (true, arrays) => checkBlock { g with arrays } now frame frame.rawlen
  else
    checkBlock g now frame frame.ln

/-- What a DATA or ZDATA line says. -/
def readFrame (zipped : Bool) (parts : Vector Line 9) : Frame where
  n := nums.Val parts[1]
  ln := nums.Val parts[2]
  rawlen := nums.Val (if zipped then parts[3] else parts[2])
  want := upper (if zipped then parts[4] else parts[3])
  zipped := zipped

/-- A DATA or ZDATA line. -/
def afterFrame (frame : Frame) : Next :=
  if frame.ln < 0 ∨ g.blksz < frame.ln ∨ frame.n < 0 ∨ g.blocks ≤ frame.n then protocolError g
  else if frame.rawlen < 0 ∨ g.blksz < frame.rawlen then protocolError g
  -- `RecvRaw` has nothing to wait for.
  else if frame.ln = 0 then afterRaw g now frame
  else ⟨g, .raw frame { got := 0, t := now }, []⟩

/-- A line of the transfer. -/
def afterData (s : Line) : Next :=
  if begins "ERR" s then
    stop g .ended [.close]
  else if s = "CLOSE".toList then
    recvLine { g with peerDone := true } now .data [.send "BYE".toList]
  else
    match Split s g.parts with
    | none => stop g .indexError []
    | some parts =>
        let g := { g with parts }
        if parts[0] = "RST".toList ∧ parts[1] = "0".toList ∧ parts[2] ≠ [] then
          let g := restarted g 0
          recvLine g now .data
            ([.close, .openPart (partPath g)] ++ SaveRmb g g.rmbState ++
              [.send (join ["RST-ACK".toList, parts[2], "0".toList])])
        else if parts[0] = "DONE".toList then
          if g.seq ≠ g.blocks then protocolError g else finalCrc nums g now
        else if g.flowOn ∧ parts[0] = "BARRIER".toList then
          recvLine g now .data [.send (join ["RESUME".toList, parts[1], Str g.seq])]
        else
          let zipped := g.zipOn && parts[0] = "ZDATA".toList
          if zipped = false ∧ parts[0] ≠ "DATA".toList then
            stop g .ended [.close]
          else
            afterFrame g now (readFrame nums zipped parts)

/-- `RecvRaw` has timed out. -/
def rawTimedOut : Next :=
  recvLine g now .data [.send (join ["DROP".toList, Str g.seq, "RAW".toList])]

end Transfer

section Machine

variable (nums : Numbers)

/-- What follows the line that a reader was asked for. -/
def afterLine (g : Globals) (now : Nat) (s : Line) : Wait → Next
  | .dial helloTry => afterDial nums g now helloTry s
  | .who => afterWho g s
  | .answer => afterAnswer nums g now s
  | .fetched => afterFetched nums g now s
  | .data => afterData nums g now s
  | .bye k => afterBye g now k s
  | .close t0 => afterClose g now t0 s
  | .linger t0 => afterLinger g now t0 s

/-- What follows a prompt. -/
def afterPrompt (g : Globals) (now : Nat) (txt : Line) : Prompt → Next
  | .url => afterUrl g now txt
  | .filename url => afterFilename g now url txt

/-- The program and what COM2 holds for it. -/
structure State where
  g : Globals
  place : Place
  queue : Bytes

/-- What a tick gives the program. -/
structure Tick where
  now : Nat
  arrived : Bytes
  key : Option Char
  deriving DecidableEq

/-- The state in which what follows a read leaves the program. -/
def Next.state (next : Next) (queue : Bytes) : State :=
  ⟨next.g, next.place, queue⟩

/-- One turn of the loop in which the program stands; `none` when it has stopped. -/
def step (st : State) (tick : Tick) : Option (State × List Effect) :=
  let queue := st.queue ++ tick.arrived
  match st.place with
  | .stopped _ => none
  | .line wait l =>
      match recvTurn nums st.g queue tick.now wait.tmo l with
      | .again g queue l out => some (⟨g, .line wait l, queue⟩, out)
      | .returned g queue s out =>
          let next := afterLine nums g tick.now s wait
          some (next.state queue, out ++ next.out)
      | .lost g out => some (⟨g, .stopped .rerun, queue⟩, out)
  | .prompt p l =>
      match inputTurn nums st.g queue tick.now tick.key l with
      | .again g queue l out => some (⟨g, .prompt p l, queue⟩, out)
      | .returned g queue txt out =>
          let next := afterPrompt g tick.now txt p
          some (next.state queue, out ++ next.out)
      | .lost g out => some (⟨g, .stopped .rerun, queue⟩, out)
  | .raw frame l =>
      match rawTurn st.g queue tick.now frame.ln.toNat Const.DATTMO l with
      | none => some (⟨st.g, .stopped .addressError, queue⟩, [])
      | some (.again g queue l out) => some (⟨g, .raw frame l, queue⟩, out)
      | some (.returned g queue ok out) =>
          let next := if ok then afterRaw g tick.now frame else rawTimedOut g tick.now
          some (next.state queue, out ++ next.out)
      | some (.lost g out) => some (⟨g, .stopped .rerun, queue⟩, out)

/-- The program starts at a time: it dials. -/
def start (now : Nat) : State × List Effect :=
  let next := dial (.start now) now 1
  (next.state [], next.out)

/-- A line comes in, byte by byte, all at one time. -/
def bytesIn (now : Nat) (line : String) : List Tick :=
  line.toList.map (fun c => { now, arrived := [UInt8.ofNat c.toNat], key := none }) ++
    [{ now, arrived := [10], key := none }]

/-- Keys are hit, with Enter after them. -/
def keysIn (now : Nat) (text : String) : List Tick :=
  text.toList.map (fun c => { now, arrived := [], key := some c }) ++
    [{ now, arrived := [], key := some '\r' }]

end Machine

end Pcutp.Picocalc
