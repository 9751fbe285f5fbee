import Pcutp.Flow

/-!
# The receiver

`PcutpClient._receive` as a state machine.  Between two reads of the line it
keeps the variables of its loop (`Recv`); what it does besides is a list of
effects: replies sent, bytes written to `.PART`, truncations, sidecar records
and the final rename.  Effects act on a directory, a map from file names to
contents.

An event is what a read can deliver: a header line, a payload, or a timeout.
Nothing restricts the sender, so the same functions serve any peer.
-/

namespace Pcutp

/-- Constructor arguments and what the handshake left. -/
structure ClientConfig where
  max_block_size : Nat
  free_space : Option Nat
  flow : Bool
  compression : Bool

/-- The fields of a META line. -/
structure Meta where
  filename : Line
  size : Nat
  blocksize : Nat
  blocks : Nat
  crc32 : Line

/-- A META that passed the checks at the head of `_receive`. -/
structure AcceptedMeta (cfg : ClientConfig) extends Meta where
  target : Line
  target_eq : sanitize_filename filename = .ok target
  crc_ok : (parse_hex crc32).isSome = true
  block_ok : 1 ≤ blocksize ∧ blocksize ≤ cfg.max_block_size
  size_ok : size ≤ Const.MAX_FILE_SIZE
  blocks_eq : blocks = blockCount size blocksize
  fits : ∀ space, cfg.free_space = some space → size ≤ space

/-- What leaves `_receive` other than a return. -/
inductive Raised
  | pcutp (exc : PcutpError)
  | os
  deriving DecidableEq

/-- The checks at the head of `_receive`, with the line sent on refusal. -/
def acceptMeta (cfg : ClientConfig) (m : Meta) :
    Except (Reply × PcutpError) (AcceptedMeta cfg) :=
  match htarget : sanitize_filename m.filename with
  | .error _ => .error (.err "PROTOCOL".toList, ProtocolError "invalid META fields")
  | .ok target =>
      if hcrc : (parse_hex m.crc32).isSome = true then
        if hdim : (1 ≤ m.blocksize ∧ m.blocksize ≤ cfg.max_block_size) ∧
            m.size ≤ Const.MAX_FILE_SIZE ∧ m.blocks = blockCount m.size m.blocksize then
          if hfree : ∀ space, cfg.free_space = some space → m.size ≤ space then
            .ok
              { m with
                target
                target_eq := htarget
                crc_ok := hcrc
                block_ok := hdim.1
                size_ok := hdim.2.1
                blocks_eq := hdim.2.2
                fits := hfree }
          else
            .error (.err "STORAGE".toList, StorageError "file will not fit")
        else
          .error (.err "PROTOCOL".toList, ProtocolError "invalid META dimensions")
      else
        .error (.err "PROTOCOL".toList, ProtocolError "invalid META fields")

/-- `_recv_meta` on a META line. -/
def parseMeta (line : Line) : Except PcutpError Meta :=
  let parts := split line
  if parts.length ≠ 6 ∨ word parts 0 ≠ "META".toList then
    .error (ProtocolError "expected META")
  else if !(isdecimal (word parts 2) && isdecimal (word parts 3) && isdecimal (word parts 4)) ∨
      (parse_hex (upper (word parts 5))).isSome = false then
    .error (ProtocolError "invalid META numeric or CRC fields")
  else
    match sanitize_filename (word parts 1) with
    | .error exc => .error exc
    | .ok filename =>
        .ok
          { filename
            size := int (word parts 2)
            blocksize := int (word parts 3)
            blocks := int (word parts 4)
            crc32 := upper (word parts 5) }

/-- A sidecar record, as `_write_rmb` builds it. -/
structure Record where
  state : Line
  filename : Line
  size : Nat
  blocksize : Nat
  blocks : Nat
  next_seq : Nat
  received : Nat
  crc32 : Line
  running_crc32 : Line
  deriving DecidableEq

/-- What `_receive` does besides changing its variables.  A write carries the number of
the block it is for. -/
inductive Effect
  | send (r : Reply)
  | openPart
  | write (seq : Nat) (payload : Bytes)
  | truncate
  | rmb (record : Record)
  | replace
  | unlink
  deriving DecidableEq

/-- The fields of an accepted DATA or ZDATA header. -/
structure DataHeader where
  seq : Nat
  length : Nat
  raw_length : Nat
  want : Line
  packed : Bool
  deriving DecidableEq

/-- Where `_receive` stands: which read it waits in, or how it ended. -/
inductive RecvPhase
  | header
  | payload (h : DataHeader)
  | commit
  | returned (ok : Bool)
  | raised (r : Raised)
  deriving DecidableEq

/-- The variables of the `_receive` loop. -/
structure Recv where
  phase : RecvPhase
  expected : Nat
  running : BitVec 32
  received : Nat
  drops : Nat
  resets : Nat
  peer_closing : Bool

/-- What a read of the receiver can deliver, and how its last steps can go. -/
inductive RecvEvent
  | line (header : Line) (closes : Bool)
  | timeout
  | payload (bytes : Bytes) (torn : Option Bytes)
  | rawTimeout
  | commit (done : Bool)

namespace Recv

variable {cfg : ClientConfig} (m : AcceptedMeta cfg)

/-- The record `_write_rmb` writes for the current variables. -/
def record (state : String) (r : Recv) : Record where
  state := state.toList
  filename := m.filename
  size := m.size
  blocksize := m.blocksize
  blocks := m.blocks
  next_seq := r.expected
  received := r.received
  crc32 := m.crc32
  running_crc32 := to_hex r.running

/-- The loop variables at its start. -/
def start : Recv where
  phase := .header
  expected := 0
  running := 0
  received := 0
  drops := 0
  resets := 0
  peer_closing := false

/-- READY, the first record, and the opened `.PART`. -/
def startEffects : List Effect :=
  [.send .ready, .rmb (record m "ACTIVE" start), .openPart]

/-- `raise exc`. -/
def raise (r : Recv) (exc : PcutpError) : Recv :=
  { r with phase := .raised (.pcutp exc) }

/-- `handle.seek(0); handle.truncate()` and the counters cleared by a sender RST. -/
def restart (r : Recv) : Recv :=
  { r with expected := 0, running := 0, received := 0, drops := 0, resets := 0 }

/-- The checks after the loop, for the DONE line that ended it. -/
def finish (r : Recv) (parts : List Line) (closes : Bool) : Recv × List Effect :=
  if closes = false then
    ({ r with phase := .raised .os }, [])
  else if parts.length ≠ 2 ∨ word parts 0 ≠ "DONE".toList then
    (r.raise (ProtocolError "expected DONE"), [])
  else
    let actual := to_hex r.running
    if actual ≠ upper (word parts 1) ∨ actual ≠ m.crc32 ∨ r.received ≠ m.size then
      ({ r with phase := .returned false }, [.send (.failCrc actual)])
    else
      ({ r with phase := .commit }, [.send (.ok actual)])

/-- The header checks of a data frame. -/
def onData (r : Recv) (parts : List Line) : Recv × List Effect :=
  let packed := cfg.compression && parts.length == 5 && word parts 0 == "ZDATA".toList
  if packed = false ∧ (parts.length ≠ 4 ∨ word parts 0 ≠ "DATA".toList) then
    (r.raise (ProtocolError "expected DATA"), [])
  else if isdecimal (word parts 1) = false ∨ isdecimal (word parts 2) = false ∨
      (packed = true ∧ isdecimal (word parts 3) = false) then
    (r.raise (ProtocolError "invalid DATA numeric fields"), [.send (.err "PROTOCOL".toList)])
  else
    let seq := int (word parts 1)
    let length := int (word parts 2)
    let raw_length := if packed then int (word parts 3) else length
    if ¬ length ≤ m.blocksize ∨ ¬ seq < m.blocks then
      (r.raise (ProtocolError "invalid DATA dimensions"), [.send (.err "PROTOCOL".toList)])
    else if ¬ raw_length ≤ m.blocksize then
      (r.raise (ProtocolError "invalid decompressed length"), [])
    else
      let want := upper (parts.getLastD [])
      ({ r with phase := .payload { seq, length, raw_length, want, packed } }, [])

/-- One turn of the loop on a header line. -/
def onLine (r : Recv) (header : Line) (closes : Bool) : Recv × List Effect :=
  let parts := split header
  if parts.take 1 = ["ERR".toList] then
    (r.raise
      { cls := .pcutp
        message := "ERR line"
        code := if 1 < parts.length then word parts 1 else "PROTOCOL".toList }, [])
  else if parts.length = 2 ∧ word parts 0 = "AYT?".toList ∧ isdecimal (word parts 1) = true then
    (r, [.send (.here (word parts 1) r.expected)])
  else if parts.length = 3 ∧ parts.take 2 = ["RST".toList, "0".toList] ∧
      isdecimal (word parts 2) = true then
    (r.restart,
      [.truncate, .rmb (record m "RESET" r.restart), .send (.rstAck (word parts 2))])
  else if parts.take 1 = ["DONE".toList] then
    if r.expected ≠ m.blocks then
      (r.raise (ProtocolError "DONE before all blocks arrived"), [])
    else
      r.finish m parts closes
  else if cfg.flow = true ∧ parts.length = 2 ∧ word parts 0 = "BARRIER".toList then
    if isdecimal (word parts 1) = false then
      (r.raise (ProtocolError "invalid recovery barrier"), [])
    else
      (r, [.send (.resume (word parts 1) r.expected)])
  else if header = "CLOSE".toList then
    ({ r with peer_closing := true }, [.send .bye])
  else
    r.onData m parts

/-- An out-of-order block: DROP, or a restart of the whole file. -/
def onGap (r : Recv) (seq : Nat) : Recv × List Effect :=
  let drops := r.drops + 1
  if drops ≥ Const.MAX_DROPS then
    let resets := r.resets + 1
    if resets > Const.MAX_RESETS then
      (({ r with drops, resets } : Recv).raise (ProtocolError "too many sequence resets"),
        [.send (.err "RETRY".toList)])
    else
      ({ r with expected := 0, running := 0, received := 0, drops := 0, resets },
        [.truncate, .send .rst])
  else
    ({ r with drops }, [.send (.drop r.expected (dec seq))])

/-- An in-order block: write it, count it, acknowledge it. -/
def onBlock (r : Recv) (seq : Nat) (payload : Bytes) : Recv × List Effect :=
  let r' : Recv :=
    { r with
      running := Pcutp.crc32 payload r.running
      received := r.received + payload.length
      expected := r.expected + 1
      drops := 0 }
  (r', [.write seq payload, .send (.ack seq)] ++
    if r'.expected = m.blocks ∨ r'.expected % 8 = 0 then [.rmb (record m "ACTIVE" r')] else [])

/-- The part of a turn after the payload was decoded. -/
def onDecoded (r : Recv) (h : DataHeader) (payload : Bytes) (length : Nat)
    (torn : Option Bytes) : Recv × List Effect :=
  if crc32_hex payload ≠ h.want then
    (r, [.send (.nak r.expected "CRC".toList)])
  else if h.seq < r.expected then
    (r, [.send (.ack (if cfg.flow = true then r.expected - 1 else h.seq))])
  else if h.seq ≠ r.expected then
    r.onGap h.seq
  else if length ≠ min m.blocksize (m.size - r.received) then
    (r.raise (ProtocolError "DATA length does not match META"),
      [.send (.err "PROTOCOL".toList)])
  else
    match torn with
    | some bytes =>
        -- `handle.write` raised: part of the payload may have reached the file.
        (r.raise (StorageError "file write failed"),
          [.write h.seq bytes, .send (.err "WRITE".toList)])
    | none => r.onBlock m h.seq payload

/-- One turn of the loop on a payload that arrived whole. -/
def onPayload (r : Recv) (h : DataHeader) (payload : Bytes) (torn : Option Bytes) :
    Recv × List Effect :=
  let r := { r with phase := .header }
  if h.packed then
    match decompress payload h.raw_length with
    | .error _ => (r, [.send (.nak r.expected "DECODE".toList)])
    | .ok plain => r.onDecoded m h plain h.raw_length torn
  else
    r.onDecoded m h payload h.length torn

/-- The turn of a payload that did not arrive in time. -/
def onRawTimeout (cfg : ClientConfig) (r : Recv) : Recv × List Effect :=
  ({ r with phase := .header },
    [.send (if cfg.flow = true then .drop r.expected "RAW".toList
      else .nak r.expected "RAW".toList)])

/-- One step of `_receive`; `none` when the event cannot occur in this phase. -/
def step (r : Recv) : RecvEvent → Option (Recv × List Effect)
  | .line header closes =>
      match r.phase with
      | .header => some (r.onLine m header closes)
      | _ => none
  | .timeout =>
      match r.phase with
      | .header => some (r.raise (TimeoutError_ "timed out waiting for a control line"), [])
      | _ => none
  | .payload bytes torn =>
      match r.phase with
      | .payload h => if bytes.length = h.length then some (r.onPayload m h bytes torn) else none
      | _ => none
  | .rawTimeout =>
      match r.phase with
      | .payload _ => some (onRawTimeout cfg r)
      | _ => none
  | .commit done =>
      match r.phase with
      | .commit =>
          if done = true then some ({ r with phase := .returned true }, [.replace, .unlink])
          else some ({ r with phase := .raised .os }, [])
      | _ => none

/-- The turn of a command that arrives whole: its line, and the payload if one is asked for. -/
def read (r : Recv) (c : Command) : Option (Recv × List Effect) :=
  match r.step m (.line c.line true) with
  | none => none
  | some (r', effects) =>
      match r'.phase with
      | .payload _ =>
          (r'.step m (.payload c.payload none)).map fun p => (p.1, effects ++ p.2)
      | _ => some (r', effects)

end Recv

/-- `PcutpClient.get` after its GET line: `_recv_meta`, then `_receive`. -/
inductive Client (cfg : ClientConfig)
  | awaiting (fetching : Bool)
  | receiving (m : AcceptedMeta cfg) (r : Recv)
  | stopped (r : Raised)

namespace Client

variable {cfg : ClientConfig}

/-- A line read by `_recv_meta`, and the head of `_receive` when it is a META. -/
def onMeta (cfg : ClientConfig) (fetching : Bool) (text : Line) : Client cfg × List Effect :=
  if (split text).take 1 = ["ERR".toList] then
    (.stopped
      (.pcutp
        { cls := .pcutp
          message := "ERR line"
          code := if 1 < (split text).length then word (split text) 1 else "PROTOCOL".toList }), [])
  else if fetching = false ∧ text = "FETCHING".toList then
    (.awaiting true, [])
  else
    match parseMeta text with
    | .error exc => (.stopped (.pcutp exc), [])
    | .ok m =>
        match acceptMeta cfg m with
        | .error (reply, exc) => (.stopped (.pcutp exc), [.send reply])
        | .ok m => (.receiving m Recv.start, Recv.startEffects m)

/-- The turn of a command that arrives whole. -/
def read (client : Client cfg) (c : Command) : Option (Client cfg × List Effect) :=
  match client with
  | .awaiting fetching => some (onMeta cfg fetching c.line)
  | .receiving m r => (r.read m c).map fun p => (.receiving m p.1, p.2)
  | .stopped _ => none

/-- The steps of the receiver that read nothing. -/
def act (client : Client cfg) (ev : RecvEvent) : Option (Client cfg × List Effect) :=
  match client, ev with
  | .receiving m r, ev => (r.step m ev).map fun p => (.receiving m p.1, p.2)
  | .awaiting _, .timeout =>
      some (.stopped (.pcutp (TimeoutError_ "timed out waiting for a control line")), [])
  | _, _ => none

/-- Whether `_receive` returned `ok=True`. -/
def saved (client : Client cfg) : Bool :=
  match client with
  | .receiving _ r =>
      match r.phase with
      | .returned ok => ok
      | _ => false
  | _ => false

theorem saved_iff
    {client : Client cfg} :
    client.saved = true ↔ ∃ m r, client = .receiving m r ∧ r.phase = .returned true := by
  constructor
  · intro h
    unfold saved at h
    split at h
    · rename_i m r
      split at h
      · rename_i hphase
        exact ⟨m, r, rfl, h ▸ hphase⟩
      · cases h
    · cases h
  · rintro ⟨m, r, rfl, hphase⟩
    simp [saved, hphase]

end Client

/-- What a file holds: bytes, or a sidecar record. -/
inductive Content
  | bytes (b : Bytes)
  | rmb (record : Record)

/-- A directory: the contents of each file name in use. -/
abbrev Directory := Line → Option Content

/-- `filename + const.PART_SUFFIX`. -/
def partName (filename : Line) : Line :=
  filename ++ ".PART".toList

/-- `filename + ".PCUTP"`. -/
def checkpointName (filename : Line) : Line :=
  filename ++ ".PCUTP".toList

/-- The temporary file of `_write_rmb`. -/
def temporaryName (filename : Line) : Line :=
  checkpointName filename ++ ".TMP".toList

/-- The bytes of a file, when it holds bytes. -/
def Content.bytes? : Content → Option Bytes
  | bytes b => some b
  | rmb _ => none

/-- The bytes of `.PART`. -/
def partBytes (filename : Line) (dir : Directory) : Option Bytes :=
  (dir (partName filename)).bind Content.bytes?

/-- What an effect does to the directory. -/
def Effect.apply (filename : Line) (dir : Directory) : Effect → Directory
  | send _ => dir
  | openPart => Function.update dir (partName filename) (some (.bytes []))
  | write _ payload =>
      Function.update dir (partName filename)
        (some (.bytes ((partBytes filename dir).getD [] ++ payload)))
  | truncate => Function.update dir (partName filename) (some (.bytes []))
  | rmb record =>
      Function.update (Function.update dir (temporaryName filename) none)
        (checkpointName filename) (some (.rmb record))
  | replace =>
      Function.update (Function.update dir filename (dir (partName filename)))
        (partName filename) none
  | unlink => Function.update dir (checkpointName filename) none

/-- The directory after a list of effects. -/
def applyEffects (filename : Line) (dir : Directory) (effects : List Effect) : Directory :=
  effects.foldl (Effect.apply filename) dir

end Pcutp
