import Pcutp.Complete
import Pcutp.Link
import Pcutp.Picocalc.Sent

/-!
# A transfer over a line that loses a byte

The two ends of a FLOW transfer with the bytes between them.  `_receive` takes
lines and payloads off one stream, and a payload is so many bytes, whatever they
are.  When the line has lost a byte of a payload, the receiver waits for one more
byte: the first byte of whatever is written behind the frame.

The line loses one byte at most, and nothing else.  What was written is there when
the receiver reads, and a clock runs out only when nothing is on its way.  The
receiver waits for a payload as long as the sender waits for a reply
(`DATA_TIMEOUT`, `ACK_TIMEOUT`), so either of the two can give up first; the guard
of the sender outlasts both.
-/

namespace Pcutp

/-- The bytes of a command on the line. -/
def Command.bytes (c : Command) : Bytes :=
  encodeFrame c.line c.payload

/-- The frame without byte `j` of its payload. -/
def Command.without (c : Command) (j : Nat) : Command :=
  c.withPayload (c.payload.eraseIdx j)

namespace Client

variable {cfg : ClientConfig}

/-- A line that `recv_line` returns. -/
def hear (client : Client cfg) (text : Line) : Option (Client cfg × List Effect) :=
  match client with
  | .awaiting fetching => some (onMeta cfg fetching text)
  | client => client.act (.line text true)

/-- `recv_line` raises. -/
def abort (client : Client cfg) (exc : PcutpError) : Client cfg :=
  match client with
  | .receiving m r => .receiving m (r.raise exc)
  | _ => .stopped (.pcutp exc)

/-- One turn of `recv_line` on all the bytes that came.  The lines that it answers or drops itself
are no part of a transfer. -/
def takeLine (client : Client cfg) (stream : Bytes) : Option (Bytes × Client cfg × List Effect) :=
  match Link.cutLine stream with
  | some (raw, rest) =>
      if isTransparent (split (lineText raw)) = true then
        some (rest, client, [])
      else
        (client.hear (lineText raw)).map fun p => (rest, p)
  | none =>
      if stream.length > Const.MAX_LINE_LEN then
        some (stream, client.abort (ProtocolError "control line too long"), [])
      else
        none

/-- What the receiver takes off the stream: a line, or by `recv_exact` the payload of the header
that it has read.  `none` while it waits for more bytes. -/
def take (client : Client cfg) (stream : Bytes) : Option (Bytes × Client cfg × List Effect) :=
  match client with
  | .awaiting fetching => takeLine (.awaiting fetching) stream
  | .receiving m r =>
      match r.phase with
      | .header => takeLine (.receiving m r) stream
      | .payload h =>
          if h.length ≤ stream.length then
            (r.step m (.payload (stream.take h.length) none)).map fun p =>
              (stream.drop h.length, .receiving m p.1, p.2)
          else
            none
      | _ => none
  | .stopped _ => none

/-- The receiver waits for a payload that the stream does not hold. -/
def starves (client : Client cfg) (stream : Bytes) : Bool :=
  match client with
  | .receiving _ r =>
      match r.phase with
      | .payload h => decide (stream.length < h.length)
      | _ => false
  | _ => false

/-- What `_recv_meta` or `_receive` has raised. -/
def raised (client : Client cfg) : Option Raised :=
  match client with
  | .stopped exc => some exc
  | .receiving _ r =>
      match r.phase with
      | .raised exc => some exc
      | _ => none
  | .awaiting _ => none

end Client

/-- The two ends, the bytes and the replies between them, and what happened so far. -/
structure ByteLine (cfg : ClientConfig) where
  sender : Sender
  client : Client cfg
  stream : Bytes
  replies : List Reply
  written : List Command
  trace : List Effect
  /-- The block whose frame has lost a byte. -/
  lost : Option Nat

/-- What can happen next. -/
inductive ByteEvent
  /-- The sender does what needs no read. -/
  | run
  /-- The same, and the line loses byte `j` of the payload that is written. -/
  | lose (j : Nat)
  /-- A read of the sender times out. -/
  | timeout
  /-- The sender reads a reply, perhaps when its deadline has passed. -/
  | reply (late : Bool)
  /-- The receiver takes a line or a payload. -/
  | read
  /-- `recv_exact` times out, and `discard_input` empties the stream. -/
  | rawTimeout
  /-- The receiver renames the verified file. -/
  | commit
  /-- `recv_line` of the receiver times out. -/
  | giveUp

namespace ByteLine

variable {cfg : ClientConfig}

/-- The state when `send_file` has written META. -/
def start (cfg : ClientConfig) (job : Job) (barrier_id : Nat) (reset_token : Option Line) :
    ByteLine cfg where
  sender := Sender.start barrier_id reset_token
  client := .awaiting true
  stream := job.announcement.bytes
  replies := []
  written := [job.announcement]
  trace := []
  lost := none

/-- The sender has moved. -/
def sent (w : ByteLine cfg) (p : Sender × List Command) : ByteLine cfg :=
  { w with
    sender := p.1
    stream := w.stream ++ p.2.flatMap Command.bytes
    written := w.written ++ p.2 }

/-- The receiver has moved. -/
def received (w : ByteLine cfg) (p : Client cfg × List Effect) : ByteLine cfg :=
  { w with
    client := p.1
    replies := w.replies ++ sends p.2
    trace := w.trace ++ p.2 }

/-- One step of the system. -/
def step (job : Job) (w : ByteLine cfg) : ByteEvent → Option (ByteLine cfg)
  | .run => (w.sender.step job .run).map w.sent
  | .lose j =>
      match w.lost, w.sender.step job .run with
      | none, some (sender, [c]) =>
          if j < c.payload.length then
            some { w with
              sender
              stream := w.stream ++ (c.without j).bytes
              written := w.written ++ [c]
              lost := c.seq? }
          else
            none
      | _, _ => none
  | .timeout => (w.sender.step job .timeout).map w.sent
  | .reply late =>
      match w.replies with
      | [] => none
      | r :: replies =>
          (w.sender.step job (.line r.line late)).map fun p => { w with replies }.sent p
  | .read => (w.client.take w.stream).map fun q => { w with stream := q.1 }.received q.2
  | .rawTimeout =>
      if w.client.starves w.stream = true then
        (w.client.act .rawTimeout).map fun p => { w with stream := [] }.received p
      else
        none
  | .commit => (w.client.act (.commit true)).map w.received
  | .giveUp => (w.client.act .timeout).map w.received

/-- Nothing is on its way, and both ends wait. -/
def still (w : ByteLine cfg) : Bool :=
  w.replies.isEmpty && decide (w.sender.phase ≠ .fill) && (w.client.take w.stream).isNone

/-- Whether an event can happen.  While the receiver waits for a payload, only the first clock of
the sender can run out. -/
def permit (w : ByteLine cfg) : ByteEvent → Bool
  | .timeout =>
      w.still && (!w.client.starves w.stream || decide (w.sender.phase = .reply))
  | .rawTimeout => w.still
  | .giveUp => w.still
  | _ => true

/-- The byte is lost while the congestion window is 1, or from the frame of the last block:
nothing will be written behind the frame. -/
def Alone (job : Job) (w : ByteLine cfg) : ByteEvent → Prop
  | .lose _ => w.sender.cwnd = 1 ∨ w.sender.next_seq + 1 = job.blocks
  | _ => True

instance (job : Job) (w : ByteLine cfg) (e : ByteEvent) : Decidable (w.Alone job e) :=
  match e with
  | .lose _ =>
      inferInstanceAs (Decidable (w.sender.cwnd = 1 ∨ w.sender.next_seq + 1 = job.blocks))
  | .run | .timeout | .reply _ | .read | .rawTimeout | .commit | .giveUp => .isTrue trivial

/-- What can follow, whatever byte is lost. -/
def Leads (job : Job) : ByteLine cfg → ByteLine cfg → Prop :=
  Transition.Steps (step job) fun w e => w.permit e = true

def exec (job : Job) (w : ByteLine cfg) (events : List ByteEvent) : Option (ByteLine cfg) :=
  Transition.exec (step job) (fun w e => w.permit e = true) w events

/-- What can follow when a byte is lost only from a frame that nothing follows. -/
def LeadsAlone (job : Job) : ByteLine cfg → ByteLine cfg → Prop :=
  Transition.Steps (step job) fun w e => w.permit e = true ∧ w.Alone job e

def execAlone (job : Job) (w : ByteLine cfg) (events : List ByteEvent) : Option (ByteLine cfg) :=
  Transition.exec (step job) (fun w e => w.permit e = true ∧ w.Alone job e) w events

end ByteLine

section Framing

theorem Link.cutLine_append
    {raw rest : Bytes} (hraw : LF ∉ raw) :
    Link.cutLine (raw ++ LF :: rest) = some (raw, rest) := by
  have hpos : ∀ b ∈ raw, (b != LF) = true := by
    intro b hb
    rw [bne_iff_ne]
    rintro rfl
    exact hraw hb
  simp [Link.cutLine, List.dropWhile_append_of_pos hpos, List.takeWhile_append_of_pos hpos]

variable {cfg : ClientConfig} {client : Client cfg} {c : Command} {rest : Bytes}

/-- The line of a command comes off the stream. -/
theorem Client.takeLine_bytes
    (hc : Legible c.line) :
    client.takeLine (c.bytes ++ rest) =
      (client.hear c.line).map fun p => (c.payload ++ rest, p) := by
  have hbytes : c.bytes ++ rest = encodeAscii c.line ++ LF :: (c.payload ++ rest) := by
    simp [Command.bytes, encodeFrame]
  rw [takeLine, hbytes, Link.cutLine_append hc.lf_not_mem]
  simp [hc.lineText_eq, hc.plain]

variable {m : AcceptedMeta cfg} {r : Recv} {h : DataHeader}

theorem Client.take_header
    (hheader : r.phase = .header) (hc : Legible c.line) :
    (Client.receiving m r).take (c.bytes ++ rest) =
      some (c.payload ++ rest, .receiving m (r.onLine m c.line true).1,
        (r.onLine m c.line true).2) := by
  simp [take, hheader, takeLine_bytes hc, hear, act, Recv.step]

/-- Nothing comes off an empty stream. -/
theorem Client.take_nil
    (hheader : r.phase = .header) :
    (Client.receiving m r).take [] = none := by
  simp [take, hheader, takeLine, Link.cutLine]

/-- A payload comes off the stream, whole. -/
theorem Client.take_payload
    {payload : Bytes} (hlength : h.length = payload.length) :
    (Client.receiving m { r with phase := .payload h }).take (payload ++ rest) =
      (({ r with phase := .payload h } : Recv).step m (.payload payload none)).map
        fun p => (rest, .receiving m p.1, p.2) := by
  simp [take, hlength]

theorem Client.take_short
    {stream : Bytes} (hshort : stream.length < h.length) :
    (Client.receiving m { r with phase := .payload h }).take stream = none := by
  simp [take, Nat.not_le.mpr hshort]

end Framing

section Standing

variable {cfg : ClientConfig} {w w' : ByteLine cfg}

/-- The receiver stands at `client`, and `items` are what it has before it.  It may have read the
header of the first item; `lag` counts what it can still read of it without an effect. -/
inductive ByteLine.Stands (w : ByteLine cfg) : Client cfg → List Command → Nat → Prop
  | atLine (items : List Command) (hstream : w.stream = items.flatMap Command.bytes) :
      Stands w w.client items 1
  | within (m : AcceptedMeta cfg) (r : Recv) (h : DataHeader) (c : Command)
      (rest : List Command) (hclient : w.client = .receiving m { r with phase := .payload h })
      (hheader : r.phase = .header)
      (hline : r.onLine m c.line true = ({ r with phase := .payload h }, []))
      (hstream : w.stream = c.payload ++ rest.flatMap Command.bytes) :
      Stands w (.receiving m r) (c :: rest) 0

/-- The receiver can take a command: it is one line, or a frame with the payload that the header
announces. -/
inductive Client.Takes : Client cfg → Command → Prop
  | announced (fetching : Bool) (c : Command) (hpayload : c.payload = []) :
      Takes (.awaiting fetching) c
  | control (m : AcceptedMeta cfg) (r : Recv) (c : Command) (hheader : r.phase = .header)
      (hline : ∀ h, (r.onLine m c.line true).1.phase ≠ .payload h) (hpayload : c.payload = []) :
      Takes (.receiving m r) c
  | frame (m : AcceptedMeta cfg) (r : Recv) (c : Command) (h : DataHeader)
      (hheader : r.phase = .header)
      (hline : r.onLine m c.line true = ({ r with phase := .payload h }, []))
      (hlength : h.length = c.payload.length) :
      Takes (.receiving m r) c

/-- The header of a frame that can be taken announces its payload. -/
theorem Client.Takes.length_eq
    {m : AcceptedMeta cfg} {r : Recv} {c : Command} {h : DataHeader}
    (htakes : (Client.receiving m r).Takes c)
    (hline : r.onLine m c.line true = ({ r with phase := .payload h }, [])) :
    h.length = c.payload.length := by
  cases htakes with
  | control m r c _ hnone _ => exact absurd (by rw [hline]) (hnone h)
  | frame m r c h' _ hline' hlength =>
      rw [hline] at hline'
      have hphase := congrArg (fun p => p.1.phase) hline'
      cases hphase
      exact hlength

namespace ByteLine.Stands

variable {client : Client cfg} {items rest : List Command} {c : Command} {lag : Nat}

/-- More is written behind what stands before the receiver. -/
theorem append
    (hs : w.Stands client items lag) {more : List Command} (hclient : w'.client = w.client)
    (hstream : w'.stream = w.stream ++ more.flatMap Command.bytes) :
    w'.Stands client (items ++ more) lag := by
  cases hs with
  | atLine items hitems =>
      rw [← hclient]
      exact .atLine _ (by rw [hstream, hitems, List.flatMap_append])
  | within m r h c rest hreading hheader hline hrest =>
      refine .within m r h c (rest ++ more) (hclient.trans hreading) hheader hline ?_
      rw [hstream, hrest, List.append_assoc, List.flatMap_append]

theorem here
    (hclient : w.client = client) (hstream : w.stream = items.flatMap Command.bytes) :
    w.Stands client items 1 :=
  hclient ▸ .atLine items hstream

/-- The receiver is where it stands, or has read a header there. -/
theorem client_cases
    (hs : w.Stands client items lag) :
    w.client = client ∨ ∃ m r h, client = .receiving m r ∧ r.phase = .header ∧
      w.client = .receiving m { r with phase := .payload h } := by
  cases hs with
  | atLine => exact Or.inl rfl
  | within m r h c rest hclient hheader => exact Or.inr ⟨m, r, h, rfl, hheader, hclient⟩

theorem of_eq
    (hs : w.Stands client items lag) (hclient : w'.client = w.client)
    (hstream : w'.stream = w.stream) :
    w'.Stands client items lag := by
  have happ : w'.Stands client (items ++ []) lag := hs.append hclient (by simp [hstream])
  rwa [List.append_nil] at happ

/-- What the receiver takes next: the header of a frame, or a whole command. -/
theorem take_cases
    (hs : w.Stands client (c :: rest) lag) (htakes : client.Takes c) (hc : Legible c.line) :
    (lag = 1 ∧ ∃ client',
      w.client.take w.stream = some (c.payload ++ rest.flatMap Command.bytes, client', []) ∧
        ({ w with client := client', stream := c.payload ++ rest.flatMap Command.bytes }).Stands
          client (c :: rest) 0) ∨
      w.client.take w.stream = (client.read c).map fun p => (rest.flatMap Command.bytes, p) := by
  cases hs with
  | atLine _ hstream =>
      rw [List.flatMap_cons] at hstream
      generalize hclient : w.client = client at htakes ⊢
      cases htakes with
      | announced fetching c hpayload =>
          right
          rw [hstream]
          simp [Client.take, Client.takeLine_bytes hc, Client.hear, Client.read, hpayload]
      | control m r c hheader hline hpayload =>
          right
          rw [hstream, Client.take_header hheader hc, Client.read, Recv.read_line hheader hline,
            hpayload]
          rfl
      | frame m r c h hheader hline hlength =>
          left
          refine ⟨rfl, .receiving m { r with phase := .payload h }, ?_, ?_⟩
          · rw [hstream, Client.take_header hheader hc, hline]
          · exact .within m r h c rest rfl hheader hline rfl
  | within m r h c rest hclient hheader hline hstream =>
      right
      have hread : r.read m c =
          (({ r with phase := .payload h } : Recv).step m (.payload c.payload none)).map
            fun p => (p.1, p.2) := by
        simp [Recv.read, Recv.step, hheader, hline]
      rw [hclient, hstream, Client.take_payload (htakes.length_eq hline), Client.read, hread]
      simp only [Option.map_map]
      rfl

/-- The payload of a frame that can be taken is on the stream. -/
theorem not_starves
    (hs : w.Stands client (c :: rest) lag) (htakes : client.Takes c) :
    w.client.starves w.stream = false := by
  cases hs with
  | atLine _ hstream =>
      generalize w.client = client at htakes
      cases htakes with
      | announced => rfl
      | control m r c hheader => simp [Client.starves, hheader]
      | frame m r c h hheader => simp [Client.starves, hheader]
  | within m r h c rest hclient hheader hline hstream =>
      simp [Client.starves, hclient, hstream, htakes.length_eq hline]

/-- A frame whose payload is too short can be taken as far as its header. -/
theorem take_short
    {m : AcceptedMeta cfg} {r : Recv} {h : DataHeader} (hs : w.Stands (.receiving m r) [c] lag)
    (hheader : r.phase = .header)
    (hline : r.onLine m c.line true = ({ r with phase := .payload h }, []))
    (hc : Legible c.line) (hshort : c.payload.length < h.length) :
    (lag = 1 ∧ w.client.starves w.stream = false ∧ ∃ client',
      w.client.take w.stream = some (c.payload, client', []) ∧
        ({ w with client := client', stream := c.payload }).Stands (.receiving m r) [c] 0) ∨
      lag = 0 ∧ w.client.take w.stream = none ∧
        w.client = .receiving m { r with phase := .payload h } ∧ w.stream.length < h.length := by
  generalize hclient : Client.receiving m r = client at hs
  cases hs with
  | atLine _ hstream =>
      left
      have hread : (Client.receiving m r).take (c.bytes ++ []) = _ := Client.take_header hheader hc
      rw [List.append_nil, List.append_nil, hline] at hread
      rw [List.flatMap_singleton] at hstream
      refine ⟨rfl, by simp [Client.starves, ← hclient, hheader],
        .receiving m { r with phase := .payload h }, ?_, ?_⟩
      · rw [← hclient, hstream, hread]
      · rw [← hclient]
        exact .within m r h c [] rfl hheader hline (List.append_nil _).symm
  | within m' r' h' c rest hreading hheader' hline' hstream =>
      cases hclient
      rw [hline] at hline'
      have hphase := congrArg (fun p => p.1.phase) hline'
      cases hphase
      rw [List.flatMap_nil, List.append_nil] at hstream
      refine Or.inr ⟨rfl, ?_, hreading, hstream ▸ hshort⟩
      rw [hreading, hstream, Client.take_short hshort]

end ByteLine.Stands

end Standing

end Pcutp
