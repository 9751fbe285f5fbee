import Mathlib.Data.List.Infix
import Pcutp.Picocalc.CrcBoth
import Pcutp.Picocalc.UnpackLZ4

/-!
# The readers of the PicoCalc

`PCUTP.BAS` reads from COM2 in three places: `RecvLine$` and `InputAlive$` take
one byte at a time and build lines of at most 250 characters, and `RecvRaw`
takes the bytes of a block.  Each is a loop that polls the port and the clock;
a turn of that loop is a function here, of the global variables, of the local
ones and of what the port holds.

`RecvLine$` and `InputAlive$` answer the keep-alive lines themselves.  Numbers
are read and written by the firmware.  Sounds, pauses and all screen output but
the line CONNECT are left out.
-/

namespace Pcutp.Picocalc

section Language

/-- How the firmware reads numbers. -/
structure Numbers where
  /-- `Val(x$)`, in an integer variable. -/
  Val : Line → Int
  /-- `x$ = Str$(Val(x$))`. -/
  isStrOfVal : Line → Bool

/-- `Str$` of an integer. -/
def Str : Int → Line
  | .ofNat n => dec n
  | .negSucc n => '-' :: dec (n + 1)

/-- `Hex$(v, 8)`. -/
def Hex8 (v : BitVec 64) : Line :=
  hex8 (v.setWidth 32)

/-- `Left$(x$, Len(start$)) = start$`. -/
abbrev begins (start : String) (x : Line) : Bool :=
  start.toList.isPrefixOf x

/-- `Mid$(x$, i)`. -/
abbrev Mid (x : Line) (i : Nat) : Line :=
  x.drop (i - 1)

/-- `Chr$` of a byte. -/
def Chr (b : UInt8) : Char :=
  Char.ofNat b.toNat

/-- The value of a hexadecimal digit. -/
def digitVal (c : Char) : Nat :=
  if c.isDigit then c.toNat - 48 else c.toUpper.toNat - 55

/-- A firmware that reads decimal and hexadecimal integers. -/
def integers : Numbers where
  Val x :=
    match x with
    | '-' :: x => -(int (x.takeWhile Char.isDigit) : Int)
    | '&' :: 'H' :: x => (x.foldl (fun v c => 16 * v + digitVal c) 0 : Nat)
    | x => (int (x.takeWhile Char.isDigit) : Int)
  isStrOfVal x := isdecimal x && x = dec (int x)

variable (nums : Numbers)

/-- `HexVal(h$)`. -/
def HexVal (h : Line) : BitVec 64 :=
  BitVec.ofInt 64 (nums.Val ("&H".toList ++ h)) &&& 0xFFFFFFFF#64

/-- The loop of `Split` from one character on: `k` parts are done, and `cur` is the next one.
`none` is an index error. -/
def splitLoop (line : Line) (k : Nat) (cur : Line) (parts : Vector Line 9) :
    Option (Vector Line 9) :=
  match line with
  | [] =>
      if h : k < 9 then
        some (Vector.ofFn fun i => if i.val ≤ k then (parts.set k cur)[i] else [])
      else
        none
  | c :: line =>
      if c = ' ' then
        if h : k < 9 then splitLoop line (k + 1) [] (parts.set k cur) else none
      else
        splitLoop line k (cur ++ [c]) parts

/-- `Split line$, meta$()`. -/
def Split (line : Line) (parts : Vector Line 9) : Option (Vector Line 9) :=
  splitLoop line 0 [] parts

end Language

section Const

def Const.BLKMAX : Int := 4096
def Const.RXBUFSZ : Int := 16384
def Const.WINMAX : Int := 2
def Const.CLSTMO : Nat := 3000
def Const.CLSRTY : Nat := 3
def Const.LINGERMS : Nat := 2000
def Const.DATTMO : Nat := 12000
def Const.HSTMO : Nat := 10000
def Const.HELLO_RETRIES : Nat := 10
def Const.DROP_MAX : Int := 3
def Const.RESET_MAX : Int := 2
def Const.KATMO : Nat := 30000
def Const.RSTTMO : Nat := 60000
def Const.BEACONMS : Nat := 4000
def Const.FETTMO : Nat := 45000

/-- `DEST$ + name$`. -/
def dest (name : Line) : Line :=
  "B:/".toList ++ name

end Const

section State

/-- The values of `rmbState$`. -/
inductive RmbState
  | none
  | fetching
  | active
  | reset
  | done
  deriving DecidableEq

def RmbState.text : RmbState → Line
  | .none => "NONE".toList
  | .fetching => "FETCHING".toList
  | .active => "ACTIVE".toList
  | .reset => "RESET".toList
  | .done => "DONE".toList

/-- The global variables.  Timers are in milliseconds. -/
structure Globals where
  fn : Line
  parts : Vector Line 9
  size : Int
  blksz : Int
  blocks : Int
  seq : Int
  fcrc : BitVec 64
  running : BitVec 64
  rcvd : Int
  drops : Int
  resets : Int
  lastRx : Nat
  maxblk : Int
  kaWin : Nat
  peerDone : Bool
  flowOn : Bool
  winsz : Int
  zipOn : Bool
  beaconAt : Nat
  beaconBit : Int
  peerBeaconBit : Int
  beaconPending : Int
  beaconMarkAt : Nat
  rmbState : RmbState
  arrays : Arrays

/-- The variables as they are when the program dials. -/
def Globals.start (now : Nat) : Globals where
  fn := []
  parts := Vector.replicate 9 []
  size := 0
  blksz := 0
  blocks := 0
  seq := 0
  fcrc := 0
  running := 0
  rcvd := 0
  drops := 0
  resets := 0
  lastRx := now
  maxblk := 0
  kaWin := Const.KATMO
  peerDone := false
  flowOn := false
  winsz := 0
  zipOn := false
  beaconAt := now
  beaconBit := 0
  peerBeaconBit := 0
  beaconPending := -1
  beaconMarkAt := now
  rmbState := .none
  arrays := { buf := .ofBytes [] (Nat.zero_le _), unpack := .ofBytes [] (Nat.zero_le _) }

/-- What the program does to the world. -/
inductive Effect
  /-- `Print #1`. -/
  | send (line : Line)
  /-- `Print`. -/
  | show (line : Line)
  /-- `Open path$ For Output As #2`. -/
  | openPart (path : Line)
  /-- `Print #2`. -/
  | write (data : Bytes)
  /-- `Close #2`. -/
  | close
  /-- What `SaveRmb` leaves in a file. -/
  | save (path line : Line)
  /-- `Kill`, of a file that exists. -/
  | kill (path : Line)
  | rename (old new : Line)
  deriving DecidableEq

end State

section Served

variable (nums : Numbers) (g : Globals)

/-- `ReplyRmb bit$`. -/
def ReplyRmb (bit : Line) : List Effect :=
  let name := if g.fn = [] then "-".toList else g.fn
  [.send (join ["RMB".toList, bit, g.rmbState.text, name, Str g.size, Str g.seq, Hex8 g.fcrc])]

/-- `SaveRmb state$`. -/
def SaveRmb (state : RmbState) : List Effect :=
  [.save (dest g.fn ++ ".PCUTP".toList)
    (join [state.text, g.fn, Str g.size, Str g.blksz, Str g.blocks, Str g.seq, Str g.rcvd,
      Hex8 g.fcrc, Hex8 g.running])]

/-- The number after a prefix of nine characters, if it is a bit as `Str$` writes it. -/
def bit? (s : Line) : Option Int :=
  let bit := nums.Val (Mid s 10)
  if Mid s 10 ≠ Str bit ∨ bit < 0 ∨ 1 < bit then none else some bit

/-- `BeaconU s$`. -/
def BeaconU (s : Line) : Globals × List Effect :=
  match bit? nums s with
  | none => (g, [])
  | some bit =>
      ({ g with peerBeaconBit := if bit = g.peerBeaconBit then 1 - g.peerBeaconBit else 1 - bit },
        [.send ("MARK P U ".toList ++ Str bit)])

/-- `MarkerU s$`. -/
def MarkerU (s : Line) : Globals :=
  if begins "MARK U P " s then
    match bit? nums s with
    | none => g
    | some bit => if bit = g.beaconPending then { g with beaconPending := -1 } else g
  else
    g

/-- The lines that both readers answer themselves. -/
inductive KeepAlive
  | ping
  | ayt
  | aytOk
  | rmb
  | beacon
  | mark
  deriving DecidableEq

/-- Which of them a line is; no line is two of them. -/
def keepAlive? (s : Line) : Option KeepAlive :=
  if begins "PING " s ∧ nums.isStrOfVal (Mid s 6) then some .ping
  else if begins "AYT? " s then some .ayt
  else if begins "AYT-OK " s then some .aytOk
  else if begins "RMB? " s then some .rmb
  else if begins "BEACON U " s then some .beacon
  else if begins "MARK U " s then some .mark
  else none

/-- What the readers do with such a line. -/
def serve (s : Line) : KeepAlive → Globals × List Effect
  | .ping => (g, [.send ("PONG ".toList ++ Mid s 6)])
  | .ayt => (g, [.send (join ["HERE".toList, Mid s 6, Str g.seq])])
  | .aytOk => (g, [])
  | .rmb => (g, ReplyRmb g (Mid s 6))
  | .beacon => BeaconU nums g s
  | .mark => (MarkerU nums g s, [])

theorem beaconU_frame (s : Line) :
    ∃ bit, (BeaconU nums g s).1 = { g with peerBeaconBit := bit } := by
  rw [BeaconU]
  cases bit? nums s with
  | none => exact ⟨g.peerBeaconBit, rfl⟩
  | some bit => exact ⟨_, rfl⟩

/-- A mark does nothing but clear the beacon it is for. -/
theorem markerU_eq (s : Line) :
    MarkerU nums g s =
      { g with
        beaconPending :=
          if begins "MARK U P " s ∧ bit? nums s = some g.beaconPending then -1
          else g.beaconPending } := by
  rw [MarkerU]
  by_cases hbegins : begins "MARK U P " s = true
  · cases hbit : bit? nums s with
    | none => simp [hbegins]
    | some bit =>
        by_cases heq : bit = g.beaconPending
        · simp [hbegins, heq]
        · simp [hbegins, heq]
  · simp [hbegins]

/-- Answering a line changes the state of the beacons only. -/
theorem serve_frame (s : Line) (line : KeepAlive) :
    ∃ bit, (serve nums g s line).1 =
      { g with
        peerBeaconBit := bit
        beaconPending :=
          if line = .mark ∧ begins "MARK U P " s ∧ bit? nums s = some g.beaconPending then -1
          else g.beaconPending } := by
  cases line with
  | beacon =>
      obtain ⟨bit, hbit⟩ := beaconU_frame nums g s
      exact ⟨bit, by simpa [serve] using hbit⟩
  | mark => exact ⟨g.peerBeaconBit, by simp [serve, markerU_eq]⟩
  | ping => exact ⟨g.peerBeaconBit, by simp [serve]⟩
  | ayt => exact ⟨g.peerBeaconBit, by simp [serve]⟩
  | aytOk => exact ⟨g.peerBeaconBit, by simp [serve]⟩
  | rmb => exact ⟨g.peerBeaconBit, by simp [serve]⟩

/-- What becomes of a line in a reader. -/
inductive Heard
  | served (line : KeepAlive)
  | dropped
  /-- The reader comes back. -/
  | returned
  deriving DecidableEq

/-- The line that was served. -/
def Heard.line? : Heard → Option KeepAlive
  | .served line => some line
  | _ => none

/-- What `RecvLine$` does with a line. -/
def recvHears (s : Line) : Heard :=
  match keepAlive? nums s with
  | some line => .served line
  | none => if begins "PONG " s ∨ begins "RMB-ACK " s then .dropped else .returned

/-- What `InputAlive$` does with a line. -/
def inputHears (u : Line) : Heard :=
  match keepAlive? nums u with
  | some line => .served line
  | none => if u = "CLOSE".toList then .returned else .dropped

/-- What a byte that is no line feed makes of the line so far. -/
def keep (s : Line) (ch : Char) : Line :=
  if ch = '\r' then s else if s.length < 250 then s ++ [ch] else []

end Served

section Turns

variable (nums : Numbers) (g : Globals) (queue : Bytes) (now : Nat)

/-- How a turn of a reader's loop ends: with another turn, with a result, or with the link
lost. -/
inductive Round (ι ρ : Type)
  | again (g : Globals) (queue : Bytes) (locals : ι) (out : List Effect)
  | returned (g : Globals) (queue : Bytes) (result : ρ) (out : List Effect)
  | lost (g : Globals) (out : List Effect)

/-- The locals of `RecvLine$`. -/
structure RecvLine where
  s : Line
  t : Nat
  t0 : Nat
  deriving DecidableEq

/-- The clocks at the end of the loop of `RecvLine$`. -/
def recvClock (tmo : Nat) (l : RecvLine) (out : List Effect) : Round RecvLine Line :=
  if now - g.lastRx > g.kaWin then .lost g out
  else if now - l.t0 > 4 * tmo then .returned g queue [] out
  else if now - l.t > tmo then .returned g queue [] out
  else .again g queue l out

/-- A turn of `RecvLine$(tmo)`. -/
def recvTurn (tmo : Nat) (l : RecvLine) : Round RecvLine Line :=
  match queue with
  | [] => recvClock g [] now tmo l []
  | b :: queue =>
      let g := { g with lastRx := now }
      if b = 10 then
        match recvHears nums l.s with
        | .served line =>
            let served := serve nums g l.s line
            recvClock served.1 queue now tmo { l with s := [], t := now } served.2
        | .dropped => recvClock g queue now tmo { l with s := [], t := now } []
        | .returned => .returned g queue l.s []
      else
        recvClock g queue now tmo { l with s := keep l.s (Chr b), t := now } []

/-- The locals of `InputAlive$`. -/
structure InputAlive where
  u : Line
  txt : Line
  deriving DecidableEq

/-- The beacon of `InputAlive$`. -/
def beacon : Globals × List Effect :=
  if g.beaconPending < 0 ∧ now - g.beaconAt > Const.BEACONMS then
    ({ g with
        beaconPending := g.beaconBit
        beaconMarkAt := now
        beaconBit := 1 - g.beaconBit
        beaconAt := now },
      [.send ("BEACON P ".toList ++ Str g.beaconBit)])
  else
    (g, [])

/-- The beacon, the keyboard and the clock at the end of the loop of `InputAlive$`. -/
def inputKeys (key : Option Char) (l : InputAlive) (out : List Effect) : Round InputAlive Line :=
  let sent := beacon g now
  let g := sent.1
  let out := out ++ sent.2
  let clock := fun l =>
    if now - g.lastRx > g.kaWin then Round.lost g out else Round.again g queue l out
  match key with
  | none => clock l
  | some ch =>
      if ch = '\r' then .returned g queue l.txt out
      else if ch = Char.ofNat 8 then clock { l with txt := l.txt.dropLast }
      else if 32 ≤ ch.toNat ∧ ch.toNat ≤ 126 then clock { l with txt := l.txt ++ [ch] }
      else clock l

/-- A turn of `InputAlive$`. -/
def inputTurn (key : Option Char) (l : InputAlive) : Round InputAlive Line :=
  match queue with
  | [] => inputKeys g [] now key l []
  | b :: queue =>
      let g := { g with lastRx := now }
      if b = 10 then
        match inputHears nums l.u with
        | .served line =>
            let served := serve nums g l.u line
            inputKeys served.1 queue now key { l with u := [] } served.2
        | .dropped => inputKeys g queue now key { l with u := [] } []
        | .returned => .returned { g with peerDone := true } queue [] [.send "BYE".toList]
      else
        inputKeys g queue now key { l with u := keep l.u (Chr b) } []

/-- The locals of `RecvRaw`. -/
structure RecvRaw where
  got : Nat
  t : Nat
  deriving DecidableEq

/-- A turn of `RecvRaw(count, tmo)`; `none` when a copy left `buf%()`. -/
def rawTurn (count tmo : Nat) (l : RecvRaw) : Option (Round RecvRaw Bool) :=
  let data := queue.take (min (count - l.got) 255)
  let rest := queue.drop (min (count - l.got) 255)
  match g.arrays.buf.write l.got data with
  | none => none
  | some buf =>
      let g := { g with arrays := { g.arrays with buf } }
      let g := if data = [] then g else { g with lastRx := now }
      let l : RecvRaw := if data = [] then l else { got := l.got + data.length, t := now }
      if now - l.t > tmo then some (.returned g rest false [])
      else if l.got < count then some (.again g rest l [])
      else some (.returned g rest true [])

end Turns

section Specs

variable (nums : Numbers)

/-- The state of the beacons is the same. -/
structure SameBeacons (g g' : Globals) : Prop where
  beaconAt : g'.beaconAt = g.beaconAt
  beaconBit : g'.beaconBit = g.beaconBit
  beaconPending : g'.beaconPending = g.beaconPending

/-- The state of the transfer is the same. -/
structure SameTransfer (g g' : Globals) : Prop where
  parts : g'.parts = g.parts
  size : g'.size = g.size
  blocks : g'.blocks = g.blocks
  seq : g'.seq = g.seq
  fcrc : g'.fcrc = g.fcrc
  running : g'.running = g.running
  rcvd : g'.rcvd = g.rcvd
  rmbState : g'.rmbState = g.rmbState

theorem SameTransfer.trans
    {g g' g'' : Globals} (h : SameTransfer g g') (h' : SameTransfer g' g'') :
    SameTransfer g g'' :=
  ⟨h'.parts.trans h.parts, h'.size.trans h.size, h'.blocks.trans h.blocks, h'.seq.trans h.seq,
    h'.fcrc.trans h.fcrc, h'.running.trans h.running, h'.rcvd.trans h.rcvd,
    h'.rmbState.trans h.rmbState⟩

/-- No BEACON is sent. -/
def quiet (out : List Effect) : Bool :=
  out.all fun
    | .send line => !begins "BEACON P " line
    | _ => true

/-- Lines and screen output, but no OK. -/
def talks (out : List Effect) : Bool :=
  out.all fun
    | .send line => !begins "OK " line
    | .show _ => true
    | _ => false

/-- The file is confirmed. -/
def confirms (out : List Effect) : Bool :=
  out.any fun
    | .send line => begins "OK " line
    | _ => false

/-- The bit of the MARK U P that the next byte completes, if it does. -/
def markHeard (queue : Bytes) (s : Line) : Option Int :=
  if queue.head? = some 10 ∧ keepAlive? nums s = some .mark ∧ begins "MARK U P " s then
    bit? nums s
  else
    none

/-- What reading a byte does to the variables: a MARK clears the beacon it is for. -/
structure Heeds (g : Globals) (queue : Bytes) (s : Line) (g' : Globals) (out : List Effect) :
    Prop where
  transfer : SameTransfer g g'
  beaconAt : g'.beaconAt = g.beaconAt
  beaconBit : g'.beaconBit = g.beaconBit
  beaconPending : g'.beaconPending =
    if markHeard nums queue s = some g.beaconPending then -1 else g.beaconPending
  quiet : quiet out = true

/-- How a turn ends, case by case. -/
def Round.Sat {ι ρ : Type} (again : Globals → List Effect → Prop)
    (returned : Globals → ρ → List Effect → Prop) (lost : Globals → List Effect → Prop) :
    Round ι ρ → Prop
  | .again g _ _ out => again g out
  | .returned g _ result out => returned g result out
  | .lost g out => lost g out

theorem quiet_serve (g : Globals) (s : Line) (line : KeepAlive) :
    quiet (serve nums g s line).2 = true := by
  cases line with
  | beacon =>
      unfold serve BeaconU
      cases bit? nums s <;> rfl
  | ping => rfl
  | ayt => rfl
  | aytOk => rfl
  | rmb => rfl
  | mark => rfl

variable (g : Globals) (queue : Bytes) (now : Nat) {s : Line}

theorem markHeard_nil (s : Line) :
    markHeard nums [] s = none :=
  if_neg fun h => (Option.some_ne_none (10 : UInt8)).symm h.1

theorem markHeard_byte
    {b : UInt8} (hb : b ≠ 10) (s : Line) :
    markHeard nums (b :: queue) s = none :=
  if_neg fun h => hb (Option.some.inj h.1)

theorem markHeard_other
    (h : keepAlive? nums s = none) :
    markHeard nums queue s = none :=
  if_neg fun hmark => (Option.some_ne_none _).symm (h.symm.trans hmark.2.1)

/-- Anything but a mark leaves the beacons alone. -/
theorem heeds_unmarked
    (hmark : markHeard nums queue s = none) (rx : Nat) :
    Heeds nums g queue s { g with lastRx := rx } [] := by
  refine ⟨⟨rfl, rfl, rfl, rfl, rfl, rfl, rfl, rfl⟩, rfl, rfl, ?_, rfl⟩
  rw [hmark]
  rfl

theorem heeds_served
    {line : KeepAlive} (hline : keepAlive? nums s = some line) :
    Heeds nums g (10 :: queue) s (serve nums { g with lastRx := now } s line).1
      (serve nums { g with lastRx := now } s line).2 := by
  obtain ⟨bit, hserve⟩ := serve_frame nums { g with lastRx := now } s line
  rw [hserve]
  refine ⟨⟨rfl, rfl, rfl, rfl, rfl, rfl, rfl, rfl⟩, rfl, rfl, ?_, quiet_serve nums _ s line⟩
  have hheard : markHeard nums (10 :: queue) s = some g.beaconPending ↔
      line = .mark ∧ begins "MARK U P " s ∧ bit? nums s = some g.beaconPending := by
    rw [markHeard, hline]
    by_cases hmark : line = .mark ∧ begins "MARK U P " s = true
    · rw [if_pos ⟨rfl, congrArg some hmark.1, hmark.2⟩]
      exact ⟨fun h => ⟨hmark.1, hmark.2, h⟩, fun h => h.2.2⟩
    · rw [if_neg fun h => hmark ⟨Option.some.inj h.2.1, h.2.2⟩]
      exact iff_of_false (Option.some_ne_none _).symm fun h => hmark ⟨h.1, h.2.1⟩
  simp only [hheard]

theorem keepAlive_of_recvHears (s : Line) :
    keepAlive? nums s = (recvHears nums s).line? := by
  unfold recvHears
  cases keepAlive? nums s with
  | some line => rfl
  | none =>
      dsimp only
      split_ifs <;> rfl

theorem keepAlive_of_inputHears (u : Line) :
    keepAlive? nums u = (inputHears nums u).line? := by
  unfold inputHears
  cases keepAlive? nums u with
  | some line => rfl
  | none =>
      dsimp only
      split_ifs <;> rfl

/-- The clocks of `RecvLine$` pass on what was read. -/
theorem recvClock_spec
    {g' : Globals} {rest : Bytes} {tmo : Nat} {l : RecvLine} {out : List Effect}
    (h : Heeds nums g queue s g' out) {returned : Globals → Line → List Effect → Prop}
    (hempty : returned g' [] out) :
    (recvClock g' rest now tmo l out).Sat (Heeds nums g queue s) returned
      (Heeds nums g queue s) := by
  rw [recvClock]
  split_ifs
  · exact h
  · exact hempty
  · exact hempty
  · exact h

/-- A turn of `RecvLine$` returns with nothing, or with a line that the next byte completes. -/
theorem recvTurn_spec (tmo : Nat) (l : RecvLine) :
    (recvTurn nums g queue now tmo l).Sat (Heeds nums g queue l.s)
      (fun g' s out => Heeds nums g queue l.s g' out ∧
        (s = [] ∨ s = l.s ∧ queue.head? = some 10 ∧ recvHears nums l.s = .returned))
      (Heeds nums g queue l.s) := by
  cases queue with
  | nil =>
      have h := heeds_unmarked nums g [] (markHeard_nil nums l.s) g.lastRx
      exact recvClock_spec nums g [] now h ⟨h, Or.inl rfl⟩
  | cons b queue =>
      rw [recvTurn]
      by_cases hb : b = 10
      · subst hb
        rw [if_pos rfl]
        have hline := keepAlive_of_recvHears nums l.s
        cases hheard : recvHears nums l.s with
        | served line =>
            rw [hheard] at hline
            have h := heeds_served nums g queue now hline
            exact recvClock_spec nums g _ now h ⟨h, Or.inl rfl⟩
        | dropped =>
            rw [hheard] at hline
            have h := heeds_unmarked nums g (10 :: queue) (markHeard_other nums _ hline) now
            exact recvClock_spec nums g _ now h ⟨h, Or.inl rfl⟩
        | returned =>
            rw [hheard] at hline
            have h := heeds_unmarked nums g (10 :: queue) (markHeard_other nums _ hline) now
            exact ⟨h, Or.inr ⟨rfl, rfl, rfl⟩⟩
      · rw [if_neg hb]
        have h := heeds_unmarked nums g (b :: queue) (markHeard_byte nums queue hb l.s) now
        exact recvClock_spec nums g _ now h ⟨h, Or.inl rfl⟩

theorem beacon_transfer :
    SameTransfer g (beacon g now).1 := by
  rw [beacon]
  split_ifs
  · exact ⟨rfl, rfl, rfl, rfl, rfl, rfl, rfl, rfl⟩
  · exact ⟨rfl, rfl, rfl, rfl, rfl, rfl, rfl, rfl⟩

/-- The keys and the clock leave what was read and the beacon. -/
theorem inputKeys_spec
    (key : Option Char) (l : InputAlive) (out : List Effect) (closed : Globals → Line →
      List Effect → Prop) :
    (inputKeys g queue now key l out).Sat
      (fun g' out' => g' = (beacon g now).1 ∧ out' = out ++ (beacon g now).2)
      (fun g' txt out' => (g' = (beacon g now).1 ∧ out' = out ++ (beacon g now).2) ∨
        closed g' txt out')
      fun g' out' => g' = (beacon g now).1 ∧ out' = out ++ (beacon g now).2 := by
  cases key with
  | none =>
      dsimp only [inputKeys]
      split_ifs
      · exact ⟨rfl, rfl⟩
      · exact ⟨rfl, rfl⟩
  | some ch =>
      dsimp only [inputKeys]
      split_ifs
      · exact Or.inl ⟨rfl, rfl⟩
      all_goals exact ⟨rfl, rfl⟩

/-- A turn of `RecvRaw` leaves the transfer and the beacons alone. -/
theorem rawTurn_spec
    {count tmo : Nat} {l : RecvRaw} {round : Round RecvRaw Bool}
    (h : rawTurn g queue now count tmo l = some round) :
    round.Sat (fun g' out => SameTransfer g g' ∧ SameBeacons g g' ∧ out = [])
      (fun g' _ out => SameTransfer g g' ∧ SameBeacons g g' ∧ out = [])
      fun g' out => SameTransfer g g' ∧ SameBeacons g g' ∧ out = [] := by
  dsimp only [rawTurn] at h
  split at h
  · cases h
  · split_ifs at h
    all_goals
      cases h
      exact ⟨⟨rfl, rfl, rfl, rfl, rfl, rfl, rfl, rfl⟩, ⟨rfl, rfl, rfl⟩, rfl⟩

/-- A turn of `InputAlive$`: a byte, and then the beacon, unless the byte completes CLOSE. -/
theorem inputTurn_spec (key : Option Char) (l : InputAlive) :
    ∃ g₁ out₁, Heeds nums g queue l.u g₁ out₁ ∧
      (inputTurn nums g queue now key l).Sat
        (fun g' out => g' = (beacon g₁ now).1 ∧ out = out₁ ++ (beacon g₁ now).2)
        (fun g' txt out => (g' = (beacon g₁ now).1 ∧ out = out₁ ++ (beacon g₁ now).2) ∨
          queue.head? = some 10 ∧ inputHears nums l.u = .returned ∧ txt = [] ∧
            g' = { g₁ with peerDone := true } ∧ out = [.send "BYE".toList])
        fun g' out => g' = (beacon g₁ now).1 ∧ out = out₁ ++ (beacon g₁ now).2 := by
  cases queue with
  | nil =>
      have h := heeds_unmarked nums g [] (markHeard_nil nums l.u) g.lastRx
      exact ⟨g, [], h, inputKeys_spec g [] now key l [] _⟩
  | cons b queue =>
      rw [inputTurn]
      by_cases hb : b = 10
      · subst hb
        rw [if_pos rfl]
        have hline := keepAlive_of_inputHears nums l.u
        cases hheard : inputHears nums l.u with
        | served line =>
            rw [hheard] at hline
            exact ⟨_, _, heeds_served nums g queue now hline, inputKeys_spec _ queue now key _ _ _⟩
        | dropped =>
            rw [hheard] at hline
            have h := heeds_unmarked nums g (10 :: queue) (markHeard_other nums _ hline) now
            exact ⟨_, _, h, inputKeys_spec _ queue now key _ _ _⟩
        | returned =>
            rw [hheard] at hline
            have h := heeds_unmarked nums g (10 :: queue) (markHeard_other nums _ hline) now
            exact ⟨_, _, h, Or.inr ⟨rfl, rfl, rfl, rfl, rfl⟩⟩
      · rw [if_neg hb]
        have h := heeds_unmarked nums g (b :: queue) (markHeard_byte nums queue hb l.u) now
        exact ⟨_, _, h, inputKeys_spec _ queue now key _ _ _⟩

end Specs

end Pcutp.Picocalc
