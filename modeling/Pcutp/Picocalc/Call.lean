import Mathlib.Data.List.Chain
import Pcutp.Link
import Pcutp.Negotiation
import Pcutp.Picocalc.Between

/-!
# A call of the PicoCalc

`PCUTP.BAS` and `_handle_hello` with the two channels between them.  The
channels lose nothing and keep the order.  Towards the PicoCalc they carry
bytes, because `RecvLine$` can give up in the middle of a line; towards the
server they carry lines.  A delay needs no step of its own: what was sent stays
in its channel until it arrives, and a timer of the server may run out at any
time.  The timers of the PicoCalc run on the clock of its turns.
-/

namespace Pcutp.Picocalc

section Defs

/-- The lines that are sent. -/
def sentLines (out : List Effect) : List Line :=
  out.filterMap fun
    | .send line => some line
    | _ => none

/-- The bytes of some lines. -/
def wireBytes (lines : List Line) : Bytes :=
  lines.flatMap fun line => encodeFrame line []

/-- The program waits for WHO?. -/
def isWho : Place → Bool
  | .line .who _ => true
  | _ => false

/-- The program has come past its greeting. -/
def pastGreeting : Place → Bool
  | .line (.dial _) _ => false
  | .line .who _ => false
  | _ => true

def isStopped : Place → Bool
  | .stopped _ => true
  | _ => false

/-- Both ends of a call, and what is on the line. -/
structure Call where
  basic : State
  server : HandleHello
  toBasic : Bytes
  toServer : List Line
  /-- Whether CONNECT was shown after a proposal with IDENTITY=1. -/
  connected : Bool

/-- What can happen next. -/
inductive CallEvent
  /-- `PCUTP.BAS` takes a turn, after so many more bytes have arrived. -/
  | basic (now arrived : Nat) (key : Option Char)
  /-- The server reads a line. -/
  | line
  /-- A timer of the server runs out. -/
  | timeout
  deriving DecidableEq

namespace Call

variable (nums : Numbers) (config : ServerConfig) (baud : Nat)

/-- CONNECT, after a proposal with IDENTITY=1. -/
def connects (c : Call) (out : List Effect) : Bool :=
  isWho c.basic.place && out.contains (.show "CONNECT 115200".toList)

/-- The program has dialed. -/
def start (now : Nat) : Call where
  basic := (Picocalc.start now).1
  server := HandleHello.start
  toBasic := []
  toServer := sentLines (Picocalc.start now).2
  connected := false

/-- The program has moved. -/
def basicMoved (c : Call) (arrived : Nat) (p : State × List Effect) : Call :=
  { c with
    basic := p.1
    toBasic := c.toBasic.drop arrived
    toServer := c.toServer ++ sentLines p.2
    connected := c.connected || c.connects p.2 }

/-- The server has moved. -/
def serverMoved (c : Call) (p : HandleHello × List Line) : Call :=
  { c with server := p.1, toBasic := c.toBasic ++ wireBytes p.2 }

/-- One step of the system. -/
def step (c : Call) : CallEvent → Option (Call × List Effect)
  | .basic now arrived key =>
      (Picocalc.step nums c.basic { now, arrived := c.toBasic.take arrived, key }).map fun p =>
        (c.basicMoved arrived p, p.2)
  | .line =>
      match c.toServer with
      | [] => none
      | text :: toServer =>
          let parts := split text
          if isTransparent parts = true then
            -- `recv_line` answers a PING and reads on.
            some ({ c with
              toServer
              toBasic := c.toBasic ++
                wireBytes (if isPing parts then [join ["PONG".toList, word parts 1]] else []) }, [])
          else
            (c.server.step config baud (.line text)).map fun p =>
              ({ c with toServer }.serverMoved p, [])
  | .timeout => (c.server.step config baud .timeout).map fun p => (c.serverMoved p, [])

/-- What has arrived at the PicoCalc and is not read, and what is on its way to it. -/
def ahead (c : Call) : Bytes :=
  c.basic.queue ++ c.toBasic

variable {nums config baud} {c c' : Call} {out : List Effect}

/-- A line that `recv_line` does not answer itself comes to `_handle_hello`. -/
theorem step_line
    {text : Line} {rest : List Line} (hlines : c.toServer = text :: rest)
    (htext : isTransparent (split text) = false)
    (h : c.step nums config baud .line = some (c', out)) :
    ∃ p, c.server.step config baud (.line text) = some p ∧
      c' = { c with toServer := rest }.serverMoved p ∧ out = [] := by
  unfold step at h
  rw [hlines] at h
  dsimp only at h
  rw [if_neg (Bool.eq_false_iff.mp htext)] at h
  obtain ⟨p, hp, heq⟩ := Option.map_eq_some_iff.mp h
  cases heq
  exact ⟨p, hp, rfl, rfl⟩

/-- A line moves the server, or is answered by `recv_line`. -/
theorem step_line_cases
    (h : c.step nums config baud .line = some (c', out)) :
    c'.basic = c.basic ∧ c'.connected = c.connected ∧ out = [] ∧
      (∃ more, c'.toBasic = c.toBasic ++ more) ∧
      (c'.server = c.server ∨ ∃ text p, c.server.step config baud (.line text) = some p) := by
  unfold step at h
  cases hlines : c.toServer with
  | nil =>
      rw [hlines] at h
      cases h
  | cons text rest =>
      rw [hlines] at h
      dsimp only at h
      split_ifs at h
      · cases h
        exact ⟨rfl, rfl, rfl, ⟨_, rfl⟩, Or.inl rfl⟩
      · cases h
        exact ⟨rfl, rfl, rfl, ⟨_, rfl⟩, Or.inl rfl⟩
      · obtain ⟨p, hp, heq⟩ := Option.map_eq_some_iff.mp h
        cases heq
        exact ⟨rfl, rfl, rfl, ⟨_, rfl⟩, Or.inr ⟨text, p, hp⟩⟩

/-- The server reads nothing when nothing is on its way. -/
theorem step_line_nil
    (hlines : c.toServer = []) :
    c.step nums config baud .line = none := by
  unfold step
  rw [hlines]

end Call

end Defs

section Past

variable (g : Globals) (now : Nat)

theorem past_awaitClose (out : List Effect) :
    pastGreeting (awaitClose g now out).place = true := by
  rw [awaitClose]
  split_ifs <;> rfl

theorem past_afterBye (k : Nat) (s : Line) :
    pastGreeting (afterBye g now k s).place = true := by
  dsimp only [afterBye]
  split_ifs
  · exact past_awaitClose g now []
  · rfl
  · rfl
  · exact past_awaitClose _ now _
  · exact past_awaitClose _ now _

theorem past_afterClose (t0 : Nat) (s : Line) :
    pastGreeting (afterClose g now t0 s).place = true := by
  rw [afterClose]
  split_ifs <;> rfl

theorem past_afterLinger (t0 : Nat) (s : Line) :
    pastGreeting (afterLinger g now t0 s).place = true := by
  dsimp only [afterLinger]
  split_ifs <;> rfl

theorem past_afterPrompt (txt : Line) (p : Prompt) :
    pastGreeting (afterPrompt g now txt p).place = true := by
  cases p with
  | url =>
      rw [afterPrompt, afterUrl]
      split_ifs <;> rfl
  | filename url =>
      dsimp only [afterPrompt, afterFilename]
      split_ifs <;> rfl

variable (nums : Numbers)

theorem past_afterMeta (s : Line) :
    pastGreeting (afterMeta nums g now s).place = true := by
  unfold afterMeta
  cases Split s g.parts with
  | none => rfl
  | some parts =>
      dsimp only
      split_ifs <;> rfl

theorem past_checkBlock (frame : Frame) (ln : Int) :
    pastGreeting (checkBlock g now frame ln).place = true := by
  unfold checkBlock
  split
  · rfl
  · dsimp only [outOfPlace, commit]
    split_ifs
    all_goals try rfl
    all_goals split <;> rfl

theorem past_afterRaw (frame : Frame) :
    pastGreeting (afterRaw g now frame).place = true := by
  unfold afterRaw
  split
  · split
    · rfl
    · rfl
    · exact past_checkBlock _ now frame _
  · exact past_checkBlock g now frame _

theorem past_afterFrame (frame : Frame) :
    pastGreeting (afterFrame g now frame).place = true := by
  rw [afterFrame]
  split_ifs
  · rfl
  · rfl
  · exact past_afterRaw g now frame
  · rfl

theorem past_afterData (s : Line) :
    pastGreeting (afterData nums g now s).place = true := by
  unfold afterData
  split_ifs
  · rfl
  · rfl
  · cases Split s g.parts with
    | none => rfl
    | some parts =>
        dsimp only [finalCrc]
        split_ifs
        all_goals first
          | exact past_afterFrame _ now _
          | rfl

/-- No line leads back into the greeting. -/
theorem past_afterLine
    {wait : Wait} {l : RecvLine} (h : pastGreeting (.line wait l) = true) (s : Line) :
    pastGreeting (afterLine nums g now s wait).place = true := by
  cases wait with
  | dial helloTry => cases h
  | who => cases h
  | answer =>
      rw [afterLine, afterAnswer]
      split_ifs
      · rfl
      · rfl
      · exact past_afterMeta g now nums s
  | fetched =>
      dsimp only [afterLine, afterFetched]
      split_ifs
      · rfl
      · exact past_afterMeta _ now nums s
  | data => exact past_afterData g now nums s
  | bye k => exact past_afterBye g now k s
  | close t0 => exact past_afterClose g now t0 s
  | linger t0 => exact past_afterLinger g now t0 s

theorem past_same
    {place place' : Place} (h : SamePlace place place') :
    pastGreeting place' = pastGreeting place := by
  cases h with
  | line wait l l' => cases wait <;> rfl
  | prompt p l l' => rfl
  | raw frame l l' => rfl

/-- The program does not come back to its greeting. -/
theorem past_step
    {st st' : State} {tick : Tick} {out : List Effect} (hpast : pastGreeting st.place = true)
    (h : step nums st tick = some (st', out)) :
    pastGreeting st'.place = true := by
  cases stepped_of_step nums h with
  | stays hplace hsame => exact (past_same hplace).trans hpast
  | line hplace hsame hs =>
      rw [hplace] at hpast
      exact past_afterLine _ tick.now nums hpast _
  | prompt hplace hsame => exact past_afterPrompt _ tick.now _ _
  | block hplace hsame => exact past_afterRaw _ tick.now _
  | late hplace hsame => rfl
  | stopped hhow => rfl

end Past

section Turns

variable (nums : Numbers)

/-- The timers of `RecvLine$(tmo)` have run out. -/
def lateFor (tmo : Nat) (l : RecvLine) (queue : Bytes) (now : Nat) : Prop :=
  (queue = [] ∧ tmo < now - l.t) ∨ (queue.head? ≠ some 10 ∧ 4 * tmo < now - l.t0)

/-- What a turn of `RecvLine$` does. -/
inductive LineTurn (g : Globals) (queue : Bytes) (now tmo : Nat) (l : RecvLine) :
    Round RecvLine Line → Prop
  | waits (hqueue : queue = []) (hlate : ¬ lateFor tmo l queue now) :
      LineTurn g queue now tmo l (.again g [] l [])
  | reads {b : UInt8} {rest : Bytes} (hqueue : queue = b :: rest) (hb : b ≠ 10)
      (hlate : ¬ lateFor tmo l queue now) :
      LineTurn g queue now tmo l
        (.again { g with lastRx := now } rest { l with s := keep l.s (Chr b), t := now } [])
  | completes {rest : Bytes} (hqueue : queue = 10 :: rest)
      (hheard : recvHears nums l.s = .returned) :
      LineTurn g queue now tmo l (.returned { g with lastRx := now } rest l.s [])
  /-- The line is one that `RecvLine$` answers or drops. -/
  | answers {round : Round RecvLine Line} (hqueue : queue.head? = some 10)
      (hheard : recvHears nums l.s ≠ .returned) : LineTurn g queue now tmo l round
  | late {g' : Globals} {rest : Bytes} (hlate : lateFor tmo l queue now) (hrest : rest <:+ queue) :
      LineTurn g queue now tmo l (.returned g' rest [] [])
  | lost {g' : Globals} : LineTurn g queue now tmo l (.lost g' [])

theorem lineTurn_recvTurn
    (g : Globals) (queue : Bytes) (now tmo : Nat) (l : RecvLine) :
    LineTurn nums g queue now tmo l (recvTurn nums g queue now tmo l) := by
  cases queue with
  | nil =>
      rw [recvTurn, recvClock]
      split_ifs with _ ht0 ht
      · exact .lost
      · exact .late (Or.inr ⟨(Option.some_ne_none _).symm, ht0⟩) (List.suffix_refl _)
      · exact .late (Or.inl ⟨rfl, ht⟩) (List.suffix_refl _)
      · refine .waits rfl ?_
        rintro (⟨_, hlate⟩ | ⟨_, hlate⟩)
        · exact ht hlate
        · exact ht0 hlate
  | cons b rest =>
      by_cases hb : b = 10
      · subst hb
        by_cases hheard : recvHears nums l.s = .returned
        · rw [recvTurn, if_pos rfl, hheard]
          exact .completes rfl hheard
        · exact .answers rfl hheard
      · rw [recvTurn, if_neg hb, recvClock]
        split_ifs with _ ht0 ht
        · exact .lost
        · exact .late (Or.inr ⟨fun h => hb (Option.some.inj h), ht0⟩) (List.suffix_cons _ _)
        · exact absurd ht (by simp)
        · refine .reads rfl hb ?_
          rintro (⟨hnil, _⟩ | ⟨_, hlate⟩)
          · cases hnil
          · exact ht0 hlate

/-- A proposal is accepted with HRU, or it ends the greeting. -/
theorem answered_cases (g : Globals) (now : Nat) (s : Line) :
    (∃ g', isProposal s = true ∧
        answered nums g now s = recvLine g' now .who [.send "HRU".toList]) ∨
      pastGreeting (answered nums g now s).place = true := by
  have hconfirm : ∀ g : Globals,
      (∃ g', confirm g now s = recvLine g' now .who [.send "HRU".toList]) ∨
        pastGreeting (confirm g now s).place = true := by
    intro g
    rw [confirm]
    split_ifs
    · exact Or.inr rfl
    · exact Or.inr rfl
    · exact Or.inl ⟨g, rfl⟩
    · exact Or.inr rfl
  have haccept : ∀ (g : Globals) (answerAt : Nat),
      (∃ g', acceptProposal nums g now answerAt s = recvLine g' now .who [.send "HRU".toList]) ∨
        pastGreeting (acceptProposal nums g now answerAt s).place = true := by
    intro g answerAt
    dsimp only [acceptProposal]
    split
    · exact Or.inr rfl
    · exact hconfirm _
  rw [answered]
  split_ifs with _ hproposal
  · exact Or.inr rfl
  · cases Split s g.parts with
    | none => exact Or.inr rfl
    | some parts =>
        dsimp only
        split_ifs
        · rcases haccept { g with parts } 3 with ⟨g', h⟩ | h
          · exact Or.inl ⟨g', hproposal, h⟩
          · exact Or.inr h
        · rcases haccept { g with parts } 2 with ⟨g', h⟩ | h
          · exact Or.inl ⟨g', hproposal, h⟩
          · exact Or.inr h
        · exact Or.inr rfl
  · exact Or.inr rfl

/-- What a turn of the loop that dials does. -/
inductive DialTurn (queue : Bytes) (now helloTry : Nat) (l : RecvLine) :
    State → List Effect → Prop
  | waits {g' : Globals} (hqueue : queue = []) :
      DialTurn queue now helloTry l ⟨g', .line (.dial helloTry) l, []⟩ []
  | reads {g' : Globals} {b : UInt8} {rest : Bytes} (hqueue : queue = b :: rest) (hb : b ≠ 10) :
      DialTurn queue now helloTry l
        ⟨g', .line (.dial helloTry) { l with s := keep l.s (Chr b), t := now }, rest⟩ []
  | dials {g' : Globals} {rest : Bytes} (hrest : rest <:+ queue) :
      DialTurn queue now helloTry l
        ⟨g', .line (.dial (helloTry + 1)) { s := [], t := now, t0 := now }, rest⟩
        [.send (helloLine (helloTry + 1))]
  | accepts {g' : Globals} {rest : Bytes} (hqueue : queue = 10 :: rest) :
      DialTurn queue now helloTry l ⟨g', .line .who { s := [], t := now, t0 := now }, rest⟩
        [.send "HRU".toList]
  | leaves {st' : State} {out : List Effect} (hpast : pastGreeting st'.place = true) :
      DialTurn queue now helloTry l st' out
  /-- The line is one that `RecvLine$` answers or drops. -/
  | answers {st' : State} {out : List Effect} (hqueue : queue.head? = some 10)
      (hheard : recvHears nums l.s ≠ .returned) : DialTurn queue now helloTry l st' out

/-- A line that was read, or a timeout, while the program dials. -/
theorem dialTurn_afterDial
    {g' : Globals} {queue rest : Bytes} {now helloTry : Nat} {l : RecvLine} {s : Line}
    (hrest : rest <:+ queue) (hs : s = [] ∨ queue = 10 :: rest) :
    DialTurn nums queue now helloTry l ((afterDial nums g' now helloTry s).state rest)
      (afterDial nums g' now helloTry s).out := by
  have hanswered : DialTurn nums queue now helloTry l ((answered nums g' now s).state rest)
      (answered nums g' now s).out := by
    rcases answered_cases nums g' now s with ⟨g'', hproposal, h⟩ | hpast
    · have hqueue : queue = 10 :: rest := by
        refine hs.resolve_left ?_
        rintro rfl
        exact absurd hproposal (by decide)
      rw [h]
      exact .accepts hqueue
    · exact .leaves hpast
  rw [afterDial]
  split_ifs
  · exact hanswered
  · exact .dials hrest
  · exact hanswered

theorem dialTurn_step
    {st st' : State} {tick : Tick} {out : List Effect} {helloTry : Nat} {l : RecvLine}
    (hplace : st.place = .line (.dial helloTry) l) (h : step nums st tick = some (st', out)) :
    DialTurn nums (st.queue ++ tick.arrived) tick.now helloTry l st' out := by
  unfold step at h
  rw [hplace] at h
  dsimp only at h
  have hturn := lineTurn_recvTurn nums st.g (st.queue ++ tick.arrived) tick.now
    (Wait.dial helloTry).tmo l
  generalize recvTurn nums st.g (st.queue ++ tick.arrived) tick.now
    (Wait.dial helloTry).tmo l = round at h hturn
  cases hturn with
  | waits hqueue _ =>
      cases h
      exact .waits hqueue
  | reads hqueue hb _ =>
      cases h
      exact .reads hqueue hb
  | completes hqueue hheard =>
      cases h
      exact dialTurn_afterDial nums (hqueue ▸ List.suffix_cons _ _) (Or.inr hqueue)
  | answers hhead hheard => exact .answers hhead hheard
  | late hlate hrest =>
      cases h
      exact dialTurn_afterDial nums hrest (Or.inl rfl)
  | lost =>
      cases h
      exact .leaves rfl

/-- What a turn of the read after HRU does. -/
inductive WhoTurn (queue : Bytes) (now : Nat) (l : RecvLine) : State → List Effect → Prop
  | waits {g' : Globals} (hqueue : queue = []) (hlate : ¬ lateFor Const.HSTMO l queue now) :
      WhoTurn queue now l ⟨g', .line .who l, []⟩ []
  | reads {g' : Globals} {b : UInt8} {rest : Bytes} (hqueue : queue = b :: rest) (hb : b ≠ 10)
      (hlate : ¬ lateFor Const.HSTMO l queue now) :
      WhoTurn queue now l ⟨g', .line .who { l with s := keep l.s (Chr b), t := now }, rest⟩ []
  | completes {g' : Globals} {rest : Bytes} (hqueue : queue = 10 :: rest)
      (hheard : recvHears nums l.s = .returned) :
      WhoTurn queue now l ((afterWho g' l.s).state rest) (afterWho g' l.s).out
  /-- The line is one that `RecvLine$` answers or drops. -/
  | answers {st' : State} {out : List Effect} (hqueue : queue.head? = some 10)
      (hheard : recvHears nums l.s ≠ .returned) : WhoTurn queue now l st' out
  | late {g' : Globals} {rest : Bytes} (hlate : lateFor Const.HSTMO l queue now)
      (hrest : rest <:+ queue) :
      WhoTurn queue now l ((afterWho g' []).state rest) (afterWho g' []).out
  | lost {g' : Globals} {rest : Bytes} :
      WhoTurn queue now l ⟨g', .stopped .rerun, rest⟩ []

theorem whoTurn_step
    {st st' : State} {tick : Tick} {out : List Effect} {l : RecvLine}
    (hplace : st.place = .line .who l) (h : step nums st tick = some (st', out)) :
    WhoTurn nums (st.queue ++ tick.arrived) tick.now l st' out := by
  unfold step at h
  rw [hplace] at h
  dsimp only at h
  have hturn := lineTurn_recvTurn nums st.g (st.queue ++ tick.arrived) tick.now Wait.who.tmo l
  generalize recvTurn nums st.g (st.queue ++ tick.arrived) tick.now Wait.who.tmo l = round
    at h hturn
  cases hturn with
  | waits hqueue hlate =>
      cases h
      exact .waits hqueue hlate
  | reads hqueue hb hlate =>
      cases h
      exact .reads hqueue hb hlate
  | completes hqueue hheard =>
      cases h
      exact .completes hqueue hheard
  | answers hhead hheard => exact .answers hhead hheard
  | late hlate hrest =>
      cases h
      exact .late hlate hrest
  | lost =>
      cases h
      exact .lost

theorem show_not_mem_serve (g : Globals) (s : Line) (line : KeepAlive) (text : Line) :
    .show text ∉ (serve nums g s line).2 := by
  cases line with
  | beacon =>
      unfold serve BeaconU
      cases bit? nums s <;> simp
  | rmb => simp [serve, ReplyRmb]
  | ping => simp [serve]
  | ayt => simp [serve]
  | aytOk => simp [serve]
  | mark => simp [serve]

theorem show_not_mem_recvClock
    {g : Globals} {queue : Bytes} {now tmo : Nat} {l : RecvLine} {out : List Effect} {text : Line}
    (h : .show text ∉ out) :
    (recvClock g queue now tmo l out).Sat (fun _ out => .show text ∉ out)
      (fun _ _ out => .show text ∉ out) fun _ out => .show text ∉ out := by
  rw [recvClock]
  split_ifs <;> exact h

/-- `RecvLine$` shows nothing. -/
theorem show_not_mem_recvTurn
    (g : Globals) (queue : Bytes) (now tmo : Nat) (l : RecvLine) (text : Line) :
    (recvTurn nums g queue now tmo l).Sat (fun _ out => .show text ∉ out)
      (fun _ _ out => .show text ∉ out) fun _ out => .show text ∉ out := by
  cases queue with
  | nil => exact show_not_mem_recvClock List.not_mem_nil
  | cons b rest =>
      rw [recvTurn]
      split_ifs
      · cases recvHears nums l.s with
        | served line => exact show_not_mem_recvClock (show_not_mem_serve nums _ l.s line text)
        | dropped => exact show_not_mem_recvClock List.not_mem_nil
        | returned => exact List.not_mem_nil
      · exact show_not_mem_recvClock List.not_mem_nil

/-- The read after HRU goes on, or the link is lost, or CONNECT is shown. -/
theorem who_outcome
    {st st' : State} {tick : Tick} {out : List Effect} {l : RecvLine}
    (hplace : st.place = .line .who l) (h : step nums st tick = some (st', out)) :
    (((∃ l', st'.place = .line .who l') ∨ isStopped st'.place = true) ∧
        .show "CONNECT 115200".toList ∉ out) ∨
      pastGreeting st'.place = true ∧ isStopped st'.place = false ∧
        .show "CONNECT 115200".toList ∈ out := by
  unfold step at h
  rw [hplace] at h
  dsimp only at h
  have hsilent := show_not_mem_recvTurn nums st.g (st.queue ++ tick.arrived) tick.now Wait.who.tmo
    l "CONNECT 115200".toList
  generalize recvTurn nums st.g (st.queue ++ tick.arrived) tick.now Wait.who.tmo l = round
    at h hsilent
  cases round with
  | again g' rest l' out' =>
      cases h
      exact Or.inl ⟨Or.inl ⟨l', rfl⟩, hsilent⟩
  | returned g' rest s out' =>
      cases h
      refine Or.inr ⟨rfl, rfl, List.mem_append_right _ ?_⟩
      rw [afterLine, afterWho, connect]
      exact List.mem_append_right _ List.mem_cons_self
  | lost g' out' =>
      cases h
      exact Or.inl ⟨Or.inr rfl, hsilent⟩

end Turns

end Pcutp.Picocalc
