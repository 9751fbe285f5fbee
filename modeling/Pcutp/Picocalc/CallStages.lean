import Pcutp.Picocalc.Overheard

/-!
# The stages of a call

After HRU `PCUTP.BAS` reads one line, and shows CONNECT whatever it is; it
sends IAM only if the line is `WHO? 0`.  A call is undisturbed when nothing else
is on its way at the moment the proposal is accepted, and no timer runs out from
then on up to IAM.  Its stages are followed here from the first HELLO to the end
of `_handle_hello`.
-/

namespace Pcutp.Picocalc

open Machine (Always)

section Defs

variable (nums : Numbers) (config : ServerConfig) (baud : Nat)

/-- The server has given the session up. -/
def abandoned (s : HandleHello) : Bool :=
  match s.phase with
  | .returned false => true
  | .raised _ => true
  | _ => false

/-- The server waits for HRU. -/
def awaitsHru (s : HandleHello) : Bool :=
  match s.phase with
  | .hru _ => true
  | _ => false

/-- A step shows CONNECT only with an IAM, and the server does not give up behind it. -/
def Identified (c : Call) (c' : Call) (out : List Effect) : Prop :=
  (c.connects out = true →
      .send "IAM 0 TYPE=MCU NAME=PicoCalc ROLE=CLIENT VER=2.1".toList ∈ out) ∧
    (c'.connected = true → isStopped c'.basic.place = false → abandoned c'.server = false)

/-- When the proposal is accepted, nothing else is on its way in either direction, and the server
waits for HRU.  From then on no timer runs out, up to IAM. -/
def Undisturbed (c : Call) (c' : Call) : CallEvent → Prop
  | .basic now arrived _ =>
      (isWho c.basic.place = false → isWho c'.basic.place = true →
        awaitsHru c.server = true ∧ c.toServer = [] ∧ c.ahead = [10]) ∧
      ∀ l, c.basic.place = .line .who l →
        ¬ lateFor Const.HSTMO l (c.basic.queue ++ c.toBasic.take arrived) now
  | .line => True
  | .timeout =>
      isWho c.basic.place = false ∧ (c.connected = true → isStopped c.basic.place = true)

/-- CONNECT is shown in the course of some events. -/
def Connects (c : Call) (events : List CallEvent) : Prop :=
  ¬ Always (Call.step nums config baud) (fun c _ _ out => c.connects out = false) c events

end Defs

section Server

/-- The block limit of `PCUTP.BAS` is the widest. -/
theorem picocalcBlock_ok :
    1 ≤ 4096 ∧ 4096 ≤ Const.MAX_BLOCK_SIZE :=
  ⟨by decide, le_rfl⟩

theorem picocalcBuffer_ok :
    4096 + Const.FRAME_OVERHEAD ≤ 16384 := by
  decide

/-- What `PCUTP.BAS` offers. -/
def picocalc : HelloConfig where
  max_block_size := 4096
  window_limit := 2
  receive_buffer := 16384
  compression_enabled := true
  block_ok := picocalcBlock_ok
  window_ok := widestWindow_ok
  buffer_ok := picocalcBuffer_ok

/-- The calls of `PCUTP.BAS` are those of any client. -/
theorem helloLine_eq (k : Nat) :
    helloLine (k + 1) = Hello.greeting picocalc k := by
  cases k with
  | zero => decide
  | succ k =>
      rw [helloLine, if_neg (by omega), Hello.greeting, if_neg (by omega)]
      decide

/-- The session that the server opens with it. -/
structure Opens (config : ServerConfig) (session : Session) : Prop where
  negotiated : negotiate config ((Hello.offer picocalc).drop 1) = .ok (session, offered picocalc)
  identity : session.identity = true

theorem exists_opens (config : ServerConfig) :
    ∃ session, Opens config session := by
  obtain ⟨session, hnegotiated, hagrees⟩ := negotiate_offer picocalc config (by decide)
  exact ⟨session, hnegotiated, hagrees.identity⟩

theorem not_isTransparent_greeting
    {text : Line} {k : Nat} (h : text = Hello.greeting picocalc k) :
    isTransparent (split text) = false := by
  subst h
  rw [split_greeting]
  split <;> decide

variable {config : ServerConfig} {baud : Nat} {session : Session}

/-- What a server does that still waits for HRU: it sends plain lines, and at least one. -/
structure Repeats (baud : Nat) (session : Session) (p : HandleHello × List Line) : Prop where
  server : (∃ turn, p.1 = HandleHello.settled baud session (.hru turn)) ∨ abandoned p.1 = true
  some : p.2 ≠ []
  plain : ∀ line ∈ p.2, Plain (line ++ ['\n'])

theorem repeats_refuse
    (s : HandleHello) (message : String) :
    Repeats baud session (s.refuse (TimeoutError_ message)) := by
  have hwire : Plain ((TimeoutError_ message).wire ++ ['\n']) := by
    change Plain ("ERR TIMEOUT".toList ++ ['\n'])
    decide
  refine ⟨Or.inr rfl, List.cons_ne_nil _ _, fun line hline => ?_⟩
  rw [List.mem_singleton.mp hline]
  exact hwire

theorem repeats_nextHru
    (hidentity : session.identity = true) (turn : Nat) :
    Repeats baud session ((HandleHello.settled baud session (.hru turn)).nextHru turn) := by
  rw [HandleHello.nextHru]
  split_ifs
  · refine ⟨Or.inl ⟨turn + 1, rfl⟩, List.cons_ne_nil _ _, fun line hline => ?_⟩
    rw [List.mem_singleton.mp hline]
    exact plain_ohruLine baud hidentity
  · refine ⟨Or.inr rfl, List.cons_ne_nil _ _, fun line hline => ?_⟩
    rcases List.mem_pair.mp hline with rfl | rfl
    · exact plain_ohruLine baud hidentity
    · decide

theorem repeats_timeout
    (hidentity : session.identity = true) {turn : Nat} {p : HandleHello × List Line}
    (h : HandleHello.step config baud (HandleHello.settled baud session (.hru turn)) .timeout =
      some p) :
    Repeats baud session p := by
  simp only [HandleHello.step, HandleHello.settled, HandleHello.onHruTimeout] at h
  split_ifs at h
  · cases h
    exact repeats_refuse _ _
  · cases h
    exact repeats_nextHru hidentity turn

/-- The line of `PCUTP.BAS` that tells who it is. -/
def iam : Line :=
  "IAM 0 TYPE=MCU NAME=PicoCalc ROLE=CLIENT VER=2.1".toList

theorem split_iam :
    split iam = ["IAM".toList, "0".toList, "TYPE=MCU".toList, "NAME=PicoCalc".toList,
      "ROLE=CLIENT".toList, "VER=2.1".toList] := by
  decide

theorem not_isTransparent_iam :
    isTransparent (split iam) = false := by
  rw [split_iam]
  decide

/-- It ends the greeting. -/
theorem step_iam (baud : Nat) (session : Session) (turn : Nat) :
    HandleHello.step config baud (HandleHello.settled baud session (.who turn)) (.line iam) =
      some (HandleHello.settled baud session (.returned true), []) := by
  have hrmb : Sender.isRmb iam = false := by
    refine isRmb_eq_false ?_
    rw [split_iam]
    decide
  have hne : ¬ (["IAM".toList, "0".toList, "TYPE=MCU".toList, "NAME=PicoCalc".toList,
      "ROLE=CLIENT".toList, "VER=2.1".toList] = [hruLine]) := by
    decide
  have htype : "TYPE=".toList.isPrefixOf "TYPE=MCU".toList = true := by
    decide
  simp only [HandleHello.step, HandleHello.settled, hrmb, Bool.false_eq_true, if_false,
    HandleHello.onIam, split_iam, if_neg hne, word_succ, word_zero, htype]
  simp

end Server

section Stages

variable (baud : Nat) (session : Session)

/-- The server while the PicoCalc dials, with what is ahead on the line. -/
inductive Dialed (c : Call) (ahead : Line) : Prop
  | fresh {more : List Line} (hserver : c.server = HandleHello.start)
      (hlines : c.toServer = Hello.greeting picocalc 0 :: more)
      (hmore : ∀ text ∈ more, ∃ k, text = Hello.greeting picocalc (k + 1)) (hahead : ahead = [])
  | proposed {turn : Nat} (hserver : c.server = HandleHello.settled baud session (.hru turn))
      (hlines : ∀ text ∈ c.toServer, ∃ k, text = Hello.greeting picocalc (k + 1))
  | gone (hserver : abandoned c.server = true)
      (hlines : ∀ text ∈ c.toServer, ∃ k, text = Hello.greeting picocalc k)

/-- The program dials. -/
structure Dialing (c : Call) (helloTry : Nat) (l : RecvLine) : Prop where
  place : c.basic.place = .line (.dial (helloTry + 1)) l
  connected : c.connected = false
  foreign : Foreign (unread l.s c.ahead)
  dialed : Dialed baud session c (unread l.s c.ahead)

/-- The stages of an undisturbed call. -/
inductive Stage (c : Call) : Prop
  | dialing {helloTry : Nat} {l : RecvLine} (hdialing : Dialing baud session c helloTry l)
  /-- The program has ended, or the proposal had no IDENTITY=1. -/
  | aside (hpast : pastGreeting c.basic.place = true) (hconnected : c.connected = false)
  | confirmed {l : RecvLine} {turn : Nat} (hplace : c.basic.place = .line .who l)
      (hconnected : c.connected = false) (hs : l.s = []) (hahead : c.ahead = [])
      (hserver : c.server = HandleHello.settled baud session (.hru turn))
      (hlines : c.toServer = [hruLine])
  | asked {l : RecvLine} (hplace : c.basic.place = .line .who l)
      (hconnected : c.connected = false) (hahead : unread l.s c.ahead = whoLine ++ ['\n'])
      (hserver : c.server = HandleHello.settled baud session (.who 0)) (hlines : c.toServer = [])
  | named {more : List Line} (hpast : pastGreeting c.basic.place = true)
      (hconnected : c.connected = true)
      (hserver : c.server = HandleHello.settled baud session (.who 0))
      (hlines : c.toServer = iam :: more)
  | done (hpast : pastGreeting c.basic.place = true) (hserver : c.server.phase = .returned true)
  | stopped (hstopped : isStopped c.basic.place = true)

end Stages

section Steps

variable {nums : Numbers} {config : ServerConfig} {baud : Nat} {session : Session}

/-- What has arrived and what has not. -/
theorem ahead_eq (c : Call) (arrived : Nat) :
    c.ahead = c.basic.queue ++ c.toBasic.take arrived ++ c.toBasic.drop arrived := by
  rw [Call.ahead, List.append_assoc, List.take_append_drop]

theorem not_isWho_of_past
    {place : Place} (h : pastGreeting place = true) :
    isWho place = false := by
  cases place with
  | line wait l => cases wait <;> first | rfl | cases h
  | prompt p l => rfl
  | raw frame l => rfl
  | stopped how => rfl

theorem past_of_isStopped
    {place : Place} (h : isStopped place = true) :
    pastGreeting place = true := by
  cases place with
  | stopped how => rfl
  | _ => cases h

/-- A program that has stopped takes no step. -/
theorem running_of_step
    {st : State} {tick : Tick} {p : State × List Effect} (h : step nums st tick = some p) :
    isStopped st.place = false := by
  cases hplace : st.place with
  | stopped how =>
      unfold step at h
      rw [hplace] at h
      cases h
  | _ => rfl

/-- A line that is complete has been heard as it stands, if what is ahead is plain. -/
theorem recvHears_of_head
    {s : Line} {queue more : Bytes} (hplain : Plain (unread s (queue ++ more)))
    (hhead : queue.head? = some 10) :
    recvHears nums s = .returned := by
  obtain ⟨rest, rfl⟩ := List.head?_eq_some_iff.mp hhead
  exact recvHears_of_plain nums (plain_of_unread hplain)

theorem Dialing.not_isWho
    {c : Call} {helloTry : Nat} {l : RecvLine} (h : Dialing baud session c helloTry l) :
    isWho c.basic.place = false := by
  rw [h.place]
  rfl

theorem connects_of_not_isWho
    {c : Call} (h : isWho c.basic.place = false) (out : List Effect) :
    c.connects out = false := by
  rw [Call.connects, h, Bool.false_and]

theorem basicMoved_connected
    {c : Call} (hconnected : c.connected = false) (h : isWho c.basic.place = false) (arrived : Nat)
    (p : State × List Effect) :
    (c.basicMoved arrived p).connected = false := by
  rw [Call.basicMoved, hconnected, connects_of_not_isWho h]
  rfl

/-- What the server awaits while the program dials on. -/
theorem Dialed.moved
    {c c' : Call} {ahead ahead' : Line} {lines : List Line} (h : Dialed baud session c ahead)
    (hserver : c'.server = c.server) (hsent : c'.toServer = c.toServer ++ lines)
    (hlines : ∀ text ∈ lines, ∃ k, text = Hello.greeting picocalc (k + 1))
    (hahead : ahead' <:+ ahead) :
    Dialed baud session c' ahead' := by
  cases h with
  | fresh hstart hfirst hmore hnil =>
      refine .fresh (hserver.trans hstart) (hsent.trans (congrArg (· ++ lines) hfirst))
        (fun text hmem => ?_) ?_
      · exact (List.mem_append.mp hmem).elim (hmore text) (hlines text)
      · rw [hnil] at hahead
        exact List.suffix_nil.mp hahead
  | proposed hhru hagain =>
      refine .proposed (hserver.trans hhru) fun text hmem => ?_
      rw [hsent] at hmem
      exact (List.mem_append.mp hmem).elim (hagain text) (hlines text)
  | gone hover hgreetings =>
      refine .gone (hserver ▸ hover) fun text hmem => ?_
      rw [hsent] at hmem
      refine (List.mem_append.mp hmem).elim (hgreetings text) fun hmem => ?_
      obtain ⟨k, hk⟩ := hlines text hmem
      exact ⟨k + 1, hk⟩

/-- A turn in which nothing is sent. -/
theorem Dialed.same
    {c c' : Call} {ahead ahead' : Line} (h : Dialed baud session c ahead)
    (hserver : c'.server = c.server) (hsent : c'.toServer = c.toServer ++ [])
    (hahead : ahead' <:+ ahead) :
    Dialed baud session c' ahead' :=
  h.moved hserver hsent (fun _ hmem => absurd hmem List.not_mem_nil) hahead

theorem suffix_unread (s : Line) {queue rest : Bytes} (h : rest <:+ queue) :
    unread [] rest <:+ unread s queue := by
  obtain ⟨front, rfl⟩ := h
  exact ⟨s ++ front.map Chr, by rw [unread, unread, List.map_append, List.append_assoc]; rfl⟩

/-- A byte that arrives while the program dials joins the line that has begun. -/
theorem Foreign.keep
    {s : Line} {b : UInt8} {queue : Bytes} (h : Foreign (unread s (b :: queue))) :
    unread (keep s (Chr b)) queue <:+ unread s (b :: queue) := by
  refine unread_keep h.plain ?_
  rintro hcr rfl
  rcases h.ends with hnil | hlast
  · exact absurd (List.append_eq_nil_iff.mp hnil).2 (List.cons_ne_nil _ _)
  · have hlast' : (unread s [b]).getLast? = some (Chr b) := List.getLast?_concat
    rw [hlast, hcr] at hlast'
    exact absurd hlast' (by decide)

theorem not_abandoned_of_awaits
    {s : HandleHello} (h : awaitsHru s = true) :
    abandoned s = false := by
  unfold awaitsHru at h
  unfold abandoned
  cases hphase : s.phase with
  | idle => rfl
  | hru turn => rfl
  | who turn => rfl
  | returned ok =>
      rw [hphase] at h
      cases h
  | raised exc =>
      rw [hphase] at h
      cases h

/-- A turn of the program while it dials. -/
theorem stage_dialing_basic
    {c : Call} {helloTry : Nat} {l : RecvLine} (hdialing : Dialing baud session c helloTry l)
    {now arrived : Nat} {key : Option Char} {p : State × List Effect}
    (h : step nums c.basic { now, arrived := c.toBasic.take arrived, key } = some p)
    (hundisturbed : Undisturbed c (c.basicMoved arrived p) (.basic now arrived key)) :
    Stage baud session (c.basicMoved arrived p) := by
  have hwho := hdialing.not_isWho
  obtain ⟨hplace, hconnected, hforeign, hdialed⟩ := hdialing
  obtain ⟨basic, out⟩ := p
  have hturn := dialTurn_step nums hplace h
  have hconnected' := basicMoved_connected hconnected hwho arrived (basic, out)
  rw [ahead_eq c arrived] at hforeign hdialed
  cases hturn with
  | waits hqueue =>
      dsimp only at hqueue
      rw [hqueue] at hforeign hdialed
      exact .dialing ⟨rfl, hconnected', hforeign, hdialed.same rfl rfl (List.suffix_refl _)⟩
  | @reads g' b rest hqueue hb =>
      dsimp only at hqueue
      rw [hqueue, List.cons_append] at hforeign hdialed
      exact .dialing ⟨rfl, hconnected', hforeign.suffix hforeign.keep,
        hdialed.same rfl rfl hforeign.keep⟩
  | @dials g' rest hrest =>
      obtain ⟨front, hfront⟩ := hrest
      dsimp only at hfront
      rw [← hfront, List.append_assoc] at hforeign hdialed
      have hsuffix := suffix_unread l.s (List.suffix_append front (rest ++ c.toBasic.drop arrived))
      refine .dialing ⟨rfl, hconnected', hforeign.suffix hsuffix,
        hdialed.moved rfl rfl (fun text hmem => ?_) hsuffix⟩
      exact ⟨helloTry, (List.mem_singleton.mp hmem).trans (helloLine_eq (helloTry + 1))⟩
  | @accepts g' rest hqueue =>
      dsimp only at hqueue
      obtain ⟨hawaits, hnone, hahead⟩ := hundisturbed.1 hwho rfl
      rw [ahead_eq c arrived, hqueue] at hahead
      have hrest : rest ++ c.toBasic.drop arrived = [] := (List.cons.inj hahead).2
      cases hdialed with
      | fresh _ hfirst _ _ =>
          rw [hnone] at hfirst
          cases hfirst
      | proposed hserver _ =>
          refine .confirmed rfl hconnected' rfl hrest hserver ?_
          rw [Call.basicMoved, hnone]
          rfl
      | gone hover _ =>
          rw [not_abandoned_of_awaits hawaits] at hover
          cases hover
  | leaves hpast => exact .aside hpast hconnected'
  | answers hhead hheard => exact absurd (recvHears_of_head hforeign.plain hhead) hheard

/-- A server that has given up reads no more. -/
theorem step_of_abandoned
    {s : HandleHello} (h : abandoned s = true) (e : GreetEvent) :
    s.step config baud e = none := by
  unfold abandoned at h
  cases e with
  | timeout =>
      unfold HandleHello.step
      cases hphase : s.phase with
      | returned ok => rfl
      | raised exc => rfl
      | _ =>
          rw [hphase] at h
          cases h
  | line text =>
      unfold HandleHello.step
      cases hphase : s.phase with
      | returned ok => rfl
      | raised exc => rfl
      | _ =>
          rw [hphase] at h
          cases h

theorem unread_append (s : Line) (queue more : Bytes) :
    unread s (queue ++ more) = unread s queue ++ more.map Chr := by
  rw [unread, unread, List.map_append, List.append_assoc]

/-- What the server sends comes after what is ahead. -/
theorem ahead_serverMoved (c : Call) (p : HandleHello × List Line) :
    (c.serverMoved p).ahead = c.ahead ++ wireBytes p.2 :=
  (List.append_assoc _ _ _).symm

/-- A server that waits for HRU repeats its proposal while the program dials. -/
theorem stage_dialing_repeats
    {c : Call} {helloTry : Nat} {l : RecvLine}
    (hplace : c.basic.place = .line (.dial (helloTry + 1)) l) (hconnected : c.connected = false)
    (hforeign : Foreign (unread l.s c.ahead))
    (hlines : ∀ text ∈ c.toServer, ∃ k, text = Hello.greeting picocalc (k + 1))
    {p : HandleHello × List Line} (hrepeats : Repeats baud session p) :
    Stage baud session (c.serverMoved p) := by
  refine .dialing ⟨hplace, hconnected, ?_, ?_⟩
  · rw [ahead_serverMoved, unread_append]
    exact foreign_wire hforeign hrepeats.plain
  · rcases hrepeats.server with ⟨turn, hserver⟩ | hover
    · exact .proposed hserver hlines
    · refine .gone hover fun text hmem => ?_
      obtain ⟨k, hk⟩ := hlines text hmem
      exact ⟨k + 1, hk⟩

/-- The server reads a call. -/
theorem stage_dialing_line
    (hopens : Opens config session) {c c' : Call} {helloTry : Nat} {l : RecvLine}
    (hdialing : Dialing baud session c helloTry l)
    {out : List Effect} (h : c.step nums config baud .line = some (c', out)) :
    Stage baud session c' := by
  obtain ⟨hplace, hconnected, hforeign, hdialed⟩ := hdialing
  cases hdialed with
  | @fresh more hserver hfirst hmore _ =>
      obtain ⟨p, hp, rfl, -⟩ := Call.step_line hfirst (not_isTransparent_greeting rfl) h
      rw [hserver, HandleHello.step_first hopens.negotiated 0] at hp
      cases hp
      refine .dialing ⟨hplace, hconnected, ?_, .proposed rfl hmore⟩
      rw [ahead_serverMoved, unread_append]
      refine foreign_wire hforeign fun line hline => ?_
      rw [List.mem_singleton.mp hline]
      exact plain_normalLine baud hopens.identity
  | proposed hserver hlines =>
      cases hsent : c.toServer with
      | nil =>
          rw [Call.step_line_nil hsent] at h
          cases h
      | cons text rest =>
          rw [hsent] at hlines
          obtain ⟨k, hk⟩ := hlines text List.mem_cons_self
          obtain ⟨p, hp, rfl, -⟩ := Call.step_line hsent (not_isTransparent_greeting hk) h
          rw [hserver, hk, HandleHello.step_again] at hp
          cases hp
          exact stage_dialing_repeats (c := { c with toServer := rest }) hplace hconnected hforeign
            (fun text hmem => hlines text (List.mem_cons_of_mem _ hmem))
            (repeats_nextHru hopens.identity _)
  | gone hover hlines =>
      cases hsent : c.toServer with
      | nil =>
          rw [Call.step_line_nil hsent] at h
          cases h
      | cons text rest =>
          rw [hsent] at hlines
          obtain ⟨k, hk⟩ := hlines text List.mem_cons_self
          obtain ⟨p, hp, -, -⟩ := Call.step_line hsent (not_isTransparent_greeting hk) h
          rw [step_of_abandoned hover] at hp
          cases hp

theorem stage_dialing_timeout
    (hidentity : session.identity = true) {c c' : Call} {helloTry : Nat} {l : RecvLine}
    (hdialing : Dialing baud session c helloTry l)
    {out : List Effect} (h : c.step nums config baud .timeout = some (c', out)) :
    Stage baud session c' := by
  obtain ⟨hplace, hconnected, hforeign, hdialed⟩ := hdialing
  obtain ⟨p, hp, heq⟩ := Option.map_eq_some_iff.mp h
  cases heq
  cases hdialed with
  | fresh hserver hfirst hmore _ =>
      rw [hserver] at hp
      cases hp
      refine .dialing ⟨hplace, hconnected, ?_, .gone rfl fun text hmem => ?_⟩
      · rw [ahead_serverMoved, unread_append]
        exact foreign_wire hforeign (fun _ h => absurd h List.not_mem_nil)
      · replace hmem : text ∈ c.toServer := hmem
        rw [hfirst] at hmem
        rcases List.mem_cons.mp hmem with rfl | hmem
        · exact ⟨0, rfl⟩
        · obtain ⟨k, hk⟩ := hmore text hmem
          exact ⟨k + 1, hk⟩
  | proposed hserver hlines =>
      rw [hserver] at hp
      exact stage_dialing_repeats hplace hconnected hforeign hlines (repeats_timeout hidentity hp)
  | gone hover _ =>
      rw [step_of_abandoned hover] at hp
      cases hp

/-- A step that shows nothing keeps a promise that was not given. -/
theorem identified_of_unconnected
    {c c' : Call} {out : List Effect} (hsilent : c.connects out = false)
    (hconnected : c'.connected = false) :
    Identified c c' out :=
  ⟨fun h => absurd (hsilent.symm.trans h) Bool.false_ne_true,
    fun h => absurd (hconnected.symm.trans h) Bool.false_ne_true⟩

theorem connects_nil (c : Call) :
    c.connects [] = false :=
  Bool.and_false _

/-- A server that goes on keeps what the PicoCalc shows. -/
theorem identified_of_kept
    {c c' : Call} (h : abandoned c'.server = false) :
    Identified c c' [] :=
  ⟨fun hshown => absurd ((connects_nil c).symm.trans hshown) Bool.false_ne_true, fun _ _ => h⟩

/-- A PicoCalc that has stopped shows nothing. -/
theorem identified_of_stopped
    {c c' : Call} (h : isStopped c'.basic.place = true) :
    Identified c c' [] :=
  ⟨fun hshown => absurd ((connects_nil c).symm.trans hshown) Bool.false_ne_true,
    fun _ hrunning => absurd (hrunning.symm.trans h) Bool.false_ne_true⟩

/-- A turn between HRU and the arrival of WHO?. -/
theorem stage_confirmed_basic
    {c : Call} {l : RecvLine} {turn : Nat} (hplace : c.basic.place = .line .who l)
    (hconnected : c.connected = false) (hs : l.s = []) (hahead : c.ahead = [])
    (hserver : c.server = HandleHello.settled baud session (.hru turn))
    (hlines : c.toServer = [hruLine])
    {now arrived : Nat} {key : Option Char} {p : State × List Effect}
    (h : step nums c.basic { now, arrived := c.toBasic.take arrived, key } = some p)
    (hundisturbed : Undisturbed c (c.basicMoved arrived p) (.basic now arrived key)) :
    c.connects p.2 = false ∧ Stage baud session (c.basicMoved arrived p) := by
  obtain ⟨basic, out⟩ := p
  have hturn := whoTurn_step nums hplace h
  rw [ahead_eq c arrived, List.append_eq_nil_iff] at hahead
  cases hturn with
  | waits hqueue _ =>
      refine ⟨connects_nil c, .confirmed rfl ?_ hs hahead.2 hserver ?_⟩
      · rw [Call.basicMoved, hconnected, connects_nil]
        rfl
      · rw [Call.basicMoved, hlines]
        rfl
  | reads hqueue _ _ =>
      rw [hahead.1] at hqueue
      cases hqueue
  | completes hqueue _ =>
      rw [hahead.1] at hqueue
      cases hqueue
  | answers hhead _ =>
      rw [hahead.1] at hhead
      cases hhead
  | late hlate _ => exact absurd hlate (hundisturbed.2 l hplace)
  | lost => exact ⟨connects_nil c, .stopped rfl⟩

/-- Only the whole of `WHO? 0` stands before its line feed. -/
theorem eq_whoLine
    {s t : Line} (h : s ++ '\n' :: t = whoLine ++ ['\n']) :
    s = whoLine := by
  rcases List.append_eq_append_iff.mp h with ⟨a, hwho, ha⟩ | ⟨a, hs, ha⟩
  · cases a with
    | nil => exact (hwho.trans (List.append_nil s)).symm
    | cons x a =>
        have hx : '\n' ∈ whoLine := by
          rw [hwho, (List.cons.inj ha).1]
          exact List.mem_append_right _ List.mem_cons_self
        exact absurd hx (by decide)
  · cases a with
    | nil => rw [hs, List.append_nil]
    | cons x a => exact absurd (congrArg List.length ha) (by simp)

theorem recvHears_whoLine (nums : Numbers) :
    recvHears nums whoLine = .returned :=
  rfl

/-- The characters of `WHO? 0` are kept. -/
theorem keep_whoLine
    {s : Line} {b : UInt8} {queue : Bytes} (h : unread s (b :: queue) = whoLine ++ ['\n']) :
    unread (keep s (Chr b)) queue = whoLine ++ ['\n'] := by
  have hmem : Chr b ∈ whoLine ++ ['\n'] := by
    rw [← h]
    exact List.mem_append_right _ List.mem_cons_self
  have hcr : Chr b ≠ '\r' := by
    intro hcr
    rw [hcr] at hmem
    exact absurd hmem (by decide)
  have hlength := congrArg List.length h
  rw [unread, List.length_append, List.length_map, List.length_cons] at hlength
  have hshort : s.length < 250 := by
    have hwho : (whoLine ++ ['\n']).length = 7 := by decide
    omega
  rw [keep, if_neg hcr, if_pos hshort, ← h, unread, unread, List.append_assoc]
  rfl

theorem afterWho_whoLine (g : Globals) :
    (afterWho g whoLine).out = [.send iam, .show "CONNECT 115200".toList] :=
  rfl

/-- A turn while WHO? is on its way. -/
theorem stage_asked_basic
    {c : Call} {l : RecvLine} (hplace : c.basic.place = .line .who l)
    (hconnected : c.connected = false) (hahead : unread l.s c.ahead = whoLine ++ ['\n'])
    (hserver : c.server = HandleHello.settled baud session (.who 0)) (hlines : c.toServer = [])
    {now arrived : Nat} {key : Option Char} {p : State × List Effect}
    (h : step nums c.basic { now, arrived := c.toBasic.take arrived, key } = some p)
    (hundisturbed : Undisturbed c (c.basicMoved arrived p) (.basic now arrived key)) :
    Identified c (c.basicMoved arrived p) p.2 ∧ Stage baud session (c.basicMoved arrived p) := by
  obtain ⟨basic, out⟩ := p
  have hturn := whoTurn_step nums hplace h
  have hwaits : ∀ basic, (c.basicMoved arrived (basic, [])).connected = false := by
    intro basic
    rw [Call.basicMoved, hconnected, connects_nil]
    rfl
  have hlines' : ∀ basic, (c.basicMoved arrived (basic, [])).toServer = [] := by
    intro basic
    rw [Call.basicMoved, hlines]
    rfl
  rw [ahead_eq c arrived] at hahead
  cases hturn with
  | waits hqueue _ =>
      dsimp only at hqueue
      rw [hqueue] at hahead
      exact ⟨identified_of_unconnected (connects_nil c) (hwaits _),
        .asked rfl (hwaits _) hahead hserver (hlines' _)⟩
  | @reads g' b rest hqueue hb _ =>
      dsimp only at hqueue
      rw [hqueue, List.cons_append] at hahead
      refine ⟨identified_of_unconnected (connects_nil c) (hwaits _),
        .asked rfl (hwaits _) (keep_whoLine hahead) hserver (hlines' _)⟩
  | @completes g' rest hqueue hheard =>
      dsimp only at hqueue
      rw [hqueue, List.cons_append] at hahead
      rw [eq_whoLine hahead, afterWho_whoLine]
      have hsent : (c.basicMoved arrived ((afterWho g' whoLine).state rest,
          [.send iam, .show "CONNECT 115200".toList])).toServer = [iam] := by
        rw [Call.basicMoved, hlines]
        rfl
      refine ⟨⟨fun _ => List.mem_cons_self, fun _ _ => ?_⟩, .named rfl ?_ hserver hsent⟩
      · change abandoned c.server = false
        rw [hserver]
        rfl
      · rw [Call.basicMoved, Call.connects, hplace]
        simp [isWho]
  | answers hhead hheard =>
      obtain ⟨rest, hqueue⟩ := List.head?_eq_some_iff.mp hhead
      rw [hqueue, List.cons_append] at hahead
      rw [eq_whoLine hahead] at hheard
      exact absurd (recvHears_whoLine nums) hheard
  | late hlate _ => exact absurd hlate (hundisturbed.2 l hplace)
  | lost => exact ⟨identified_of_unconnected (connects_nil c) (hwaits _), .stopped rfl⟩

/-- A turn after the greeting. -/
theorem connects_of_past
    {c : Call} (hpast : pastGreeting c.basic.place = true) (out : List Effect) :
    c.connects out = false :=
  connects_of_not_isWho (not_isWho_of_past hpast) out

theorem stage_basic
    {c : Call} (hstage : Stage baud session c) {now arrived : Nat} {key : Option Char}
    {p : State × List Effect}
    (h : step nums c.basic { now, arrived := c.toBasic.take arrived, key } = some p)
    (hundisturbed : Undisturbed c (c.basicMoved arrived p) (.basic now arrived key)) :
    Identified c (c.basicMoved arrived p) p.2 ∧ Stage baud session (c.basicMoved arrived p) := by
  cases hstage with
  | dialing hdialing =>
      exact ⟨identified_of_unconnected (connects_of_not_isWho hdialing.not_isWho p.2)
          (basicMoved_connected hdialing.connected hdialing.not_isWho arrived p),
        stage_dialing_basic hdialing h hundisturbed⟩
  | aside hpast hconnected =>
      have hwho := not_isWho_of_past hpast
      have hconnected' := basicMoved_connected hconnected hwho arrived p
      exact ⟨identified_of_unconnected (connects_of_not_isWho hwho p.2) hconnected',
        .aside (past_step nums hpast h) hconnected'⟩
  | confirmed hplace hconnected hs hahead hserver hlines =>
      obtain ⟨hsilent, hstage⟩ :=
        stage_confirmed_basic hplace hconnected hs hahead hserver hlines h hundisturbed
      refine ⟨identified_of_unconnected hsilent ?_, hstage⟩
      rw [Call.basicMoved, hconnected, hsilent]
      rfl
  | asked hplace hconnected hahead hserver hlines =>
      exact stage_asked_basic hplace hconnected hahead hserver hlines h hundisturbed
  | @named more hpast hconnected hserver hlines =>
      have hsent : (c.basicMoved arrived p).toServer = iam :: (more ++ sentLines p.2) := by
        rw [Call.basicMoved, hlines, List.cons_append]
      refine ⟨⟨fun h => ?_, fun _ _ => ?_⟩, .named (past_step nums hpast h) ?_ hserver hsent⟩
      · rw [connects_of_past hpast] at h
        cases h
      · change abandoned c.server = false
        rw [hserver]
        rfl
      · rw [Call.basicMoved, hconnected]
        rfl
  | done hpast hserver =>
      refine ⟨⟨fun h => ?_, fun _ _ => ?_⟩, .done (past_step nums hpast h) hserver⟩
      · rw [connects_of_past hpast] at h
        cases h
      · change abandoned c.server = false
        rw [abandoned, hserver]
  | stopped hstopped =>
      exact absurd (hstopped.symm.trans (running_of_step h)) Bool.false_ne_true.symm

/-- `_handle_hello` reads a line. -/
theorem stage_line
    (hopens : Opens config session) {c c' : Call} (hstage : Stage baud session c)
    {out : List Effect} (h : c.step nums config baud .line = some (c', out)) :
    Identified c c' out ∧ Stage baud session c' := by
  obtain ⟨hbasic, hsame, rfl, -, hmoved⟩ := Call.step_line_cases h
  cases hstage with
  | dialing hdialing =>
      exact ⟨identified_of_unconnected (connects_nil c) (hsame.trans hdialing.connected),
        stage_dialing_line hopens hdialing h⟩
  | aside hpast hconnected =>
      exact ⟨identified_of_unconnected (connects_nil c) (hsame.trans hconnected),
        .aside (hbasic ▸ hpast) (hsame.trans hconnected)⟩
  | confirmed hplace hconnected hs hahead hserver hlines =>
      obtain ⟨p, hp, rfl, -⟩ := Call.step_line hlines (by decide) h
      rw [hserver, HandleHello.step_hru hopens.identity] at hp
      cases hp
      refine ⟨identified_of_unconnected (connects_nil c) hconnected,
        .asked hplace hconnected ?_ rfl rfl⟩
      rw [ahead_serverMoved, unread_append, hs]
      replace hahead : Call.ahead { c with toServer := [] } = [] := hahead
      rw [hahead]
      change (wireBytes [whoLine]).map Chr = whoLine ++ ['\n']
      decide
  | asked hplace hconnected hahead hserver hlines =>
      rw [Call.step_line_nil hlines] at h
      cases h
  | named hpast hconnected hserver hlines =>
      obtain ⟨p, hp, rfl, -⟩ := Call.step_line hlines not_isTransparent_iam h
      rw [hserver, step_iam] at hp
      cases hp
      exact ⟨identified_of_kept rfl, .done hpast rfl⟩
  | done hpast hserver =>
      have hserver' : c'.server = c.server := by
        refine hmoved.resolve_right ?_
        rintro ⟨text, p, hp⟩
        unfold HandleHello.step at hp
        rw [hserver] at hp
        cases hp
      refine ⟨identified_of_kept ?_, .done (hbasic ▸ hpast) (hserver' ▸ hserver)⟩
      rw [abandoned, hserver', hserver]
  | stopped hstopped =>
      exact ⟨identified_of_stopped (hbasic ▸ hstopped), .stopped (hbasic ▸ hstopped)⟩

/-- A timer of the server runs out. -/
theorem stage_timeout
    (hidentity : session.identity = true) {c c' : Call} (hstage : Stage baud session c)
    {out : List Effect} (h : c.step nums config baud .timeout = some (c', out))
    (hundisturbed : Undisturbed c c' .timeout) :
    Identified c c' out ∧ Stage baud session c' := by
  obtain ⟨p, hp, heq⟩ := Option.map_eq_some_iff.mp h
  cases heq
  obtain ⟨hwho, hstopped⟩ := hundisturbed
  have hdown : isStopped c.basic.place = true →
      Identified c (c.serverMoved p) [] ∧ Stage baud session (c.serverMoved p) :=
    fun hstopped => ⟨identified_of_stopped hstopped, .stopped hstopped⟩
  cases hstage with
  | dialing hdialing =>
      exact ⟨identified_of_unconnected (connects_nil c) hdialing.connected,
        stage_dialing_timeout hidentity hdialing h⟩
  | aside hpast hconnected =>
      exact ⟨identified_of_unconnected (connects_nil c) hconnected, .aside hpast hconnected⟩
  | confirmed hplace _ _ _ _ _ =>
      rw [hplace] at hwho
      cases hwho
  | asked hplace _ _ _ _ =>
      rw [hplace] at hwho
      cases hwho
  | named hpast hconnected hserver hlines => exact hdown (hstopped hconnected)
  | done hpast hserver =>
      unfold HandleHello.step at hp
      dsimp only at hp
      rw [hserver] at hp
      cases hp
  | stopped hstopped => exact hdown hstopped

/-- The step lemma of undisturbed calls. -/
theorem stage_step
    (hopens : Opens config session) {c c' : Call} {e : CallEvent} {out : List Effect}
    (hstage : Stage baud session c) (h : c.step nums config baud e = some (c', out))
    (hundisturbed : Undisturbed c c' e) :
    Identified c c' out ∧ Stage baud session c' := by
  cases e with
  | basic now arrived key =>
      obtain ⟨p, hp, heq⟩ := Option.map_eq_some_iff.mp h
      cases heq
      exact stage_basic hstage hp hundisturbed
  | line => exact stage_line hopens hstage h
  | timeout => exact stage_timeout hopens.identity hstage h hundisturbed

theorem stage_start (now : Nat) :
    Stage baud session (Call.start now) := by
  have hforeign : Foreign (unread [] []) := ⟨.nil, Or.inl rfl⟩
  have hdialing : Dialing baud session (Call.start now) 0 { s := [], t := now, t0 := now } :=
    ⟨rfl, rfl, hforeign, .fresh rfl rfl (fun _ h => absurd h List.not_mem_nil) rfl⟩
  exact .dialing hdialing

end Steps

end Pcutp.Picocalc
