import Pcutp.Complete
import Pcutp.Fetch
import Pcutp.Negotiation

/-!
# A greeting over the line

`hello` and `_handle_hello` with the two channels between them.  The channels
lose nothing; a delay needs no step of its own, because a line stays in its
channel until it is read, and a timer may run out at any time.  After `hello`
has returned the client may send a GET and read the first line of the answer.

`timeouts` counts the timers that have run out.  Each of them makes one more
HRU, and each HRU but the one that IAM answers leaves a `WHO? 0` behind.
-/

namespace Pcutp

/-- Both ends of a greeting, and what is on the line. -/
structure Handshake where
  client : Hello
  server : HandleHello
  toServer : List Line
  toClient : List Line
  /-- Whether the client has sent a GET. -/
  asked : Bool
  /-- The first line read after it. -/
  answer : Option Line
  /-- How often a timer has run out. -/
  timeouts : Nat

/-- What can happen next. -/
inductive Knock
  | clientTimeout
  | clientLine
  | serverTimeout
  | serverLine
  /-- The client writes `GET {filename} {url}`. -/
  | get (filename url : Line)
  /-- `serve_once` handles the GET. -/
  | serve
  /-- The client reads the first line after its GET. -/
  | answer
  deriving DecidableEq

/-- `f"GET {filename} {url}"`. -/
def getLine (filename url : Line) : Line :=
  "GET".toList ++ ' ' :: (filename ++ ' ' :: url)

namespace Handshake

variable (client : HelloConfig) (config : ServerConfig) (baud : Nat) (web : Web) (max_size : Nat)

/-- The client has written its HELLO. -/
def start : Handshake where
  client := (Hello.start client).1
  server := HandleHello.start
  toServer := (Hello.start client).2
  toClient := []
  asked := false
  answer := none
  timeouts := 0

/-- The client has moved. -/
def clientMoved (s : Handshake) (p : Hello × List Line) : Handshake :=
  { s with client := p.1, toServer := s.toServer ++ p.2 }

/-- The server has moved. -/
def serverMoved (s : Handshake) (p : HandleHello × List Line) : Handshake :=
  { s with server := p.1, toClient := s.toClient ++ p.2 }

/-- One step of the system. -/
def step (s : Handshake) : Knock → Option Handshake
  | .clientTimeout =>
      (s.client.step client .timeout).map { s with timeouts := s.timeouts + 1 }.clientMoved
  | .clientLine =>
      match s.toClient with
      | [] => none
      | text :: toClient =>
          (s.client.step client (.line text)).map { s with toClient }.clientMoved
  | .serverTimeout =>
      (s.server.step config baud .timeout).map { s with timeouts := s.timeouts + 1 }.serverMoved
  | .serverLine =>
      match s.toServer with
      | [] => none
      | text :: toServer =>
          (s.server.step config baud (.line text)).map { s with toServer }.serverMoved
  | .get filename url =>
      match s.client.phase with
      | .returned _ =>
          if s.asked = false then
            some { s with asked := true, toServer := s.toServer ++ [getLine filename url] }
          else
            none
      | _ => none
  | .serve =>
      match s.server.phase, s.toServer with
      | .returned true, text :: toServer =>
          if "GET ".toList.isPrefixOf text = true then
            some { s with toServer, toClient := s.toClient ++ (handle_get web max_size text).sent }
          else
            none
      | _, _ => none
  | .answer =>
      match s.asked, s.answer, s.toClient with
      | true, none, text :: toClient => some { s with toClient, answer := some text }
      | _, _, _ => none

/-- What a greeting can come to. -/
def Leads : Handshake → Handshake → Prop :=
  Transition.Steps (step client config baud web max_size) (fun _ _ => True)

/-- A greeting in which no timer runs out and no GET follows. -/
def exec (s : Handshake) (events : List Knock) : Option Handshake :=
  Transition.exec (step client config baud web max_size)
    (fun _ e => e = .clientLine ∨ e = .serverLine) s events

end Handshake

/-- A line of the greeting. -/
def isGreeting (text : Line) : Bool :=
  word (split text) 0 ∈ ["HELLO".toList, "HELLO?".toList, "OHRU".toList, "HRU".toList,
    "WHO?".toList, "IAM".toList]

/-- The first word of an answer to a GET. -/
def isAnswer (text : Line) : Bool :=
  word (split text) 0 ∈ ["FETCHING".toList, "META".toList, "ERR".toList]

section Get

variable {client : HelloConfig} {config : ServerConfig} {baud : Nat} {session : Session}

theorem split_getLine (filename url : Line) :
    split (getLine filename url) = "GET".toList :: split (filename ++ ' ' :: url) :=
  Words.words_cons (by decide) (isWord_of_check (by decide)) _

/-- Everything that `_handle_get` sends by itself is an answer. -/
theorem isAnswer_of_sent
    {web : Web} {max_size : Nat} {text line : Line}
    (h : line ∈ (handle_get web max_size text).sent) :
    isAnswer line = true := by
  have hwire : ∀ exc : PcutpError, isAnswer exc.wire = true := by
    intro exc
    have hsplit := isErr_wire exc
    rw [isErr, beq_iff_eq, List.take_one] at hsplit
    cases hwords : split exc.wire with
    | nil =>
        rw [hwords] at hsplit
        cases hsplit
    | cons w ws =>
        rw [hwords] at hsplit
        cases hsplit
        rw [isAnswer, hwords]
        rfl
  have hfetching : isAnswer "FETCHING".toList = true := by
    decide
  unfold handle_get at h
  dsimp only at h
  split at h
  · rw [List.mem_singleton.mp h]
    exact hwire _
  · split at h
    · rw [List.mem_singleton.mp h]
      exact hwire _
    · split at h
      · rw [List.mem_singleton.mp h]
        exact hfetching
      · simp only [List.mem_cons, List.not_mem_nil, or_false] at h
        rcases h with rfl | rfl
        · exact hfetching
        · exact hwire _
      · rw [List.mem_singleton.mp h]
        exact hfetching

/-- A GET is no acknowledgement: a server that still waits for one gives the session up. -/
theorem HandleHello.step_get
    (config : ServerConfig) (baud : Nat) (hidentity : session.identity = true) {phase : GreetPhase}
    (hphase : (∃ attempt, phase = .hru attempt) ∨ ∃ attempt, phase = .who attempt)
    (filename url : Line) :
    ∃ s out, HandleHello.step config baud (HandleHello.settled baud session phase)
        (.line (getLine filename url)) = some (s, out) ∧
      (s.phase = .returned false ∨ ∃ exc, s.phase = .raised exc) := by
  have hrmb : Sender.isRmb (getLine filename url) = false := by
    refine isRmb_eq_false ?_
    rw [split_getLine]
    simp
  rcases hphase with ⟨attempt, rfl⟩ | ⟨attempt, rfl⟩
  · have hagain : HandleHello.isAgain (getLine filename url) = false := by
      simp [HandleHello.isAgain, getLine, join, Words.unwords, List.isPrefixOf]
    have hhru : getLine filename url ≠ hruLine := by
      simp [getLine, hruLine]
    simp only [HandleHello.step, HandleHello.settled, hrmb, Bool.false_eq_true, if_false,
      HandleHello.onHru, hagain, if_neg hhru, HandleHello.identity, hidentity]
    exact ⟨_, _, rfl, Or.inl rfl⟩
  · have hhru : split (getLine filename url) ≠ [hruLine] := by
      rw [split_getLine]
      simp [hruLine]
    have hiam : ¬ (3 ≤ (split (getLine filename url)).length ∧
        (split (getLine filename url)).take 2 = ["IAM".toList, "0".toList] ∧
        "TYPE=".toList.isPrefixOf (word (split (getLine filename url)) 2) = true) := by
      rw [split_getLine]
      simp
    simp only [HandleHello.step, HandleHello.settled, hrmb, Bool.false_eq_true, if_false,
      HandleHello.onIam, if_neg hhru, if_neg hiam]
    exact ⟨_, _, rfl, Or.inr ⟨_, rfl⟩⟩

/-- A `HELLO?` is no identity: a server that waits for IAM gives the session up. -/
theorem HandleHello.step_late
    (client : HelloConfig) (config : ServerConfig) (baud : Nat) (session : Session)
    (attempt k : Nat) :
    ∃ s out exc, HandleHello.step config baud (HandleHello.settled baud session (.who attempt))
        (.line (Hello.greeting client (k + 1))) = some (s, out) ∧ s.phase = .raised exc := by
  have hrmb : Sender.isRmb (Hello.greeting client (k + 1)) = false := by
    refine isRmb_eq_false ?_
    rw [split_greeting]
    simp
  simp only [HandleHello.step, HandleHello.settled, hrmb, Bool.false_eq_true, if_false,
    HandleHello.onIam, split_greeting, hruLine, Hello.offer]
  simp [HandleHello.raise]

end Get

section Traffic

variable (client : HelloConfig) (config : ServerConfig) (baud : Nat) (session : Session)

/-- How many `WHO? 0` are left over, after so many timeouts, for what was read after the GET. -/
inductive Tally : Option Line → Nat → Nat → Prop
  | unread (n : Nat) : Tally none n n
  | debris (n : Nat) : Tally (some whoLine) n (n + 1)
  | clean (text : Line) : isAnswer text = true → Tally (some text) 0 0

/-- The greeting is over for one end without success. -/
def Handshake.Over (s : Handshake) : Prop :=
  (∃ exc, s.client.phase = .raised exc) ∨ s.server.phase = .returned false ∨
    ∃ exc, s.server.phase = .raised exc

/-- A line that a client may leave behind whose loop ended without a `WHO?`. -/
def IsLeft (text : Line) : Prop :=
  text = Hello.greeting client 1 ∨ text = hruLine ∨ ∃ filename url, text = getLine filename url

/-- What is on the line, by what the two ends wait for. -/
inductive Traffic : Handshake → Prop
  | knocking (attempt timeouts : Nat) :
      Traffic
        { client := Hello.asking client attempt
          server := HandleHello.start
          toServer := Hello.greeting client 0 :: List.replicate timeouts (Hello.greeting client 1)
          toClient := []
          asked := false
          answer := none
          timeouts }
  | proposed (attempt turn again timeouts : Nat) (proposals : List Line)
      (hagrees : session.Agrees client config)
      (hproposals : ∀ text ∈ proposals, IsProposal baud session text)
      (hcount : proposals.length + again = 1 + timeouts) :
      Traffic
        { client := Hello.asking client attempt
          server := HandleHello.settled baud session (.hru turn)
          toServer := List.replicate again (Hello.greeting client 1)
          toClient := proposals
          asked := false
          answer := none
          timeouts }
  | confirming (attempt turn again hrus timeouts : Nat) (proposals : List Line)
      (hagrees : session.Agrees client config)
      (hproposals : ∀ text ∈ proposals, IsProposal baud session text)
      (hcount : proposals.length + again + hrus = 1 + timeouts) :
      Traffic
        { client := Hello.settled client config (.who attempt)
          server := HandleHello.settled baud session (.hru turn)
          toServer := List.replicate again (Hello.greeting client 1) ++
            List.replicate hrus hruLine
          toClient := proposals
          asked := false
          answer := none
          timeouts }
  | naming (attempt turn hrus whos timeouts : Nat) (proposals : List Line)
      (hagrees : session.Agrees client config)
      (hproposals : ∀ text ∈ proposals, IsProposal baud session text)
      (hcount : proposals.length + hrus + whos = 1 + timeouts) :
      Traffic
        { client := Hello.settled client config (.who attempt)
          server := HandleHello.settled baud session (.who turn)
          toServer := List.replicate hrus hruLine
          toClient := proposals ++ List.replicate whos whoLine
          asked := false
          answer := none
          timeouts }
  | named (maxblk turn hrus whos timeouts : Nat) (gets : List Line) (asked : Bool)
      (answer : Option Line)
      (hagrees : session.Agrees client config)
      (hgets : ∀ text ∈ gets, ∃ filename url, text = getLine filename url)
      (htally : Tally answer (hrus + whos) timeouts) :
      Traffic
        { client := Hello.settled client config (.returned maxblk)
          server := HandleHello.settled baud session (.who turn)
          toServer := List.replicate hrus hruLine ++ iamLine :: gets
          toClient := List.replicate whos whoLine
          asked
          answer
          timeouts }
  | done (maxblk whos timeouts : Nat) (gets answers : List Line) (asked : Bool)
      (answer : Option Line)
      (hagrees : session.Agrees client config)
      (hgets : ∀ text ∈ gets, ∃ filename url, text = getLine filename url)
      (hanswers : ∀ text ∈ answers, isAnswer text = true)
      (htally : Tally answer whos timeouts) :
      Traffic
        { client := Hello.settled client config (.returned maxblk)
          server := HandleHello.settled baud session (.returned true)
          toServer := gets
          toClient := List.replicate whos whoLine ++ answers
          asked
          answer
          timeouts }
  /-- The loop for `WHO? 0` ended without one: no IAM will come. -/
  | stranded (s : Handshake) (maxblk : Nat) (phase : GreetPhase)
      (hagrees : session.Agrees client config)
      (hclient : s.client = Hello.settled client config (.returned maxblk))
      (hserver : s.server = HandleHello.settled baud session phase)
      (hphase : (∃ turn, phase = .hru turn) ∨ ∃ turn, phase = .who turn)
      (hleft : ∀ text ∈ s.toServer, IsLeft client text) :
      Traffic s
  | over (s : Handshake) (hover : s.Over) : Traffic s

variable {client config baud session} {web : Web} {max_size : Nat} {s s' : Handshake}

theorem Hello.greeting_again (k : Nat) :
    Hello.greeting client (k + 1) = Hello.greeting client 1 := by
  simp [Hello.greeting]

theorem replicate_concat {α : Type} (n : Nat) (x : α) :
    List.replicate n x ++ [x] = List.replicate (n + 1) x :=
  List.replicate_append_replicate (n := n) (m := 1)

/-- An end that is over stays over. -/
theorem Handshake.Over.step
    (hover : s.Over) {e : Knock} (h : s.step client config baud web max_size e = some s') :
    s'.Over := by
  have hclient : ∀ (p : Hello × List Line) (ev : GreetEvent),
      s.client.step client ev = some p → s.server.phase = .returned false ∨
        ∃ exc, s.server.phase = .raised exc := by
    intro p ev hp
    refine hover.resolve_left ?_
    rintro ⟨exc, hphase⟩
    cases ev <;> simp [Hello.step, hphase] at hp
  have hserver : ∀ (p : HandleHello × List Line) (ev : GreetEvent),
      s.server.step config baud ev = some p → ∃ exc, s.client.phase = .raised exc := by
    intro p ev hp
    rcases hover with hclient | hphase | ⟨exc, hphase⟩
    · exact hclient
    · cases ev <;> simp [HandleHello.step, hphase] at hp
    · cases ev <;> simp [HandleHello.step, hphase] at hp
  cases e with
  | clientTimeout =>
      obtain ⟨p, hp, rfl⟩ := Option.map_eq_some_iff.mp h
      exact Or.inr (hclient p _ hp)
  | clientLine =>
      simp only [Handshake.step] at h
      split at h
      · cases h
      · obtain ⟨p, hp, rfl⟩ := Option.map_eq_some_iff.mp h
        exact Or.inr (hclient p _ hp)
  | serverTimeout =>
      obtain ⟨p, hp, rfl⟩ := Option.map_eq_some_iff.mp h
      exact Or.inl (hserver p _ hp)
  | serverLine =>
      simp only [Handshake.step] at h
      split at h
      · cases h
      · obtain ⟨p, hp, rfl⟩ := Option.map_eq_some_iff.mp h
        exact Or.inl (hserver p _ hp)
  | get filename url =>
      simp only [Handshake.step] at h
      split at h
      · split at h
        · cases h
          exact hover
        · cases h
      · cases h
  | serve =>
      simp only [Handshake.step] at h
      split at h
      · split at h
        · cases h
          exact hover
        · cases h
      · cases h
  | answer =>
      simp only [Handshake.step] at h
      split at h
      · cases h
        exact hover
      · cases h

section Steps

/-- The timer of the HRU loop makes one more proposal, or ends the session. -/
theorem HandleHello.hru_timeout
    (config : ServerConfig) (baud : Nat) (session : Session) (turn : Nat) :
    (∃ t, HandleHello.step config baud (HandleHello.settled baud session (.hru turn)) .timeout =
        some (HandleHello.settled baud session (.hru t),
          [HandleHello.ohruLine (HandleHello.tailWords baud session)])) ∨
      ∃ t out,
        HandleHello.step config baud (HandleHello.settled baud session (.hru turn)) .timeout =
        some (t, out) ∧ t.phase = .returned false := by
  simp only [HandleHello.step, HandleHello.settled, HandleHello.onHruTimeout]
  split
  · exact Or.inr ⟨_, _, rfl, rfl⟩
  · simp only [HandleHello.nextHru]
    split
    · exact Or.inl ⟨turn + 1, rfl⟩
    · exact Or.inr ⟨_, _, rfl, rfl⟩

/-- A repeated HELLO makes one more proposal, or ends the session. -/
theorem HandleHello.hru_again
    (client : HelloConfig) (config : ServerConfig) (baud : Nat) (session : Session) (turn : Nat) :
    (∃ t, HandleHello.step config baud (HandleHello.settled baud session (.hru turn))
        (.line (Hello.greeting client 1)) = some (HandleHello.settled baud session (.hru t),
          [HandleHello.ohruLine (HandleHello.tailWords baud session)])) ∨
      ∃ t out, HandleHello.step config baud (HandleHello.settled baud session (.hru turn))
        (.line (Hello.greeting client 1)) = some (t, out) ∧ t.phase = .returned false := by
  rw [HandleHello.step_again 0]
  simp only [HandleHello.settled, HandleHello.nextHru]
  split
  · exact Or.inl ⟨turn + 1, rfl⟩
  · exact Or.inr ⟨_, _, rfl, rfl⟩

/-- Another HRU makes one more `WHO? 0`, or ends the session. -/
theorem HandleHello.who_again
    (config : ServerConfig) (baud : Nat) (session : Session) (turn : Nat) :
    (∃ t, HandleHello.step config baud (HandleHello.settled baud session (.who turn))
        (.line hruLine) = some (HandleHello.settled baud session (.who t), [whoLine])) ∨
      ∃ t out exc, HandleHello.step config baud (HandleHello.settled baud session (.who turn))
        (.line hruLine) = some (t, out) ∧ t.phase = .raised exc := by
  rw [HandleHello.step_hru_again]
  split
  · exact Or.inl ⟨turn + 1, rfl⟩
  · exact Or.inr ⟨_, _, _, rfl, rfl⟩

/-- The timer of `hello` for `WHO? 0` makes one more HRU, or ends the greeting. -/
theorem Hello.who_timeout
    (client : HelloConfig) (config : ServerConfig) (attempt : Nat) :
    (∃ a, Hello.step client (Hello.settled client config (.who attempt)) .timeout =
        some (Hello.settled client config (.who a), [hruLine])) ∨
      ∃ t out exc, Hello.step client (Hello.settled client config (.who attempt)) .timeout =
        some (t, out) ∧ t.phase = .raised exc := by
  simp only [Hello.step, Hello.settled]
  split
  · exact Or.inl ⟨attempt + 1, rfl⟩
  · exact Or.inr ⟨_, _, _, rfl, rfl⟩

/-- The timer of `hello` for the proposal repeats HELLO, or ends the greeting. -/
theorem Hello.answer_timeout (client : HelloConfig) (attempt : Nat) :
    (∃ a, Hello.step client (Hello.asking client attempt) .timeout =
        some (Hello.asking client a, [Hello.greeting client 1])) ∨
      ∃ t out exc, Hello.step client (Hello.asking client attempt) .timeout =
        some (t, out) ∧ t.phase = .raised exc := by
  simp only [Hello.step, Hello.asking]
  split
  · exact Or.inl ⟨attempt + 1, by rw [Hello.greeting_again]⟩
  · exact Or.inr ⟨_, _, _, rfl, rfl⟩

/-- A HELLO is waited for. -/
theorem Traffic.knocking_step
    (hopen : (session.Agrees client config ∧
        negotiate config ((Hello.offer client).drop 1) = .ok (session, offered client)) ∨
      ∃ exc, negotiate config ((Hello.offer client).drop 1) = .error exc)
    {attempt timeouts : Nat} {e : Knock}
    (h : Handshake.step client config baud web max_size
      { client := Hello.asking client attempt
        server := HandleHello.start
        toServer := Hello.greeting client 0 :: List.replicate timeouts (Hello.greeting client 1)
        toClient := []
        asked := false
        answer := none
        timeouts } e = some s') :
    Traffic client config baud session s' := by
  cases e with
  | clientTimeout =>
      rcases Hello.answer_timeout client attempt with ⟨a, ha⟩ | ⟨t, out, exc, ht, hphase⟩
      · simp only [Handshake.step, ha, Option.map_some, Option.some.injEq] at h
        subst h
        have hnext : Traffic client config baud session _ := .knocking a (timeouts + 1)
        rw [← replicate_concat] at hnext
        exact hnext
      · simp only [Handshake.step, ht, Option.map_some, Option.some.injEq] at h
        subst h
        exact .over _ (Or.inl ⟨exc, hphase⟩)
  | clientLine => cases h
  | serverTimeout =>
      cases h
      exact .over _ (Or.inr (Or.inr ⟨_, rfl⟩))
  | serverLine =>
      rcases hopen with ⟨hagrees, hnegotiate⟩ | ⟨exc, hexc⟩
      · simp only [Handshake.step, HandleHello.step_first hnegotiate, Option.map_some,
          Option.some.injEq] at h
        subst h
        exact .proposed attempt 0 timeouts timeouts _ hagrees (by simp [IsProposal]) rfl
      · simp only [Handshake.step, HandleHello.step_first_error hexc, Option.map_some,
          Option.some.injEq] at h
        subst h
        exact .over _ (Or.inr (Or.inr ⟨exc, rfl⟩))
  | get filename url => cases h
  | serve => cases h
  | answer => cases h

/-- One more OHRU among the proposals. -/
theorem proposals_ohru
    {proposals : List Line} (hproposals : ∀ text ∈ proposals, IsProposal baud session text) :
    ∀ text ∈ proposals ++ [HandleHello.ohruLine (HandleHello.tailWords baud session)],
      IsProposal baud session text := by
  intro text htext
  rcases List.mem_append.mp htext with htext | htext
  · exact hproposals text htext
  · exact Or.inr (List.mem_singleton.mp htext)

/-- HRU is waited for, and the proposal. -/
theorem Traffic.proposed_step
    {attempt turn again timeouts : Nat} {proposals : List Line}
    (hagrees : session.Agrees client config)
    (hproposals : ∀ text ∈ proposals, IsProposal baud session text)
    (hcount : proposals.length + again = 1 + timeouts) {e : Knock}
    (h : Handshake.step client config baud web max_size
      { client := Hello.asking client attempt
        server := HandleHello.settled baud session (.hru turn)
        toServer := List.replicate again (Hello.greeting client 1)
        toClient := proposals
        asked := false
        answer := none
        timeouts } e = some s') :
    Traffic client config baud session s' := by
  have hmore := proposals_ohru hproposals
  cases e with
  | clientTimeout =>
      rcases Hello.answer_timeout client attempt with ⟨a, ha⟩ | ⟨t, out, exc, ht, hphase⟩
      · simp only [Handshake.step, ha, Option.map_some, Option.some.injEq] at h
        subst h
        have hnext : Traffic client config baud session _ := .proposed a turn (again + 1)
          (timeouts + 1) proposals hagrees hproposals (by omega)
        rw [← replicate_concat] at hnext
        exact hnext
      · simp only [Handshake.step, ht, Option.map_some, Option.some.injEq] at h
        subst h
        exact .over _ (Or.inl ⟨exc, hphase⟩)
  | clientLine =>
      cases proposals with
      | nil => cases h
      | cons text proposals =>
          obtain ⟨htext, hrest⟩ := List.forall_mem_cons.mp hproposals
          simp only [Handshake.step, Hello.step_answer hagrees htext, Option.map_some,
            Option.some.injEq] at h
          subst h
          rw [List.length_cons] at hcount
          exact .confirming 0 turn again 1 timeouts proposals hagrees hrest (by omega)
  | serverTimeout =>
      rcases HandleHello.hru_timeout config baud session turn with
        ⟨t, ht⟩ | ⟨t, out, ht, hphase⟩
      · simp only [Handshake.step, ht, Option.map_some, Option.some.injEq] at h
        subst h
        exact .proposed attempt t again (timeouts + 1) _ hagrees hmore (by simp; omega)
      · simp only [Handshake.step, ht, Option.map_some, Option.some.injEq] at h
        subst h
        exact .over _ (Or.inr (Or.inl hphase))
  | serverLine =>
      cases again with
      | zero => cases h
      | succ again =>
          rw [List.replicate_succ] at h
          rcases HandleHello.hru_again client config baud session turn with ⟨t, ht⟩ |
            ⟨t, out, ht, hphase⟩
          · simp only [Handshake.step, ht, Option.map_some, Option.some.injEq] at h
            subst h
            exact .proposed attempt t again timeouts _ hagrees hmore (by simp; omega)
          · simp only [Handshake.step, ht, Option.map_some, Option.some.injEq] at h
            subst h
            exact .over _ (Or.inr (Or.inl hphase))
  | get filename url => cases h
  | serve => cases h
  | answer => cases h

/-- HRU is waited for, and `WHO? 0`. -/
theorem Traffic.confirming_step
    {attempt turn again hrus timeouts : Nat} {proposals : List Line}
    (hagrees : session.Agrees client config)
    (hproposals : ∀ text ∈ proposals, IsProposal baud session text)
    (hcount : proposals.length + again + hrus = 1 + timeouts) {e : Knock}
    (h : Handshake.step client config baud web max_size
      { client := Hello.settled client config (.who attempt)
        server := HandleHello.settled baud session (.hru turn)
        toServer := List.replicate again (Hello.greeting client 1) ++ List.replicate hrus hruLine
        toClient := proposals
        asked := false
        answer := none
        timeouts } e = some s') :
    Traffic client config baud session s' := by
  have hmore := proposals_ohru hproposals
  cases e with
  | clientTimeout =>
      rcases Hello.who_timeout client config attempt with
        ⟨a, ha⟩ | ⟨t, out, exc, ht, hphase⟩
      · simp only [Handshake.step, ha, Option.map_some, Option.some.injEq] at h
        subst h
        have hnext : Traffic client config baud session _ := .confirming a turn again
          (hrus + 1) (timeouts + 1) proposals hagrees hproposals (by omega)
        rw [← replicate_concat, ← List.append_assoc] at hnext
        exact hnext
      · simp only [Handshake.step, ht, Option.map_some, Option.some.injEq] at h
        subst h
        exact .over _ (Or.inl ⟨exc, hphase⟩)
  | clientLine =>
      cases proposals with
      | nil => cases h
      | cons text proposals =>
          obtain ⟨htext, hrest⟩ := List.forall_mem_cons.mp hproposals
          simp only [Handshake.step, Hello.step_again htext, Option.map_some,
            Option.some.injEq] at h
          subst h
          rw [List.length_cons] at hcount
          split
          · have hnext : Traffic client config baud session _ := .confirming (attempt + 1)
              turn again (hrus + 1) timeouts proposals hagrees hrest (by omega)
            rw [← replicate_concat, ← List.append_assoc] at hnext
            exact hnext
          · refine .stranded _ _ _ hagrees rfl rfl (Or.inl ⟨turn, rfl⟩) ?_
            intro line hline
            simp only [Handshake.clientMoved, List.mem_append, List.mem_replicate,
              List.mem_singleton] at hline
            rcases hline with (⟨_, rfl⟩ | ⟨_, rfl⟩) | rfl
            · exact Or.inl rfl
            · exact Or.inr (Or.inl rfl)
            · exact Or.inr (Or.inl rfl)
  | serverTimeout =>
      rcases HandleHello.hru_timeout config baud session turn with
        ⟨t, ht⟩ | ⟨t, out, ht, hphase⟩
      · simp only [Handshake.step, ht, Option.map_some, Option.some.injEq] at h
        subst h
        exact .confirming attempt t again hrus (timeouts + 1) _ hagrees hmore (by simp; omega)
      · simp only [Handshake.step, ht, Option.map_some, Option.some.injEq] at h
        subst h
        exact .over _ (Or.inr (Or.inl hphase))
  | serverLine =>
      cases again with
      | succ again =>
          rw [List.replicate_succ, List.cons_append] at h
          rcases HandleHello.hru_again client config baud session turn with ⟨t, ht⟩ |
            ⟨t, out, ht, hphase⟩
          · simp only [Handshake.step, ht, Option.map_some, Option.some.injEq] at h
            subst h
            exact .confirming attempt t again hrus timeouts _ hagrees hmore (by simp; omega)
          · simp only [Handshake.step, ht, Option.map_some, Option.some.injEq] at h
            subst h
            exact .over _ (Or.inr (Or.inl hphase))
      | zero =>
          cases hrus with
          | zero => cases h
          | succ hrus =>
              rw [List.replicate_zero, List.nil_append, List.replicate_succ] at h
              simp only [Handshake.step, HandleHello.step_hru hagrees.identity, Option.map_some,
                Option.some.injEq] at h
              subst h
              exact .naming attempt 0 hrus 1 timeouts proposals hagrees hproposals (by omega)
  | get filename url => cases h
  | serve => cases h
  | answer => cases h

/-- IAM is waited for, and `WHO? 0`. -/
theorem Traffic.naming_step
    {attempt turn hrus whos timeouts : Nat} {proposals : List Line}
    (hagrees : session.Agrees client config)
    (hproposals : ∀ text ∈ proposals, IsProposal baud session text)
    (hcount : proposals.length + hrus + whos = 1 + timeouts) {e : Knock}
    (h : Handshake.step client config baud web max_size
      { client := Hello.settled client config (.who attempt)
        server := HandleHello.settled baud session (.who turn)
        toServer := List.replicate hrus hruLine
        toClient := proposals ++ List.replicate whos whoLine
        asked := false
        answer := none
        timeouts } e = some s') :
    Traffic client config baud session s' := by
  cases e with
  | clientTimeout =>
      rcases Hello.who_timeout client config attempt with
        ⟨a, ha⟩ | ⟨t, out, exc, ht, hphase⟩
      · simp only [Handshake.step, ha, Option.map_some, Option.some.injEq] at h
        subst h
        have hnext : Traffic client config baud session _ := .naming a turn (hrus + 1) whos
          (timeouts + 1) proposals hagrees hproposals (by omega)
        rw [← replicate_concat] at hnext
        exact hnext
      · simp only [Handshake.step, ht, Option.map_some, Option.some.injEq] at h
        subst h
        exact .over _ (Or.inl ⟨exc, hphase⟩)
  | clientLine =>
      cases proposals with
      | cons text proposals =>
          obtain ⟨htext, hrest⟩ := List.forall_mem_cons.mp hproposals
          simp only [Handshake.step, List.cons_append, Hello.step_again htext, Option.map_some,
            Option.some.injEq] at h
          subst h
          rw [List.length_cons] at hcount
          split
          · have hnext : Traffic client config baud session _ := .naming (attempt + 1)
              turn (hrus + 1) whos timeouts proposals hagrees hrest (by omega)
            rw [← replicate_concat] at hnext
            exact hnext
          · refine .stranded _ _ _ hagrees rfl rfl (Or.inr ⟨turn, rfl⟩) ?_
            intro line hline
            simp only [Handshake.clientMoved, List.mem_append, List.mem_replicate,
              List.mem_singleton] at hline
            rcases hline with ⟨_, rfl⟩ | rfl <;> exact Or.inr (Or.inl rfl)
      | nil =>
          cases whos with
          | zero => cases h
          | succ whos =>
              rw [List.nil_append, List.replicate_succ] at h
              simp only [Handshake.step, Hello.step_who, Option.map_some, Option.some.injEq] at h
              subst h
              have htally : Tally none (hrus + whos) timeouts := by
                rw [show timeouts = hrus + whos by simp at hcount; omega]
                exact .unread _
              exact .named _ turn hrus whos timeouts [] false none hagrees (by simp) htally
  | serverTimeout =>
      cases h
      exact .over _ (Or.inr (Or.inr ⟨_, rfl⟩))
  | serverLine =>
      cases hrus with
      | zero => cases h
      | succ hrus =>
          rw [List.replicate_succ] at h
          rcases HandleHello.who_again config baud session turn
            with ⟨t, ht⟩ | ⟨t, out, exc, ht, hphase⟩
          · simp only [Handshake.step, ht, Option.map_some, Option.some.injEq] at h
            subst h
            have hnext : Traffic client config baud session _ := .naming attempt t hrus
              (whos + 1) timeouts proposals hagrees hproposals (by omega)
            rw [← replicate_concat, ← List.append_assoc] at hnext
            exact hnext
          · simp only [Handshake.step, ht, Option.map_some, Option.some.injEq] at h
            subst h
            exact .over _ (Or.inr (Or.inr ⟨exc, hphase⟩))
  | get filename url => cases h
  | serve => cases h
  | answer => cases h

/-- One more GET among the lines of the client. -/
theorem gets_concat
    {gets : List Line} (hgets : ∀ text ∈ gets, ∃ filename url, text = getLine filename url)
    (filename url : Line) :
    ∀ text ∈ gets ++ [getLine filename url], ∃ filename url, text = getLine filename url := by
  intro text htext
  rcases List.mem_append.mp htext with htext | htext
  · exact hgets text htext
  · exact ⟨filename, url, List.mem_singleton.mp htext⟩

/-- The client has returned; IAM is on its way. -/
theorem Traffic.named_step
    {maxblk turn hrus whos timeouts : Nat} {gets : List Line} {asked : Bool} {answer : Option Line}
    (hagrees : session.Agrees client config)
    (hgets : ∀ text ∈ gets, ∃ filename url, text = getLine filename url)
    (htally : Tally answer (hrus + whos) timeouts) {e : Knock}
    (h : Handshake.step client config baud web max_size
      { client := Hello.settled client config (.returned maxblk)
        server := HandleHello.settled baud session (.who turn)
        toServer := List.replicate hrus hruLine ++ iamLine :: gets
        toClient := List.replicate whos whoLine
        asked
        answer
        timeouts } e = some s') :
    Traffic client config baud session s' := by
  cases e with
  | clientTimeout => cases h
  | clientLine => cases whos <;> cases h
  | serverTimeout =>
      cases h
      exact .over _ (Or.inr (Or.inr ⟨_, rfl⟩))
  | serverLine =>
      cases hrus with
      | zero =>
          rw [List.replicate_zero, List.nil_append] at h
          simp only [Handshake.step, HandleHello.step_iam, Option.map_some, Option.some.injEq] at h
          subst h
          rw [Nat.zero_add] at htally
          exact .done maxblk whos timeouts gets [] asked answer hagrees hgets (by simp) htally
      | succ hrus =>
          rw [List.replicate_succ, List.cons_append] at h
          rcases HandleHello.who_again config baud session turn
            with ⟨t, ht⟩ | ⟨t, out, exc, ht, hphase⟩
          · simp only [Handshake.step, ht, Option.map_some, Option.some.injEq] at h
            subst h
            rw [Nat.add_right_comm, Nat.add_assoc] at htally
            have hnext : Traffic client config baud session _ := .named maxblk t hrus
              (whos + 1) timeouts gets asked answer hagrees hgets htally
            rw [← replicate_concat] at hnext
            exact hnext
          · simp only [Handshake.step, ht, Option.map_some, Option.some.injEq] at h
            subst h
            exact .over _ (Or.inr (Or.inr ⟨exc, hphase⟩))
  | get filename url =>
      cases asked with
      | true => cases h
      | false =>
          simp only [Handshake.step, Hello.settled, if_true, Option.some.injEq] at h
          subst h
          have hnext : Traffic client config baud session _ := .named maxblk turn hrus whos
            timeouts _ true answer hagrees (gets_concat hgets filename url) htally
          rw [← List.cons_append, ← List.append_assoc] at hnext
          exact hnext
  | serve => cases h
  | answer =>
      generalize hleft : hrus + whos = left at htally
      cases htally with
      | unread =>
          cases asked with
          | false => cases h
          | true =>
              cases whos with
              | zero => cases h
              | succ whos =>
                  cases h
                  refine .named maxblk turn hrus whos _ gets true _ hagrees hgets ?_
                  rw [← hleft]
                  exact .debris _
      | debris => cases asked <;> cases h
      | clean text htext => cases asked <;> cases h

/-- Both ends have returned. -/
theorem Traffic.done_step
    {maxblk whos timeouts : Nat} {gets answers : List Line} {asked : Bool} {answer : Option Line}
    (hagrees : session.Agrees client config)
    (hgets : ∀ text ∈ gets, ∃ filename url, text = getLine filename url)
    (hanswers : ∀ text ∈ answers, isAnswer text = true)
    (htally : Tally answer whos timeouts) {e : Knock}
    (h : Handshake.step client config baud web max_size
      { client := Hello.settled client config (.returned maxblk)
        server := HandleHello.settled baud session (.returned true)
        toServer := gets
        toClient := List.replicate whos whoLine ++ answers
        asked
        answer
        timeouts } e = some s') :
    Traffic client config baud session s' := by
  cases e with
  | clientTimeout => cases h
  | clientLine =>
      simp only [Handshake.step] at h
      split at h <;> cases h
  | serverTimeout => cases h
  | serverLine => cases gets <;> cases h
  | get filename url =>
      cases asked with
      | true => cases h
      | false =>
          simp only [Handshake.step, Hello.settled, if_true, Option.some.injEq] at h
          subst h
          exact .done maxblk whos timeouts _ answers true answer hagrees
            (gets_concat hgets filename url) hanswers htally
  | serve =>
      cases gets with
      | nil => cases h
      | cons text gets =>
          simp only [Handshake.step, HandleHello.settled] at h
          split at h
          · cases h
            have hmore : ∀ line ∈ answers ++ (handle_get web max_size text).sent,
                isAnswer line = true := by
              intro line hline
              rcases List.mem_append.mp hline with hline | hline
              · exact hanswers line hline
              · exact isAnswer_of_sent hline
            have hnext : Traffic client config baud session _ := .done maxblk
              whos timeouts gets _ asked answer hagrees (List.forall_mem_cons.mp hgets).2 hmore
              htally
            rw [← List.append_assoc] at hnext
            exact hnext
          · cases h
  | answer =>
      cases htally with
      | unread =>
          cases asked with
          | false => cases h
          | true =>
              cases whos with
              | zero =>
                  cases answers with
                  | nil => cases h
                  | cons text answers =>
                      obtain ⟨htext, hrest⟩ := List.forall_mem_cons.mp hanswers
                      cases h
                      exact .done maxblk 0 0 gets answers true _ hagrees hgets hrest
                        (.clean text htext)
              | succ whos =>
                  cases h
                  exact .done maxblk whos _ gets answers true _ hagrees hgets hanswers (.debris _)
      | debris => cases asked <;> cases h
      | clean text htext => cases asked <;> cases h

/-- The client has returned without IAM: the server will not succeed. -/
theorem Traffic.stranded_step
    {maxblk : Nat} {phase : GreetPhase}
    (hagrees : session.Agrees client config)
    (hclient : s.client = Hello.settled client config (.returned maxblk))
    (hserver : s.server = HandleHello.settled baud session phase)
    (hphase : (∃ turn, phase = .hru turn) ∨ ∃ turn, phase = .who turn)
    (hleft : ∀ text ∈ s.toServer, IsLeft client text) {e : Knock}
    (h : s.step client config baud web max_size e = some s') :
    Traffic client config baud session s' := by
  obtain ⟨c, t, toServer, toClient, asked, answer, timeouts⟩ := s
  obtain rfl : c = _ := hclient
  obtain rfl : t = _ := hserver
  cases e with
  | clientTimeout => cases h
  | clientLine => cases toClient <;> cases h
  | serverTimeout =>
      rcases hphase with ⟨turn, rfl⟩ | ⟨turn, rfl⟩
      · rcases HandleHello.hru_timeout config baud session turn with ⟨t, ht⟩ | ⟨t, out, ht, hover⟩
        · simp only [Handshake.step, ht, Option.map_some, Option.some.injEq] at h
          subst h
          exact .stranded _ maxblk (.hru t) hagrees rfl rfl (Or.inl ⟨t, rfl⟩) hleft
        · simp only [Handshake.step, ht, Option.map_some, Option.some.injEq] at h
          subst h
          exact .over _ (Or.inr (Or.inl hover))
      · cases h
        exact .over _ (Or.inr (Or.inr ⟨_, rfl⟩))
  | serverLine =>
      cases toServer with
      | nil => cases h
      | cons text toServer =>
          obtain ⟨htext, hrest⟩ := List.forall_mem_cons.mp hleft
          rcases htext with rfl | rfl | ⟨filename, url, rfl⟩
          · rcases hphase with ⟨turn, rfl⟩ | ⟨turn, rfl⟩
            · rcases HandleHello.hru_again client config baud session turn with
                ⟨t, ht⟩ | ⟨t, out, ht, hover⟩
              · simp only [Handshake.step, ht, Option.map_some, Option.some.injEq] at h
                subst h
                exact .stranded _ maxblk (.hru t) hagrees rfl rfl (Or.inl ⟨t, rfl⟩) hrest
              · simp only [Handshake.step, ht, Option.map_some, Option.some.injEq] at h
                subst h
                exact .over _ (Or.inr (Or.inl hover))
            · obtain ⟨t, out, exc, ht, hover⟩ := HandleHello.step_late client config baud session
                turn 0
              simp only [Handshake.step, ht, Option.map_some, Option.some.injEq] at h
              subst h
              exact .over _ (Or.inr (Or.inr ⟨exc, hover⟩))
          · rcases hphase with ⟨turn, rfl⟩ | ⟨turn, rfl⟩
            · simp only [Handshake.step, HandleHello.step_hru hagrees.identity, Option.map_some,
                Option.some.injEq] at h
              subst h
              exact .stranded _ maxblk (.who 0) hagrees rfl rfl (Or.inr ⟨0, rfl⟩) hrest
            · rcases HandleHello.who_again config baud session turn with
                ⟨t, ht⟩ | ⟨t, out, exc, ht, hover⟩
              · simp only [Handshake.step, ht, Option.map_some, Option.some.injEq] at h
                subst h
                exact .stranded _ maxblk (.who t) hagrees rfl rfl (Or.inr ⟨t, rfl⟩) hrest
              · simp only [Handshake.step, ht, Option.map_some, Option.some.injEq] at h
                subst h
                exact .over _ (Or.inr (Or.inr ⟨exc, hover⟩))
          · obtain ⟨t, out, ht, hover⟩ := HandleHello.step_get config baud hagrees.identity
              hphase filename url
            simp only [Handshake.step, ht, Option.map_some, Option.some.injEq] at h
            subst h
            exact .over _ (Or.inr hover)
  | get filename url =>
      cases asked with
      | true => cases h
      | false =>
          simp only [Handshake.step, Hello.settled, if_true, Option.some.injEq] at h
          subst h
          refine .stranded _ maxblk phase hagrees rfl rfl hphase fun text htext => ?_
          rcases List.mem_append.mp htext with htext | htext
          · exact hleft text htext
          · exact Or.inr (Or.inr ⟨filename, url, List.mem_singleton.mp htext⟩)
  | serve =>
      simp only [Handshake.step, HandleHello.settled] at h
      rcases hphase with ⟨turn, rfl⟩ | ⟨turn, rfl⟩ <;> cases h
  | answer =>
      simp only [Handshake.step] at h
      split at h
      · cases h
        exact .stranded _ maxblk phase hagrees rfl rfl hphase hleft
      · cases h

/-- Every step keeps the account of the lines. -/
theorem Traffic.step
    (hopen : (session.Agrees client config ∧
        negotiate config ((Hello.offer client).drop 1) = .ok (session, offered client)) ∨
      ∃ exc, negotiate config ((Hello.offer client).drop 1) = .error exc)
    (hs : Traffic client config baud session s) {e : Knock}
    (h : s.step client config baud web max_size e = some s') :
    Traffic client config baud session s' := by
  cases hs with
  | knocking => exact knocking_step hopen h
  | proposed _ _ _ _ _ hagrees hproposals hcount => exact proposed_step hagrees hproposals hcount h
  | confirming _ _ _ _ _ _ hagrees hproposals hcount =>
      exact confirming_step hagrees hproposals hcount h
  | naming _ _ _ _ _ _ hagrees hproposals hcount => exact naming_step hagrees hproposals hcount h
  | named _ _ _ _ _ _ _ _ hagrees hgets htally => exact named_step hagrees hgets htally h
  | done _ _ _ _ _ _ _ hagrees hgets hanswers htally =>
      exact done_step hagrees hgets hanswers htally h
  | stranded _ _ _ hagrees hclient hserver hphase hleft =>
      exact stranded_step hagrees hclient hserver hphase hleft h
  | «over» _ hover => exact .over _ (hover.step h)

end Steps

end Traffic

section Clean

variable {client : HelloConfig} {config : ServerConfig} {baud : Nat} {web : Web} {max_size : Nat}
variable {s : Handshake}

/-- Every greeting accounts for its lines. -/
theorem traffic_of_leads
    (h : Handshake.Leads client config baud web max_size (Handshake.start client) s) :
    ∃ session, Traffic client config baud session s := by
  have hrun : ∀ session, ((session.Agrees client config ∧
        negotiate config ((Hello.offer client).drop 1) = .ok (session, offered client)) ∨
      ∃ exc, negotiate config ((Hello.offer client).drop 1) = .error exc) →
      Traffic client config baud session s := fun session hopen =>
    Transition.Steps.invariant (Traffic client config baud session)
      (fun _ _ _ hs _ hstep => hs.step hopen hstep) h (.knocking 0 0)
  by_cases hbuffer : client.receive_buffer ≤ Const.MAX_CAPABILITY
  · obtain ⟨session, hnegotiate, hagrees⟩ := negotiate_offer client config hbuffer
    exact ⟨session, hrun session (Or.inl ⟨hagrees, hnegotiate⟩)⟩
  · exact ⟨smallSession, hrun smallSession (Or.inr (negotiate_offer_error client config hbuffer))⟩

/-- No line of the greeting is left, and what was read after the GET answers it. -/
def Handshake.Clean (s : Handshake) : Prop :=
  (∀ text ∈ s.toServer ++ s.toClient, isGreeting text = false) ∧
    ∀ text, s.answer = some text → isAnswer text = true

theorem isGreeting_getLine (filename url : Line) :
    isGreeting (getLine filename url) = false := by
  simp [isGreeting, split_getLine]

theorem isGreeting_of_isAnswer
    {text : Line} (h : isAnswer text = true) :
    isGreeting text = false := by
  simp only [isAnswer, List.mem_cons, List.not_mem_nil, or_false, decide_eq_true_eq] at h
  unfold isGreeting
  rcases h with h | h | h <;> rw [h] <;> decide

/-- A greeting that succeeded leaves no line behind exactly when no timer ran out. -/
theorem handshake_clean_iff
    (client : HelloConfig) (config : ServerConfig) (baud : Nat) (web : Web) (max_size : Nat)
    (s : Handshake)
    (hleads : Handshake.Leads client config baud web max_size (Handshake.start client) s)
    (maxblk : Nat) (hclient : s.client.phase = .returned maxblk)
    (hserver : s.server.phase = .returned true) :
    s.Clean ↔ s.timeouts = 0 := by
  obtain ⟨session, htraffic⟩ := traffic_of_leads hleads
  cases htraffic with
  | done maxblk whos timeouts gets answers asked answer _ hgets hanswers htally =>
      have hwho : isGreeting whoLine = true := by
        decide
      have hnone : isAnswer whoLine = false := by
        decide
      constructor
      · rintro ⟨hlines, hanswer⟩
        cases htally with
        | unread =>
            by_contra hpos
            have hmem : whoLine ∈ gets ++ (List.replicate whos whoLine ++ answers) := by
              refine List.mem_append_right _ (List.mem_append_left _ ?_)
              exact List.mem_replicate.mpr ⟨hpos, rfl⟩
            rw [hlines _ hmem] at hwho
            cases hwho
        | debris =>
            rw [hanswer _ rfl] at hnone
            cases hnone
        | clean => rfl
      · intro hzero
        cases hzero
        have hlines : ∀ text ∈ gets ++ ([] ++ answers), isGreeting text = false := by
          intro text htext
          rcases List.mem_append.mp htext with htext | htext
          · obtain ⟨filename, url, rfl⟩ := hgets text htext
            exact isGreeting_getLine filename url
          · exact isGreeting_of_isAnswer (hanswers text htext)
        cases htally with
        | unread => exact ⟨hlines, nofun⟩
        | clean text htext =>
            refine ⟨hlines, fun text' heq => ?_⟩
            cases heq
            exact htext
  | stranded _ _ phase _ _ heq hphase =>
      rw [heq] at hserver
      rcases hphase with ⟨turn, rfl⟩ | ⟨turn, rfl⟩ <;> cases hserver
  | «over» _ hover =>
      rcases hover with ⟨exc, hphase⟩ | hphase | ⟨exc, hphase⟩
      · rw [hphase] at hclient
        cases hclient
      · rw [hphase] at hserver
        cases hserver
      · rw [hphase] at hserver
        cases hserver
  | knocking => cases hclient
  | proposed => cases hclient
  | confirming => cases hclient
  | naming => cases hclient
  | named => cases hserver

/-- A client with blocks of one byte. -/
def smallGreeter : HelloConfig where
  max_block_size := 1
  window_limit := 2
  receive_buffer := 1000
  compression_enabled := true
  block_ok := oneByte_ok
  window_ok := widestWindow_ok
  buffer_ok := by decide

/-- The first proposal is late: HELLO is repeated, OHRU is answered by a second HRU, and that by
a second `WHO? 0`, which the client reads after its GET. -/
theorem handshake_debris :
    ∃ s, Handshake.Leads smallGreeter smallServer 115200 silentWeb Const.MAX_FILE_SIZE
        (Handshake.start smallGreeter) s ∧
      s.client.phase = .returned 1 ∧ s.server.phase = .returned true ∧
      s.answer = some whoLine := by
  let events : List Knock :=
    [.serverLine, .clientTimeout, .clientLine, .serverLine, .clientLine, .serverLine, .serverLine,
      .clientLine, .serverLine, .get "A".toList "http://host/".toList, .serve, .answer]
  have hrun : (Transition.exec
      (Handshake.step smallGreeter smallServer 115200 silentWeb Const.MAX_FILE_SIZE)
      (fun _ _ => True) (Handshake.start smallGreeter) events).any (fun s =>
        decide (s.client.phase = .returned 1 ∧ s.server.phase = .returned true ∧
          s.answer = some whoLine)) = true := by
    decide +kernel
  rw [Option.any_eq_true] at hrun
  obtain ⟨s, hexec, hs⟩ := hrun
  exact ⟨s, .of_exec hexec, of_decide_eq_true hs⟩

/-- A greeting without timeouts is clean. -/
theorem handshake_clean_prompt :
    ∃ s : Handshake, s.client.phase = .returned 1 ∧ s.server.phase = .returned true ∧ s.Clean := by
  let events : List Knock := [.serverLine, .clientLine, .serverLine, .clientLine, .serverLine]
  have hrun : (Transition.exec
      (Handshake.step smallGreeter smallServer 115200 silentWeb Const.MAX_FILE_SIZE)
      (fun _ _ => True) (Handshake.start smallGreeter) events).any (fun s =>
        decide (s.client.phase = .returned 1 ∧ s.server.phase = .returned true ∧
          s.timeouts = 0)) = true := by
    decide +kernel
  rw [Option.any_eq_true] at hrun
  obtain ⟨s, hexec, hs⟩ := hrun
  obtain ⟨hclient, hserver, hzero⟩ := of_decide_eq_true hs
  exact ⟨s, hclient, hserver, (handshake_clean_iff smallGreeter smallServer 115200 silentWeb
    Const.MAX_FILE_SIZE s (.of_exec hexec) 1 hclient hserver).mpr hzero⟩

end Clean

section Agreement

variable (client : HelloConfig) (config : ServerConfig) (baud : Nat) (session : Session)

/-- The states of a greeting without faults, in order. -/
def Handshake.course (n : Nat) : Handshake :=
  let s := Handshake.start client
  let accepted := Hello.settled client config (.who 0)
  let returned := Hello.settled client config (.returned (agreedBlock client config))
  match n with
  | 0 => s
  | 1 =>
      { s with
        server := HandleHello.settled baud session (.hru 0)
        toServer := []
        toClient := [HandleHello.normalLine (HandleHello.tailWords baud session)] }
  | 2 =>
      { s with
        client := accepted
        server := HandleHello.settled baud session (.hru 0)
        toServer := [hruLine] }
  | 3 =>
      { s with
        client := accepted
        server := HandleHello.settled baud session (.who 0)
        toServer := []
        toClient := [whoLine] }
  | 4 =>
      { s with
        client := returned
        server := HandleHello.settled baud session (.who 0)
        toServer := [iamLine] }
  | _ =>
      { s with
        client := returned
        server := HandleHello.settled baud session (.returned true)
        toServer := [] }

/-- Whose turn it is. -/
def Handshake.turn (n : Nat) : Knock :=
  if n % 2 = 0 then .serverLine else .clientLine

/-- What both ends hold after a greeting. -/
structure Handshake.Negotiated (s : Handshake) (session : Session) : Prop where
  server : s.server.session = some session
  returned : s.server.phase = .returned true
  block : s.client.phase = .returned session.negotiated_block_limit
  window : s.client.window_size = session.window_size
  flow : s.client.flow = session.flow
  compression : s.client.compression = session.compression
  identity : s.client.identity = session.identity
  block_ok : 1 ≤ session.negotiated_block_limit ∧
    session.negotiated_block_limit ≤ client.max_block_size ∧
    session.negotiated_block_limit ≤ config.block_limit
  window_ok : 1 ≤ session.window_size ∧ session.window_size ≤ client.window_limit ∧
    session.window_size ≤ config.window_limit
  fits : session.window_size * (session.negotiated_block_limit + Const.FRAME_OVERHEAD) ≤
    client.receive_buffer

/-- The receiver that a greeting leaves, with room for every file. -/
def Hello.receiver (h : Hello) : ClientConfig where
  max_block_size := client.max_block_size
  free_space := none
  flow := h.flow
  compression := h.compression

variable {client config baud session} {web : Web} {max_size : Nat}

/-- An end whose turn it is not has nothing to read. -/
theorem Handshake.course_waits
    {n : Nat} {e : Knock} (he : e = .clientLine ∨ e = .serverLine)
    (h : 5 ≤ n ∨ e ≠ Handshake.turn n) :
    (Handshake.course client config baud session n).step client config baud web max_size e =
      none := by
  match n, h with
  | 0, h => rcases he with rfl | rfl <;> first | rfl | simp [Handshake.turn] at h
  | 1, h => rcases he with rfl | rfl <;> first | rfl | simp [Handshake.turn] at h
  | 2, h => rcases he with rfl | rfl <;> first | rfl | simp [Handshake.turn] at h
  | 3, h => rcases he with rfl | rfl <;> first | rfl | simp [Handshake.turn] at h
  | 4, h => rcases he with rfl | rfl <;> first | rfl | simp [Handshake.turn] at h
  | n + 5, _ => rcases he with rfl | rfl <;> rfl

section Course

variable (hagrees : session.Agrees client config)
variable (hnegotiate :
  negotiate config ((Hello.offer client).drop 1) = .ok (session, offered client))
include hagrees hnegotiate

/-- One line is on the way, and its reader takes it. -/
theorem Handshake.course_step
    {n : Nat} (hn : n < 5) :
    (Handshake.course client config baud session n).step client config baud web max_size
        (Handshake.turn n) =
      some (Handshake.course client config baud session (n + 1)) := by
  have hproposal : IsProposal baud session
      (HandleHello.normalLine (HandleHello.tailWords baud session)) := Or.inl rfl
  have hasking : (Hello.start client).1 = Hello.asking client 0 := rfl
  match n, hn with
  | 0, _ =>
      simp [Handshake.turn, Handshake.course, Handshake.step, Handshake.start, Hello.start,
        HandleHello.step_first hnegotiate 0, Handshake.serverMoved]
  | 1, _ =>
      simp [Handshake.turn, Handshake.course, Handshake.step, Handshake.start, hasking,
        Hello.step_answer hagrees hproposal, Handshake.clientMoved]
  | 2, _ =>
      simp [Handshake.turn, Handshake.course, Handshake.step, Handshake.start,
        HandleHello.step_hru hagrees.identity, Handshake.serverMoved]
  | 3, _ =>
      simp [Handshake.turn, Handshake.course, Handshake.step, Handshake.start, Hello.step_who,
        Handshake.clientMoved]
  | 4, _ =>
      simp [Handshake.turn, Handshake.course, Handshake.step, Handshake.start,
        HandleHello.step_iam, Handshake.serverMoved]

/-- A greeting without faults goes through its states in order. -/
theorem Handshake.exec_course
    {events : List Knock} {n : Nat} {s : Handshake} (hn : n ≤ 5)
    (h : (Handshake.course client config baud session n).exec client config baud web max_size
      events = some s) :
    ∃ k, n + events.length = k ∧ k ≤ 5 ∧ s = Handshake.course client config baud session k := by
  induction events generalizing n with
  | nil =>
      cases h
      exact ⟨n, rfl, hn, rfl⟩
  | cons e events ih =>
      rw [Handshake.exec, Transition.exec] at h
      split at h
      · rename_i he
        by_cases hturn : 5 ≤ n ∨ e ≠ Handshake.turn n
        · rw [Handshake.course_waits he hturn] at h
          cases h
        · obtain ⟨hlt, rfl⟩ := not_or.mp hturn |>.imp Nat.lt_of_not_le not_not.mp
          rw [Handshake.course_step hagrees hnegotiate hlt] at h
          obtain ⟨k, hk, hle, hs⟩ := ih hlt h
          exact ⟨k, by rw [List.length_cons]; omega, hle, hs⟩
      · cases h

end Course

/-- Negotiation agreement. -/
theorem negotiation_agrees
    (client : HelloConfig) (config : ServerConfig) (baud : Nat) (web : Web) (max_size : Nat)
    (hbuffer : client.receive_buffer ≤ Const.MAX_CAPABILITY)
    (events : List Knock) (s : Handshake)
    (hrun : (Handshake.start client).exec client config baud web max_size events = some s) :
    events.length ≤ 5 ∧
    (∀ exc, s.client.phase ≠ .raised exc ∧ s.server.phase ≠ .raised exc) ∧
    ((∀ e, e = .clientLine ∨ e = .serverLine → s.step client config baud web max_size e = none) →
      ∃ session, s.Negotiated client config session ∧
        ∀ job : Job, job.session = session → job.size ≤ Const.MAX_FILE_SIZE →
          ∃ m, Client.onMeta (s.client.receiver client) true job.announcement.line =
            (.receiving m Recv.start, Recv.startEffects m)) := by
  obtain ⟨session, hnegotiate, hagrees⟩ := negotiate_offer client config hbuffer
  have hcourse : (Handshake.course client config baud session 0).exec client config baud web
      max_size events = some s := hrun
  obtain ⟨k, hk, hle, rfl⟩ := Handshake.exec_course hagrees hnegotiate (by decide) hcourse
  refine ⟨by omega, ?_, ?_⟩
  · intro exc
    match k, hle with
    | 0, _ => exact ⟨nofun, nofun⟩
    | 1, _ => exact ⟨nofun, nofun⟩
    | 2, _ => exact ⟨nofun, nofun⟩
    | 3, _ => exact ⟨nofun, nofun⟩
    | 4, _ => exact ⟨nofun, nofun⟩
    | 5, _ => exact ⟨nofun, nofun⟩
  · intro hstuck
    have hfive : k = 5 := by
      by_contra hne
      have hturn : Handshake.turn k = .clientLine ∨ Handshake.turn k = .serverLine := by
        unfold Handshake.turn
        split
        · exact Or.inr rfl
        · exact Or.inl rfl
      have hnone := hstuck _ hturn
      rw [Handshake.course_step hagrees hnegotiate (by omega)] at hnone
      cases hnone
    subst hfive
    have hblock := agreedBlock_ok client config
    have hwindow := agreedWindow_ok client config
    have hfits := agreedWindow_fits client config
    rw [← hagrees.block] at hblock
    rw [← hagrees.window] at hwindow
    rw [← hagrees.block, ← hagrees.window] at hfits
    refine ⟨session, ⟨rfl, rfl, congrArg HelloPhase.returned hagrees.block.symm,
      hagrees.window.symm, hagrees.flow.symm, hagrees.compression.symm, hagrees.identity.symm,
      hblock, hwindow, hfits⟩, ?_⟩
    rintro job rfl hsize
    have hpair : Paired job.session (Hello.receiver client
        (Handshake.course client config baud job.session 5).client) :=
      ⟨hagrees.flow.symm, hagrees.compression.symm, hblock.2.1⟩
    obtain ⟨m, _, hmeta⟩ := accept_announcement hpair hsize nofun
    exact ⟨m, hmeta⟩

/-- Two ends with blocks of one byte agree on two of them in flight. -/
theorem negotiation_agrees_one_byte :
    ∃ s session, Handshake.Negotiated smallGreeter smallServer s session := by
  let events : List Knock := [.serverLine, .clientLine, .serverLine, .clientLine, .serverLine]
  have hexec : ((Handshake.start smallGreeter).exec smallGreeter smallServer 115200 silentWeb
      Const.MAX_FILE_SIZE events).any (fun s =>
        (s.step smallGreeter smallServer 115200 silentWeb Const.MAX_FILE_SIZE .clientLine).isNone &&
        (s.step smallGreeter smallServer 115200 silentWeb Const.MAX_FILE_SIZE
          .serverLine).isNone) = true := by
    decide +kernel
  rw [Option.any_eq_true] at hexec
  obtain ⟨s, hrun, hstuck⟩ := hexec
  simp only [Bool.and_eq_true, Option.isNone_iff_eq_none] at hstuck
  obtain ⟨session, hsession, _⟩ := (negotiation_agrees smallGreeter smallServer 115200 silentWeb
    Const.MAX_FILE_SIZE (by decide) events s hrun).2.2 (by
      rintro e (rfl | rfl)
      · exact hstuck.1
      · exact hstuck.2)
  exact ⟨s, session, hsession⟩

end Agreement

end Pcutp
