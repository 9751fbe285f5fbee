import Pcutp.Negotiation
import Pcutp.Serving
import Pcutp.Transfer

/-!
# Every greeting gets an answer, or not

`_handle_hello` rejects a greeting in two ways.  The tests on its words call
`_fail`, which sends an ERR line; the tests on its capabilities raise an
exception, which leaves `serve_once` and sends nothing.

`Capable` says what the capability words of an acceptable greeting look like,
without running `options`.  A greeting is answered exactly when it is of
another version or its capabilities are of that kind.
-/

namespace Pcutp

section Words

/-- The capability that a word of a greeting names. -/
def capabilityOf (token : Line) : Option Capability :=
  Capability.ofKey (partition token).1

/-- The number that the first word for a capability announces. -/
def announced (tokens : List Line) (c : Capability) : Option Nat :=
  (tokens.find? fun token => capabilityOf token = some c).bind fun token =>
    (partition token).2.map int

/-- Every known capability has a decimal value between 1 and 1048576. -/
def Valued (tokens : List Line) : Prop :=
  ∀ token ∈ tokens, (capabilityOf token).isSome = true →
    ∃ value, (partition token).2 = some value ∧ isdecimal value = true ∧
      1 ≤ int value ∧ int value ≤ Const.MAX_CAPABILITY

/-- No known capability occurs twice. -/
def Once (tokens : List Line) : Prop :=
  (tokens.filterMap capabilityOf).Nodup

variable {values result : Capabilities} {token : Line} {tokens : List Line} {c : Capability}

theorem optionsFrom_unknown_word
    (h : capabilityOf token = none) :
    optionsFrom values (token :: tokens) = optionsFrom values tokens := by
  rw [capabilityOf] at h
  rw [optionsFrom, h]

/-- A word for a known capability is read if it has a value in range and is the first. -/
theorem optionsFrom_known
    (h : capabilityOf token = some c) :
    optionsFrom values (token :: tokens) = .ok result ↔
      ∃ value, (partition token).2 = some value ∧ isdecimal value = true ∧
        (1 ≤ int value ∧ int value ≤ Const.MAX_CAPABILITY) ∧ values c = none ∧
        optionsFrom (Function.update values c (some (int value))) tokens = .ok result := by
  rw [capabilityOf] at h
  rw [optionsFrom, h]
  cases hvalue : (partition token).2 with
  | none => simp
  | some value =>
      dsimp only
      cases hc : values c with
      | some n => simp
      | none =>
          cases hdecimal : isdecimal value with
          | false => simp [hdecimal]
          | true =>
              by_cases hrange : 1 ≤ int value ∧ int value ≤ Const.MAX_CAPABILITY
              · simp [hrange, hdecimal]
              · simp [hrange, hdecimal]

theorem valued_cons :
    Valued (token :: tokens) ↔
      ((capabilityOf token).isSome = true →
        ∃ value, (partition token).2 = some value ∧ isdecimal value = true ∧
          1 ≤ int value ∧ int value ≤ Const.MAX_CAPABILITY) ∧ Valued tokens :=
  List.forall_mem_cons

theorem announced_unknown
    (h : capabilityOf token = none) :
    announced (token :: tokens) c = announced tokens c := by
  rw [announced, List.find?_cons_of_neg (by simp [h])]
  rfl

theorem announced_known
    {value : Line} (h : capabilityOf token = some c) (hvalue : (partition token).2 = some value)
    (c' : Capability) :
    announced (token :: tokens) c' =
      if c' = c then some (int value) else announced tokens c' := by
  by_cases hc : c' = c
  · subst hc
    rw [if_pos rfl, announced, List.find?_cons_of_pos (by simp [h]), Option.bind_some, hvalue]
    rfl
  · rw [if_neg hc, announced, List.find?_cons_of_neg (by simp [h, Ne.symm hc])]
    rfl

/-- `options` reads exactly the lists whose known capabilities have values in range and occur
once, and it returns what they announce. -/
theorem optionsFrom_eq_ok :
    optionsFrom values tokens = .ok result ↔
      Valued tokens ∧ Once tokens ∧ (∀ c ∈ tokens.filterMap capabilityOf, values c = none) ∧
        ∀ c, result c = (values c).or (announced tokens c) := by
  induction tokens generalizing values with
  | nil =>
      simp only [optionsFrom, Valued, Once, announced, List.not_mem_nil, false_implies,
        List.filterMap_nil, List.nodup_nil, List.find?_nil, Option.bind_none, Option.or_none,
        implies_true, true_and, Except.ok.injEq, funext_iff]
      exact ⟨fun h c => (h c).symm, fun h c => (h c).symm⟩
  | cons token tokens ih =>
      cases hcap : capabilityOf token with
      | none =>
          rw [optionsFrom_unknown_word hcap, ih, valued_cons, Once, Once,
            List.filterMap_cons_none hcap]
          simp [hcap, announced_unknown hcap]
      | some c =>
          have hkeys : (token :: tokens).filterMap capabilityOf =
              c :: tokens.filterMap capabilityOf := List.filterMap_cons_some hcap
          rw [optionsFrom_known hcap, valued_cons, Once, hkeys, List.nodup_cons,
            List.forall_mem_cons]
          constructor
          · rintro ⟨value, hvalue, hdecimal, hrange, hfree, hrest⟩
            obtain ⟨hvalued, honce, hothers, hresult⟩ := ih.mp hrest
            have hfresh : c ∉ tokens.filterMap capabilityOf := by
              intro hmem
              have := hothers c hmem
              rw [Function.update_self] at this
              cases this
            refine ⟨⟨fun _ => ⟨value, hvalue, hdecimal, hrange⟩, hvalued⟩, ⟨hfresh, honce⟩,
              ⟨hfree, fun c' hmem => ?_⟩, fun c' => ?_⟩
            · have := hothers c' hmem
              rwa [Function.update_of_ne (ne_of_mem_of_not_mem hmem hfresh)] at this
            · rw [hresult c', announced_known hcap hvalue]
              by_cases hc : c' = c
              · rw [hc, Function.update_self, hfree, if_pos rfl]
                rfl
              · rw [Function.update_of_ne hc, if_neg hc]
          · rintro ⟨⟨hhere, hvalued⟩, ⟨hfresh, honce⟩, ⟨hfree, hothers⟩, hresult⟩
            obtain ⟨value, hvalue, hdecimal, hrange⟩ := hhere (by rw [hcap]; rfl)
            refine ⟨value, hvalue, hdecimal, hrange, hfree,
              ih.mpr ⟨hvalued, honce, fun c' hmem => ?_, fun c' => ?_⟩⟩
            · rw [Function.update_of_ne (ne_of_mem_of_not_mem hmem hfresh)]
              exact hothers c' hmem
            · rw [hresult c', announced_known hcap hvalue]
              by_cases hc : c' = c
              · rw [hc, Function.update_self, hfree, if_pos rfl]
                rfl
              · rw [Function.update_of_ne hc, if_neg hc]

theorem options_eq_ok :
    options tokens = .ok result ↔ Valued tokens ∧ Once tokens ∧ result = announced tokens := by
  rw [options, optionsFrom_eq_ok, funext_iff]
  simp

end Words

section Answers

variable (config : ServerConfig)

/-- The block size that the server selects for a greeting. -/
def selectedBlock (tokens : List Line) : Nat :=
  min config.block_limit ((announced tokens .MAXBLK).getD config.block_limit)

/-- The capability words of a greeting that the server can accept. -/
structure Capable (tokens : List Line) : Prop where
  valued : Valued tokens
  once : Once tokens
  /-- With flow control, the buffer holds a frame of the selected block size. -/
  room : announced tokens .FLOW = some 1 →
    selectedBlock config tokens + Const.FRAME_OVERHEAD ≤ (announced tokens .RXBUF).getD 0

theorem bufferCapacity_pos (capabilities : Capabilities) :
    1 ≤ bufferCapacity config capabilities ↔
      negotiatedBlock config capabilities + Const.FRAME_OVERHEAD ≤
        (capabilities .RXBUF).getD 0 := by
  rw [bufferCapacity, Nat.le_div_iff_mul_le (by simp [Const.FRAME_OVERHEAD]), Nat.one_mul]

/-- The capabilities of a greeting lead to a session exactly when they are acceptable. -/
theorem negotiate_isOk (tokens : List Line) :
    (∃ session capabilities, negotiate config tokens = .ok (session, capabilities)) ↔
      Capable config tokens := by
  constructor
  · rintro ⟨session, capabilities, h⟩
    rw [negotiate] at h
    split at h
    · cases h
    · rename_i values hopts
      obtain ⟨hvalued, honce, hresult⟩ := options_eq_ok.mp hopts
      refine ⟨hvalued, honce, fun hflow => ?_⟩
      rw [← hresult] at hflow
      dsimp only at h
      rw [dif_pos hflow] at h
      split at h
      · rename_i hcapacity
        have hroom := (bufferCapacity_pos config values).mp hcapacity
        rw [hresult] at hroom
        exact hroom
      · cases h
  · rintro ⟨hvalued, honce, hroom⟩
    have hopts : options tokens = .ok (announced tokens) :=
      options_eq_ok.mpr ⟨hvalued, honce, rfl⟩
    rw [negotiate]
    split
    · rename_i exc herror
      rw [hopts] at herror
      cases herror
    · rename_i values hvalues
      rw [hopts] at hvalues
      cases hvalues
      dsimp only
      split
      · rename_i hflow
        rw [dif_pos ((bufferCapacity_pos config _).mpr (hroom hflow))]
        exact ⟨_, _, rfl⟩
      · exact ⟨_, _, rfl⟩

/-- Whether the first word of a line is HELLO or HELLO?. -/
def saysHello (text : Line) : Bool :=
  word (split text) 0 == "HELLO".toList || word (split text) 0 == "HELLO?".toList

/-- `request.startswith(("HELLO ", "HELLO? "))`. -/
def startsHello (text : Line) : Bool :=
  "HELLO ".toList.isPrefixOf text || "HELLO? ".toList.isPrefixOf text

/-- The line that `serve_once` takes as a greeting, idle or between two requests. -/
def Serving.greeting (s : Serving) : ServeEvent → Option Line
  | .line text _ _ =>
      match s.place with
      | .hello h => if h.phase = .idle ∧ saysHello text = true then some text else none
      | .request _ => if startsHello text = true ∧ saysHello text = true then some text else none
      | _ => none
  | .run _ =>
      match s.place, s.pending with
      | .request _, some text =>
          if startsHello text = true ∧ saysHello text = true then some text else none
      | _, _ => none
  | _ => none

/-- The greeting names the version of the server. -/
def SameVersion (text : Line) : Prop :=
  2 ≤ (split text).length ∧ word (split text) 1 = Const.PROTOCOL_VERSION

/-- A line that a client takes for a proposal. -/
def isProposal (line : Line) : Bool :=
  Hello.isNormal (split line) || Hello.isRepeated (split line)

/-- What the server has to send now is one answer to the greeting: a proposal, `ERR VERSION` to
another version, or `ERR PROTOCOL`, which in particular answers every greeting of this version
with capabilities it cannot accept. -/
structure AnswersHello (text : Line) (s' : Serving) : Prop where
  one : ∃ line, s'.queue = [.line line] ∧
    (isProposal line = true ∨ line = "ERR VERSION".toList ∨ line = "ERR PROTOCOL".toList)
  version : s'.queue = [.line "ERR VERSION".toList] ↔
    2 ≤ (split text).length ∧ word (split text) 1 ≠ Const.PROTOCOL_VERSION
  rejected : SameVersion text → ¬ Capable config ((split text).drop 2) →
    s'.queue = [.line "ERR PROTOCOL".toList]

variable {config} {baud : Nat} {text : Line}

/-- What `_handle_hello` sends up to its first read. -/
theorem onFirst_sent
    (h : HandleHello) (hhello : saysHello text = true) :
    (HandleHello.onFirst config baud h text).2 =
      if (split text).length < 2 then ["ERR PROTOCOL".toList]
      else if word (split text) 1 ≠ Const.PROTOCOL_VERSION then ["ERR VERSION".toList]
      else
        match negotiate config ((split text).drop 2) with
        | .error _ => []
        | .ok (session, _) =>
            [if word (split text) 0 = "HELLO".toList
              then HandleHello.normalLine (HandleHello.tailWords baud session)
              else HandleHello.ohruLine (HandleHello.tailWords baud session)] := by
  have hword : word (split text) 0 = "HELLO".toList ∨ word (split text) 0 = "HELLO?".toList := by
    simpa [saysHello] using hhello
  unfold HandleHello.onFirst
  dsimp only
  by_cases hlength : (split text).length < 2
  · rw [if_pos (Or.inl hlength), if_pos hlength]
    rfl
  · rw [if_neg (by rintro (h | h); exacts [hlength h, h hword]), if_neg hlength]
    split
    · rfl
    · cases negotiate config ((split text).drop 2) with
      | error exc => rfl
      | ok settled => rfl

theorem isRmb_of_saysHello
    (hhello : saysHello text = true) :
    Sender.isRmb text = false := by
  refine isRmb_eq_false fun hword => ?_
  rw [saysHello, hword] at hhello
  exact absurd hhello (by decide)

theorem onRequest_hello
    (s : Serving) (session : Session) (now : Nat) (hstarts : startsHello text = true) :
    s.onRequest config baud session text now =
      some (s.greet (HandleHello.onFirst config baud HandleHello.start text)) := by
  have hclose : text ≠ closeLine := by
    rintro rfl
    exact absurd hstarts (by decide)
  have hbegins : "HELLO ".toList.isPrefixOf text = true ∨
      "HELLO? ".toList.isPrefixOf text = true := by
    simpa [startsHello] using hstarts
  rw [Serving.onRequest, if_neg hclose, if_pos hbegins]

/-- A greeting that the server takes is handled by `_handle_hello`. -/
theorem queue_of_greeting
    {s s' : Serving} {e : ServeEvent} {out : List Output}
    (hgreeting : s.greeting e = some text) (hstep : s.step config baud e = some (s', out)) :
    saysHello text = true ∧
      ∃ h, s'.queue = (HandleHello.onFirst config baud h text).2.map Output.line := by
  unfold Serving.greeting at hgreeting
  split at hgreeting
  · rename_i text' late now
    simp only [Serving.step] at hstep
    split_ifs at hstep
    simp only [Serving.onRead, Serving.onLine, Option.map_eq_some_iff] at hstep
    obtain ⟨s₁, hnext, heq⟩ := hstep
    cases heq
    split at hgreeting
    · rename_i h hplace
      split_ifs at hgreeting with hidle
      cases hgreeting
      have hrmb := isRmb_of_saysHello hidle.2
      simp only [hplace, HandleHello.step, hidle.1, hrmb, Bool.false_eq_true, if_false,
        Bool.false_and, Option.bind_some, Serving.greetLate, Option.map_some,
        Option.some.injEq] at hnext
      cases hnext
      exact ⟨hidle.2, h, rfl⟩
    · rename_i session hplace
      split_ifs at hgreeting with hstarts
      cases hgreeting
      have hrmb := isRmb_of_saysHello hstarts.2
      simp only [hplace, hrmb, Bool.false_eq_true, if_false,
        onRequest_hello s session now hstarts.1,
        Option.some.injEq] at hnext
      cases hnext
      exact ⟨hstarts.2, HandleHello.start, rfl⟩
    · cases hgreeting
  · rename_i now
    simp only [Serving.step] at hstep
    split_ifs at hstep
    rw [Option.map_eq_some_iff] at hstep
    obtain ⟨s₁, hnext, heq⟩ := hstep
    cases heq
    split at hgreeting
    · rename_i session text' hplace hpending
      split_ifs at hgreeting with hstarts
      cases hgreeting
      simp only [Serving.onRun, hplace, hpending, onRequest_hello _ session now hstarts.1,
        Option.some.injEq] at hnext
      cases hnext
      exact ⟨hstarts.2, HandleHello.start, rfl⟩
    · cases hgreeting
  · cases hgreeting

/-- Either form of the proposal is one to the client. -/
theorem proposal_sent
    (baud : Nat) (session : Session) (p : Prop) [Decidable p] :
    isProposal
      (if p then HandleHello.normalLine (HandleHello.tailWords baud session)
        else HandleHello.ohruLine (HandleHello.tailWords baud session)) = true := by
  have hline : IsProposal baud session
      (if p then HandleHello.normalLine (HandleHello.tailWords baud session)
        else HandleHello.ohruLine (HandleHello.tailWords baud session)) := by
    by_cases h : p
    · rw [if_pos h]
      exact Or.inl rfl
    · rw [if_neg h]
      exact Or.inr rfl
  simpa [isProposal] using hline.isNormal_or

/-- Every line that `serve_once` takes as a greeting is answered, unless it names this version
and capabilities that the server cannot accept. -/
theorem hello_answered_iff
    {s s' : Serving} {e : ServeEvent} {out : List Output}
    (hgreeting : s.greeting e = some text) (hstep : s.step config baud e = some (s', out)) :
    AnswersHello config text s' ↔
      (SameVersion text → Capable config ((split text).drop 2)) := by
  obtain ⟨hhello, h, hqueue⟩ := queue_of_greeting hgreeting hstep
  rw [onFirst_sent h hhello] at hqueue
  have hline : ∀ {line : Line}, s'.queue = [.line line] → s'.queue = [.line "ERR VERSION".toList] →
      line = "ERR VERSION".toList := by
    intro line h₁ h₂
    exact Output.line.inj (List.cons.inj (h₁.symm.trans h₂)).1
  by_cases hlength : (split text).length < 2
  · rw [if_pos hlength] at hqueue
    refine iff_of_true ⟨⟨_, hqueue, Or.inr (Or.inr rfl)⟩, ?_, fun hsame => ?_⟩ fun hsame => ?_
    · exact iff_of_false (fun heq => absurd (hline hqueue heq) (by decide))
        fun hother => absurd hother.1 (by omega)
    · exact absurd hsame.1 (by omega)
    · exact absurd hsame.1 (by omega)
  rw [if_neg hlength] at hqueue
  by_cases hversion : word (split text) 1 = Const.PROTOCOL_VERSION
  · rw [if_neg (not_not.mpr hversion)] at hqueue
    have hsame : SameVersion text := ⟨by omega, hversion⟩
    have hcapable := negotiate_isOk config ((split text).drop 2)
    cases hnegotiate : negotiate config ((split text).drop 2) with
    | error exc =>
        -- The exception leaves `serve_once`.
        rw [hnegotiate] at hqueue hcapable
        refine iff_of_false (fun hanswers => ?_) fun hall => ?_
        · obtain ⟨line, hone, _⟩ := hanswers.one
          rw [hqueue] at hone
          cases hone
        · obtain ⟨session, capabilities, hok⟩ := hcapable.mpr (hall hsame)
          cases hok
    | ok settled =>
        obtain ⟨session, capabilities⟩ := settled
        rw [hnegotiate] at hqueue hcapable
        have hok : Capable config ((split text).drop 2) := hcapable.mp ⟨_, _, rfl⟩
        have hproposal := proposal_sent baud session (word (split text) 0 = "HELLO".toList)
        refine iff_of_true ⟨⟨_, hqueue, Or.inl hproposal⟩, ?_, fun _ hnot => absurd hok hnot⟩
          fun _ => hok
        refine iff_of_false (fun heq => ?_) fun hother => hother.2 hversion
        rw [hline hqueue heq] at hproposal
        exact absurd hproposal (by decide)
  · rw [if_pos hversion] at hqueue
    refine iff_of_true ⟨⟨_, hqueue, Or.inr (Or.inl rfl)⟩, ?_, fun hsame => ?_⟩ fun hsame => ?_
    · exact iff_of_true hqueue ⟨by omega, hversion⟩
    · exact absurd hsame.2 hversion
    · exact absurd hsame.2 hversion

/-- A greeting of a client with flow control, whose buffer has room for one frame. -/
def roomyHello : Line :=
  "HELLO PCUTP/2 MAXBLK=4096 FLOW=1 RXBUF=65".toList

/-- The same with a buffer one byte shorter. -/
def tightHello : Line :=
  "HELLO PCUTP/2 MAXBLK=4096 FLOW=1 RXBUF=64".toList

/-- Blocks of one byte: the first greeting is answered, the second is not. -/
theorem hello_answered_flow :
    (∃ s', Serving.step plainServer 115200 Serving.start (.line roomyHello false 0) =
        some (s', []) ∧ AnswersHello plainServer roomyHello s') ∧
    ∃ s', Serving.step plainServer 115200 Serving.start (.line tightHello false 0) =
        some (s', []) ∧ ¬ AnswersHello plainServer tightHello s' := by
  constructor
  · have hgreeting : Serving.start.greeting (.line roomyHello false 0) = some roomyHello := by
      decide
    have hstep : Serving.step plainServer 115200 Serving.start (.line roomyHello false 0) =
        some (_, []) := rfl
    have hcapable : Capable plainServer ((split roomyHello).drop 2) :=
      (negotiate_isOk plainServer _).mp ⟨_, _, rfl⟩
    exact ⟨_, hstep, (hello_answered_iff hgreeting hstep).mpr fun _ => hcapable⟩
  · have hgreeting : Serving.start.greeting (.line tightHello false 0) = some tightHello := by
      decide
    have hstep : Serving.step plainServer 115200 Serving.start (.line tightHello false 0) =
        some (_, []) := rfl
    have hsame : SameVersion tightHello := ⟨by decide, by decide⟩
    refine ⟨_, hstep, fun hanswers => ?_⟩
    have hroom := ((hello_answered_iff hgreeting hstep).mp hanswers hsame).room (by decide)
    exact absurd hroom (by decide)

/-- A greeting whose MAXBLK has no value. -/
def emptyMaxblk : Line :=
  "HELLO PCUTP/2 MAXBLK=".toList

/-- It is not answered, neither idle nor in a session. -/
theorem malformed_hello_unanswered :
    (∃ s', Serving.step plainServer 115200 Serving.start (.line emptyMaxblk false 0) =
        some (s', []) ∧ ¬ AnswersHello plainServer emptyMaxblk s') ∧
    ∃ s', Serving.step plainServer 115200
        { Serving.start with place := .request smallSession } (.line emptyMaxblk false 0) =
        some (s', []) ∧ ¬ AnswersHello plainServer emptyMaxblk s' := by
  refine ⟨⟨_, rfl, fun h => ?_⟩, _, rfl, fun h => ?_⟩
  · obtain ⟨line, hqueue, _⟩ := h.one
    cases hqueue
  · obtain ⟨line, hqueue, _⟩ := h.one
    cases hqueue

end Answers

end Pcutp
