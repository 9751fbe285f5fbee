import Pcutp.Survival

/-!
# How a greeting survives a lost line

`KnockStage` says what can be under way, before and after the loss.  After a
loss each end repeats its last line at its timeout; the repetitions that cross
are answered, and every answer arrives before the deadline of the end that
waits for it.  The losses that are not survived are exhibited as runs.
-/

namespace Pcutp

open Timed (World Wire Seat Act Pick)

/-- The two ends of a greeting and what is on the line. -/
abbrev KnockWorld : Type :=
  World (Hello × Nat) (HandleHello × Nat) Line

section Acts

variable {client : HelloConfig} {config : ServerConfig} {baud : Nat} {session : Session}
  {now c d : Nat}

theorem Hello.party_offer
    (hagrees : session.Agrees client config) {k : Nat} {text : Line}
    (h : IsProposal baud session text) :
    (Hello.party client).read now (Hello.asking client k, c) text =
      ((Hello.settled client config (.who 0), now + 10000), [hruLine]) := by
  simp only [Hello.party, Hello.step_answer hagrees h]
  rfl

theorem Hello.party_again
    {i : Nat} (hi : i + 1 < 10) {text : Line} (h : IsProposal baud session text) :
    (Hello.party client).read now (Hello.settled client config (.who i), c) text =
      ((Hello.settled client config (.who (i + 1)), now + 10000), [hruLine]) := by
  have hlt : i + 1 < Const.HELLO_RETRIES := hi
  simp only [Hello.party, Hello.step_again h, if_pos hlt]
  rfl

theorem Hello.party_who {i : Nat} :
    (Hello.party client).read now (Hello.settled client config (.who i), c) whoLine =
      ((Hello.settled client config (.returned (agreedBlock client config)), now + 10000),
        [iamLine]) := by
  simp only [Hello.party, Hello.step_who]
  rfl

theorem Hello.party_expire_answer
    {k : Nat} (hk : k + 1 < 10) :
    (Hello.party client).expire now (Hello.asking client k, c) =
      ((Hello.asking client (k + 1), now + 10000), [Hello.greeting client (k + 1)]) := by
  have hlt : k + 1 < Const.HELLO_RETRIES := hk
  simp only [Hello.party, Hello.step, Hello.asking, if_pos hlt]
  rfl

theorem Hello.party_expire_who
    {i : Nat} (hi : i + 1 < 10) :
    (Hello.party client).expire now (Hello.settled client config (.who i), c) =
      ((Hello.settled client config (.who (i + 1)), now + 10000), [hruLine]) := by
  have hlt : i + 1 < Const.HELLO_RETRIES := hi
  simp only [Hello.party, Hello.step, Hello.settled, if_pos hlt]
  rfl

theorem HandleHello.party_first
    (hnegotiate : negotiate config ((Hello.offer client).drop 1) = .ok (session, offered client))
    (k : Nat) :
    (HandleHello.party config baud).read now (HandleHello.start, d) (Hello.greeting client k) =
      ((HandleHello.settled baud session (.hru 0), now + 10000),
        [if k = 0 then HandleHello.normalLine (HandleHello.tailWords baud session)
          else HandleHello.ohruLine (HandleHello.tailWords baud session)]) := by
  simp only [HandleHello.party, HandleHello.step_first hnegotiate, isRmb_greeting,
    Bool.false_eq_true, if_false]
  rfl

theorem HandleHello.nextHru_eq
    {j : Nat} (hj : j + 1 < 10) :
    (HandleHello.settled baud session (.hru j)).nextHru j =
      (HandleHello.settled baud session (.hru (j + 1)),
        [HandleHello.ohruLine (HandleHello.tailWords baud session)]) :=
  if_pos hj

theorem HandleHello.party_again
    {j : Nat} (hj : j + 1 < 10) (k : Nat) :
    (HandleHello.party config baud).read now (HandleHello.settled baud session (.hru j), d)
        (Hello.greeting client (k + 1)) =
      ((HandleHello.settled baud session (.hru (j + 1)), now + 10000),
        [HandleHello.ohruLine (HandleHello.tailWords baud session)]) := by
  simp only [HandleHello.party, HandleHello.step_again, HandleHello.nextHru_eq hj,
    isRmb_greeting, Bool.false_eq_true, if_false]
  rfl

theorem HandleHello.party_expire
    {j : Nat} (hj : j + 1 < 10) :
    (HandleHello.party config baud).expire now (HandleHello.settled baud session (.hru j), d) =
      ((HandleHello.settled baud session (.hru (j + 1)), now + 10000),
        [HandleHello.ohruLine (HandleHello.tailWords baud session)]) := by
  have hstep : HandleHello.step config baud (HandleHello.settled baud session (.hru j)) .timeout =
      some ((HandleHello.settled baud session (.hru j)).onHruTimeout j) := rfl
  have hne : ¬ j + 1 = Const.HELLO_RETRIES := Nat.ne_of_lt hj
  simp only [HandleHello.party, hstep, HandleHello.onHruTimeout, if_neg hne,
    HandleHello.nextHru_eq hj]
  rfl

theorem HandleHello.party_hru
    (hidentity : session.identity = true) {j : Nat} :
    (HandleHello.party config baud).read now (HandleHello.settled baud session (.hru j), d)
        hruLine =
      ((HandleHello.settled baud session (.who 0), now + 10000), [whoLine]) := by
  simp only [HandleHello.party, HandleHello.step_hru hidentity, isRmb_hruLine,
    Bool.false_eq_true, if_false]
  rfl

theorem HandleHello.party_hru_again
    {q : Nat} (hq : q + 1 < 10) :
    (HandleHello.party config baud).read now (HandleHello.settled baud session (.who q), d)
        hruLine =
      ((HandleHello.settled baud session (.who (q + 1)), now + 10000), [whoLine]) := by
  have hlt : q + 1 < Const.HELLO_RETRIES := hq
  simp only [HandleHello.party, HandleHello.step_hru_again, if_pos hlt, isRmb_hruLine,
    Bool.false_eq_true, if_false]
  rfl

theorem HandleHello.party_iam {q : Nat} :
    (HandleHello.party config baud).read now (HandleHello.settled baud session (.who q), d)
        iamLine =
      ((HandleHello.settled baud session (.returned true), now + 10000), []) := by
  simp only [HandleHello.party, HandleHello.step_iam, isRmb_iamLine, Bool.false_eq_true, if_false]
  rfl

end Acts

section Loss

variable (lost : Pick)

/-- The loss has happened, where `n` lines were sent to the client and `m` to the server. -/
def Spent (n m : Nat) : Prop :=
  match lost with
  | .toLeft k => k < n
  | .toRight k => k < m

variable {lost} {client : HelloConfig} {config : ServerConfig} {baud : Nat}
  {toServer toClient : Nat → Nat} {n m n' m' : Nat}

theorem Spent.mono (h : Spent lost n m) (hn : n ≤ n') (hm : m ≤ m') :
    Spent lost n' m' := by
  cases lost with
  | toLeft k => exact Nat.lt_of_lt_of_le h hn
  | toRight k => exact Nat.lt_of_lt_of_le h hm

theorem Spent.left (h : Spent lost n m) (text : Line) :
    (knocking client config baud toServer toClient lost).toLeft.lost n text = false := by
  cases lost with
  | toLeft k =>
      have hne : k ≠ n := Nat.ne_of_lt h
      simp [knocking, hne]
  | toRight k => rfl

theorem Spent.right (h : Spent lost n m) (text : Line) :
    (knocking client config baud toServer toClient lost).toRight.lost m text = false := by
  cases lost with
  | toLeft k => rfl
  | toRight k =>
      have hne : k ≠ m := Nat.ne_of_lt h
      simp [knocking, hne]

theorem Spent.deliverLeft
    {now l : Nat} {state : Hello × Nat} {queue : List (Nat × Line)} {text : Line}
    (h : Spent lost n m) (hclient : ∀ n, toClient n < 5000) (hnear : l < now + 5000) :
    ∃ due, l ≤ due ∧ now ≤ due ∧ due < now + 5000 ∧
      Seat.deliver now ⟨state, ⟨queue, n, l⟩⟩
          (knocking client config baud toServer toClient lost).toLeft [text] =
        ⟨state, ⟨queue ++ [(due, text)], n + 1, due⟩⟩ :=
  Seat.deliver_kept _ hclient hnear (h.left _)

theorem Spent.deliverRight
    {now r : Nat} {state : HandleHello × Nat} {queue : List (Nat × Line)} {text : Line}
    (h : Spent lost n m) (hserver : ∀ n, toServer n < 5000) (hnear : r < now + 5000) :
    ∃ due, r ≤ due ∧ now ≤ due ∧ due < now + 5000 ∧
      Seat.deliver now ⟨state, ⟨queue, m, r⟩⟩
          (knocking client config baud toServer toClient lost).toRight [text] =
        ⟨state, ⟨queue ++ [(due, text)], m + 1, due⟩⟩ :=
  Seat.deliver_kept _ hserver hnear (h.right _)

end Loss

section Stage

variable (client : HelloConfig) (config : ServerConfig) (baud : Nat) (session : Session)
  (toServer toClient : Nat → Nat) (lost : Pick)

/-- All the lines of a queue are repeated proposals or the first one. -/
def Proposals (queue : List (Nat × Line)) : Prop :=
  ∀ x ∈ queue, IsProposal baud session x.2

/-- All the lines of a queue are `HELLO?`. -/
def Knocks (queue : List (Nat × Line)) : Prop :=
  ∀ x ∈ queue, ∃ k, x.2 = Hello.greeting client (k + 1)

/-- All the lines of a queue are one line. -/
def Copies (text : Line) (queue : List (Nat × Line)) : Prop :=
  ∀ x ∈ queue, x.2 = text

/-- What can be under way.  `c` and `d` are the deadlines of the two ends, `l` and `r` the last
arrivals at them, `n` and `m` the numbers of lines sent to them. -/
inductive KnockStage : KnockWorld → Prop
  /-- HELLO is on its way. -/
  | asked (now d : Nat) :
      KnockStage
        { now
          left := ⟨(Hello.asking client 0, 10000), ⟨[], 0, 0⟩⟩
          right := ⟨(HandleHello.start, d),
            ⟨[(toServer 0, Hello.greeting client 0)], 1, toServer 0⟩⟩ }
  /-- The proposal is on its way. -/
  | offered (now l d r : Nat) (text : Line) (htext : IsProposal baud session text)
      (hr : r ≤ l) (hl : l < 10000) (hd : l + 5000 ≤ d) (hdl : d ≤ l + 10000) :
      KnockStage
        { now
          left := ⟨(Hello.asking client 0, 10000), ⟨[(l, text)], 1, l⟩⟩
          right := ⟨(HandleHello.settled baud session (.hru 0), d), ⟨[], 1, r⟩⟩ }
  /-- HRU is on its way, sent at `t`. -/
  | agreed (now t d : Nat) (hd : t + 5000 ≤ d) :
      KnockStage
        { now
          left := ⟨(Hello.settled client config (.who 0), t + 10000), ⟨[], 1, t⟩⟩
          right := ⟨(HandleHello.settled baud session (.hru 0), d),
            ⟨[(t + toServer 1, hruLine)], 2, t + toServer 1⟩⟩ }
  /-- `WHO? 0` is on its way. -/
  | named (now t l : Nat) (hl : l < t + 10000) (hd : l + 5000 ≤ t + toServer 1 + 10000) :
      KnockStage
        { now
          left := ⟨(Hello.settled client config (.who 0), t + 10000), ⟨[(l, whoLine)], 2, l⟩⟩
          right := ⟨(HandleHello.settled baud session (.who 0), t + toServer 1 + 10000),
            ⟨[], 2, t + toServer 1⟩⟩ }
  /-- IAM is on its way, behind repetitions of HRU. -/
  | answered (now c d q m r : Nat) (phase : HelloPhase) (inbox : Wire Line)
      (hrus : List (Nat × Line)) (hphase : ∃ maxblk, phase = .returned maxblk)
      (hhrus : Copies hruLine hrus) (hr : r < d) (hq : q + hrus.length ≤ 8) :
      KnockStage
        { now
          left := ⟨(Hello.settled client config phase, c), inbox⟩
          right := ⟨(HandleHello.settled baud session (.who q), d),
            ⟨hrus ++ [(r, iamLine)], m, r⟩⟩ }
  /-- Both ends are through. -/
  | done (now c d : Nat) (phase : HelloPhase) (inbox inbox' : Wire Line)
      (hphase : ∃ maxblk, phase = .returned maxblk) :
      KnockStage
        { now
          left := ⟨(Hello.settled client config phase, c), inbox⟩
          right := ⟨(HandleHello.settled baud session (.returned true), d), inbox'⟩ }
  /-- HELLO is lost. -/
  | helloLost (now d r : Nat) (hspent : Spent lost 0 1) (hr : r ≤ 10000) :
      KnockStage
        { now
          left := ⟨(Hello.asking client 0, 10000), ⟨[], 0, 0⟩⟩
          right := ⟨(HandleHello.start, d), ⟨[], 1, r⟩⟩ }
  /-- A first `HELLO?` is on its way. -/
  | asking (now c d l r n m : Nat) (hspent : Spent lost n m) (hc : r + 5000 ≤ c) :
      KnockStage
        { now
          left := ⟨(Hello.asking client 1, c), ⟨[], n, l⟩⟩
          right := ⟨(HandleHello.start, d), ⟨[(r, Hello.greeting client 1)], m, r⟩⟩ }
  /-- The first proposal is lost. -/
  | offerLost (now l d r n m : Nat) (hspent : Spent lost n m) (hd : 10000 ≤ d) :
      KnockStage
        { now
          left := ⟨(Hello.asking client 0, 10000), ⟨[], n, l⟩⟩
          right := ⟨(HandleHello.settled baud session (.hru 0), d), ⟨[], m, r⟩⟩ }
  /-- A `HELLO?` is on its way for a lost proposal. -/
  | askedAgain (now c l d r n m : Nat) (hspent : Spent lost n m) (hc : r + 5000 ≤ c) :
      KnockStage
        { now
          left := ⟨(Hello.asking client 1, c), ⟨[], n, l⟩⟩
          right := ⟨(HandleHello.settled baud session (.hru 0), d),
            ⟨[(r, Hello.greeting client 1)], m, r⟩⟩ }
  /-- A proposal has met its answer on the way: the client has not timed out yet. -/
  | offeredLate (now l d r n m : Nat) (text : Line) (htext : IsProposal baud session text)
      (hspent : Spent lost n m) (hd : l + 5000 ≤ d) :
      KnockStage
        { now
          left := ⟨(Hello.asking client 0, 10000), ⟨[(l, text)], n, l⟩⟩
          right := ⟨(HandleHello.settled baud session (.hru 1), d), ⟨[], m, r⟩⟩ }
  /-- Proposals and repetitions of HELLO are on their way. -/
  | proposing (now c l d r n m j : Nat) (proposals knocks : List (Nat × Line))
      (hspent : Spent lost n m) (hproposals : Proposals baud session proposals)
      (hne : proposals ≠ []) (hknocks : Knocks client knocks) (hl : l < c) (hd : l + 5000 ≤ d)
      (hc : r + 5000 ≤ c) (hj : j + knocks.length ≤ 2)
      (hlength : proposals.length + knocks.length ≤ 2) :
      KnockStage
        { now
          left := ⟨(Hello.asking client 1, c), ⟨proposals, n, l⟩⟩
          right := ⟨(HandleHello.settled baud session (.hru j), d), ⟨knocks, m, r⟩⟩ }
  /-- HRU is on its way, behind repetitions of HELLO. -/
  | accepted (now c l d r n m i j : Nat) (proposals knocks hrus : List (Nat × Line))
      (hspent : Spent lost n m) (hproposals : Proposals baud session proposals)
      (hknocks : Knocks client knocks) (hhrus : Copies hruLine hrus) (hne : hrus ≠ [])
      (hr : r < d) (hd : l + 5000 ≤ d) (hc : r + 5000 ≤ c)
      (hi : i + proposals.length + knocks.length ≤ 4) (hj : j + knocks.length ≤ 4)
      (hlength : hrus.length + proposals.length + knocks.length ≤ 4) :
      KnockStage
        { now
          left := ⟨(Hello.settled client config (.who i), c), ⟨proposals, n, l⟩⟩
          right := ⟨(HandleHello.settled baud session (.hru j), d), ⟨knocks ++ hrus, m, r⟩⟩ }
  /-- The first HRU is lost. -/
  | hruLost (now c l d r n m : Nat) (hspent : Spent lost n m) (hd : d ≤ c) :
      KnockStage
        { now
          left := ⟨(Hello.settled client config (.who 0), c), ⟨[], n, l⟩⟩
          right := ⟨(HandleHello.settled baud session (.hru 0), d), ⟨[], m, r⟩⟩ }
  /-- HRU is repeated for a lost one. -/
  | hruAgain (now c l d r n m : Nat) (hspent : Spent lost n m) (hc : r + 5000 ≤ c) :
      KnockStage
        { now
          left := ⟨(Hello.settled client config (.who 1), c), ⟨[], n, l⟩⟩
          right := ⟨(HandleHello.settled baud session (.hru 0), d),
            ⟨[(r, hruLine)], m, r⟩⟩ }
  /-- The proposal is repeated for a lost HRU. -/
  | reproposed (now c l d r n m : Nat) (text : Line) (htext : IsProposal baud session text)
      (hspent : Spent lost n m) (hd : l + 5000 ≤ d) :
      KnockStage
        { now
          left := ⟨(Hello.settled client config (.who 0), c), ⟨[(l, text)], n, l⟩⟩
          right := ⟨(HandleHello.settled baud session (.hru 1), d), ⟨[], m, r⟩⟩ }
  /-- `WHO? 0` is on its way, behind proposals. -/
  | naming (now c l d r n m i q : Nat) (proposals whos hrus : List (Nat × Line))
      (hspent : Spent lost n m) (hproposals : Proposals baud session proposals)
      (hwhos : Copies whoLine whos) (hne : whos ≠ []) (hhrus : Copies hruLine hrus)
      (hl : l < c) (hd : l + 5000 ≤ d) (hc : r + 5000 ≤ c)
      (hi : i + proposals.length ≤ 5) (hq : q + hrus.length + proposals.length ≤ 5) :
      KnockStage
        { now
          left := ⟨(Hello.settled client config (.who i), c), ⟨proposals ++ whos, n, l⟩⟩
          right := ⟨(HandleHello.settled baud session (.who q), d), ⟨hrus, m, r⟩⟩ }
  /-- The first `WHO? 0` is lost. -/
  | whoLost (now t l n : Nat) (hspent : Spent lost n 2) (hlt : toServer 2 < toServer 1) :
      KnockStage
        { now
          left := ⟨(Hello.settled client config (.who 0), t + 10000), ⟨[], n, l⟩⟩
          right := ⟨(HandleHello.settled baud session (.who 0), t + toServer 1 + 10000),
            ⟨[], 2, t + toServer 1⟩⟩ }
  /-- HRU is repeated for a lost `WHO? 0`. -/
  | hruRepeated (now c l d r n m : Nat) (hspent : Spent lost n m) (hr : r < d)
      (hc : r + 5000 ≤ c) :
      KnockStage
        { now
          left := ⟨(Hello.settled client config (.who 1), c), ⟨[], n, l⟩⟩
          right := ⟨(HandleHello.settled baud session (.who 0), d),
            ⟨[(r, hruLine)], m, r⟩⟩ }

variable {client config baud session toServer toClient lost}

theorem KnockStage.tick
    {w : KnockWorld} (h : KnockStage client config baud session toServer lost w) :
    KnockStage client config baud session toServer lost { w with now := w.now + 1 } := by
  cases h with
  | asked => exact .asked _ _
  | offered now l d r text htext hr hl hd hdl => exact .offered _ _ _ _ _ htext hr hl hd hdl
  | agreed now t d hd => exact .agreed _ _ _ hd
  | named now t l hl hd => exact .named _ _ _ hl hd
  | answered now c d q m r phase inbox hrus hphase hhrus hr hq =>
      exact .answered _ _ _ _ _ _ _ _ _ hphase hhrus hr hq
  | done now c d phase inbox inbox' hphase => exact .done _ _ _ _ _ _ hphase
  | helloLost now d r hspent hr => exact .helloLost _ _ _ hspent hr
  | asking now c d l r n m hspent hc => exact .asking _ _ _ _ _ _ _ hspent hc
  | offerLost now l d r n m hspent hd => exact .offerLost _ _ _ _ _ _ hspent hd
  | askedAgain now c l d r n m hspent hc => exact .askedAgain _ _ _ _ _ _ _ hspent hc
  | offeredLate now l d r n m text htext hspent hd =>
      exact .offeredLate _ _ _ _ _ _ _ htext hspent hd
  | proposing now c l d r n m j proposals knocks hspent hproposals hne hknocks hl hd hc hj
      hlength =>
      exact .proposing _ _ _ _ _ _ _ _ _ _ hspent hproposals hne hknocks hl hd hc hj hlength
  | accepted now c l d r n m i j proposals knocks hrus hspent hproposals hknocks hhrus hne hr hd hc
      hi hj hlength =>
      exact .accepted _ _ _ _ _ _ _ _ _ _ _ _ hspent hproposals hknocks hhrus hne hr hd hc
        hi hj hlength
  | hruLost now c l d r n m hspent hd => exact .hruLost _ _ _ _ _ _ _ hspent hd
  | hruAgain now c l d r n m hspent hc => exact .hruAgain _ _ _ _ _ _ _ hspent hc
  | reproposed now c l d r n m text htext hspent hd =>
      exact .reproposed _ _ _ _ _ _ _ _ htext hspent hd
  | naming now c l d r n m i q proposals whos hrus hspent hproposals hwhos hne hhrus hl hd hc
      hi hq =>
      exact .naming _ _ _ _ _ _ _ _ _ _ _ _ hspent hproposals hwhos hne hhrus hl hd hc hi hq
  | whoLost now t l n hspent hlt => exact .whoLost _ _ _ _ hspent hlt
  | hruRepeated now c l d r n m hspent hr hc => exact .hruRepeated _ _ _ _ _ _ _ hspent hr hc

theorem proposals_nil : Proposals baud session [] :=
  fun _ hx => absurd hx List.not_mem_nil

theorem knocks_nil : Knocks client [] :=
  fun _ hx => absurd hx List.not_mem_nil

theorem copies_nil {text : Line} : Copies text [] :=
  fun _ hx => absurd hx List.not_mem_nil

theorem proposals_singleton
    {x : Nat × Line} (h : IsProposal baud session x.2) :
    Proposals baud session [x] := by
  intro y hy
  rw [List.mem_singleton.mp hy]
  exact h

theorem proposals_concat
    {queue : List (Nat × Line)} {due : Nat} (h : Proposals baud session queue) :
    Proposals baud session
      (queue ++ [(due, HandleHello.ohruLine (HandleHello.tailWords baud session))]) := by
  intro x hx
  rcases List.mem_append.mp hx with hx | hx
  · exact h x hx
  · rw [List.mem_singleton.mp hx]
    exact Or.inr rfl

theorem copies_concat
    {text : Line} {queue : List (Nat × Line)} {due : Nat} (h : Copies text queue) :
    Copies text (queue ++ [(due, text)]) := by
  intro x hx
  rcases List.mem_append.mp hx with hx | hx
  · exact h x hx
  · rw [List.mem_singleton.mp hx]

theorem knocks_singleton {due : Nat} (k : Nat) :
    Knocks client [(due, Hello.greeting client (k + 1))] :=
  fun x hx => ⟨k, by rw [List.mem_singleton.mp hx]⟩

theorem copies_singleton {text : Line} {due : Nat} :
    Copies text [(due, text)] :=
  fun x hx => by rw [List.mem_singleton.mp hx]

section ToServer

variable {now c l d r n m i j q : Nat} {proposals knocks hrus whos : List (Nat × Line)}

/-- `HRU` is sent for a proposal, behind what is on its way to the server. -/
theorem KnockStage.accepted_more
    {queue : List (Nat × Line)} (hserver : ∀ n, toServer n < 5000) (hspent : Spent lost n m)
    (hproposals : Proposals baud session proposals) (hknocks : Knocks client knocks)
    (hhrus : Copies hruLine hrus) (hqueue : queue = knocks ++ hrus)
    (hnear : r < now + 5000) (hnow : now ≤ l) (hd : l + 5000 ≤ d)
    (hi : i + proposals.length + knocks.length ≤ 4) (hj : j + knocks.length ≤ 4)
    (hlength : hrus.length + proposals.length + knocks.length ≤ 3) :
    KnockStage client config baud session toServer lost
      { now
        left := ⟨(Hello.settled client config (.who i), now + 10000), ⟨proposals, n, l⟩⟩
        right := Seat.deliver now ⟨(HandleHello.settled baud session (.hru j), d), ⟨queue, m, r⟩⟩
          (knocking client config baud toServer toClient lost).toRight [hruLine] } := by
  obtain ⟨due, _, _, _, heq⟩ := hspent.deliverRight hserver hnear
  rw [heq, hqueue, List.append_assoc]
  exact .accepted _ _ _ _ _ _ _ _ _ _ _ _ (hspent.mono le_rfl (Nat.le_succ _)) hproposals hknocks
    (copies_concat hhrus) (by simp) (by omega) hd (by omega) hi hj (by
      rw [List.length_append, List.length_singleton]
      omega)

/-- `IAM` is sent, behind the repetitions of HRU, and `hello` returns. -/
theorem KnockStage.answered_iam
    {inbox : Wire Line} (hserver : ∀ n, toServer n < 5000)
    (hkept : (knocking client config baud toServer toClient lost).toRight.lost m iamLine = false)
    (hhrus : Copies hruLine hrus) (hnear : r < now + 5000) (hd : now + 5000 ≤ d)
    (hq : q + hrus.length ≤ 8) :
    KnockStage client config baud session toServer lost
      { now
        left := ⟨(Hello.settled client config (.returned (agreedBlock client config)), c), inbox⟩
        right := Seat.deliver now ⟨(HandleHello.settled baud session (.who q), d), ⟨hrus, m, r⟩⟩
          (knocking client config baud toServer toClient lost).toRight [iamLine] } := by
  obtain ⟨due, _, _, _, heq⟩ := Seat.deliver_kept
    (knocking client config baud toServer toClient lost).toRight hserver hnear hkept
  rw [heq]
  exact .answered _ _ _ _ _ _ _ _ _ ⟨_, rfl⟩ hhrus (by omega) hq

/-- The first proposal is answered. -/
theorem KnockStage.client_offered
    {text : Line} (hagrees : session.Agrees client config) (htext : IsProposal baud session text)
    (hr : r ≤ now) (hd : now + 5000 ≤ d) (hdl : d ≤ now + 10000) :
    KnockStage client config baud session toServer lost
      { now
        left := ⟨((Hello.party client).read now (Hello.asking client 0, c) text).1, ⟨[], 1, now⟩⟩
        right := Seat.deliver now ⟨(HandleHello.settled baud session (.hru 0), d), ⟨[], 1, r⟩⟩
          (knocking client config baud toServer toClient lost).toRight
          ((Hello.party client).read now (Hello.asking client 0, c) text).2 } := by
  rw [Hello.party_offer hagrees htext, Seat.deliver, Wire.puts_cons]
  by_cases hlost : lost = .toRight 1
  · rw [Wire.put_lost (by simp [knocking, hlost])]
    refine .hruLost _ _ _ _ _ _ _ ?_ hdl
    rw [hlost]
    exact Nat.lt_succ_self 1
  · rw [Wire.put_due (by simpa [knocking] using hlost) (by simp only; omega)]
    exact .agreed _ _ _ hd

/-- A line that is read while `WHO? 0` is under way: a proposal, or `WHO? 0` itself. -/
theorem KnockStage.client_naming
    {due : Nat} {text : Line} {queue : List (Nat × Line)}
    (hserver : ∀ n, toServer n < 5000) (hspent : Spent lost n m)
    (hproposals : Proposals baud session proposals) (hwhos : Copies whoLine whos)
    (hne : whos ≠ []) (hhrus : Copies hruLine hrus)
    (hqueue : proposals ++ whos = (due, text) :: queue)
    (hnear : r < now + 5000) (hnow : now ≤ l) (hl : l < now + 5000) (hd : l + 5000 ≤ d)
    (hi : i + proposals.length ≤ 5) (hq : q + hrus.length + proposals.length ≤ 5) :
    KnockStage client config baud session toServer lost
      { now
        left := ⟨((Hello.party client).read now (Hello.settled client config (.who i), c) text).1,
          ⟨queue, n, l⟩⟩
        right := Seat.deliver now ⟨(HandleHello.settled baud session (.who q), d), ⟨hrus, m, r⟩⟩
          (knocking client config baud toServer toClient lost).toRight
          ((Hello.party client).read now (Hello.settled client config (.who i), c) text).2 } := by
  cases proposals with
  | nil =>
      -- The first of the WHO? lines ends `hello`.
      have hwho : text = whoLine := hwhos (due, text) (by
        rw [← List.nil_append whos, hqueue]
        exact List.mem_cons_self)
      rw [hwho, Hello.party_who]
      rw [List.length_nil] at hq
      exact .answered_iam hserver (hspent.right _) hhrus hnear (by omega) (by omega)
  | cons x proposals =>
      cases hqueue
      rw [List.length_cons] at hi hq
      rw [Hello.party_again (by omega) (hproposals _ List.mem_cons_self)]
      obtain ⟨due', _, _, _, heq⟩ := hspent.deliverRight hserver hnear
      rw [heq]
      exact .naming _ _ _ _ _ _ _ _ _ _ _ _ (hspent.mono le_rfl (Nat.le_succ _))
        (fun x hx => hproposals x (List.mem_cons_of_mem _ hx)) hwhos hne (copies_concat hhrus)
        (by omega) hd (by omega) (by omega) (by
          rw [List.length_append, List.length_singleton]
          omega)

end ToServer

/-- What the client reads. -/
theorem KnockStage.clientReads
    (hserver : ∀ n, toServer n < 5000) (hagrees : session.Agrees client config)
    (hiam : lost ≠ .toRight 2)
    {w : KnockWorld} {s : Seat (Hello × Nat) Line} {out : List Line}
    (hp : w.Punctual (knocking client config baud toServer toClient lost) 5000
      Const.HANDSHAKE_TIMEOUT)
    (h : KnockStage client config baud session toServer lost w)
    (hact : w.left.act (Hello.party client) w.now .read = some (s, out)) :
    KnockStage client config baud session toServer lost
      { w with
        left := s
        right := w.right.deliver w.now
          (knocking client config baud toServer toClient lost).toRight out } := by
  obtain ⟨due, text, queue, hqueue, hlistens, hdue, rfl, rfl⟩ := Seat.act_read hact
  have hnow : w.now ≤ w.left.inbox.latest := hp.left.le_latest hlistens (by
    rw [hqueue]
    exact List.cons_ne_nil _ _)
  have hnear := hp.right.ordered.near
  cases h with
  | asked => cases hqueue
  | offered now l d r text htext hr hl hd hdl =>
      cases hqueue
      obtain rfl : now = due := Nat.le_antisymm hnow hdue
      exact .client_offered hagrees htext hr hd hdl
  | agreed => cases hqueue
  | named now t l hl hd =>
      cases hqueue
      rw [Hello.party_who]
      have hd' : now + 5000 ≤ t + toServer 1 + 10000 := (Nat.add_le_add_right hnow _).trans hd
      exact .answered_iam hserver (by simpa [knocking] using hiam) copies_nil hnear hd' (by simp)
  | answered now c d q m r phase inbox hrus hphase hhrus hr hq =>
      obtain ⟨maxblk, rfl⟩ := hphase
      cases hlistens
  | done now c d phase inbox inbox' hphase =>
      obtain ⟨maxblk, rfl⟩ := hphase
      cases hlistens
  | helloLost => cases hqueue
  | asking => cases hqueue
  | offerLost => cases hqueue
  | askedAgain => cases hqueue
  | offeredLate now l d r n m text htext hspent hd =>
      cases hqueue
      rw [Hello.party_offer hagrees htext]
      exact .accepted_more hserver hspent proposals_nil knocks_nil copies_nil rfl hnear hnow hd
        (by simp) (by simp) (by simp)
  | proposing now c l d r n m j proposals knocks hspent hproposals hne hknocks hl hd hc hj
      hlength =>
      simp only at hqueue
      subst hqueue
      rw [List.length_cons] at hlength
      rw [Hello.party_offer hagrees (hproposals _ List.mem_cons_self)]
      exact .accepted_more hserver hspent (fun x hx => hproposals x (List.mem_cons_of_mem _ hx))
        hknocks copies_nil (List.append_nil _).symm hnear hnow hd (by omega) (by omega) (by
          rw [List.length_nil]
          omega)
  | accepted now c l d r n m i j proposals knocks hrus hspent hproposals hknocks hhrus hne hr hd hc
      hi hj hlength =>
      simp only at hqueue
      subst hqueue
      rw [List.length_cons] at hi hlength
      rw [Hello.party_again (by omega) (hproposals _ List.mem_cons_self)]
      exact .accepted_more hserver hspent (fun x hx => hproposals x (List.mem_cons_of_mem _ hx))
        hknocks hhrus rfl hnear hnow hd (by omega) hj (by omega)
  | hruLost => cases hqueue
  | hruAgain => cases hqueue
  | reproposed now c l d r n m text htext hspent hd =>
      cases hqueue
      rw [Hello.party_again (by omega) htext]
      exact .accepted_more hserver hspent proposals_nil knocks_nil copies_nil rfl hnear hnow hd
        (by simp) (by simp) (by simp)
  | naming now c l d r n m i q proposals whos hrus hspent hproposals hwhos hne hhrus hl hd hc
      hi hq =>
      exact .client_naming hserver hspent hproposals hwhos hne hhrus hqueue hnear hnow
        hp.left.ordered.near hd hi hq
  | whoLost => cases hqueue
  | hruRepeated => cases hqueue

/-- What the client does at its deadline. -/
theorem KnockStage.clientExpires
    (hserver : ∀ n, toServer n < 5000)
    {w : KnockWorld} {s : Seat (Hello × Nat) Line} {out : List Line}
    (hp : w.Punctual (knocking client config baud toServer toClient lost) 5000
      Const.HANDSHAKE_TIMEOUT)
    (h : KnockStage client config baud session toServer lost w)
    (hact : w.left.act (Hello.party client) w.now .expire = some (s, out)) :
    KnockStage client config baud session toServer lost
      { w with
        left := s
        right := w.right.deliver w.now
          (knocking client config baud toServer toClient lost).toRight out } := by
  obtain ⟨e, he, hdue, rfl, rfl⟩ := Seat.act_expire hact
  have hnearLeft := hp.left.ordered.near
  have hnear := hp.right.ordered.near
  have hleft := fun {d} => hp.left.not_due (d := d)
  have hright := fun {d} => hp.right.not_due (d := d)
  cases h with
  | asked now d =>
      cases he
      have hs0 := hserver 0
      exact (hright rfl (List.cons_ne_nil _ _) (by simp only; omega) hdue).elim
  | offered now l d r text htext hr hl hd hdl =>
      cases he
      exact (hleft rfl (List.cons_ne_nil _ _) hl hdue).elim
  | agreed now t d hd =>
      cases he
      have hs1 := hserver 1
      exact (hright rfl (List.cons_ne_nil _ _) (by simp only; omega) hdue).elim
  | named now t l hl hd =>
      cases he
      exact (hleft rfl (List.cons_ne_nil _ _) hl hdue).elim
  | answered now c d q m r phase inbox hrus hphase hhrus hr hq =>
      obtain ⟨maxblk, rfl⟩ := hphase
      cases he
  | done now c d phase inbox inbox' hphase =>
      obtain ⟨maxblk, rfl⟩ := hphase
      cases he
  | helloLost now d r hspent hr =>
      obtain ⟨due, _, _, _, heq⟩ := hspent.deliverRight hserver hnear
      rw [Hello.party_expire_answer (by omega), heq]
      exact .asking _ _ _ _ _ _ _ (hspent.mono le_rfl (Nat.le_succ _)) (by omega)
  | asking now c d l r n m hspent hc =>
      cases he
      exact (hright rfl (List.cons_ne_nil _ _) (by simp only; omega) hdue).elim
  | offerLost now l d r n m hspent hd =>
      obtain ⟨due, _, _, _, heq⟩ := hspent.deliverRight hserver hnear
      rw [Hello.party_expire_answer (by omega), heq]
      exact .askedAgain _ _ _ _ _ _ _ (hspent.mono le_rfl (Nat.le_succ _)) (by omega)
  | askedAgain now c l d r n m hspent hc =>
      cases he
      exact (hright rfl (List.cons_ne_nil _ _) (by simp only; omega) hdue).elim
  | offeredLate now l d r n m text htext hspent hd =>
      obtain ⟨due, _, _, _, heq⟩ := hspent.deliverRight hserver hnear
      rw [Hello.party_expire_answer (by omega), heq]
      have hl : l < now + 10000 := hnearLeft.trans (Nat.add_lt_add_left (by decide) now)
      exact .proposing _ _ _ _ _ _ _ _ _ _ (hspent.mono le_rfl (Nat.le_succ _))
        (proposals_singleton htext) (List.cons_ne_nil _ _) (knocks_singleton 0) hl hd (by omega)
        (by simp) (by simp)
  | proposing now c l d r n m j proposals knocks hspent hproposals hne hknocks hl hd hc hj
      hlength =>
      cases he
      exact (hleft rfl hne hl hdue).elim
  | accepted now c l d r n m i j proposals knocks hrus hspent hproposals hknocks hhrus hne hr hd hc
      hi hj hlength =>
      cases he
      exact (hright rfl (List.append_ne_nil_of_right_ne_nil _ hne) (by simp only; omega) hdue).elim
  | hruLost now c l d r n m hspent hd =>
      obtain ⟨due, _, _, _, heq⟩ := hspent.deliverRight hserver hnear
      rw [Hello.party_expire_who (by omega), heq]
      exact .hruAgain _ _ _ _ _ _ _ (hspent.mono le_rfl (Nat.le_succ _)) (by omega)
  | hruAgain now c l d r n m hspent hc =>
      cases he
      exact (hright rfl (List.cons_ne_nil _ _) (by simp only; omega) hdue).elim
  | reproposed now c l d r n m text htext hspent hd =>
      have hnow := hp.left.le_latest rfl (List.cons_ne_nil _ _)
      rw [Hello.party_expire_who (by omega)]
      exact .accepted_more hserver hspent (proposals_singleton htext) knocks_nil
        copies_nil rfl hnear hnow hd (by simp) (by simp) (by simp)
  | naming now c l d r n m i q proposals whos hrus hspent hproposals hwhos hne hhrus hl hd hc
      hi hq =>
      cases he
      exact (hleft rfl (List.append_ne_nil_of_right_ne_nil _ hne) hl hdue).elim
  | whoLost now t l n hspent hlt =>
      cases he
      have hnow : now ≤ t + 10000 := hp.left.free.2 _ rfl
      rw [Hello.party_expire_who (by omega), Seat.deliver, Wire.puts_cons,
        Wire.put_kept (hspent.right _)]
      have hs2 := hserver 2
      refine .hruRepeated _ _ _ _ _ _ _ (hspent.mono le_rfl (Nat.le_succ _)) ?_ ?_
      · simp only [knocking] at hnow ⊢
        omega
      · simp only [knocking] at hnear hs2 ⊢
        omega
  | hruRepeated now c l d r n m hspent hr hc =>
      cases he
      exact (hright rfl (List.cons_ne_nil _ _) (by simp only; omega) hdue).elim

section ToClient

variable {now c l d r n m i j q : Nat} {proposals knocks hrus whos queue : List (Nat × Line)}

/-- A proposal is repeated, behind those that are on their way. -/
theorem KnockStage.proposing_more
    (hclient : ∀ n, toClient n < 5000) (hspent : Spent lost n m)
    (hproposals : Proposals baud session proposals) (hknocks : Knocks client knocks)
    (hnear : l < now + 5000) (hnow : now ≤ r) (hc : r + 5000 ≤ c) (hj : j + knocks.length ≤ 2)
    (hlength : proposals.length + knocks.length ≤ 1) :
    KnockStage client config baud session toServer lost
      { now
        left := Seat.deliver now ⟨(Hello.asking client 1, c), ⟨proposals, n, l⟩⟩
          (knocking client config baud toServer toClient lost).toLeft
          [HandleHello.ohruLine (HandleHello.tailWords baud session)]
        right := ⟨(HandleHello.settled baud session (.hru j), now + 10000), ⟨knocks, m, r⟩⟩ } := by
  obtain ⟨due, _, _, _, heq⟩ := hspent.deliverLeft hclient hnear
  rw [heq]
  exact .proposing _ _ _ _ _ _ _ _ _ _ (hspent.mono (Nat.le_succ _) le_rfl)
    (proposals_concat hproposals) (by simp) hknocks (by omega) (by omega) hc hj (by
      rw [List.length_append, List.length_singleton]
      omega)

/-- `WHO? 0` is sent, behind what is on its way to the client. -/
theorem KnockStage.naming_more
    (hclient : ∀ n, toClient n < 5000) (hspent : Spent lost n m)
    (hproposals : Proposals baud session proposals) (hwhos : Copies whoLine whos)
    (hhrus : Copies hruLine hrus) (hqueue : queue = proposals ++ whos)
    (hnear : l < now + 5000) (hnow : now ≤ r) (hc : r + 5000 ≤ c)
    (hi : i + proposals.length ≤ 5) (hq : q + hrus.length + proposals.length ≤ 5) :
    KnockStage client config baud session toServer lost
      { now
        left := Seat.deliver now ⟨(Hello.settled client config (.who i), c), ⟨queue, n, l⟩⟩
          (knocking client config baud toServer toClient lost).toLeft [whoLine]
        right := ⟨(HandleHello.settled baud session (.who q), now + 10000), ⟨hrus, m, r⟩⟩ } := by
  obtain ⟨due, _, _, _, heq⟩ := hspent.deliverLeft hclient hnear
  rw [heq, hqueue, List.append_assoc]
  exact .naming _ _ _ _ _ _ _ _ _ _ _ _ (hspent.mono (Nat.le_succ _) le_rfl) hproposals
    (copies_concat hwhos) (by simp) hhrus (by omega) (by omega) hc hi hq

/-- HELLO is answered. -/
theorem KnockStage.server_asked
    (hclient : ∀ n, toClient n < 5000) (h0 : now < 5000)
    (hnegotiate : negotiate config ((Hello.offer client).drop 1) =
      .ok (session, Pcutp.offered client)) :
    KnockStage client config baud session toServer lost
      { now
        left := Seat.deliver now ⟨(Hello.asking client 0, 10000), ⟨[], 0, 0⟩⟩
          (knocking client config baud toServer toClient lost).toLeft
          ((HandleHello.party config baud).read now (HandleHello.start, d)
            (Hello.greeting client 0)).2
        right := ⟨((HandleHello.party config baud).read now (HandleHello.start, d)
          (Hello.greeting client 0)).1, ⟨[], 1, now⟩⟩ } := by
  rw [HandleHello.party_first hnegotiate, if_pos rfl]
  by_cases hlost : lost = .toLeft 0
  · rw [Seat.deliver, Wire.puts_cons, Wire.put_lost (by simp [knocking, hlost])]
    refine .offerLost _ _ _ _ _ _ ?_ (Nat.le_add_left _ _)
    rw [hlost]
    exact Nat.lt_succ_self 0
  · obtain ⟨due, _, _, _, heq⟩ := Seat.deliver_kept
      (knocking client config baud toServer toClient lost).toLeft hclient
      (show 0 < now + 5000 by omega) (by simpa [knocking] using hlost)
    rw [heq]
    exact .offered _ _ _ _ _ (Or.inl rfl) (by omega) (by omega) (by omega) (by omega)

/-- The first HRU is answered. -/
theorem KnockStage.server_agreed
    {t : Nat} (hclient : ∀ n, toClient n < 5000) (hidentity : session.identity = true)
    (hwho : lost = .toLeft 1 → toServer 2 < toServer 1) (hnear : t < now + 5000)
    (hnow : now = t + toServer 1) (hs1 : toServer 1 < 5000) :
    KnockStage client config baud session toServer lost
      { now
        left := Seat.deliver now
          ⟨(Hello.settled client config (.who 0), t + 10000), ⟨[], 1, t⟩⟩
          (knocking client config baud toServer toClient lost).toLeft
          ((HandleHello.party config baud).read now
            (HandleHello.settled baud session (.hru 0), d) hruLine).2
        right := ⟨((HandleHello.party config baud).read now
          (HandleHello.settled baud session (.hru 0), d) hruLine).1, ⟨[], 2, now⟩⟩ } := by
  subst hnow
  rw [HandleHello.party_hru hidentity]
  by_cases hlost : lost = .toLeft 1
  · rw [Seat.deliver, Wire.puts_cons, Wire.put_lost (by simp [knocking, hlost])]
    refine .whoLost _ _ _ _ ?_ (hwho hlost)
    rw [hlost]
    exact Nat.lt_succ_self 1
  · obtain ⟨due, _, _, _, heq⟩ := Seat.deliver_kept
      (knocking client config baud toServer toClient lost).toLeft hclient hnear
      (by simpa [knocking] using hlost)
    rw [heq]
    exact .named _ _ _ (by omega) (by omega)

/-- A line that is read before HRU has been: a repetition of HELLO, or HRU itself. -/
theorem KnockStage.server_accepted
    {due : Nat} {text : Line} (hclient : ∀ n, toClient n < 5000)
    (hidentity : session.identity = true) (hspent : Spent lost n m)
    (hproposals : Proposals baud session proposals) (hknocks : Knocks client knocks)
    (hhrus : Copies hruLine hrus) (hne : hrus ≠ [])
    (hqueue : knocks ++ hrus = (due, text) :: queue) (hnear : l < now + 5000) (hnow : now ≤ r)
    (hr : r < now + 5000) (hc : r + 5000 ≤ c) (hi : i + proposals.length + knocks.length ≤ 4)
    (hj : j + knocks.length ≤ 4) (hlength : hrus.length + proposals.length + knocks.length ≤ 4) :
    KnockStage client config baud session toServer lost
      { now
        left := Seat.deliver now ⟨(Hello.settled client config (.who i), c), ⟨proposals, n, l⟩⟩
          (knocking client config baud toServer toClient lost).toLeft
          ((HandleHello.party config baud).read now
            (HandleHello.settled baud session (.hru j), d) text).2
        right := ⟨((HandleHello.party config baud).read now
          (HandleHello.settled baud session (.hru j), d) text).1, ⟨queue, m, r⟩⟩ } := by
  cases knocks with
  | nil =>
      -- The first HRU ends the loop over the proposals.
      rw [List.nil_append] at hqueue
      subst hqueue
      rw [show text = hruLine from hhrus (due, text) List.mem_cons_self,
        HandleHello.party_hru hidentity]
      simp only [List.length_cons, List.length_nil] at hi hlength
      exact .naming_more hclient hspent hproposals copies_nil
        (fun x hx => hhrus x (List.mem_cons_of_mem _ hx)) (List.append_nil _).symm hnear hnow hc
        (by omega) (by omega)
  | cons x knocks =>
      cases hqueue
      obtain ⟨k, rfl⟩ := hknocks _ List.mem_cons_self
      rw [List.length_cons] at hi hj hlength
      rw [HandleHello.party_again (by omega)]
      obtain ⟨due', _, _, _, heq⟩ := hspent.deliverLeft hclient hnear
      rw [heq]
      exact .accepted _ _ _ _ _ _ _ _ _ _ _ _ (hspent.mono (Nat.le_succ _) le_rfl)
        (proposals_concat hproposals) (fun x hx => hknocks x (List.mem_cons_of_mem _ hx)) hhrus
        hne (by omega) (by omega) hc (by
          rw [List.length_append, List.length_singleton]
          omega) (by omega) (by
          rw [List.length_append, List.length_singleton]
          omega)

/-- A line that is read after IAM was sent: a repetition of HRU, or IAM itself. -/
theorem KnockStage.server_answered
    {due : Nat} {text : Line} {phase : HelloPhase} {s : Seat (Hello × Nat) Line}
    (hstate : s.state = (Hello.settled client config phase, c))
    (hphase : ∃ maxblk, phase = .returned maxblk) (hhrus : Copies hruLine hrus)
    (hqueue : hrus ++ [(r, iamLine)] = (due, text) :: queue) (hr : r < now + 5000)
    (hq : q + hrus.length ≤ 8) :
    KnockStage client config baud session toServer lost
      { now
        left := s.deliver now (knocking client config baud toServer toClient lost).toLeft
          ((HandleHello.party config baud).read now
            (HandleHello.settled baud session (.who q), d) text).2
        right := ⟨((HandleHello.party config baud).read now
          (HandleHello.settled baud session (.who q), d) text).1, ⟨queue, m, r⟩⟩ } := by
  obtain ⟨state, inbox⟩ := s
  cases hstate
  cases hrus with
  | nil =>
      cases hqueue
      rw [HandleHello.party_iam, Seat.deliver_nil]
      exact .done _ _ _ _ _ _ hphase
  | cons x hrus =>
      cases hqueue
      rw [List.length_cons] at hq
      rw [show text = hruLine from hhrus (due, text) List.mem_cons_self,
        HandleHello.party_hru_again (by omega), Seat.deliver]
      exact .answered _ _ _ _ _ _ _ _ _ hphase (fun x hx => hhrus x (List.mem_cons_of_mem _ hx))
        (by omega) (by omega)

end ToClient

/-- What the server reads. -/
theorem KnockStage.serverReads
    (hserver : ∀ n, toServer n < 5000) (hclient : ∀ n, toClient n < 5000)
    (hagrees : session.Agrees client config)
    (hnegotiate : negotiate config ((Hello.offer client).drop 1) =
      .ok (session, Pcutp.offered client))
    (hwho : lost = .toLeft 1 → toServer 2 < toServer 1)
    {w : KnockWorld} {s : Seat (HandleHello × Nat) Line} {out : List Line}
    (hp : w.Punctual (knocking client config baud toServer toClient lost) 5000
      Const.HANDSHAKE_TIMEOUT)
    (h : KnockStage client config baud session toServer lost w)
    (hact : w.right.act (HandleHello.party config baud) w.now .read = some (s, out)) :
    KnockStage client config baud session toServer lost
      { w with
        right := s
        left := w.left.deliver w.now
          (knocking client config baud toServer toClient lost).toLeft out } := by
  obtain ⟨due, text, queue, hqueue, hlistens, hdue, rfl, rfl⟩ := Seat.act_read hact
  have hnow : w.now ≤ w.right.inbox.latest := hp.right.le_latest hlistens (by
    rw [hqueue]
    exact List.cons_ne_nil _ _)
  have hnear := hp.left.ordered.near
  have hnearRight := hp.right.ordered.near
  have hidentity := hagrees.identity
  cases h with
  | asked now d =>
      cases hqueue
      obtain rfl : now = toServer 0 := Nat.le_antisymm hnow hdue
      exact .server_asked hclient (hserver 0) hnegotiate
  | offered => cases hqueue
  | agreed now t d hd =>
      cases hqueue
      obtain rfl : now = t + toServer 1 := Nat.le_antisymm hnow hdue
      exact .server_agreed hclient hidentity hwho hnear rfl (hserver 1)
  | named => cases hqueue
  | answered now c d q m r phase inbox hrus hphase hhrus hr hq =>
      exact .server_answered rfl hphase hhrus hqueue hnearRight hq
  | done => cases hlistens
  | helloLost => cases hqueue
  | asking now c d l r n m hspent hc =>
      cases hqueue
      rw [HandleHello.party_first hnegotiate, if_neg (by decide)]
      exact .proposing_more hclient hspent proposals_nil knocks_nil hnear hnow hc
        (by simp) (by simp)
  | offerLost => cases hqueue
  | askedAgain now c l d r n m hspent hc =>
      cases hqueue
      rw [HandleHello.party_again (by omega)]
      exact .proposing_more hclient hspent proposals_nil knocks_nil hnear hnow hc
        (by simp) (by simp)
  | offeredLate => cases hqueue
  | proposing now c l d r n m j proposals knocks hspent hproposals hne hknocks hl hd hc hj
      hlength =>
      simp only at hqueue
      subst hqueue
      obtain ⟨k, rfl⟩ := hknocks _ List.mem_cons_self
      rw [List.length_cons] at hj hlength
      rw [HandleHello.party_again (by omega)]
      exact .proposing_more hclient hspent hproposals
        (fun x hx => hknocks x (List.mem_cons_of_mem _ hx)) hnear hnow hc (by omega) (by omega)
  | accepted now c l d r n m i j proposals knocks hrus hspent hproposals hknocks hhrus hne hr hd hc
      hi hj hlength =>
      exact .server_accepted hclient hidentity hspent hproposals hknocks hhrus hne hqueue hnear hnow
        hnearRight hc hi hj hlength
  | hruLost => cases hqueue
  | hruAgain now c l d r n m hspent hc =>
      cases hqueue
      rw [HandleHello.party_hru hidentity]
      exact .naming_more hclient hspent proposals_nil copies_nil copies_nil
        rfl hnear hnow hc (by simp) (by simp)
  | reproposed => cases hqueue
  | naming now c l d r n m i q proposals whos hrus hspent hproposals hwhos hne hhrus hl hd hc
      hi hq =>
      simp only at hqueue
      subst hqueue
      rw [List.length_cons] at hq
      rw [show text = hruLine from hhrus (due, text) List.mem_cons_self,
        HandleHello.party_hru_again (by omega)]
      exact .naming_more hclient hspent hproposals hwhos
        (fun x hx => hhrus x (List.mem_cons_of_mem _ hx)) rfl hnear hnow hc hi (by omega)
  | whoLost => cases hqueue
  | hruRepeated now c l d r n m hspent hr hc =>
      cases hqueue
      rw [HandleHello.party_hru_again (by omega)]
      exact .naming_more hclient hspent proposals_nil copies_nil copies_nil
        rfl hnear hnow hc (by simp) (by simp)

/-- What the server does at its deadline. -/
theorem KnockStage.serverExpires
    (hserver : ∀ n, toServer n < 5000) (hclient : ∀ n, toClient n < 5000)
    {w : KnockWorld} {s : Seat (HandleHello × Nat) Line} {out : List Line}
    (hp : w.Punctual (knocking client config baud toServer toClient lost) 5000
      Const.HANDSHAKE_TIMEOUT)
    (h : KnockStage client config baud session toServer lost w)
    (hact : w.right.act (HandleHello.party config baud) w.now .expire = some (s, out)) :
    KnockStage client config baud session toServer lost
      { w with
        right := s
        left := w.left.deliver w.now
          (knocking client config baud toServer toClient lost).toLeft out } := by
  obtain ⟨e, he, hdue, rfl, rfl⟩ := Seat.act_expire hact
  have hnear := hp.left.ordered.near
  have hnearRight := hp.right.ordered.near
  have hleft := fun {d} => hp.left.not_due (d := d)
  have hright := fun {d} => hp.right.not_due (d := d)
  cases h with
  | asked => cases he
  | offered now l d r text htext hr hl hd hdl =>
      cases he
      exact (hleft rfl (List.cons_ne_nil _ _) (by simp only; omega) hdue).elim
  | agreed now t d hd =>
      cases he
      have hs1 := hserver 1
      exact (hright rfl (List.cons_ne_nil _ _) (by simp only; omega) hdue).elim
  | named now t l hl hd =>
      cases he
      exact (hleft rfl (List.cons_ne_nil _ _) (by simp only; omega) hdue).elim
  | answered now c d q m r phase inbox hrus hphase hhrus hr hq =>
      cases he
      exact (hright rfl (by simp) hr hdue).elim
  | done => cases he
  | helloLost => cases he
  | asking => cases he
  | offerLost now l d r n m hspent hd =>
      obtain ⟨due, _, _, _, heq⟩ := hspent.deliverLeft hclient hnear
      rw [HandleHello.party_expire (by omega), heq]
      exact .offeredLate _ _ _ _ _ _ _ (Or.inr rfl) (hspent.mono (Nat.le_succ _) le_rfl) (by omega)
  | askedAgain now c l d r n m hspent hc =>
      have hnow := hp.right.le_latest rfl (List.cons_ne_nil _ _)
      rw [HandleHello.party_expire (by omega)]
      exact .proposing_more hclient hspent proposals_nil (knocks_singleton 0) hnear hnow hc
        (by simp) (by simp)
  | offeredLate now l d r n m text htext hspent hd =>
      cases he
      exact (hleft rfl (List.cons_ne_nil _ _) (by simp only; omega) hdue).elim
  | proposing now c l d r n m j proposals knocks hspent hproposals hne hknocks hl hd hc hj
      hlength =>
      cases he
      exact (hleft rfl hne (by simp only; omega) hdue).elim
  | accepted now c l d r n m i j proposals knocks hrus hspent hproposals hknocks hhrus hne hr hd hc
      hi hj hlength =>
      cases he
      exact (hright rfl (List.append_ne_nil_of_right_ne_nil _ hne) hr hdue).elim
  | hruLost now c l d r n m hspent hd =>
      obtain ⟨due, _, _, _, heq⟩ := hspent.deliverLeft hclient hnear
      rw [HandleHello.party_expire (by omega), heq]
      exact .reproposed _ _ _ _ _ _ _ _ (Or.inr rfl) (hspent.mono (Nat.le_succ _) le_rfl) (by omega)
  | hruAgain now c l d r n m hspent hc =>
      obtain ⟨due, _, _, _, heq⟩ := hspent.deliverLeft hclient hnear
      rw [HandleHello.party_expire (by omega), heq]
      have hr : r < now + 10000 := hnearRight.trans (Nat.add_lt_add_left (by decide) now)
      exact .accepted _ _ _ _ _ _ _ _ _ _ [] _ (hspent.mono (Nat.le_succ _) le_rfl)
        (proposals_singleton (Or.inr rfl)) nofun copies_singleton (List.cons_ne_nil _ _) hr
        (by omega) hc (by simp) (by simp) (by simp)
  | reproposed now c l d r n m text htext hspent hd =>
      cases he
      exact (hleft rfl (List.cons_ne_nil _ _) (by simp only; omega) hdue).elim
  | naming now c l d r n m i q proposals whos hrus hspent hproposals hwhos hne hhrus hl hd hc
      hi hq =>
      cases he
      exact (hleft rfl (List.append_ne_nil_of_right_ne_nil _ hne) (by simp only; omega) hdue).elim
  | whoLost now t l n hspent hlt =>
      cases he
      have hnow : now ≤ t + 10000 := hp.left.free.2 _ rfl
      simp only at hdue
      omega
  | hruRepeated now c l d r n m hspent hr hc =>
      cases he
      exact (hright rfl (List.cons_ne_nil _ _) hr hdue).elim

theorem KnockStage.step
    (hserver : ∀ n, toServer n < 5000) (hclient : ∀ n, toClient n < 5000)
    (hagrees : session.Agrees client config)
    (hnegotiate : negotiate config ((Hello.offer client).drop 1) =
      .ok (session, Pcutp.offered client))
    (hiam : lost ≠ .toRight 2) (hwho : lost = .toLeft 1 → toServer 2 < toServer 1)
    {w w' : KnockWorld} {e : Timed.Event}
    (hp : w.Punctual (knocking client config baud toServer toClient lost) 5000
      Const.HANDSHAKE_TIMEOUT)
    (h : KnockStage client config baud session toServer lost w)
    (hstep : w.step (knocking client config baud toServer toClient lost) e = some w') :
    KnockStage client config baud session toServer lost w' := by
  cases e with
  | tick =>
      obtain ⟨_, _, rfl⟩ := World.step_tick hstep
      exact h.tick
  | left a =>
      obtain ⟨s, out, hact, rfl⟩ := World.step_left hstep
      cases a with
      | read => exact h.clientReads hserver hagrees hiam hp hact
      | expire => exact h.clientExpires hserver hp hact
  | right a =>
      obtain ⟨s, out, hact, rfl⟩ := World.step_right hstep
      cases a with
      | read => exact h.serverReads hserver hclient hagrees hnegotiate hwho hp hact
      | expire => exact h.serverExpires hserver hclient hp hact

/-- No state report is on its way. -/
theorem KnockStage.plain
    {w : KnockWorld} (h : KnockStage client config baud session toServer lost w)
    (hlistens : w.right.state.1.phase.listens = true) :
    ∀ x ∈ w.right.inbox.queue, Sender.isRmb x.2 = false := by
  have hcopies : ∀ hrus : List (Nat × Line), Copies hruLine hrus →
      ∀ x ∈ hrus, Sender.isRmb x.2 = false := fun hrus hhrus x hx => by
    rw [hhrus x hx]
    exact isRmb_hruLine
  have hknocks : ∀ knocks : List (Nat × Line), Knocks client knocks →
      ∀ x ∈ knocks, Sender.isRmb x.2 = false := fun knocks hknocks x hx => by
    obtain ⟨k, hk⟩ := hknocks x hx
    rw [hk]
    exact isRmb_greeting _
  cases h with
  | asked =>
      intro x hx
      rw [List.mem_singleton.mp hx]
      exact isRmb_greeting _
  | agreed => exact hcopies _ copies_singleton
  | answered now c d q m r phase inbox hrus hphase hhrus hr hq =>
      intro x hx
      rcases List.mem_append.mp hx with hx | hx
      · exact hcopies _ hhrus x hx
      · rw [List.mem_singleton.mp hx]
        exact isRmb_iamLine
  | done => cases hlistens
  | asking =>
      intro x hx
      rw [List.mem_singleton.mp hx]
      exact isRmb_greeting _
  | askedAgain =>
      intro x hx
      rw [List.mem_singleton.mp hx]
      exact isRmb_greeting _
  | proposing now c l d r n m j proposals knocks hspent hproposals hne hk =>
      exact hknocks _ hk
  | accepted now c l d r n m i j proposals knocks hrus hspent hproposals hk hhrus =>
      intro x hx
      rcases List.mem_append.mp hx with hx | hx
      · exact hknocks _ hk x hx
      · exact hcopies _ hhrus x hx
  | hruAgain => exact hcopies _ copies_singleton
  | naming now c l d r n m i q proposals whos hrus hspent hproposals hwhos hne hhrus =>
      exact hcopies _ hhrus
  | hruRepeated => exact hcopies _ copies_singleton
  | _ => exact nofun

/-- While the greeting goes on, an end waits for a deadline. -/
theorem KnockStage.woken
    {w : KnockWorld} (h : KnockStage client config baud session toServer lost w)
    (hnot : ¬ Greeted w) :
    (w.wake (knocking client config baud toServer toClient lost)).isSome = true := by
  cases h with
  | answered now c d q m r phase inbox hrus hphase =>
      obtain ⟨maxblk, rfl⟩ := hphase
      rfl
  | done now c d phase inbox inbox' hphase => exact absurd ⟨hphase, rfl⟩ hnot
  | _ => rfl

end Stage

section Start

variable {client : HelloConfig} {config : ServerConfig} {baud : Nat}
  {toServer toClient : Nat → Nat} {lost : Pick}

/-- The HELLO arrives. -/
theorem knockStart_eq
    (hlost : lost ≠ .toRight 0) :
    knockStart client config baud toServer toClient lost =
      { now := 0
        left := ⟨(Hello.asking client 0, 10000), ⟨[], 0, 0⟩⟩
        right := ⟨(HandleHello.start, 0),
          ⟨[(toServer 0, Hello.greeting client 0)], 1, toServer 0⟩⟩ } := by
  have hput : Wire.empty.puts (knocking client config baud toServer toClient lost).toRight 0
      [Hello.greeting client 0] =
        ⟨[(toServer 0, Hello.greeting client 0)], 1, toServer 0⟩ := by
    rw [Wire.puts_cons, Wire.put_due (by simpa [knocking, Wire.empty] using hlost) (Nat.zero_le _)]
    simp [Wire.empty, knocking]
  rw [knockStart, Hello.start, hput]
  rfl

/-- The HELLO is lost. -/
theorem knockStart_lost :
    knockStart client config baud toServer toClient (.toRight 0) =
      { now := 0
        left := ⟨(Hello.asking client 0, 10000), ⟨[], 0, 0⟩⟩
        right := ⟨(HandleHello.start, 0), ⟨[], 1, 0⟩⟩ } := by
  have hput : Wire.empty.puts (knocking client config baud toServer toClient (.toRight 0)).toRight 0
      [Hello.greeting client 0] = ⟨[], 1, 0⟩ := by
    rw [Wire.puts_cons, Wire.put_lost (by simp [knocking, Wire.empty])]
    rfl
  rw [knockStart, Hello.start, hput]
  rfl

theorem knockStart_punctual
    (hserver : ∀ n, toServer n < 5000) :
    (knockStart client config baud toServer toClient lost).Punctual
      (knocking client config baud toServer toClient lost) 5000 Const.HANDSHAKE_TIMEOUT := by
  have hs0 := hserver 0
  have hempty : Wire.Ordered 5000 0 (Wire.empty : Wire Line) :=
    Wire.ordered_empty (by decide)
  constructor
  · refine ⟨hempty, ⟨fun _ => nofun, fun d _ => Nat.zero_le _⟩, fun d hd => ?_⟩
    obtain rfl := Option.some.inj hd
    exact Nat.le_add_left _ _
  · exact ⟨hempty.puts hserver, ⟨fun _ _ _ => Nat.zero_le _, nofun⟩, nofun⟩

/-- Every run of a recoverable greeting comes to its good end. -/
theorem survives_of_recoverable
    (hserver : ∀ n, toServer n < 5000) (hclient : ∀ n, toClient n < 5000)
    (h : Recoverable client toServer lost) :
    Survives client config baud toServer toClient lost := by
  obtain ⟨hbuffer, hiam, hwho⟩ := h
  obtain ⟨session, hnegotiate, hagrees⟩ := negotiate_offer client config hbuffer
  let sys := knocking client config baud toServer toClient lost
  let start := knockStart client config baud toServer toClient lost
  let rank : KnockWorld → Nat := World.remaining sys Const.HANDSHAKE_TIMEOUT
    (fun s => s.1.phase.rank) (fun s => s.1.phase.rank)
  have hstart : start.Punctual sys 5000 Const.HANDSHAKE_TIMEOUT ∧
      KnockStage client config baud session toServer lost start := by
    refine ⟨knockStart_punctual hserver, ?_⟩
    by_cases hlost : lost = .toRight 0
    · subst hlost
      simp only [start, knockStart_lost]
      exact .helloLost _ _ _ Nat.zero_lt_one (Nat.zero_le _)
    · simp only [start, knockStart_eq hlost]
      exact .asked _ _
  refine ⟨rank start + 1, fun events w hexec hlength => ?_⟩
  by_contra hnot
  have hle : events.length + rank w ≤ rank start := Transition.exec_length_le_until
    (fun w => w.Punctual sys 5000 Const.HANDSHAKE_TIMEOUT ∧
      KnockStage client config baud session toServer lost w) Greeted rank
    (fun _ _ _ hg _ hs => Greeted.step hg hs) (fun w e w' hw _ hs => ?_) hstart hexec hnot
  · omega
  · have hp' := hw.1.step (Hello.party_steady client) (HandleHello.party_steady config baud)
      hclient hserver hs
    have hw' := hw.2.step hserver hclient hagrees hnegotiate hiam hwho hw.1 hs
    exact ⟨⟨hp', hw'⟩, fun hgreeted => hw.1.remaining_lt hp'
      (fun _ _ _ hact => Hello.rank_act hact)
      (fun _ _ _ hact => HandleHello.rank_act hw.2.plain hact) (hw'.woken hgreeted) hs⟩

/-- An offer that the server cannot read fails on any line. -/
theorem raised_of_buffer
    (hserver : ∀ n, toServer n < 5000)
    (hbuffer : ¬ client.receive_buffer ≤ Const.MAX_CAPABILITY) :
    ∃ w, World.Leads (knocking client config baud toServer toClient lost)
      (knockStart client config baud toServer toClient lost) w ∧
        ∃ exc, w.right.state.1.phase = .raised exc := by
  obtain ⟨exc, hnegotiate⟩ := negotiate_offer_error client config hbuffer
  have hread : ∀ now k, (HandleHello.party config baud).read now (HandleHello.start, 0)
      (Hello.greeting client k) =
        ((({ HandleHello.start with phase := .raised exc } : HandleHello), now + 10000), []) := by
    intro now k
    simp only [HandleHello.party, HandleHello.step_first_error hnegotiate, isRmb_greeting,
      Bool.false_eq_true, if_false]
    rfl
  have hs0 := hserver 0
  have hs1 := hserver 1
  by_cases hlost : lost = .toRight 0
  · subst hlost
    have hstart : World.Leads (knocking client config baud toServer toClient (.toRight 0))
        (knockStart client config baud toServer toClient (.toRight 0))
        { now := 0
          left := ⟨(Hello.asking client 0, 10000), ⟨[], 0, 0⟩⟩
          right := ⟨(HandleHello.start, 0), ⟨[], 1, 0⟩⟩ } := by
      rw [← knockStart_lost]
    have hagain := (hstart.pass (t := 10000) (Nat.zero_le _)
      (Seat.free_of_deadline rfl le_rfl (by simp))
      (Seat.free_of_none rfl (by simp))).expireLeft rfl le_rfl
        (Hello.party_expire_answer (by omega))
    rw [Seat.deliver, Wire.puts_cons, Wire.put_due (by simp [knocking]) (Nat.zero_le _)] at hagain
    have hraised := (hagain.pass (t := 10000 + toServer 1) (Nat.le_add_right _ _)
      (Seat.free_of_deadline rfl (by dsimp only; omega) (by simp))
      (Seat.free_of_none rfl (by simp [knocking]))).readRight rfl le_rfl (hread _ _)
    exact ⟨_, hraised, exc, rfl⟩
  · have hstart : World.Leads (knocking client config baud toServer toClient lost)
        (knockStart client config baud toServer toClient lost)
        { now := 0
          left := ⟨(Hello.asking client 0, 10000), ⟨[], 0, 0⟩⟩
          right := ⟨(HandleHello.start, 0),
            ⟨[(toServer 0, Hello.greeting client 0)], 1, toServer 0⟩⟩ } := by
      rw [← knockStart_eq hlost]
    have hraised := (hstart.pass (t := toServer 0) (Nat.zero_le _)
      (Seat.free_of_deadline rfl (by dsimp only; omega) (by simp))
      (Seat.free_of_none rfl (by simp))).readRight rfl le_rfl (hread _ _)
    exact ⟨_, hraised, exc, rfl⟩

/-- Nothing is lost up to HRU. -/
theorem leads_agreed
    (baud : Nat) (lost : Pick) (hserver : ∀ n, toServer n < 5000)
    (hclient : ∀ n, toClient n < 5000) {session : Session}
    (hagrees : session.Agrees client config)
    (hnegotiate : negotiate config ((Hello.offer client).drop 1) = .ok (session, offered client))
    (hhello : lost ≠ .toRight 0) (hoffer : lost ≠ .toLeft 0) (hhru : lost ≠ .toRight 1) :
    ∃ t, World.Leads (knocking client config baud toServer toClient lost)
      (knockStart client config baud toServer toClient lost)
        { now := t
          left := ⟨(Hello.settled client config (.who 0), t + 10000), ⟨[], 1, t⟩⟩
          right := ⟨(HandleHello.settled baud session (.hru 0), toServer 0 + 10000),
            ⟨[(t + toServer 1, hruLine)], 2, t + toServer 1⟩⟩ } ∧
        t < toServer 0 + 5000 := by
  have hs0 := hserver 0
  have hc0 := hclient 0
  have hstart : World.Leads (knocking client config baud toServer toClient lost)
      (knockStart client config baud toServer toClient lost)
      { now := 0
        left := ⟨(Hello.asking client 0, 10000), ⟨[], 0, 0⟩⟩
        right := ⟨(HandleHello.start, 0),
          ⟨[(toServer 0, Hello.greeting client 0)], 1, toServer 0⟩⟩ } := by
    rw [← knockStart_eq hhello]
  have hoffered := (hstart.pass (t := toServer 0) (Nat.zero_le _)
    (Seat.free_of_deadline rfl (by dsimp only; omega) (List.forall_mem_nil _))
    (Seat.free_of_none rfl (by simp))).readRight rfl le_rfl (HandleHello.party_first hnegotiate 0)
  rw [if_pos rfl, Seat.deliver, Wire.puts_cons,
    Wire.put_due (by simpa [knocking] using hoffer) (Nat.zero_le _)] at hoffered
  have hagreed := (hoffered.pass (t := toServer 0 + toClient 0) (Nat.le_add_right _ _)
    (Seat.free_of_deadline rfl (by dsimp only; omega) (by simp [knocking]))
    (Seat.free_of_deadline rfl (by dsimp only; omega) (List.forall_mem_nil _))).readLeft rfl le_rfl
      (Hello.party_offer hagrees (Or.inl rfl))
  rw [Seat.deliver, Wire.puts_cons,
    Wire.put_due (by simpa [knocking] using hhru) (by simp only; omega)] at hagreed
  exact ⟨_, hagreed, by omega⟩

/-- Without IAM the server gives up, although `hello` has returned. -/
theorem raised_of_iam_lost
    (client : HelloConfig) (config : ServerConfig) (baud : Nat)
    (hserver : ∀ n, toServer n < 5000) (hclient : ∀ n, toClient n < 5000)
    (hbuffer : client.receive_buffer ≤ Const.MAX_CAPABILITY) :
    ∃ w, World.Leads (knocking client config baud toServer toClient (.toRight 2))
      (knockStart client config baud toServer toClient (.toRight 2)) w ∧
        (∃ maxblk, w.left.state.1.phase = .returned maxblk) ∧
          ∃ exc, w.right.state.1.phase = .raised exc := by
  obtain ⟨session, hnegotiate, hagrees⟩ := negotiate_offer client config hbuffer
  obtain ⟨t, hagreed, ht⟩ := leads_agreed baud (.toRight 2) hserver hclient hagrees hnegotiate
    nofun nofun (by simp)
  have hs1 := hserver 1
  have hc1 := hclient 1
  have hnamed := (hagreed.pass (t := t + toServer 1) (Nat.le_add_right _ _)
    (Seat.free_of_deadline rfl (by dsimp only; omega) (List.forall_mem_nil _))
    (Seat.free_of_deadline rfl (by dsimp only; omega) (by simp))).readRight rfl le_rfl
      (HandleHello.party_hru hagrees.identity)
  rw [Seat.deliver, Wire.puts_cons, Wire.put_due (by simp [knocking]) (by simp only; omega)]
    at hnamed
  have hreturned := (hnamed.pass (t := t + toServer 1 + toClient 1) (Nat.le_add_right _ _)
    (Seat.free_of_deadline rfl (by dsimp only; omega) (by simp [knocking]))
    (Seat.free_of_deadline rfl (by dsimp only; omega) (List.forall_mem_nil _))).readLeft rfl le_rfl
      Hello.party_who
  rw [Seat.deliver, Wire.puts_cons, Wire.put_lost (by simp [knocking])] at hreturned
  have hraised := (hreturned.pass (t := t + toServer 1 + 10000) (by omega)
    (Seat.free_of_none rfl (List.forall_mem_nil _))
    (Seat.free_of_deadline rfl le_rfl (List.forall_mem_nil _))).expireRight rfl le_rfl (o := []) rfl
  exact ⟨_, hraised, ⟨_, rfl⟩, _, rfl⟩

/-- Without `WHO? 0` a repeated HRU that is no faster than the first one comes too late. -/
theorem raised_of_who_lost
    (hserver : ∀ n, toServer n < 5000) (hclient : ∀ n, toClient n < 5000)
    (hbuffer : client.receive_buffer ≤ Const.MAX_CAPABILITY)
    (hslow : toServer 1 ≤ toServer 2) :
    ∃ w, World.Leads (knocking client config baud toServer toClient (.toLeft 1))
      (knockStart client config baud toServer toClient (.toLeft 1)) w ∧
        ∃ exc, w.right.state.1.phase = .raised exc := by
  obtain ⟨session, hnegotiate, hagrees⟩ := negotiate_offer client config hbuffer
  obtain ⟨t, hagreed, ht⟩ := leads_agreed baud (.toLeft 1) hserver hclient hagrees hnegotiate
    nofun (by simp) nofun
  have hs1 := hserver 1
  have hunnamed := (hagreed.pass (t := t + toServer 1) (Nat.le_add_right _ _)
    (Seat.free_of_deadline rfl (by dsimp only; omega) (List.forall_mem_nil _))
    (Seat.free_of_deadline rfl (by dsimp only; omega) (by simp))).readRight rfl le_rfl
      (HandleHello.party_hru hagrees.identity)
  rw [Seat.deliver, Wire.puts_cons, Wire.put_lost (by simp [knocking])] at hunnamed
  have hrepeated := (hunnamed.pass (t := t + 10000) (by omega)
    (Seat.free_of_deadline rfl le_rfl (List.forall_mem_nil _))
    (Seat.free_of_deadline rfl (by dsimp only; omega) (List.forall_mem_nil _))).expireLeft rfl le_rfl
      (Hello.party_expire_who (by omega))
  rw [Seat.deliver, Wire.puts_cons, Wire.put_due (by simp [knocking]) (by simp only; omega)]
    at hrepeated
  have hraised := (hrepeated.pass (t := t + toServer 1 + 10000) (by omega)
    (Seat.free_of_deadline rfl (by dsimp only; omega) (List.forall_mem_nil _))
    (Seat.free_of_deadline rfl le_rfl (by simp [knocking]; omega))).expireRight rfl le_rfl
      (o := []) rfl
  exact ⟨_, hraised, _, rfl⟩

end Start

/-- Which losses of one line a greeting survives, whatever the delays below half a timeout. -/
theorem greeting_survives_iff
    (client : HelloConfig) (config : ServerConfig) (baud : Nat)
    (toServer toClient : Nat → Nat)
    (hserver : ∀ n, 2 * toServer n < Const.HANDSHAKE_TIMEOUT)
    (hclient : ∀ n, 2 * toClient n < Const.HANDSHAKE_TIMEOUT)
    (lost : Pick) :
    Survives client config baud toServer toClient lost ↔ Recoverable client toServer lost := by
  have hserver : ∀ n, toServer n < 5000 := fun n => by
    have hn := hserver n
    simp only [Const.HANDSHAKE_TIMEOUT] at hn
    omega
  have hclient : ∀ n, toClient n < 5000 := fun n => by
    have hn := hclient n
    simp only [Const.HANDSHAKE_TIMEOUT] at hn
    omega
  refine ⟨fun h => ?_, survives_of_recoverable hserver hclient⟩
  have hbuffer : client.receive_buffer ≤ Const.MAX_CAPABILITY := by
    by_contra hbuffer
    obtain ⟨w, hw, hraised⟩ := raised_of_buffer hserver hbuffer
    exact not_survives_of_raised hw hraised h
  refine ⟨hbuffer, ?_, ?_⟩
  · rintro rfl
    obtain ⟨w, hw, -, hraised⟩ := raised_of_iam_lost client config baud hserver hclient hbuffer
    exact not_survives_of_raised hw hraised h
  · rintro rfl
    by_contra hslow
    obtain ⟨w, hw, hraised⟩ := raised_of_who_lost hserver hclient hbuffer (Nat.le_of_not_lt hslow)
    exact not_survives_of_raised hw hraised h

/-- A client whose buffer holds two frames of 64 bytes. -/
def briefGreeter : HelloConfig where
  max_block_size := 64
  window_limit := 2
  receive_buffer := 1024
  compression_enabled := false
  block_ok := by decide
  window_ok := widestWindow_ok
  buffer_ok := by decide

/-- A server with blocks of at most 64 bytes. -/
def briefServer : ServerConfig where
  auto_block := false
  block_limit := 64
  window_limit := 1
  compression_enabled := false
  max_retries := Const.MAX_RETRIES
  probe_retries := Const.PROBE_RETRIES
  estimates := { saves := fun _ _ _ => false, cheaper := fun _ _ _ => false }
  block_ok := by decide
  window_ok := plainWindow_ok

/-- A lost HRU on a line with a delay of one second. -/
theorem greeting_survives_lost_hru :
    Survives briefGreeter briefServer 115200 (fun _ => 1000) (fun _ => 1000) (.toRight 1) :=
  (greeting_survives_iff _ _ _ _ _ (fun _ => by decide) (fun _ => by decide) _).mpr
    ⟨by decide, by decide, nofun⟩

/-- A lost IAM, without any delay. -/
theorem greeting_fails_lost_iam :
    ¬ Survives briefGreeter briefServer 115200 (fun _ => 0) (fun _ => 0) (.toRight 2) := by
  have hno : ∀ _ : Nat, 0 < 5000 := fun _ => by omega
  obtain ⟨w, hw, -, hraised⟩ :=
    raised_of_iam_lost briefGreeter briefServer 115200 hno hno (by decide)
  exact not_survives_of_raised hw hraised

end Pcutp
