import Pcutp.KeepAlive

/-!
# Probes and their answers

A peer answers a PING with a PONG and an AYT? with a HERE, each with the id of
the probe.  Ids are single bits that both kinds of probe share, so an answer to
an earlier probe can carry the id that is outstanding now.

An `Exchange` numbers the probes and remembers which probe a line on its way
answers.  As long as no probe is sent with the id of one that can still be
answered, whatever confirms the link is an answer to the last probe.
-/

namespace Pcutp

/-- A link that is kept alive, the probes its peer has not dealt with, and the lines on their way
to it.  A probe goes with its number; a line goes with the number of the probe it answers. -/
structure Exchange where
  watch : Watch
  asked : List (Signal × Nat)
  coming : List (Option Nat × Line)
  /-- The number of probes sent. -/
  sent : Nat

/-- What can happen between a link and its peer. -/
inductive ExchangeEvent
  | poll (now : Nat)
  /-- The link reads the oldest line on its way. -/
  | read (t₁ t₂ : Nat)
  /-- The peer answers one of the probes it has not dealt with. -/
  | answer (i n : Nat)
  /-- The peer will not answer a probe, or never got it. -/
  | drop (i : Nat)
  /-- The peer sends a line of its own. -/
  | say (text : Line)

/-- The answer of the peer to a probe. -/
def Signal.answer (n : Nat) : Signal → Line
  | ping bit => join ["PONG".toList, bitLine bit]
  | ayt bit => join ["HERE".toList, bitLine bit, dec n]
  | _ => []

namespace Exchange

/-- One event. -/
def step (ka : KeepAlive) (x : Exchange) : ExchangeEvent → Option (Exchange × List Signal)
  | .poll now =>
      (x.watch.step ka (.poll now)).map fun r =>
        let probes := r.2.filter fun s => s.probe?.isSome
        ({ x with
            watch := r.1
            asked := x.asked ++ probes.zipIdx x.sent
            sent := x.sent + probes.length }, r.2)
  | .read t₁ t₂ =>
      match x.coming with
      | [] => none
      | (_, text) :: coming =>
          (x.watch.step ka (.line text t₁ t₂)).map fun r =>
            ({ x with watch := r.1, coming }, r.2)
  | .answer i n =>
      x.asked[i]?.map fun probe =>
        ({ x with
            asked := x.asked.eraseIdx i
            coming := x.coming ++ [(some probe.2, probe.1.answer n)] }, [])
  | .drop i =>
      if i < x.asked.length then some ({ x with asked := x.asked.eraseIdx i }, []) else none
  | .say text =>
      if isPong (split text) || isHere (split text) then
        none
      else
        some ({ x with coming := x.coming ++ [(none, text)] }, [])

/-- The read begins, while the probes of earlier reads can still be answered. -/
def start (o : Opening) (earlier : List Signal) : Exchange where
  watch := Watch.start o
  asked := (earlier.filter fun s => s.probe?.isSome).zipIdx 0
  coming := []
  sent := (earlier.filter fun s => s.probe?.isSome).length

/-- The next line that is read clears the outstanding probe. -/
def confirms (x : Exchange) : Bool :=
  x.coming.head?.any fun line =>
    (isPong (split line.2) || isHere (split line.2)) &&
      decide (x.watch.outstanding = some (word (split line.2) 1))

/-- The next line that is read answers the last probe sent. -/
def answersLast (x : Exchange) : Bool :=
  x.coming.head?.any fun line => decide (line.1.map (· + 1) = some x.sent)

/-- A line that clears the outstanding probe answers the last probe sent. -/
def FreshAnswer (x : Exchange) (e : ExchangeEvent) (_ : Exchange) (_ : List Signal) : Prop :=
  match e with
  | .read _ _ => x.confirms = true → x.answersLast = true
  | _ => True

/-- No answer to a probe with this id can still arrive. -/
def Spent (x : Exchange) (id : Line) : Prop :=
  (∀ probe ∈ x.asked, probe.1.probe? ≠ some id) ∧
    ∀ line ∈ x.coming, line.1.isSome = true → word (split line.2) 1 ≠ id

/-- A poll sends no probe with the id of one that can still be answered. -/
def NoReuse (x : Exchange) (e : ExchangeEvent) (_ : Exchange) (out : List Signal) : Prop :=
  match e with
  | .poll _ => ∀ id ∈ out.filterMap Signal.probe?, x.Spent id
  | _ => True

instance (x : Exchange) (id : Line) : Decidable (x.Spent id) :=
  inferInstanceAs (Decidable (_ ∧ _))

instance (x : Exchange) (e : ExchangeEvent) (x' : Exchange) (out : List Signal) :
    Decidable (FreshAnswer x e x' out) :=
  match e with
  | .poll _ => .isTrue trivial
  | .read _ _ => inferInstanceAs (Decidable (x.confirms = true → x.answersLast = true))
  | .answer _ _ => .isTrue trivial
  | .drop _ => .isTrue trivial
  | .say _ => .isTrue trivial

instance (x : Exchange) (e : ExchangeEvent) (x' : Exchange) (out : List Signal) :
    Decidable (NoReuse x e x' out) :=
  match e with
  | .poll _ => inferInstanceAs (Decidable (∀ id ∈ out.filterMap Signal.probe?, x.Spent id))
  | .read _ _ => .isTrue trivial
  | .answer _ _ => .isTrue trivial
  | .drop _ => .isTrue trivial
  | .say _ => .isTrue trivial

section Invariant

variable {ka : KeepAlive}

/-- What is outstanding is the last probe, and only answers to it carry its id. -/
structure Single (x : Exchange) : Prop where
  probes : ∀ probe ∈ x.asked, probe.1.probe?.isSome = true
  asked : ∀ id, x.watch.outstanding = some id →
    ∀ probe ∈ x.asked, probe.1.probe? = some id → probe.2 + 1 = x.sent
  coming : ∀ id, x.watch.outstanding = some id →
    ∀ line ∈ x.coming, ∀ k, line.1 = some k → word (split line.2) 1 = id → k + 1 = x.sent
  own : ∀ line ∈ x.coming, line.1 = none →
    (isPong (split line.2) || isHere (split line.2)) = false

theorem single_start (o : Opening) (earlier : List Signal) : Single (start o earlier) where
  probes := fun probe h => by
    obtain ⟨s, n⟩ := probe
    have hmem := List.fst_mem_of_mem_zipIdx h
    exact (List.mem_filter.mp hmem).2
  asked := fun _ h => by cases h
  coming := fun _ h => by cases h
  own := fun _ h => absurd h List.not_mem_nil

theorem isWord_bitLine (b : Bool) : IsWord (bitLine b) := by
  cases b
  · exact isWord_of_check (by decide)
  · exact isWord_of_check (by decide)

/-- An answer carries the id of its probe. -/
theorem word_answer
    {p : Signal} {id : Line} (hp : p.probe? = some id) (n : Nat) :
    word (split (p.answer n)) 1 = id := by
  have hpong : IsWord "PONG".toList := isWord_of_check (by decide)
  have hhere : IsWord "HERE".toList := isWord_of_check (by decide)
  cases p with
  | ping bit =>
      cases hp
      rw [Signal.answer, split_join]
      · rfl
      · simpa only [List.forall_mem_cons, List.not_mem_nil, false_implies, implies_true,
          and_true] using ⟨hpong, isWord_bitLine bit⟩
  | ayt bit =>
      cases hp
      rw [Signal.answer, split_join]
      · rfl
      · simpa only [List.forall_mem_cons, List.not_mem_nil, false_implies, implies_true,
          and_true] using ⟨hhere, isWord_bitLine bit, isWord_dec n⟩
  | pong | aytOk | beacon | mark => cases hp

/-- The probes of a poll: none and the same id outstanding, or one and its id. -/
theorem probes_poll
    {w w' : Watch} {now : Nat} {sent : List Signal}
    (hstep : w.step ka (.poll now) = some (w', sent)) :
    (sent.filter (fun s => s.probe?.isSome) = [] ∧ w'.outstanding = w.outstanding) ∨
    ∃ p id, sent.filter (fun s => s.probe?.isSome) = [p] ∧ p.probe? = some id ∧
      w'.outstanding = some id := by
  obtain ⟨hlive, _, hw, hsent⟩ := Watch.step_poll hstep
  have hkind : Watch.PollKind ka w now _ _ := Watch.poll_cases hlive
  rw [← hsent] at hkind
  rcases hkind.summary with ⟨ending, heq, hsame⟩ | ⟨p, id, _, _, ending, _, hp, hprobe, heq⟩ |
      ⟨p, id, _, ending, _, _, _, _, hp, hprobe, heq⟩
  · refine Or.inl ⟨by rw [hsame, Watch.beaconSent_probes], ?_⟩
    rw [hw, heq]
    exact Watch.beaconed_outstanding
  · refine Or.inr ⟨p, id, ?_, hp, by rw [hw, heq]⟩
    rw [hprobe, Watch.beaconSent_append now (by rw [hp]; rfl)]
  · refine Or.inr ⟨p, id, ?_, hp, by rw [hw, heq]⟩
    rw [hprobe, Watch.beaconSent_append now (by rw [hp]; rfl)]

/-- A line leaves the outstanding probe or clears it. -/
theorem outstanding_read
    {w w' : Watch} {text : Line} {t₁ t₂ : Nat} {sent : List Signal}
    (hstep : w.step ka (.line text t₁ t₂) = some (w', sent)) :
    w'.outstanding = none ∨ w'.outstanding = w.outstanding := by
  obtain ⟨_, _, _, hw, _⟩ := Watch.step_line hstep
  have hkind : Watch.LineKind ka w text t₁ t₂ _ _ := Watch.line_cases
  rw [hw]
  dsimp only
  generalize w.onLine ka text t₁ t₂ = r at hkind ⊢
  obtain ⟨v, out⟩ := r
  cases hkind with
  | beacon | marker | ping | ignored | returned => exact Or.inr rfl
  | marked | pong | here => exact Or.inl rfl

theorem Single.poll
    {x x' : Exchange} {now : Nat} {out : List Signal}
    (h : Single x) (hstep : x.step ka (.poll now) = some (x', out))
    (hreuse : NoReuse x (.poll now) x' out) :
    Single x' := by
  simp only [step, Option.map_eq_some_iff] at hstep
  obtain ⟨⟨w', sent⟩, hwatch, heq⟩ := hstep
  cases heq
  rcases probes_poll hwatch with ⟨hnone, hout⟩ | ⟨p, id, hone, hp, hout⟩
  · simp only [hnone]
    refine ⟨?_, ?_, ?_, h.own⟩
    · simpa using h.probes
    · intro id hid
      rw [hout] at hid
      simpa using h.asked id hid
    · intro id hid
      rw [hout] at hid
      simpa using h.coming id hid
  · have hspent : x.Spent id := by
      refine hreuse id (List.mem_filterMap.mpr ⟨p, ?_, hp⟩)
      have hmem : p ∈ sent.filter fun s => s.probe?.isSome := by
        rw [hone]
        exact List.mem_singleton.mpr rfl
      exact (List.mem_filter.mp hmem).1
    simp only [hone]
    refine ⟨?_, ?_, ?_, h.own⟩
    · intro probe hprobe
      rcases List.mem_append.mp hprobe with hold | hnew
      · exact h.probes probe hold
      · simp only [List.zipIdx_cons, List.zipIdx_nil, List.mem_singleton] at hnew
        rw [hnew, hp]
        rfl
    · intro id' hid probe hprobe hsame
      dsimp only at hid
      rw [hout] at hid
      cases hid
      rcases List.mem_append.mp hprobe with hold | hnew
      · exact absurd hsame (hspent.1 probe hold)
      · simp only [List.zipIdx_cons, List.zipIdx_nil, List.mem_singleton] at hnew
        rw [hnew]
        rfl
    · intro id' hid line hline k hk hword
      dsimp only at hid
      rw [hout] at hid
      cases hid
      exact absurd hword (hspent.2 line hline (by rw [hk]; rfl))

/-- What is under way only gets less, or moves from the peer to the line. -/
theorem Single.of_subset
    {x x' : Exchange} (h : Single x)
    (hout : x'.watch.outstanding = none ∨ x'.watch.outstanding = x.watch.outstanding)
    (hsent : x'.sent = x.sent)
    (hasked : ∀ probe ∈ x'.asked, probe ∈ x.asked)
    (hcoming : ∀ line ∈ x'.coming, line ∈ x.coming ∨
      (line.1 = none ∧ (isPong (split line.2) || isHere (split line.2)) = false) ∨
      ∃ probe ∈ x.asked, ∃ n, line = (some probe.2, probe.1.answer n)) :
    Single x' := by
  have hold : ∀ id, x'.watch.outstanding = some id → x.watch.outstanding = some id := by
    intro id hid
    rcases hout with hnone | hsame
    · rw [hnone] at hid
      cases hid
    · exact hsame ▸ hid
  refine ⟨fun probe hprobe => h.probes probe (hasked probe hprobe), ?_, ?_, ?_⟩
  · intro id hid probe hprobe hsame
    rw [hsent]
    exact h.asked id (hold id hid) probe (hasked probe hprobe) hsame
  · intro id hid line hline k hk hword
    rw [hsent]
    rcases hcoming line hline with hmem | ⟨hnone, _⟩ | ⟨probe, hprobe, n, rfl⟩
    · exact h.coming id (hold id hid) line hmem k hk hword
    · rw [hnone] at hk
      cases hk
    · cases hk
      obtain ⟨id', hid'⟩ := Option.isSome_iff_exists.mp (h.probes probe hprobe)
      rw [word_answer hid' n] at hword
      exact h.asked id (hold id hid) probe hprobe (hword ▸ hid')
  · intro line hline hnone
    rcases hcoming line hline with hmem | ⟨_, hown⟩ | ⟨probe, _, n, rfl⟩
    · exact h.own line hmem hnone
    · exact hown
    · cases hnone

/-- Every event keeps the outstanding id to the last probe, if none is reused. -/
theorem single_step
    {x x' : Exchange} {e : ExchangeEvent} {out : List Signal}
    (h : Single x) (hstep : x.step ka e = some (x', out)) (hreuse : NoReuse x e x' out) :
    Single x' := by
  cases e with
  | poll now => exact h.poll hstep hreuse
  | read t₁ t₂ =>
      simp only [step] at hstep
      split at hstep
      · cases hstep
      · rename_i tag text coming hcoming
        rw [Option.map_eq_some_iff] at hstep
        obtain ⟨⟨w', sent⟩, hwatch, heq⟩ := hstep
        cases heq
        refine h.of_subset (outstanding_read hwatch) rfl (fun _ hprobe => hprobe) ?_
        intro line hline
        rw [hcoming]
        exact Or.inl (List.mem_cons_of_mem _ hline)
  | answer i n =>
      simp only [step, Option.map_eq_some_iff] at hstep
      obtain ⟨probe, hprobe, heq⟩ := hstep
      cases heq
      refine h.of_subset (Or.inr rfl) rfl (fun _ hmem => List.mem_of_mem_eraseIdx hmem) ?_
      intro line hline
      rcases List.mem_append.mp hline with hold | hnew
      · exact Or.inl hold
      · exact Or.inr (Or.inr ⟨probe, List.mem_of_getElem? hprobe, n, List.mem_singleton.mp hnew⟩)
  | drop i =>
      simp only [step] at hstep
      split_ifs at hstep
      cases hstep
      exact h.of_subset (Or.inr rfl) rfl (fun _ hmem => List.mem_of_mem_eraseIdx hmem)
        (fun _ hline => Or.inl hline)
  | say text =>
      simp only [step] at hstep
      split_ifs at hstep with hanswer
      cases hstep
      refine h.of_subset (Or.inr rfl) rfl (fun _ hmem => hmem) ?_
      intro line hline
      rcases List.mem_append.mp hline with hold | hnew
      · exact Or.inl hold
      · rw [List.mem_singleton.mp hnew]
        exact Or.inr (Or.inl ⟨rfl, by simpa using hanswer⟩)

/-- While ids are not reused, what confirms the link answers the last probe. -/
theorem Single.fresh
    {x : Exchange} (h : Single x) (hconfirms : x.confirms = true) :
    x.answersLast = true := by
  unfold confirms at hconfirms
  unfold answersLast
  cases hcoming : x.coming with
  | nil =>
      rw [hcoming] at hconfirms
      cases hconfirms
  | cons line rest =>
      rw [hcoming] at hconfirms
      simp only [List.head?_cons, Option.any_some, Bool.and_eq_true, decide_eq_true_eq]
        at hconfirms ⊢
      obtain ⟨hanswer, hout⟩ := hconfirms
      have hmem : line ∈ x.coming := by
        rw [hcoming]
        exact List.mem_cons_self
      cases htag : line.1 with
      | none =>
          have := h.own line hmem htag
          rw [hanswer] at this
          cases this
      | some k => exact congrArg some (h.coming _ hout line hmem k htag rfl)

end Invariant

end Exchange

open Exchange

/-- In a run that reuses no id of a probe that can still be answered, every PONG and HERE that
confirms the link answers the last probe sent. -/
theorem confirming_answer_is_fresh
    (ka : KeepAlive) (o : Opening) (earlier : List Signal) (events : List ExchangeEvent)
    (hreuse : Machine.Always (Exchange.step ka) NoReuse (Exchange.start o earlier) events) :
    Machine.Always (Exchange.step ka) FreshAnswer (Exchange.start o earlier) events := by
  refine Machine.always_of_inv Single (fun x e x' out h hstep hP => ⟨?_, single_step h hstep hP⟩)
    (single_start o earlier) hreuse
  cases e with
  | read t₁ t₂ => exact h.fresh
  | poll | answer | drop | say => trivial

/-- The answers to an AYT? of an earlier read, to PING 0 and to PING 1 come one probe late, the one
to AYT? 0 in time. -/
def staleAnswers : List ExchangeEvent :=
  [.poll 4, .poll 5, .answer 0 7, .read 6 6, .poll 10, .answer 0 0, .read 11 11, .poll 15,
    .answer 0 0, .read 16 16, .answer 0 7, .read 17 17]

/-- None of the stale answers is accepted, the fresh one is. -/
theorem confirming_answer_is_fresh_stale :
    Machine.Always (Exchange.step defaultKeepAlive) FreshAnswer
        (Exchange.start hourOpening [.ayt true]) staleAnswers ∧
      ([4, 7, 10, 12].map fun n =>
        ((Machine.run (Exchange.step defaultKeepAlive)
          (Exchange.start hourOpening [.ayt true], []) (staleAnswers.take n)).map fun x =>
            x.1.watch.outstanding)) =
        [some (some "0".toList), some (some "1".toList), some (some "0".toList), some none] :=
  ⟨confirming_answer_is_fresh defaultKeepAlive hourOpening [.ayt true] staleAnswers
    (by decide +kernel), by decide +kernel⟩

/-- PING 0 is answered when AYT? 0 is outstanding. -/
def lateAnswer : List ExchangeEvent :=
  [.poll 4, .poll 5, .poll 10, .poll 15, .answer 0 0, .read 16 16]

/-- The late PONG of the first probe confirms the third. -/
theorem late_answer_confirms :
    ¬ Machine.Always (Exchange.step defaultKeepAlive) FreshAnswer (Exchange.start hourOpening [])
      lateAnswer := by
  decide +kernel

end Pcutp
