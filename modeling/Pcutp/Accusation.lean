import Pcutp.Polite

/-!
# Which replies end a transfer

Over a line that only loses and delays, every reply the sender reads comes from
the receiver's own turns.  Three reads do not expect what may still be on the
way: a late wait for a reply and the guard of a probe raise on the second
answer to a barrier, and the guard of a second probe on an answer to the first.
`rejects` names them.  A run without such a read ends only by exhaustion.
-/

namespace Pcutp

/-- The classes an exhausted sender raises. -/
def exhaustion : List ErrorClass :=
  [.timeout, .retry, .linkLost]

/-- The reads that raise on a RESUME or a HERE which is merely late. -/
def Sender.rejects (s : Sender) (r : Reply) (late : Bool) : Bool :=
  match s.phase, r with
  | .reply, .resume _ _ => late
  | .guard _, .resume _ _ => true
  | .guard again, .here _ _ => again
  | _, _ => false

namespace Sender

/-- What a step raises is exhaustion, or a wrong sequence number. -/
def Exhausts (p : Sender × List Command) : Prop :=
  ∀ exc, p.1.phase = .raised exc → exc.cls ∈ exhaustion ∨ exc.message ∈ seriousMessages

section Steps

variable {job : Job} {s : Sender} {late : Bool}

theorem exhausts_fail
    {exc : PcutpError} (h : exc.cls ∈ exhaustion ∨ exc.message ∈ seriousMessages) :
    Exhausts (s.fail exc) := by
  intro exc' heq
  cases heq
  exact h

theorem exhausts_of_phase
    {p : Sender × List Command} (h : ∀ exc, p.1.phase ≠ .raised exc) :
    Exhausts p :=
  fun exc heq => absurd heq (h exc)

theorem exhausts_ask (left : Nat) :
    Exhausts (s.ask left) := by
  cases left <;> exact exhausts_of_phase (by simp [ask])

theorem exhausts_askReset (left : Nat) :
    Exhausts (s.askReset left) := by
  cases left with
  | zero => exact exhausts_fail (Or.inl (by decide))
  | succ left => exact exhausts_of_phase (by simp [askReset])

theorem exhausts_askBarrier (reset : Bool) (left : Nat) :
    Exhausts (s.askBarrier reset left) := by
  cases left with
  | zero => exact exhausts_fail (Or.inl (by decide))
  | succ left => exact exhausts_of_phase (by simp [askBarrier])

theorem exhausts_resume (reset : Bool) (n : Nat) :
    Exhausts (s.resume job reset n) := by
  simp only [Sender.resume]
  split
  · split
    · exact exhausts_fail (Or.inr (by decide))
    · exact exhausts_of_phase (by simp)
  · by_cases hmax : (if s.base < n then 0 else s.recoveries + 1) > job.session.config.max_retries
    · rw [if_pos hmax]
      exact exhausts_fail (Or.inl (by decide))
    · rw [if_neg hmax]
      exact exhausts_of_phase (by simp)

theorem exhausts_dispatch_reset :
    Exhausts (s.dispatch job ["RST".toList, "0".toList] late) := by
  rw [dispatch_rst]
  split
  · exact exhausts_fail (Or.inl (by decide))
  · exact exhausts_of_phase (by simp [recover])

theorem exhausts_dispatch_gap
    {parts : List Line} (h : word parts 0 = "NAK".toList ∨ word parts 0 = "DROP".toList) :
    Exhausts (s.dispatch job parts late) := by
  rw [dispatch_gap job s late h]
  exact exhausts_of_phase (by simp [recover])

theorem exhausts_dispatch_ack (a : Nat) :
    Exhausts (s.dispatch job (Reply.ack a).words late) := by
  rw [dispatch_ack]
  split
  · exact exhausts_fail (Or.inr (by decide))
  · split
    · split
      · exact exhausts_fail (Or.inl (by decide))
      · exact exhausts_of_phase (by simp)
    · exact exhausts_of_phase (by simp [advance])

/-- A stale RESUME is skipped while there is time. -/
theorem exhausts_dispatch_resume
    {t : Nat} (n : Nat) (hpos : 0 < t) (hle : t ≤ s.barrier_id) :
    Exhausts (s.dispatch job (Reply.resume (dec t) n).words false) := by
  rw [dispatch_other job s false (by simp [Reply.words]) (by simp [Reply.words])]
  rw [if_pos (by simp [oldResume, Reply.words, hpos, hle])]
  exact exhausts_of_phase (by simp)

/-- The RST-ACKs that a read may meet. -/
def Acknowledges (s : Sender) (w : Line) : Prop :=
  match s.phase with
  | .ayt _ => True
  | .rst _ => w = dec s.barrier_id
  | .barrier _ _ => s.reset_token = some w
  | _ => False

section Waits

variable {r : Reply} {left : Nat}

theorem exhausts_onProbe
    (hwindowed : r.Windowed) (hphase : s.phase = .ayt left) :
    Exhausts (s.onProbe job left r.words late) := by
  rw [onProbe]
  split
  · exact exhausts_dispatch_gap (Or.inr rfl)
  · split
    · rename_i hword
      cases r with
      | ack a => exact exhausts_dispatch_ack a
      | nak e why => exact exhausts_dispatch_gap (Or.inl rfl)
      | drop e why => exact exhausts_dispatch_gap (Or.inr rfl)
      | here w e => simp [Reply.words] at hword
      | rstAck w => simp [Reply.words] at hword
      | resume w n => simp [Reply.words] at hword
      | _ => cases hwindowed
    · split
      · exact exhausts_ask _
      · exact exhausts_of_phase (by simp [hphase])

theorem exhausts_onReply
    (hwindowed : r.Windowed) (hack : ∀ w, r = .rstAck w → s.Acknowledges w)
    (htoken : r.TokenLe s.barrier_id) (hphase : s.phase = .reply)
    (hrejects : s.rejects r late = false) :
    Exhausts (s.onReply job r.words late) := by
  rw [onReply]
  split
  · split
    · exact exhausts_of_phase (by simp)
    · exact exhausts_of_phase (by simp [hphase])
  · rename_i hhere
    cases r with
    | ack a => exact exhausts_dispatch_ack a
    | nak e why => exact exhausts_dispatch_gap (Or.inl rfl)
    | drop e why => exact exhausts_dispatch_gap (Or.inr rfl)
    | here w e => exact absurd rfl hhere
    | rstAck w =>
        have hno := hack w rfl
        simp [Acknowledges, hphase] at hno
    | resume w n =>
        obtain ⟨t, rfl, hpos⟩ := hwindowed
        obtain ⟨t', hle, heq⟩ := htoken
        obtain rfl := dec_injective heq
        have hlate : late = false := by simpa [rejects, hphase] using hrejects
        rw [hlate]
        exact exhausts_dispatch_resume n hpos hle
    | _ => cases hwindowed

theorem exhausts_onGuard
    (hwindowed : r.Windowed) (hack : ∀ w, r = .rstAck w → s.Acknowledges w)
    {again : Bool} (hr : r.Printable) (hphase : s.phase = .guard again)
    (hrejects : s.rejects r late = false) :
    Exhausts (s.onGuard job again r.line) := by
  rw [onGuard, if_neg (Reply.line_ne_nil hr), Reply.split_line hr]
  split
  · exact exhausts_of_phase (by simp)
  · rename_i hhere
    cases r with
    | ack a => exact exhausts_dispatch_ack a
    | nak e why => exact exhausts_dispatch_gap (Or.inl rfl)
    | drop e why => exact exhausts_dispatch_gap (Or.inr rfl)
    | here w e =>
        have hagain : again = false := by simpa [rejects, hphase] using hrejects
        exact absurd ⟨hagain, rfl⟩ hhere
    | rstAck w =>
        have hno := hack w rfl
        simp [Acknowledges, hphase] at hno
    | resume w n => simp [rejects, hphase] at hrejects
    | _ => cases hwindowed

theorem exhausts_onReset
    (hwindowed : r.Windowed) (hack : ∀ w, r = .rstAck w → s.Acknowledges w)
    (hphase : s.phase = .rst left) :
    Exhausts (s.onReset job left r.words late) := by
  rw [onReset]
  split
  · exact exhausts_dispatch_reset
  · rename_i hother
    split
    · split
      · exact exhausts_askReset _
      · exact exhausts_of_phase (by simp [hphase])
    · rename_i hword
      cases r with
      | rstAck w =>
          have hw := hack w rfl
          simp only [Acknowledges, hphase] at hw
          exact absurd (by rw [hw]; rfl) hother
      | _ => first | cases hwindowed; done | simp [Reply.words] at hword

theorem exhausts_onBarrier
    (hwindowed : r.Windowed) (hack : ∀ w, r = .rstAck w → s.Acknowledges w)
    {reset : Bool} (hphase : s.phase = .barrier reset left) :
    Exhausts (s.onBarrier job reset left r.words late) := by
  rw [onBarrier]
  generalize (if reset = true then 0 else s.base) = lo
  split
  · split
    · exact exhausts_resume _ _
    · exact exhausts_fail (Or.inr (by decide))
  · split
    · split
      · exact exhausts_askBarrier _ _
      · exact exhausts_of_phase (by simp [hphase])
    · rename_i hother
      cases r with
      | rstAck w =>
          have hw := hack w rfl
          simp only [Acknowledges, hphase] at hw
          exact absurd (Or.inl ⟨w, hw, rfl⟩) hother
      | _ => first | cases hwindowed; done | simp [Reply.words] at hother

end Waits

theorem exhausts_onFinal
    {parts : List Line} (hphase : s.phase = .final) :
    Exhausts (s.onFinal job parts late) := by
  rw [onFinal]
  split
  · split
    · intro exc heq
      cases heq
      exact Or.inl (by decide)
    · exact exhausts_of_phase (by simp [hphase])
  · exact exhausts_of_phase (by simp)

/-- A reply that is not rejected ends the window only by exhaustion. -/
theorem exhausts_reply
    {r : Reply} (hr : r.Printable) {s' : Sender} {out : List Command}
    (htoken : r.TokenLe s.barrier_id)
    (hwindow : s.phase ≠ .ready → s.phase ≠ .final →
      r.Windowed ∧ ∀ w, r = .rstAck w → s.Acknowledges w)
    (hrejects : s.rejects r late = false)
    (hblock : ∀ attempt timeouts, s.phase ≠ .block attempt timeouts)
    (h : s.step job (.line r.line late) = some (s', out)) :
    Exhausts (s', out) := by
  rw [step, if_neg (by rw [Reply.isRmb_line hr]; simp), onLine] at h
  have hsome : ∀ {p : Sender × List Command}, Exhausts p → some p = some (s', out) →
      Exhausts (s', out) := by
    intro p hp heq
    rw [← Option.some.inj heq]
    exact hp
  have hwindow' : ∀ {phase : SendPhase}, s.phase = phase → phase ≠ .ready → phase ≠ .final →
      r.Windowed ∧ ∀ w, r = .rstAck w → s.Acknowledges w :=
    fun hphase => hphase ▸ hwindow
  split at h <;> rename_i hphase
  · split at h <;> cases h <;> exact exhausts_of_phase (by simp)
  · obtain ⟨hwindowed, hack⟩ := hwindow' hphase (by simp) (by simp)
    rw [Reply.split_line hr] at h
    exact hsome (exhausts_onReply hwindowed hack htoken hphase hrejects) h
  · obtain ⟨hwindowed, hack⟩ := hwindow' hphase (by simp) (by simp)
    exact hsome (exhausts_onGuard hwindowed hack hr hphase hrejects) h
  · obtain ⟨hwindowed, _⟩ := hwindow' hphase (by simp) (by simp)
    rw [Reply.split_line hr] at h
    exact hsome (exhausts_onProbe hwindowed hphase) h
  · obtain ⟨hwindowed, hack⟩ := hwindow' hphase (by simp) (by simp)
    rw [Reply.split_line hr] at h
    exact hsome (exhausts_onReset hwindowed hack hphase) h
  · obtain ⟨hwindowed, hack⟩ := hwindow' hphase (by simp) (by simp)
    rw [Reply.split_line hr] at h
    exact hsome (exhausts_onBarrier hwindowed hack hphase) h
  · exact absurd hphase (hblock _ _)
  · exact hsome (exhausts_onFinal hphase) h
  · cases h

/-- A timeout ends the window only by exhaustion. -/
theorem exhausts_timeout
    {s' : Sender} {out : List Command} (h : s.step job .timeout = some (s', out)) :
    Exhausts (s', out) := by
  have hsome : ∀ {p : Sender × List Command}, Exhausts p → some p = some (s', out) →
      Exhausts (s', out) := by
    intro p hp heq
    rw [← Option.some.inj heq]
    exact hp
  have htime : Exhausts (s.raise (TimeoutError_ "timed out waiting for a control line")) := by
    intro exc heq
    cases heq
    exact Or.inl (by decide)
  rw [step, onTimeout] at h
  split at h <;> rename_i hphase
  · exact hsome htime h
  · exact hsome (exhausts_of_phase (by simp)) h
  · exact hsome (exhausts_ask _) h
  · exact hsome (exhausts_ask _) h
  · exact hsome (exhausts_askReset _) h
  · exact hsome (exhausts_askBarrier _ _) h
  · refine hsome ?_ h
    rw [onBlockTimeout]
    split
    · exact exhausts_fail (Or.inl (by decide))
    · rw [sendAgain]
      split
      · exact exhausts_of_phase (by simp [sendBlock])
      · exact exhausts_fail (Or.inl (by decide))
  · exact hsome htime h
  · cases h

/-- A reply that is rejected raises a `ProtocolError`. -/
theorem raises_of_rejects
    {r : Reply} (hr : r.Printable) (hrejects : s.rejects r late = true)
    {s' : Sender} {out : List Command} (h : s.step job (.line r.line late) = some (s', out)) :
    s'.phase = .raised (ProtocolError "unexpected window reply") := by
  rw [step, if_neg (by rw [Reply.isRmb_line hr]; simp), onLine] at h
  unfold rejects at hrejects
  split at hrejects
  · rename_i w n hphase
    simp only [hphase, Reply.split_line hr, Option.some.injEq] at h
    rw [onReply, if_neg (by simp [Reply.words]),
      dispatch_other job s late (by simp [Reply.words]) (by simp [Reply.words]),
      if_neg (by simp [hrejects])] at h
    cases h
    rfl
  · rename_i again w n hphase
    simp only [hphase, Option.some.injEq] at h
    rw [onGuard, if_neg (Reply.line_ne_nil hr), Reply.split_line hr,
      if_neg (by simp [Reply.words]),
      dispatch_other job s true (by simp [Reply.words]) (by simp [Reply.words]),
      if_neg (by simp)] at h
    cases h
    rfl
  · rename_i again w n hphase
    simp only [hphase, Option.some.injEq] at h
    rw [onGuard, if_neg (Reply.line_ne_nil hr), Reply.split_line hr,
      if_neg (by simp [hrejects]),
      dispatch_other job s true (by simp [Reply.words]) (by simp [Reply.words]),
      if_neg (by simp)] at h
    cases h
    rfl
  · cases hrejects

end Steps

end Sender

section Invariant

variable {cfg : ClientConfig} {job : Job} {s s' : Transfer cfg}

/-- The reads of the next step expect the reply they meet. -/
def Transfer.timely (s : Transfer cfg) : Event → Bool
  | .reply late => s.replies.head?.all fun r => !s.sender.rejects r late
  | _ => true

/-- A stage lets the sender meet only the RST-ACKs it expects. -/
theorem StageInv.acknowledges
    {t : Sender} {blocks e : Nat} {commands : List Command} {replies : List Reply} {w : Line}
    (hs : StageInv t blocks e commands replies) (hmem : Reply.rstAck w ∈ replies)
    (hready : t.phase ≠ .ready) (hfinal : t.phase ≠ .final) (hover : ¬ t.Over)
    (hblock : ∀ attempt timeouts, t.phase ≠ .block attempt timeouts) :
    t.Acknowledges w := by
  have hnone : t.Listening ∨ t.phase = .fill ∨ (∃ left, t.phase = .barrier false left) →
      False := by
    intro h
    refine (hs.aligned ?_).noRstAck w hmem
    rcases h with h | h | h
    · exact Or.inr (Or.inr (Or.inr (Or.inl h)))
    · exact Or.inr (Or.inl h)
    · exact Or.inr (Or.inr (Or.inr (Or.inr h)))
  rw [Sender.Acknowledges]
  cases hphase : t.phase with
  | rst left => exact (hs.of_rst hphase).rstAck w hmem
  | barrier reset left =>
      cases reset with
      | true =>
          rcases (hs.of_barrier_true hphase).reply _ hmem with ⟨w', heq, htoken⟩ | heq
          · cases heq
            exact htoken
          · cases heq
      | false => exact (hnone (Or.inr (Or.inr ⟨left, hphase⟩))).elim
  | ready => exact absurd hphase hready
  | final => exact absurd hphase hfinal
  | block attempt timeouts => exact absurd hphase (hblock _ _)
  | returned result => exact absurd (Or.inl ⟨_, hphase⟩) hover
  | raised exc => exact absurd (Or.inr ⟨_, hphase⟩) hover
  | fill => exact (hnone (Or.inr (Or.inl hphase))).elim
  | reply => exact (hnone (Or.inl (Or.inl hphase))).elim
  | guard again => exact (hnone (Or.inl (Or.inr (Or.inl ⟨_, hphase⟩)))).elim
  | ayt left => trivial

/-- What a step raises, when its read expects the reply it meets. -/
theorem Polite.exhausts
    (hg : Genuine job s) (ht : Tracked job s) (hs : Polite job s) (hover : ¬ s.sender.Over)
    {late : Bool} {r : Reply} {replies : List Reply} {p : Sender × List Command}
    (hreplies : s.replies = r :: replies) (htimely : s.timely (.reply late) = true)
    (hstep : s.sender.step job (.line r.line late) = some p) :
    Sender.Exhausts p := by
  have hmem : r ∈ s.replies := hreplies ▸ List.mem_cons_self
  have hrejects : s.sender.rejects r late = false := by
    simpa [Transfer.timely, hreplies] using htimely
  refine Sender.exhausts_reply (hg.replies r hmem) (ht.replyTokens r hmem) ?_ hrejects hg.block
    hstep
  intro hready hfinal
  refine ⟨hs.replies hready hfinal hover r hmem, ?_⟩
  rintro w rfl
  exact ht.stage.acknowledges hmem hready hfinal hover hg.block

/-- A step whose read expects the reply it meets raises only exhaustion. -/
theorem exhausted_of_timely
    (hpair : Paired job.session cfg) (hflow : job.session.flow = true)
    (hg : Genuine job s) (hw : Thrifty job s) (hs : Polite job s)
    (hexhausted : ∀ exc, s.sender.phase = .raised exc → exc.cls ∈ exhaustion)
    {e : Event} (he : Faults.lossy.permit e = true) (htimely : s.timely e = true)
    (hstep : s.step job e = some s') :
    ∀ exc, s'.sender.phase = .raised exc → exc.cls ∈ exhaustion := by
  have h := step_move hpair hflow hg hstep
  have honce := Faults.lossy_once e he
  -- An exception of this step is no accusation, because the line is tracked after it.
  have haccused : ¬ s.sender.Over → ∀ exc, s'.sender.phase = .raised exc →
      exc.message ∉ Sender.seriousMessages := by
    intro hover
    obtain ⟨hnone, ht, hc⟩ := hw.live hover
    have hnone' := (CreditInv.move hflow hpair hg ht hnone hover hc honce h).1
    exact (ht.move hflow hpair hg (Faults.once_fifo e honce) h hnone').accused
  intro exc hraised
  cases h with
  | fill p hphase hkind =>
      obtain ⟨t, out⟩ := p
      have hto : t.phase = .raised exc := hraised
      cases hkind with
      | failed exc' hcls =>
          cases hto
          rw [hcls]
          decide
      | frame =>
          have hfill : s.sender.phase = .raised exc := hto
          rw [hphase] at hfill
          cases hfill
      | _ => cases hto
  | timeout p hkind =>
      rw [Transfer.step, Option.map_eq_some_iff] at hstep
      obtain ⟨q, hq, heq⟩ := hstep
      have hsender : q.1 = p.1 := congrArg Transfer.sender heq
      exact (Sender.exhausts_timeout hq exc (hsender ▸ hraised)).resolve_right
        (haccused hkind.not_over exc hraised)
  | reply late r replies p hreplies hkind =>
      have hover : ¬ s.sender.Over := hkind.not_over
      rw [Transfer.step, hreplies, Option.map_eq_some_iff] at hstep
      obtain ⟨q, hq, heq⟩ := hstep
      have hsender : q.1 = p.1 := congrArg Transfer.sender heq
      exact (hs.exhausts hg (hw.live hover).2.1 hover hreplies htimely hq exc
        (hsender ▸ hraised)).resolve_right (haccused hover exc hraised)
  | _ => exact hexhausted exc hraised

end Invariant

section Result

/-- A receiver is accused by the reads that do not expect a late reply, and by no others. -/
theorem accused_iff_untimely
    (job : Job) (cfg : ClientConfig) (hflow : job.session.flow = true)
    (hpair : Paired job.session cfg)
    (barrier_id : Nat) (reset_token : Option Line) (s : Transfer cfg)
    (hleads : Transition.Steps (Transfer.step job)
      (fun s e => Faults.lossy.permit e = true ∧ s.timely e = true)
      (Transfer.start cfg job barrier_id reset_token) s) :
    (∀ exc, s.sender.phase = .raised exc → exc.cls ∈ [.timeout, .retry, .linkLost]) ∧
    ∀ e s', Faults.lossy.permit e = true → s.step job e = some s' → s.timely e = false →
      ∃ exc, s'.sender.phase = .raised exc ∧ exc.cls = .protocol := by
  have hinv : Genuine job s ∧ Thrifty job s ∧ Polite job s ∧
      ∀ exc, s.sender.phase = .raised exc → exc.cls ∈ exhaustion := by
    refine Transition.Steps.invariant
      (fun s => Genuine job s ∧ Thrifty job s ∧ Polite job s ∧
        ∀ exc, s.sender.phase = .raised exc → exc.cls ∈ exhaustion) ?_ hleads
      ⟨genuine_start barrier_id reset_token, thrifty_start barrier_id reset_token,
        polite_start barrier_id reset_token, by simp [Transfer.start, Sender.start]⟩
    rintro s e s' ⟨hg, hw, hs, hexhausted⟩ ⟨he, htimely⟩ hstep
    have hmove := step_move hpair hflow hg hstep
    exact ⟨hg.move hmove, hw.move hflow hpair hg (Faults.lossy_once e he) hmove,
      hs.move hpair hflow hg hw he hmove,
      exhausted_of_timely hpair hflow hg hw hs hexhausted he htimely hstep⟩
  obtain ⟨hg, hw, hs, hexhausted⟩ := hinv
  refine ⟨hexhausted, fun e s' _ hstep huntimely => ?_⟩
  cases e with
  | reply late =>
      rw [Transfer.step] at hstep
      split at hstep
      · cases hstep
      · rename_i r replies hreplies
        rw [Option.map_eq_some_iff] at hstep
        obtain ⟨p, hp, rfl⟩ := hstep
        have hrejects : s.sender.rejects r late = true := by
          simpa [Transfer.timely, hreplies] using huntimely
        exact ⟨_, Sender.raises_of_rejects (hg.replies r (hreplies ▸ List.mem_cons_self)) hrejects
          hp, rfl⟩
  | _ => cases huntimely

/-- DATA 0 is lost, and BARRIER 2 is sent twice before its first answer is read.  DATA 0 is sent
again, and the second answer is still unread. -/
def answeredTwice : List Event :=
  [.command, .reply false, .run, .run, .loseCommand 0, .timeout, .timeout, .command,
    .reply false, .timeout, .command, .command, .reply false, .run, .run]

/-- A barrier that was sent again is answered twice, and the second answer comes after the
deadline of the next block. -/
theorem accused_by_second_resume :
    ∃ s : Transfer smallClient,
      Transfer.Leads .lossy (smallJob [65]) (Transfer.start smallClient (smallJob [65]) 0 none) s ∧
        s.sender.phase = .raised (ProtocolError "unexpected window reply") := by
  have hrun : ((Transfer.start smallClient (smallJob [65]) 0 none).exec .lossy (smallJob [65])
      (answeredTwice ++ [.timeout, .reply false])).any (fun s => decide
        (s.sender.phase = .raised (ProtocolError "unexpected window reply"))) = true := by
    decide +kernel
  rw [Option.any_eq_true] at hrun
  obtain ⟨s, hexec, hphase⟩ := hrun
  exact ⟨s, .of_exec hexec, of_decide_eq_true hphase⟩

/-- A run of which every read expects the reply it meets. -/
def Transfer.execTimely
    {cfg : ClientConfig} (job : Job) (s : Transfer cfg) (events : List Event) :
    Option (Transfer cfg) :=
  Transition.exec (Transfer.step job)
    (fun s e => Faults.lossy.permit e = true ∧ s.timely e = true) s events

/-- The second answer is skipped when the wait for the reply reads it in time: the silence that
follows ends in exhaustion.  When the guard of the probe reads it, the transfer ends at once. -/
theorem accused_iff_untimely_second_resume :
    ∃ s skipped guarded accused : Transfer smallClient, ∃ exhausted untimely,
      (Transfer.start smallClient (smallJob [65]) 0 none).execTimely (smallJob [65])
        answeredTwice = some s ∧
      s.sender.phase = .reply ∧ s.replies = [.resume (dec 2) 0] ∧
      s.execTimely (smallJob [65]) (.reply false :: .loseCommand 0 ::
        List.replicate 15 .timeout) = some skipped ∧
      skipped.sender.phase = .raised exhausted ∧
      exhausted.cls ∈ [ErrorClass.timeout, .retry, .linkLost] ∧
      s.execTimely (smallJob [65]) [.timeout] = some guarded ∧
      guarded.sender.phase = .guard false ∧
      guarded.step (smallJob [65]) (.reply false) = some accused ∧
      accused.sender.phase = .raised untimely ∧ untimely.cls = .protocol := by
  have hrun : ((Transfer.start smallClient (smallJob [65]) 0 none).execTimely (smallJob [65])
      answeredTwice).any (fun s =>
        decide (s.sender.phase = .reply ∧ s.replies = [.resume (dec 2) 0]) &&
        (s.execTimely (smallJob [65]) (.reply false :: .loseCommand 0 ::
          List.replicate 15 .timeout)).any (fun s => decide (s.sender.phase =
            .raised (LinkLostError "receiver did not acknowledge transfer reset"))) &&
        (s.execTimely (smallJob [65]) [.timeout]).any (fun s =>
          decide (s.sender.phase = .guard false) && !s.timely (.reply false) &&
            (s.step (smallJob [65]) (.reply false)).isSome)) = true := by
    decide +kernel
  simp only [Option.any_eq_true, Bool.and_eq_true, decide_eq_true_eq, Bool.not_eq_true',
    Option.isSome_iff_exists] at hrun
  obtain ⟨s, hs, ⟨⟨hphase, hreplies⟩, skipped, hskipped, hraised⟩, guarded, hguarded,
    ⟨hguard, huntimely⟩, accused, hstep⟩ := hrun
  have hexhausted := (accused_iff_untimely (smallJob [65]) smallClient rfl small_paired 0 none
    skipped (.of_exec (Transition.exec_append hs hskipped))).1 _ hraised
  obtain ⟨exc, hexc, hcls⟩ := (accused_iff_untimely (smallJob [65]) smallClient rfl small_paired 0
    none guarded (.of_exec (Transition.exec_append hs hguarded))).2 (.reply false) accused rfl
      hstep huntimely
  exact ⟨s, skipped, guarded, accused, _, exc, hs, hphase, hreplies, hskipped, hraised, hexhausted,
    hguarded, hguard, hstep, hexc, hcls⟩

end Result

end Pcutp
