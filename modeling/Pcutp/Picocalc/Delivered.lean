import Pcutp.Picocalc.Wired

/-!
# A file gets to the drive

On a line without faults, with a firmware that is prompt, `send_file` and the
data loop go the course of a transfer to `_receive`: when a command has come in,
turns of the loop read it to its end and send what `_receive` answers.  So for
every file there is such a run at whose end the server has it verified and the
drive holds it.
-/

namespace Pcutp.Picocalc

open Machine

section Commands

variable {cfg : ClientConfig} {job : Job} {m : AcceptedMeta cfg} {r : Recv} {c : Command}
  {p : Recv × List Pcutp.Effect}

/-- A command that is read whole leaves no payload to wait for. -/
theorem not_payload_of_read
    (hphase : r.phase = .header) (hread : r.read m c = some p) (h : DataHeader) :
    p.1.phase ≠ .payload h := by
  rcases read_cases hphase hread with ⟨h', -, -, rfl⟩ | ⟨hnone, rfl⟩
  · intro hpayload
    rcases phase_onPayload (r.onLine m c.line true).1 h' c.payload with hheader | hover
    · rw [hheader] at hpayload
      cases hpayload
    · rw [Recv.Live, hpayload] at hover
      exact hover trivial
  · exact hnone h

/-- What is left to do after a command, is the rename. -/
theorem settled_cases
    (hnone : ∀ h, p.1.phase ≠ .payload h) :
    (settled m p).1 = (settled m (p.1, [])).1 ∧ sends (settled m p).2 = sends p.2 := by
  unfold settled
  cases hphase : p.1.phase with
  | payload h => exact absurd hphase (hnone h)
  | commit =>
      refine ⟨rfl, ?_⟩
      rw [sends_append]
      exact List.append_nil _
  | _ => exact ⟨rfl, rfl⟩

theorem settled_of_still
    (h : p.1.phase = .header ∨ ¬ p.1.Live) :
    settled m p = p := by
  rcases h with hheader | hover
  · exact settled_of_header hheader p.2
  · rw [Recv.Live] at hover
    rw [settled]
    cases hphase : p.1.phase with
    | payload h =>
        rw [hphase] at hover
        exact absurd trivial hover
    | commit =>
        rw [hphase] at hover
        exact absurd trivial hover
    | _ => rfl

/-- The characters of a line, up to its line feed. -/
theorem fed_line
    {f : Fed} (hphase : f.r.phase = .header) {data : Bytes} (hlf : LF ∉ data) :
    run (Fed.step m) (f, []) (data.map .byte) = some (⟨f.r, f.part ++ data⟩, []) := by
  induction data generalizing f with
  | nil =>
      rw [List.append_nil]
      rfl
  | cons b data ih =>
      rw [List.mem_cons, not_or] at hlf
      have hstep : f.step m (.byte b) = some (⟨f.r, f.part ++ [b]⟩, []) := by
        rw [Fed.step, hphase]
        exact if_neg (Ne.symm hlf.1)
      have hrest := ih (f := ⟨f.r, f.part ++ [b]⟩) hphase hlf.2
      rw [List.append_assoc] at hrest
      exact run_cons hstep hrest

theorem map_onWire (c : Command) :
    (onWire c).map Input.byte =
      ((encodeAscii c.line).map .byte ++ [.byte LF]) ++ c.payload.map .byte := by
  simp [onWire, encodeFrame]

/-- The line of a command. -/
theorem fed_head
    (hsendable : Sendable c.line) (hphase : r.phase = .header) :
    run (Fed.step m) (⟨r, []⟩, []) ((encodeAscii c.line).map .byte ++ [.byte LF]) =
      some (⟨(settled m (r.onLine m c.line true)).1, []⟩,
        (settled m (r.onLine m c.line true)).2) := by
  have hfirst : run (Fed.step m) (⟨r, []⟩, []) ((encodeAscii c.line).map .byte) =
      some (⟨r, encodeAscii c.line⟩, []) :=
    fed_line (f := ⟨r, []⟩) hphase (lf_not_mem_encode hsendable)
  have hlf : Fed.step m ⟨r, encodeAscii c.line⟩ (.byte LF) =
      some (⟨(settled m (r.onLine m c.line true)).1, []⟩,
        (settled m (r.onLine m c.line true)).2) := by
    rw [Fed.step]
    dsimp only
    rw [hphase]
    dsimp only
    rw [if_pos rfl, lineText_encode hsendable]
  exact run_trans hfirst (run_single hlf)

/-- `_receive`, fed with the bytes of a command, reads the command. -/
theorem fed_command
    {id : Nat} (hwritten : Written job id c) (hm : m.Matches job) (hsendable : Sendable c.line)
    (hphase : r.phase = .header) (hread : r.read m c = some p) :
    run (Fed.step m) (⟨r, []⟩, []) ((onWire c).map .byte) =
      some (⟨(settled m p).1, []⟩, (settled m p).2) := by
  have hhead := fed_head (m := m) hsendable hphase
  rw [map_onWire]
  rcases read_cases hphase hread with ⟨h, hpayload, hlen, hp⟩ | ⟨hnone, rfl⟩
  · have hstill : p.1.phase = .header ∨ ¬ p.1.Live := by
      rw [hp]
      exact phase_onPayload (r.onLine m c.line true).1 h c.payload
    rw [settled_of_still hstill, hp]
    have hsilent := onLine_silent hphase hpayload
    by_cases hzero : h.length = 0
    · have hempty : c.payload = [] := List.eq_nil_of_length_eq_zero (hlen.trans hzero)
      have hsettled : settled m (r.onLine m c.line true) =
          (((r.onLine m c.line true).1.onPayload m h [] none).1,
            (r.onLine m c.line true).2 ++ ((r.onLine m c.line true).1.onPayload m h [] none).2) := by
        rw [settled, hpayload]
        exact if_pos hzero
      rw [hsettled] at hhead
      rw [hempty, List.map_nil, List.append_nil]
      exact hhead
    · have hsettled : settled m (r.onLine m c.line true) = r.onLine m c.line true := by
        rw [settled, hpayload]
        exact if_neg hzero
      rw [hsettled] at hhead
      have hne : c.payload ≠ [] := fun hnil => hzero (by rw [← hlen, hnil]; rfl)
      have hrest := fed_whole (f := ⟨(r.onLine m c.line true).1, []⟩) (m := m) hpayload hne
        (by simpa using hlen)
      exact run_trans hhead hrest
  · rw [hwritten.payload_nil hm hnone, List.map_nil, List.append_nil]
    exact hhead

/-- The bytes of a command are those of a line that both receivers understand. -/
theorem always_command
    {id : Nat} (hwritten : Written job id c) (hm : m.Matches job) (hsendable : Sendable c.line)
    (hshort : c.line.length ≤ 250) (hphase : r.phase = .header) (hspoken : Spoken m r c.words)
    (hread : r.read m c = some p) :
    Always (Fed.step m) (fun f i _ _ => f.Speaks m i) ⟨r, []⟩ ((onWire c).map .byte) := by
  have hline : Always (Fed.step m) (fun f i _ _ => f.Speaks m i) ⟨r, []⟩
      ((encodeAscii c.line).map .byte ++ [.byte LF]) := by
    have h := always_line (f := ⟨r, []⟩) (m := m) hphase rfl (lf_not_mem_encode hsendable) rfl
      hsendable hwritten.noCr hshort hspoken
    rw [List.map_append] at h
    exact h
  rw [map_onWire]
  refine always_of_run_append hline (fed_head hsendable hphase) ?_
  rcases read_cases hphase hread with ⟨h, hpayload, hlen, -⟩ | ⟨hnone, rfl⟩
  · by_cases hzero : h.length = 0
    · rw [List.eq_nil_of_length_eq_zero (hlen.trans hzero)]
      trivial
    · have hsettled : settled m (r.onLine m c.line true) = r.onLine m c.line true := by
        rw [settled, hpayload]
        exact if_neg hzero
      rw [hsettled]
      refine always_payload hpayload ?_
      rw [List.length_nil, Nat.zero_add]
      exact hlen.le
  · rw [hwritten.payload_nil hm hnone]
    trivial

end Commands

section Undisturbed

/-- What happens on a line without faults, with no read that times out and no turn of the loop that
comes later than META. -/
def WiredEvent.undisturbed : WiredEvent → Bool
  | .run | .reply false | .arrive | .tick 0 | .perform => true
  | _ => false

/-- What the system comes to by such events alone. -/
def Wired.Undisturbed (nums : Numbers) (job : Job) : Wired → Wired → Prop :=
  Transition.Steps (Wired.step nums job) fun s e => s.Short e ∧ e.undisturbed = true

variable {nums : Numbers} {job : Job} {s s' : Wired}

theorem Wired.Undisturbed.leads
    (h : Wired.Undisturbed nums job s s') :
    Wired.Leads nums job s s' :=
  h.mono fun _ _ hevent => hevent.1

/-- An event that disturbs nothing. -/
theorem Wired.undisturbed_single
    {e : WiredEvent} (hshort : s.Short e) (he : e.undisturbed = true)
    (hstep : s.step nums job e = some s') :
    Wired.Undisturbed nums job s s' :=
  .single ⟨e, ⟨hshort, he⟩, hstep⟩

theorem Wired.performed_nil
    (hidle : s.pending = []) :
    s.performed [] [] = s := by
  obtain ⟨sender, commands, pico, pending, lines, out⟩ := s
  obtain rfl : pending = [] := hidle
  simp [Wired.performed, sentLines]

theorem Wired.performed_append (s : Wired) (xs ys zs : List Effect) :
    (s.performed xs ys).performed ys zs = s.performed (xs ++ ys) zs := by
  simp [Wired.performed, sentLines]

/-- The program does everything that its turn has to do. -/
theorem Wired.performed_all
    (hshort : (Command.barrier s.sender.barrier_id).line.length ≤ 250) {pending : List Effect}
    (hpending : s.pending = pending) :
    Wired.Undisturbed nums job s (s.performed pending []) := by
  induction pending generalizing s with
  | nil =>
      rw [Wired.performed_nil hpending]
      exact .refl
  | cons e pending ih =>
      have hfirst : s.step nums job .perform = some (s.performed [e] pending) := by
        rw [Wired.step, hpending]
      have hrest := ih (s := s.performed [e] pending) hshort rfl
      rw [Wired.performed_append] at hrest
      exact (Wired.undisturbed_single hshort rfl hfirst).trans hrest

end Undisturbed

section Ticks

variable {cfg : ClientConfig} {job : Job} {m : AcceptedMeta cfg} {nums : Numbers} {f f' : Fed}
  {effects : List Pcutp.Effect}

/-- A turn of the loop at a time when nothing is late. -/
def promptly : Tick where
  now := 0
  arrived := []
  key := none

theorem dataStep_isSome
    (nums : Numbers) {st : State} (hreceiving : receiving st.place = true) (tick : Tick) :
    ∃ next, dataStep nums st tick = some next := by
  rw [dataStep, if_pos hreceiving]
  unfold step
  cases hplace : st.place with
  | line wait l =>
      dsimp only
      split <;> exact ⟨_, rfl⟩
  | raw frame l =>
      dsimp only
      split <;> exact ⟨_, rfl⟩
  | prompt p l =>
      rw [hplace] at hreceiving
      cases hreceiving
  | stopped how =>
      rw [hplace] at hreceiving
      cases hreceiving

/-- A prompt turn reads bytes, if there are any. -/
theorem consumed_prompt
    (nums : Numbers) {st : State} (hagrees : Agrees m f st) (hreceiving : receiving st.place = true)
    (hqueue : st.queue ≠ []) :
    ∃ data queue, data ≠ [] ∧ st.queue = data ++ queue ∧
      consumed nums st promptly = data.map .byte := by
  have hempty : st.queue ++ promptly.arrived = st.queue := List.append_nil _
  cases hagrees with
  | waits hphase hplace hs halike =>
      obtain ⟨b, queue, hcons⟩ := List.exists_cons_of_ne_nil hqueue
      rw [consumed, hplace]
      dsimp only
      rw [hempty, hcons]
      dsimp only
      rw [if_neg fun h => absurd h.2 (by simp [promptly])]
      exact ⟨[b], queue, List.cons_ne_nil _ _, rfl, rfl⟩
  | @reads h frame l hphase hplace hgot hlt hbuf hframed halike =>
      have hcount : frame.ln.toNat = h.length := by
        rw [hframed.ln, Int.toNat_natCast]
      rw [consumed, hplace]
      dsimp only
      rw [hempty]
      cases hdata : st.queue.take (min (frame.ln.toNat - l.got) 255) with
      | nil =>
          rcases List.take_eq_nil_iff.mp hdata with hzero | hnil
          · omega
          · exact absurd hnil hqueue
      | cons b data =>
          have hsplit := List.take_append_drop (min (frame.ln.toNat - l.got) 255) st.queue
          rw [hdata] at hsplit
          exact ⟨b :: data, _, List.cons_ne_nil _ _, hsplit.symm, rfl⟩
  | returned hphase hnot hrunning =>
      rw [hnot] at hreceiving
      cases hreceiving
  | raised hphase hplace hhow =>
      rw [hplace] at hreceiving
      cases hreceiving

theorem receiving_of_fed
    {st : State} {b : UInt8} {next : Fed × List Pcutp.Effect} (hagrees : Agrees m f st)
    (hstep : f.step m (.byte b) = some next) :
    receiving st.place = true := by
  rw [Fed.step] at hstep
  cases hagrees with
  | waits hphase hplace =>
      rw [hplace]
      rfl
  | reads hphase hplace =>
      rw [hplace]
      rfl
  | returned hphase =>
      rw [hphase] at hstep
      cases hstep
  | raised hphase =>
      rw [hphase] at hstep
      cases hstep

/-- Prompt turns of the loop read everything that waits. -/
theorem drained
    (hnums : ReadsNumbers nums) (hcfg : cfg.flow = true) {s : Wired} (hidle : s.pending = [])
    (hshort : (Command.barrier s.sender.barrier_id).line.length ≤ 250)
    (hagrees : Agrees m f s.pico)
    (hrun : run (Fed.step m) (f, []) (s.pico.queue.map .byte) = some (f', effects))
    (hspeaks : Always (Fed.step m) (fun f i _ _ => f.Speaks m i) f (s.pico.queue.map .byte)) :
    ∃ (pico : State) (out : List Effect),
      Wired.Undisturbed nums job s ({ s with pico }.performed out []) ∧
      Agrees m f' pico ∧ pico.queue = [] ∧
      out.filterMap Effect.act? = effects.filterMap act? := by
  induction hn : s.pico.queue.length using Nat.strong_induction_on generalizing s f effects with
  | h n ih =>
  by_cases hqueue : s.pico.queue = []
  · rw [hqueue] at hrun
    cases hrun
    refine ⟨s.pico, [], ?_, hagrees, hqueue, rfl⟩
    rw [Wired.performed_nil (s := { s with pico := s.pico }) hidle]
    exact .refl
  · have hreceiving : receiving s.pico.place = true := by
      obtain ⟨b, queue, hcons⟩ := List.exists_cons_of_ne_nil hqueue
      rw [hcons, List.map_cons, run] at hrun
      cases hfirst : f.step m (.byte b) with
      | none =>
          rw [hfirst] at hrun
          cases hrun
      | some next => exact receiving_of_fed hagrees hfirst
    obtain ⟨⟨st, out⟩, hstep⟩ := dataStep_isSome nums hreceiving promptly
    obtain ⟨data, queue, hne, hsplit, hconsumed⟩ :=
      consumed_prompt nums hagrees hreceiving hqueue
    rw [hsplit, List.map_append] at hrun hspeaks
    obtain ⟨f₁, effects₁, effects₂, hfirst, hrest, rfl⟩ := exists_of_run_append hrun
    have hspeaks₁ : Always (Fed.step m) (fun f i _ _ => f.Speaks m i) f
        (consumed nums s.pico promptly) := by
      rw [hconsumed]
      exact always_of_append hspeaks
    obtain ⟨f₁', effects₁', hfed, hagrees₁, hacts₁⟩ := agrees_step hnums hcfg hagrees hstep hspeaks₁
    rw [hconsumed, hfirst] at hfed
    cases hfed
    have hleft := consumed_step hagrees₁.not_addressError hstep
    have hempty : s.pico.queue ++ promptly.arrived = s.pico.queue := List.append_nil _
    rw [hconsumed, filterMap_byte, hempty, hsplit] at hleft
    obtain rfl : st.queue = queue := List.append_cancel_left hleft
    have hlt : st.queue.length < n := by
      have hpos := List.length_pos_iff.mpr hne
      have hlen := congrArg List.length hsplit
      rw [List.length_append] at hlen
      omega
    -- The turn, and the statements that it comes to.
    have htick : s.step nums job (.tick 0) = some (s.ticked (st, out)) := by
      rw [Wired.step, if_pos hidle]
      exact congrArg (Option.map s.ticked) hstep
    have hturn : Wired.Undisturbed nums job s ((s.ticked (st, out)).performed out []) :=
      (Wired.undisturbed_single hshort rfl htick).trans
        (Wired.performed_all (s := s.ticked (st, out)) hshort rfl)
    obtain ⟨pico, out', hsteps, hagrees', hdone, hacts'⟩ :=
      ih _ hlt (s := (s.ticked (st, out)).performed out []) rfl hshort hagrees₁ hrest
        (always_append hspeaks hfirst) rfl
    refine ⟨pico, out ++ out', ?_, hagrees', hdone, ?_⟩
    · have hsame : { (s.ticked (st, out)).performed out [] with pico }.performed out' [] =
          { s with pico }.performed (out ++ out') [] := by
        simp [Wired.performed, Wired.ticked, sentLines]
      rw [hsame] at hsteps
      exact hturn.trans hsteps
    · rw [List.filterMap_append, List.filterMap_append, hacts₁, hacts']

end Ticks

section Course

variable {cfg : ClientConfig} {job : Job} {m : AcceptedMeta cfg} {t t' : Transfer cfg} {r : Recv}
  {c : Command} {rest : List Command}

/-- The line of an act. -/
def Act.reply? : Act → Option Line
  | .reply line => some line
  | _ => none

/-- The lines that are sent are the replies of the acts. -/
theorem sentLines_of_acts
    {out : List Effect} {effects : List Pcutp.Effect}
    (hout : ∀ line ∈ sentLines out, line ≠ "CLOSE".toList)
    (hacts : out.filterMap Effect.act? = effects.filterMap act?) :
    sentLines out = (sends effects).map Reply.line := by
  have hlines : sentLines out = (out.filterMap Effect.act?).filterMap Act.reply? := by
    rw [List.filterMap_filterMap, sentLines]
    refine List.filterMap_congr fun e he => ?_
    cases e with
    | send line =>
        have hne := hout line (List.mem_filterMap.mpr ⟨_, he, rfl⟩)
        have hsome : (Effect.send line).act? = some (.reply line) := if_neg hne
        rw [hsome]
        rfl
    | _ => rfl
  rw [hlines, hacts, List.filterMap_filterMap, sends, List.map_filterMap]
  refine List.filterMap_congr fun e _ => ?_
  cases e <;> rfl

theorem reply_ne_close (r : Reply) :
    r.line ≠ "CLOSE".toList := by
  intro heq
  cases r <;> cases congrArg List.head? heq

/-- On its course a transfer carries frames, and DONE at the end. -/
theorem next_of_course
    (hs : Course job t) (hclient : t.client = .receiving m r) (hcommands : t.commands = c :: rest) :
    (∃ seq, job.Carries seq c) ∨ c = .done job.crc ∧ r.expected = job.blocks := by
  cases hs with
  | opening barrier_id reset_token hsender hawaiting =>
      rw [hawaiting] at hclient
      cases hclient
  | greeted barrier_id reset_token m' hsender hkept hnone =>
      rw [hnone] at hcommands
      cases hcommands
  | sending m' r' n hkept hsending =>
      have hmem : c ∈ t.commands := hcommands ▸ List.mem_cons_self
      rw [hsending.commands] at hmem
      obtain ⟨seq, hseq, rfl⟩ := List.mem_map.mp hmem
      have hrange := List.mem_range'_1.mp hseq
      have hsent := hsending.sent_le
      have hlt : seq < job.blocks := by omega
      exact Or.inl ⟨seq, (job.sentFrame_isFrameOf seq).carries hlt⟩
  | asked m' r' hkept hphase hheader hblocks hclean hdone =>
      rw [hkept.client] at hclient
      cases hclient
      rw [hdone] at hcommands
      cases hcommands
      exact Or.inr ⟨rfl, hblocks⟩
  | answered m' r' hkept hphase hend hblocks hclean hnone =>
      rw [hnone] at hcommands
      cases hcommands
  | told m' r' result hkept hphase hresult hend hblocks hclean hnone =>
      rw [hnone] at hcommands
      cases hcommands

/-- What comes next on the course is a line that both receivers understand. -/
theorem spoken_of_course
    (hs : Course job t) (hclient : t.client = .receiving m r) (hcommands : t.commands = c :: rest)
    (hm : m.Matches job) (hsize : job.size ≤ Const.MAX_FILE_SIZE) :
    Written job 0 c ∧ Spoken m r c.words := by
  rcases next_of_course hs hclient hcommands with ⟨seq, hc⟩ | ⟨rfl, hblocks⟩
  · have hwritten : Written job 0 c := .frame hc
    have hframe : c.isFrame = true := hc.isFrame.1
    refine ⟨hwritten, ?_⟩
    rcases hwritten.spoken_or_refused hm hsize r with (hspoken | ⟨token, -, hwords⟩) | hrefused
    · exact hspoken
    · rcases hc.form with ⟨payload, _, rfl⟩ | ⟨_, payload, _, rfl⟩
      · cases congrArg List.length hwords
      · cases congrArg List.length hwords
    · cases hrefused with
      | announcement => cases hframe
      | early => cases hframe
  · have hhex : (parse_hex job.crc).isSome = true := by
      rw [Job.crc, crc32_hex, parse_hex_to_hex]
    exact ⟨.done, .done hhex (hblocks.trans hm.blocks.symm)⟩

/-- On its course the sender asks for nothing, so its counter stands still. -/
theorem barrier_id_of_course
    (hs : Course job t) (hflow : job.session.flow = true) {e : Event}
    (he : Faults.none.permit e = true) (hstep : t.step job e = some t') :
    t'.sender.barrier_id = t.sender.barrier_id := by
  rcases Faults.none_cases he with rfl | rfl | rfl | rfl
  · rw [Transfer.step, Option.map_eq_some_iff] at hstep
    obtain ⟨p, hp, rfl⟩ := hstep
    obtain ⟨hphase, hkind⟩ := Sender.fill_kind hflow hp
    obtain ⟨sender, out⟩ := p
    cases hkind with
    | frame => rfl
    | wait => rfl
    | done => rfl
    | failed => rfl
  · have hreplies := Transfer.replies_of_reply hstep
    rw [Transfer.step] at hstep
    cases hs with
    | opening barrier_id reset_token hsender hclient hcommands hnone => exact absurd hnone hreplies
    | greeted barrier_id reset_token m hsender hkept hcommands hready =>
        have hphase : t.sender.phase = .ready := by rw [hsender]; rfl
        rw [hready] at hstep
        simp only [Sender.step_ready hphase, Option.map_some] at hstep
        cases hstep
        rfl
    | sending m r n hkept hsending =>
        have hacks := hsending.replies
        obtain ⟨k, hk⟩ : ∃ k, r.expected - t.sender.base = k + 1 := by
          cases hzero : r.expected - t.sender.base with
          | zero =>
              rw [hzero] at hacks
              exact absurd hacks hreplies
          | succ k => exact ⟨k, rfl⟩
        rw [hk, List.range'_succ, List.map_cons] at hacks
        rw [hacks] at hstep
        obtain ⟨p, hp, rfl⟩ := Option.map_eq_some_iff.mp hstep
        have hfill : t.sender.phase ≠ .fill := Sender.not_fill_of_ack hp
        have hsender := hsending.sender
        rw [Sender.HasSent, if_pos hflow] at hsender
        obtain ⟨hnext, _, _, _, hphase⟩ := hsender
        obtain ⟨hphase, hlt⟩ := hphase.resolve_left hfill
        rw [Sender.step_ack hphase (Nat.le_refl _) (by omega)] at hp
        cases hp
        rfl
    | asked m r hkept hphase hheader hblocks hclean hcommands hnone => exact absurd hnone hreplies
    | answered m r hkept hphase hend hblocks hclean hcommands hok =>
        rw [hok] at hstep
        simp only [Sender.step_ok hphase, Option.map_some] at hstep
        cases hstep
        rfl
    | told m r result hkept hphase hresult hend hblocks hclean hcommands hnone =>
        exact absurd hnone hreplies
  · rw [Transfer.step] at hstep
    split at hstep
    · cases hstep
    · rw [Option.map_eq_some_iff] at hstep
      obtain ⟨p, hp, rfl⟩ := hstep
      rfl
  · rw [Transfer.step, Option.map_eq_some_iff] at hstep
    obtain ⟨p, hp, rfl⟩ := hstep
    rfl

end Course

section Synced

variable {cfg : ClientConfig} {job : Job} {m : AcceptedMeta cfg} {nums : Numbers} {s s' : Wired}
  {t t' : Transfer cfg} {r : Recv}

/-- The system stands where a transfer without faults stands, which may have the rename before
it. -/
structure Synced (job : Job) (m : AcceptedMeta cfg) (s : Wired) (t : Transfer cfg) (r : Recv) :
    Prop where
  course : Course job t
  genuine : Genuine job t
  client : t.client = .receiving m r
  sender : t.sender = s.sender
  commands : t.commands = s.commands
  replies : t.replies.map Reply.line = s.lines
  agrees : Agrees m ⟨(settled m (r, [])).1, []⟩ s.pico
  queue : s.pico.queue = []
  idle : s.pending = []
  short : (Command.barrier s.sender.barrier_id).line.length ≤ 250

/-- A command comes in, and prompt turns of the loop read it. -/
theorem Synced.command
    (hnums : ReadsNumbers nums) (hpair : Paired job.session cfg) (hflow : job.session.flow = true)
    (hsize : job.size ≤ Const.MAX_FILE_SIZE) (h : Synced job m s t r)
    (hprintable : ∀ s', Wired.Undisturbed nums job s s' →
      ∀ line ∈ s'.lines, ∃ reply : Reply, reply.line = line)
    (hcourse : Course job t') (hstep : t.step job .command = some t') :
    ∃ s' r', Wired.Undisturbed nums job s s' ∧ Synced job m s' t' r' := by
  have hmove := step_move hpair hflow h.genuine hstep
  have hgenuine := h.genuine.move hmove
  cases hmove with
  | command m' r' c commands p hclient hcommands hphase hread hturn =>
      obtain ⟨rfl, rfl⟩ : m' = m ∧ r' = r := by
        have heq := hclient.symm.trans h.client
        cases heq
        exact ⟨rfl, rfl⟩
      have hm := (h.genuine.receiving m' r' hclient).1
      obtain ⟨hwritten, hspoken⟩ := spoken_of_course h.course hclient hcommands hm hsize
      have hshort : c.line.length ≤ 250 := hwritten.short hsize (by decide)
      have hsendable := hwritten.sendable hshort
      have hheader : settled m' (r', []) = (r', []) := settled_of_still (Or.inl hphase)
      have hagrees := h.agrees
      rw [hheader] at hagrees
      -- The bytes of the command wait to be read.
      have harrive : s.step nums job .arrive = some
          { s with commands, pico := { s.pico with queue := s.pico.queue ++ onWire c } } := by
        rw [Wired.step, ← h.commands, hcommands]
      have hqueue : s.pico.queue ++ onWire c = onWire c := by
        rw [h.queue, List.nil_append]
      rw [hqueue] at harrive
      obtain ⟨pico, out, hsteps, hagrees', hdone, hacts⟩ :=
        drained hnums (s := { s with commands, pico := { s.pico with queue := onWire c } })
          (hpair.flow.trans hflow) h.idle h.short (hagrees.arrive _)
          (fed_command hwritten hm hsendable hphase hread)
          (always_command hwritten hm hsendable hshort hphase hspoken hread)
      have hleads : Wired.Undisturbed nums job s _ :=
        (Wired.undisturbed_single h.short rfl harrive).trans hsteps
      obtain ⟨hfirst, hsends⟩ := settled_cases (m := m') (not_payload_of_read hphase hread)
      have hlines : sentLines out = (sends p.2).map Reply.line := by
        rw [← hsends]
        refine sentLines_of_acts (fun line hline => ?_) hacts
        obtain ⟨reply, rfl⟩ := hprintable _ hleads line (List.mem_append_right _ hline)
        exact reply_ne_close reply
      refine ⟨_, p.1, hleads, ?_⟩
      exact
        { course := hcourse
          genuine := hgenuine
          client := rfl
          sender := h.sender
          commands := rfl
          replies := by
            rw [Transfer.received, List.map_append, h.replies, ← hlines]
            rfl
          agrees := hfirst ▸ hagrees'
          queue := hdone
          idle := rfl
          short := h.short }
  | accept m' commands hclient =>
      rw [h.client] at hclient
      cases hclient
  | refuse c commands exc effects hclient =>
      rw [h.client] at hclient
      cases hclient

/-- The sender moves in both systems, perhaps after a read. -/
theorem Synced.sent
    (h : Synced job m s t r) {replies : List Reply} {lines : List Line}
    (hlines : replies.map Reply.line = lines) {p : Sender × List Command}
    (hcourse : Course job ({ t with replies }.sent p))
    (hgenuine : Genuine job ({ t with replies }.sent p))
    (hid : p.1.barrier_id = t.sender.barrier_id) :
    Synced job m ({ s with lines }.sent p) ({ t with replies }.sent p) r where
  course := hcourse
  genuine := hgenuine
  client := h.client
  sender := rfl
  commands := congrArg (· ++ p.2) h.commands
  replies := hlines
  agrees := h.agrees
  queue := h.queue
  idle := h.idle
  short := by
    change (Command.barrier p.1.barrier_id).line.length ≤ 250
    rw [hid, h.sender]
    exact h.short

/-- Every step of the transfer is some steps of the system. -/
theorem Synced.step
    (hnums : ReadsNumbers nums) (hpair : Paired job.session cfg) (hflow : job.session.flow = true)
    (hsize : job.size ≤ Const.MAX_FILE_SIZE) (h : Synced job m s t r)
    (hprintable : ∀ s', Wired.Undisturbed nums job s s' →
      ∀ line ∈ s'.lines, ∃ reply : Reply, reply.line = line)
    {e : Event} (he : Faults.none.permit e = true) (hcourse : Course job t')
    (hstep : t.step job e = some t') :
    ∃ s' r', Wired.Undisturbed nums job s s' ∧ Synced job m s' t' r' := by
  have hid := barrier_id_of_course h.course hflow he hstep
  have hgenuine := h.genuine.move (step_move hpair hflow h.genuine hstep)
  rcases Faults.none_cases he with rfl | rfl | rfl | rfl
  · rw [Transfer.step, Option.map_eq_some_iff] at hstep
    obtain ⟨p, hp, rfl⟩ := hstep
    have hrun : s.step nums job .run = some (s.sent p) := by
      rw [Wired.step, ← h.sender, hp]
      rfl
    exact ⟨_, r, Wired.undisturbed_single h.short rfl hrun,
      h.sent h.replies hcourse hgenuine hid⟩
  · cases hreplies : t.replies with
    | nil => exact absurd hreplies (Transfer.replies_of_reply hstep)
    | cons reply replies =>
        rw [Transfer.step, hreplies] at hstep
        obtain ⟨p, hp, rfl⟩ := Option.map_eq_some_iff.mp hstep
        have hlines := h.replies
        rw [hreplies, List.map_cons] at hlines
        have hread : s.step nums job (.reply false) =
            some ({ s with lines := replies.map Reply.line }.sent p) := by
          rw [Wired.step, ← hlines]
          dsimp only
          rw [← h.sender, hp]
          rfl
        exact ⟨_, r, Wired.undisturbed_single h.short rfl hread,
          h.sent rfl hcourse hgenuine hid⟩
  · exact h.command hnums hpair hflow hsize hprintable hcourse hstep
  · obtain ⟨hphase, rfl⟩ := Transfer.of_commit h.client hstep
    have hcommit : (settled m (r, [])).1 = { r with phase := .returned true } := by
      rw [settled, hphase]
    refine ⟨s, { r with phase := .returned true }, .refl, ?_⟩
    exact
      { course := hcourse
        genuine := hgenuine
        client := rfl
        sender := h.sender
        commands := h.commands
        replies := by
          rw [Transfer.received, List.map_append, h.replies]
          exact List.append_nil _
        agrees := by
          have hagrees := h.agrees
          rw [hcommit] at hagrees
          exact hagrees
        queue := h.queue
        idle := h.idle
        short := h.short }

/-- The system comes to the end of the transfer. -/
theorem Synced.finish
    (hnums : ReadsNumbers nums) (hpair : Paired job.session cfg) (hflow : job.session.flow = true)
    (hsize : job.size ≤ Const.MAX_FILE_SIZE) (hspace : cfg.free_space = none)
    (h : Synced job m s t r)
    (hprintable : ∀ s', Wired.Undisturbed nums job s s' →
      ∀ line ∈ s'.lines, ∃ reply : Reply, reply.line = line) :
    ∃ s' result, Wired.Undisturbed nums job s s' ∧ s'.pending = [] ∧
      s'.sender.phase = .returned (some result) ∧
      result.verified = true ∧ result.retransmits = 0 := by
  have hroom : ∀ space, cfg.free_space = some space → job.size ≤ space := by
    intro space heq
    rw [hspace] at heq
    cases heq
  induction hn : t.remaining job using Nat.strong_induction_on generalizing s t r with
  | h n ih =>
  rcases h.course.finished_or_step hpair hsize hroom (fun _ => none) with hend | ⟨e, t', he, hstep⟩
  · obtain ⟨result, hphase, hverified, hclean, -⟩ := hend.result
    exact ⟨s, result, .refl, h.idle, h.sender ▸ hphase, hverified, hclean⟩
  · obtain ⟨hcourse, hlt⟩ := h.course.move hpair hsize hroom he hstep
    obtain ⟨s₁, r₁, hleads, hsynced⟩ :=
      h.step hnums hpair hflow hsize hprintable he hcourse hstep
    obtain ⟨s', result, hleads', hidle, hphase, hverified, hclean⟩ :=
      ih _ (hn ▸ hlt) hsynced (fun s' hs' => hprintable s' (hleads.trans hs')) rfl
    exact ⟨s', result, hleads.trans hleads', hidle, hphase, hverified, hclean⟩

end Synced

section Start

variable {job : Job} {nums : Numbers} {g : Globals}

/-- When the program receives, it has said READY. -/
theorem sentLines_afterMeta
    {now : Nat} {s : Line} (hreceiving : receiving (afterMeta nums g now s).place = true) :
    sentLines (afterMeta nums g now s).out = ["READY".toList] := by
  unfold afterMeta at hreceiving ⊢
  cases hsplit : Split s g.parts with
  | none =>
      rw [hsplit] at hreceiving
      cases hreceiving
  | some parts =>
      rw [hsplit] at hreceiving
      dsimp only at hreceiving ⊢
      split_ifs at hreceiving ⊢
      · cases hreceiving
      · cases hreceiving
      · cases hreceiving
      · rfl

/-- The system and the transfer begin together, once the program has said READY. -/
theorem synced_start
    (hnums : ReadsNumbers nums) {d₀ : Disk} (h : Ready job g d₀) (barrier_id : Nat)
    (reset_token : Option Line) (hshort : (Command.barrier barrier_id).line.length ≤ 250) :
    ∃ (m : AcceptedMeta (firmwareClient g)) (t : Transfer (firmwareClient g)) (s : Wired),
      Wired.Undisturbed nums job (Wired.start nums job g 0 0 barrier_id reset_token) s ∧
      Synced job m s t Recv.start := by
  obtain ⟨hpair, m, hm, hmeta, hstands⟩ := stands_start hnums h 0
  let t₀ : Transfer (firmwareClient g) := Transfer.start _ job barrier_id reset_token
  have hstep : t₀.step job .command =
      some ({ t₀ with commands := [] }.received
        (.receiving m Recv.start, Recv.startEffects m)) := by
    change (Client.read (.awaiting true) job.announcement).map _ = _
    rw [Client.read, hmeta]
    rfl
  have hg₀ : Genuine job t₀ := genuine_start barrier_id reset_token
  let t₁ : Transfer (firmwareClient g) :=
    { t₀ with commands := [] }.received (.receiving m Recv.start, Recv.startEffects m)
  have hcommand : Faults.none.permit .command = true := rfl
  have hcourse₀ : Course job t₀ := course_start barrier_id reset_token
  have hcourse₁ : Advances job t₀ t₁ :=
    hcourse₀.move hpair h.size (fun space heq => by cases heq) hcommand hstep
  refine ⟨m, t₁, _, Wired.performed_all hshort rfl, ?_⟩
  exact
    { course := hcourse₁.1
      genuine := hg₀.move (step_move hpair h.flow hg₀ hstep)
      client := rfl
      sender := rfl
      commands := rfl
      replies := (sentLines_afterMeta hstands.receiving_start).symm
      agrees := hstands.agrees []
      queue := rfl
      idle := rfl
      short := hshort }

end Start

section Result

variable (nums : Numbers) (job : Job) (g : Globals)

/-- Every file can be brought to the drive: there is a run on a line without faults, with turns
before any clock runs out, at whose end the server has it verified, with no block sent twice, and
the drive holds it. -/
theorem wired_delivers
    (hnums : ReadsNumbers nums) (d₀ : Disk) (h : Ready job g d₀) (barrier_id : Nat)
    (reset_token : Option Line) (hshort : (Command.barrier barrier_id).line.length ≤ 250) :
    ∃ (s : Wired) (result : TransferResult) (d : Disk),
      Wired.Undisturbed nums job (Wired.start nums job g 0 0 barrier_id reset_token) s ∧
      s.sender.phase = .returned (some result) ∧ result.verified = true ∧ result.retransmits = 0 ∧
      d₀.after s.out = some d ∧ d.files (entry (dest g.fn)) = some (.data job.data) := by
  obtain ⟨hpair, -⟩ := mirrors_start hnums h 0 0 barrier_id reset_token
  obtain ⟨m, t, s₀, hbegins, hsynced⟩ := synced_start hnums h barrier_id reset_token hshort
  have hprintable : ∀ s', Wired.Undisturbed nums job s₀ s' →
      ∀ line ∈ s'.lines, ∃ reply : Reply, reply.line = line := by
    intro s' hleads line hline
    obtain ⟨_, _, _, _, hmirrors⟩ := mirrors_run hnums h
      (Wired.Undisturbed.leads (hbegins.trans hleads))
    obtain ⟨reply, -, hreply⟩ :=
      hmirrors.printable line (List.mem_append_left _ (hmirrors.lines line hline))
    exact ⟨reply, hreply⟩
  obtain ⟨s, result, hleads, hidle, hphase, hverified, hclean⟩ :=
    hsynced.finish hnums hpair h.flow h.size rfl hprintable
  have hall : Wired.Undisturbed nums job _ s := hbegins.trans hleads
  obtain ⟨m', t', f', d, hmirrors⟩ := mirrors_run hnums h hall.leads
  have hafter := hmirrors.after
  rw [hidle, List.append_nil] at hafter
  have hsaved := hmirrors.copy hafter (hmirrors.verdict result hphase hverified)
  exact ⟨s, result, d, hall, hphase, hverified, hclean, hafter, hsaved.2⟩

theorem wired_delivers_one_byte :
    ∃ (s : Wired) (d : Disk),
      Wired.Undisturbed integers (smallJob [65])
        (Wired.start integers (smallJob [65]) oneByteGlobals 0 0 0 none) s ∧
      emptyDisk.after s.out = some d ∧
      d.files (entry (dest oneByteGlobals.fn)) = some (.data [65]) := by
  obtain ⟨s, _, d, hrun, _, _, _, hafter, hfile⟩ := wired_delivers integers (smallJob [65])
    oneByteGlobals readsNumbers_integers emptyDisk ready_one_byte 0 none (by decide)
  exact ⟨s, d, hrun, hafter, hfile⟩

end Result

end Pcutp.Picocalc
