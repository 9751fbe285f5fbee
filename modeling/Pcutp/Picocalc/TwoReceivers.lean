import Pcutp.Genuine
import Pcutp.Lib.Machine
import Pcutp.Picocalc.Alike

/-!
# The two receivers, run by run

`PCUTP.BAS` reads its data loop from a queue that fills in pieces, at times the
clock decides; `Fed` is `_receive` fed with the same bytes.  What a tick reads
(`consumed`) is passed on to it, and as long as the lines are those of a sender
(`Speaks`) the two receivers do the same acts in the same order, keep the same
counters and checksum, and end alike.
-/

namespace Pcutp.Picocalc

open Machine

section Defs

/-- What a receiver reads: a byte, or that its patience is at an end. -/
inductive Input
  | byte (b : UInt8)
  | silence
  deriving DecidableEq

/-- The byte of an input. -/
def Input.byte? : Input → Option UInt8
  | .byte b => some b
  | .silence => none

/-- `_receive`, with what it has of a line or of a payload. -/
structure Fed where
  r : Recv
  part : Bytes

variable {cfg : ClientConfig} (m : AcceptedMeta cfg)

/-- `_receive` reads. -/
def Fed.step (f : Fed) : Input → Option (Fed × List Pcutp.Effect)
  | .byte b =>
      match f.r.phase with
      | .header =>
          if b = LF then
            let p := settled m (f.r.onLine m (lineText f.part) true)
            some (⟨p.1, []⟩, p.2)
          else
            some (⟨f.r, f.part ++ [b]⟩, [])
      | .payload h =>
          if f.part.length + 1 = h.length then
            let p := f.r.onPayload m h (f.part ++ [b]) none
            some (⟨p.1, []⟩, p.2)
          else
            some (⟨f.r, f.part ++ [b]⟩, [])
      | _ => none
  | .silence =>
      match f.r.phase with
      | .header =>
          some (⟨f.r.raise (TimeoutError_ "timed out waiting for a control line"), []⟩, [])
      | .payload _ =>
          let p := Recv.onRawTimeout cfg f.r
          some (⟨p.1, []⟩, p.2)
      | _ => none

/-- What `_receive` goes on with after a line, where it has nothing to wait for. -/
def settling (r : Recv) : List RecvEvent :=
  match r.phase with
  | .payload h => if h.length = 0 then [.payload [] none] else []
  | .commit => [.commit true]
  | _ => []

/-- The events of `_receive` that a read amounts to. -/
def Fed.events (f : Fed) : Input → List RecvEvent
  | .byte b =>
      match f.r.phase with
      | .header =>
          if b = LF then
            .line (lineText f.part) true :: settling (f.r.onLine m (lineText f.part) true).1
          else
            []
      | .payload h => if f.part.length + 1 = h.length then [.payload (f.part ++ [b]) none] else []
      | _ => []
  | .silence =>
      match f.r.phase with
      | .header => [.timeout]
      | .payload _ => [.rawTimeout]
      | _ => []

/-- A line is one that a sender writes, short enough for `RecvLine$`. -/
def Fed.Speaks (f : Fed) : Input → Prop
  | .byte b =>
      f.r.phase = .header → b = LF →
        ∃ ws, f.part = encodeAscii (join ws) ∧ Sendable (join ws) ∧ '\r' ∉ join ws ∧
          (join ws).length ≤ 250 ∧
          (Spoken m f.r ws ∨ ∃ token, isdecimal token = true ∧ ws = ["AYT?".toList, token])
  | .silence => True

/-- What the data loop reads at a tick. -/
def consumed (nums : Numbers) (st : State) (tick : Tick) : List Input :=
  match st.place with
  | .line .data l =>
      match st.queue ++ tick.arrived with
      | [] =>
          if tick.now - st.g.lastRx > st.g.kaWin ∨ tick.now - l.t0 > 4 * Const.RSTTMO ∨
              tick.now - l.t > Const.RSTTMO then
            [.silence]
          else
            []
      | b :: _ =>
          if ¬ (b = 10 ∧ recvHears nums l.s = .returned) ∧
              tick.now - l.t0 > 4 * Const.RSTTMO then
            [.byte b, .silence]
          else
            [.byte b]
  | .raw frame l =>
      match (st.queue ++ tick.arrived).take (min (frame.ln.toNat - l.got) 255) with
      | [] => if tick.now - l.t > Const.DATTMO then [.silence] else []
      | data => data.map .byte
  | _ => []

/-- The data loop: a tick of the program while it is there. -/
def dataStep (nums : Numbers) (st : State) (tick : Tick) : Option (State × List Effect) :=
  if receiving st.place then step nums st tick else none

/-- What a turn of a reader leaves of the bytes that wait. -/
def Round.Leaves {ι ρ : Type} (rest whole : Bytes) : Round ι ρ → Prop
  | .again _ queue _ _ => queue = rest
  | .returned _ queue _ _ => queue = rest
  | .lost _ _ => rest = whole

/-- The two receivers agree in the middle of a read, or have ended alike. -/
inductive Agrees (f : Fed) (st : State) : Prop
  | waits {l : RecvLine} (hphase : f.r.phase = .header) (hplace : st.place = .line .data l)
      (hs : l.s = kept (text f.part)) (halike : Alike m f.r st.g)
  | reads {h : DataHeader} {frame : Frame} {l : RecvRaw} (hphase : f.r.phase = .payload h)
      (hplace : st.place = .raw frame l) (hgot : l.got = f.part.length)
      (hlt : f.part.length < h.length) (hbuf : st.g.arrays.buf.bytes.take l.got = f.part)
      (hframed : Framed m h frame) (halike : Alike m f.r st.g)
  | returned {ok : Bool} (hphase : f.r.phase = .returned ok) (hnot : receiving st.place = false)
      (hrunning : ∀ how, st.place ≠ .stopped how)
  | raised {raised : Raised} {how : Stop} (hphase : f.r.phase = .raised raised)
      (hplace : st.place = .stopped how) (hhow : how = .ended ∨ how = .rerun)

end Defs

section Steps

variable {cfg : ClientConfig} {m : AcceptedMeta cfg} {nums : Numbers} {f : Fed} {st : State}
  {tick : Tick}

theorem kept_text_nil :
    kept (text []) = [] :=
  kept_of_short (Nat.zero_le _)

theorem Stands.agrees
    {r : Recv} {g : Globals} {place : Place} (h : Stands m r g place) (queue : Bytes) :
    Agrees m ⟨r, []⟩ ⟨g, place, queue⟩ := by
  cases h with
  | waits now hphase halike => exact .waits hphase rfl kept_text_nil.symm halike
  | reads now hphase halike hframed hpos => exact .reads hphase rfl rfl hpos rfl hframed halike
  | returned hphase hnot hrunning => exact .returned hphase hnot hrunning
  | raised hphase hhow => exact .raised hphase rfl hhow

theorem Agrees.not_addressError
    (h : Agrees m f st) :
    st.place ≠ .stopped .addressError := by
  intro hplace
  cases h with
  | waits _ heq =>
      rw [hplace] at heq
      cases heq
  | reads _ heq =>
      rw [hplace] at heq
      cases heq
  | returned _ _ hrunning => exact hrunning _ hplace
  | raised _ heq hhow =>
      rw [hplace] at heq
      cases heq
      rcases hhow with h | h
      · cases h
      · cases h

theorem step_again
    {l l' : RecvLine} {g' : Globals} {queue' : Bytes} {out : List Effect}
    (hplace : st.place = .line .data l)
    (hturn : recvTurn nums st.g (st.queue ++ tick.arrived) tick.now Const.RSTTMO l =
      .again g' queue' l' out) :
    step nums st tick = some (⟨g', .line .data l', queue'⟩, out) := by
  unfold step
  rw [hplace]
  dsimp only [Wait.tmo]
  rw [hturn]

theorem step_returned
    {l : RecvLine} {g' : Globals} {queue' : Bytes} {s : Line} {out : List Effect}
    (hplace : st.place = .line .data l)
    (hturn : recvTurn nums st.g (st.queue ++ tick.arrived) tick.now Const.RSTTMO l =
      .returned g' queue' s out) :
    step nums st tick =
      some ((afterData nums g' tick.now s).state queue',
        out ++ (afterData nums g' tick.now s).out) := by
  unfold step
  rw [hplace]
  dsimp only [Wait.tmo]
  rw [hturn]
  rfl

theorem step_lost
    {l : RecvLine} {g' : Globals} {out : List Effect} (hplace : st.place = .line .data l)
    (hturn : recvTurn nums st.g (st.queue ++ tick.arrived) tick.now Const.RSTTMO l =
      .lost g' out) :
    step nums st tick =
      some (⟨g', .stopped .rerun, st.queue ++ tick.arrived⟩, out) := by
  unfold step
  rw [hplace]
  dsimp only [Wait.tmo]
  rw [hturn]

/-- An empty line, which `RecvLine$` returns at a timeout, ends the program. -/
theorem afterData_nil
    (nums : Numbers) (g : Globals) (now : Nat) :
    ∃ g', afterData nums g now [] = stop g' .ended [.close] := by
  have hblank : ∀ v ∈ [([] : Line)], ' ' ∉ v :=
    fun v hv => List.mem_singleton.mp hv ▸ List.not_mem_nil
  obtain ⟨parts, g', -, -, hafter⟩ :=
    afterData_words nums g now hblank (by decide) rfl (by decide)
  have hother : ([] : Line) ≠ "RST".toList ∧ ([] : Line) ≠ "DONE".toList ∧
      ([] : Line) ≠ "BARRIER".toList := by
    decide
  have hdata : (g'.zipOn && decide (([] : Line) = "ZDATA".toList)) = false ∧
      ([] : Line) ≠ "DATA".toList := by
    simp
  exact ⟨g', hafter.trans (by
    rw [if_neg fun h => hother.1 h.1, if_neg hother.2.1, if_neg fun h => hother.2.2 h.2,
      if_pos hdata])⟩

/-- Bytes of a payload that is not yet whole. -/
theorem fed_more
    {h : DataHeader} (hphase : f.r.phase = .payload h) {data : Bytes}
    (hlt : f.part.length + data.length < h.length) :
    run (Fed.step m) (f, []) (data.map .byte) = some (⟨f.r, f.part ++ data⟩, []) := by
  induction data generalizing f with
  | nil =>
      rw [List.append_nil]
      rfl
  | cons b data ih =>
      rw [List.length_cons] at hlt
      have hstep : f.step m (.byte b) = some (⟨f.r, f.part ++ [b]⟩, []) := by
        rw [Fed.step, hphase]
        exact if_neg (by omega)
      have hlen : (f.part ++ [b]).length + data.length < h.length := by
        rw [List.length_append, List.length_singleton]
        omega
      have hrest := ih (f := ⟨f.r, f.part ++ [b]⟩) hphase hlen
      rw [List.append_assoc] at hrest
      exact run_cons hstep hrest

/-- The last bytes of a payload. -/
theorem fed_whole
    {h : DataHeader} (hphase : f.r.phase = .payload h) {data : Bytes} (hne : data ≠ [])
    (hlen : f.part.length + data.length = h.length) :
    run (Fed.step m) (f, []) (data.map .byte) =
      some (⟨(f.r.onPayload m h (f.part ++ data) none).1, []⟩,
        (f.r.onPayload m h (f.part ++ data) none).2) := by
  induction data generalizing f with
  | nil => exact absurd rfl hne
  | cons b data ih =>
      rw [List.length_cons] at hlen
      cases data with
      | nil =>
          have hstep : f.step m (.byte b) =
              some (⟨(f.r.onPayload m h (f.part ++ [b]) none).1, []⟩,
                (f.r.onPayload m h (f.part ++ [b]) none).2) := by
            rw [Fed.step, hphase]
            exact if_pos (by simpa using hlen)
          exact run_single hstep
      | cons b' data =>
          rw [List.length_cons] at hlen
          have hstep : f.step m (.byte b) = some (⟨f.r, f.part ++ [b]⟩, []) := by
            rw [Fed.step, hphase]
            exact if_neg (by omega)
          have hlen' : (f.part ++ [b]).length + (b' :: data).length = h.length := by
            rw [List.length_append, List.length_singleton, List.length_cons]
            omega
          have hrest := ih (f := ⟨f.r, f.part ++ [b]⟩) hphase (List.cons_ne_nil _ _) hlen'
          rw [List.append_assoc] at hrest
          exact run_cons hstep hrest

/-- The end of a turn of `RecvLine$` that has read a byte: it is over only after a long time. -/
theorem agrees_clock
    {l l' : RecvLine} {g' : Globals} {queue' : Bytes} {said : List Effect}
    (hplace : st.place = .line .data l)
    (hturn : recvTurn nums st.g (st.queue ++ tick.arrived) tick.now Const.RSTTMO l =
      recvClock g' queue' tick.now Const.RSTTMO l' said)
    (hlast : g'.lastRx = tick.now) (ht : l'.t = tick.now) {r : Recv} {part : Bytes}
    (hphase : r.phase = .header) (hs : l'.s = kept (text part)) (halike : Alike m r g')
    {st' : State} {out : List Effect} (hstep : step nums st tick = some (st', out)) :
    ∃ f' effects,
      run (Fed.step m) (⟨r, part⟩, [])
          (if tick.now - l'.t0 > 4 * Const.RSTTMO then [.silence] else []) =
        some (f', effects) ∧
      Agrees m f' st' ∧
      out.filterMap Effect.act? = said.filterMap Effect.act? ++ effects.filterMap act? := by
  have hheard : ¬ tick.now - g'.lastRx > g'.kaWin := by
    rw [hlast]
    omega
  have hfresh : ¬ tick.now - l'.t > Const.RSTTMO := by
    rw [ht]
    omega
  rw [recvClock, if_neg hheard] at hturn
  by_cases hlate : tick.now - l'.t0 > 4 * Const.RSTTMO
  · rw [if_pos hlate] at hturn
    rw [if_pos hlate]
    rw [step_returned hplace hturn] at hstep
    obtain ⟨g'', hend⟩ := afterData_nil nums g' tick.now
    rw [hend] at hstep
    cases hstep
    have hsilent : Fed.step m ⟨r, part⟩ .silence =
        some (⟨r.raise (TimeoutError_ "timed out waiting for a control line"), []⟩, []) := by
      rw [Fed.step, hphase]
    refine ⟨_, _, run_single hsilent, .raised rfl rfl (Or.inl rfl), ?_⟩
    rw [List.filterMap_append]
    rfl
  · rw [if_neg hlate, if_neg hfresh] at hturn
    rw [if_neg hlate]
    rw [step_again hplace hturn] at hstep
    cases hstep
    exact ⟨_, _, rfl, .waits hphase rfl hs halike, (List.append_nil _).symm⟩

theorem recvHears_returned
    {s : Line} (hping : begins "PING " s = false) (hayt : begins "AYT? " s = false)
    (haytOk : begins "AYT-OK " s = false) (hrmb : begins "RMB? " s = false)
    (hbeacon : begins "BEACON U " s = false) (hmark : begins "MARK U " s = false)
    (hpong : begins "PONG " s = false) (hack : begins "RMB-ACK " s = false) :
    recvHears nums s = .returned := by
  have hnot : ∀ {b : Bool}, b = false → ¬ b = true := Bool.eq_false_iff.mp
  rw [recvHears, keepAlive?, if_neg (fun h => hnot hping h.1), if_neg (hnot hayt),
    if_neg (hnot haytOk), if_neg (hnot hrmb), if_neg (hnot hbeacon), if_neg (hnot hmark)]
  exact if_neg (not_or.mpr ⟨hnot hpong, hnot hack⟩)

/-- `RecvLine$` returns the lines of the transfer. -/
theorem recvHears_spoken
    {r : Recv} {ws : List Line} (h : Spoken m r ws) :
    recvHears nums (join ws) = .returned := by
  cases h with
  | data => exact recvHears_returned rfl rfl rfl rfl rfl rfl rfl rfl
  | zdata => exact recvHears_returned rfl rfl rfl rfl rfl rfl rfl rfl
  | barrier => exact recvHears_returned rfl rfl rfl rfl rfl rfl rfl rfl
  | rst => exact recvHears_returned rfl rfl rfl rfl rfl rfl rfl rfl
  | close => exact recvHears_returned rfl rfl rfl rfl rfl rfl rfl rfl
  | err => exact recvHears_returned rfl rfl rfl rfl rfl rfl rfl rfl
  | done => exact recvHears_returned rfl rfl rfl rfl rfl rfl rfl rfl

theorem recvHears_ayt (token : Line) :
    recvHears nums (join ["AYT?".toList, token]) = .served .ayt := by
  have hayt : begins "AYT? " (join ["AYT?".toList, token]) = true := rfl
  have hping : ¬ begins "PING " (join ["AYT?".toList, token]) = true := Bool.eq_false_iff.mp rfl
  rw [recvHears, keepAlive?, if_neg (fun h => hping h.1), if_pos hayt]

/-- A byte after which `RecvLine$` reads on. -/
theorem consumed_unheard
    {l : RecvLine} {b : UInt8} {rest : Bytes} (hplace : st.place = .line .data l)
    (hqueue : st.queue ++ tick.arrived = b :: rest)
    (hnot : ¬ (b = 10 ∧ recvHears nums l.s = .returned)) :
    consumed nums st tick =
      .byte b :: if tick.now - l.t0 > 4 * Const.RSTTMO then [.silence] else [] := by
  rw [consumed, hplace]
  dsimp only
  rw [hqueue]
  simp only [hnot, not_false_eq_true, true_and]
  split_ifs
  · rfl
  · rfl

/-- The line feed of a line that `RecvLine$` returns. -/
theorem consumed_heard
    {l : RecvLine} {rest : Bytes} (hplace : st.place = .line .data l)
    (hqueue : st.queue ++ tick.arrived = 10 :: rest) (hheard : recvHears nums l.s = .returned) :
    consumed nums st tick = [.byte 10] := by
  rw [consumed, hplace]
  dsimp only
  rw [hqueue]
  dsimp only
  rw [hheard, if_neg (fun h => h.1 ⟨rfl, rfl⟩)]

/-- `_receive` answers AYT and reads on. -/
theorem settled_ayt
    (hphase : f.r.phase = .header) {token : Line} (htoken : isdecimal token = true) :
    settled m (f.r.onLine m (join ["AYT?".toList, token]) true) =
      (f.r, [.send (.here token f.r.expected)]) := by
  have hwords : ∀ w ∈ ["AYT?".toList, token], IsWord w :=
    List.forall_mem_cons.mpr ⟨isWord_of_check rfl, fun w hw =>
      List.mem_singleton.mp hw ▸ isWord_of_isdecimal htoken⟩
  have hon : f.r.onLine m (join ["AYT?".toList, token]) true =
      (f.r, [.send (.here token f.r.expected)]) := by
    rw [Recv.onLine, split_join hwords]
    simp [htoken]
  rw [hon, settled]
  dsimp only
  rw [hphase]

/-- A byte that ends no line. -/
theorem agrees_byte
    {l : RecvLine} {b : UInt8} {rest : Bytes} (hphase : f.r.phase = .header)
    (hplace : st.place = .line .data l) (hs : l.s = kept (text f.part)) (halike : Alike m f.r st.g)
    (hqueue : st.queue ++ tick.arrived = b :: rest) (hb : b ≠ 10) {st' : State}
    {out : List Effect} (hstep : step nums st tick = some (st', out)) :
    ∃ f' effects, run (Fed.step m) (f, []) (consumed nums st tick) = some (f', effects) ∧
      Agrees m f' st' ∧ out.filterMap Effect.act? = effects.filterMap act? := by
  have hturn : recvTurn nums st.g (st.queue ++ tick.arrived) tick.now Const.RSTTMO l =
      recvClock { st.g with lastRx := tick.now } rest tick.now Const.RSTTMO
        { l with s := keep l.s (Chr b), t := tick.now } [] := by
    rw [hqueue, recvTurn, if_neg hb]
  have hconsumed : consumed nums st tick =
      .byte b :: if tick.now - l.t0 > 4 * Const.RSTTMO then [.silence] else [] :=
    consumed_unheard hplace hqueue (fun h => hb h.1)
  have hfed : f.step m (.byte b) = some (⟨f.r, f.part ++ [b]⟩, []) := by
    rw [Fed.step, hphase]
    exact if_neg hb
  have hs' : keep l.s (Chr b) = kept (text (f.part ++ [b])) := by
    rw [hs, keep_text]
  have halike' : Alike m f.r { st.g with lastRx := tick.now } := { halike with }
  obtain ⟨f', effects, hrun, hagrees, hacts⟩ :=
    agrees_clock hplace hturn rfl rfl hphase hs' halike' hstep
  rw [hconsumed]
  exact ⟨f', _, run_cons hfed hrun, hagrees, hacts⟩

/-- A line feed. -/
theorem agrees_lf
    (hnums : ReadsNumbers nums) (hflow : cfg.flow = true) {l : RecvLine} {rest : Bytes}
    (hphase : f.r.phase = .header) (hplace : st.place = .line .data l)
    (hs : l.s = kept (text f.part)) (halike : Alike m f.r st.g)
    (hqueue : st.queue ++ tick.arrived = 10 :: rest) (hspeaks : f.Speaks m (.byte 10))
    {st' : State} {out : List Effect} (hstep : step nums st tick = some (st', out)) :
    ∃ f' effects, run (Fed.step m) (f, []) (consumed nums st tick) = some (f', effects) ∧
      Agrees m f' st' ∧ out.filterMap Effect.act? = effects.filterMap act? := by
  obtain ⟨ws, hpart, hsendable, hcr, hshort, hline⟩ := hspeaks hphase rfl
  have hls : l.s = join ws := by
    rw [hs, hpart, kept_encode hsendable.ascii hcr hshort]
  have hfed : f.step m (.byte 10) =
      some (⟨(settled m (f.r.onLine m (join ws) true)).1, []⟩,
        (settled m (f.r.onLine m (join ws) true)).2) := by
    have hlf : (10 : UInt8) = LF := rfl
    rw [Fed.step, hphase]
    dsimp only
    rw [if_pos hlf, hpart, lineText_encode hsendable]
  rcases hline with hspoken | ⟨token, htoken, rfl⟩
  · have hheard : recvHears nums l.s = .returned := by
      rw [hls, recvHears_spoken hspoken]
    have hturn : recvTurn nums st.g (st.queue ++ tick.arrived) tick.now Const.RSTTMO l =
        .returned { st.g with lastRx := tick.now } rest (join ws) [] := by
      rw [hqueue, recvTurn, if_pos rfl, hheard, hls]
    have hconsumed := consumed_heard hplace hqueue hheard
    rw [step_returned hplace hturn] at hstep
    have htogether := together_line (g := { st.g with lastRx := tick.now }) hnums hflow tick.now
      hphase { halike with } hspoken
    cases hstep
    rw [hconsumed]
    exact ⟨_, _, run_single hfed, htogether.stands.agrees rest, htogether.acts⟩
  · have hheard : recvHears nums l.s = .served .ayt := by
      rw [hls, recvHears_ayt]
    have hturn : recvTurn nums st.g (st.queue ++ tick.arrived) tick.now Const.RSTTMO l =
        recvClock { st.g with lastRx := tick.now } rest tick.now Const.RSTTMO
          { l with s := [], t := tick.now } [.send (Reply.here token f.r.expected).line] := by
      rw [hqueue, recvTurn, if_pos rfl, hheard, hls]
      dsimp only [serve]
      rw [halike.seq]
      rfl
    have hnot : ¬ ((10 : UInt8) = 10 ∧ recvHears nums l.s = .returned) := by
      rw [hheard]
      exact fun h => Heard.noConfusion h.2
    have hconsumed := consumed_unheard hplace hqueue hnot
    have hanswer := settled_ayt (m := m) hphase htoken
    rw [hanswer] at hfed
    have halike' : Alike m f.r { st.g with lastRx := tick.now } := { halike with }
    obtain ⟨f', effects, hrun, hagrees, hacts⟩ :=
      agrees_clock hplace hturn rfl rfl hphase kept_text_nil.symm halike' hstep
    rw [hconsumed]
    refine ⟨f', _, run_cons hfed hrun, hagrees, ?_⟩
    rw [hacts, List.filterMap_append, List.filterMap_cons_some (act_reply _)]
    rfl

/-- A turn of `RecvRaw` that finds nothing. -/
theorem rawTurn_nothing
    {g : Globals} {queue : Bytes} {now count tmo : Nat} {l : RecvRaw} {buf : Memory.Area 4096}
    (hdata : queue.take (min (count - l.got) 255) = [])
    (hwrite : g.arrays.buf.write l.got [] = some buf) (hgot : l.got < count) :
    rawTurn g queue now count tmo l =
      some
        (if now - l.t > tmo then
          .returned { g with arrays := { g.arrays with buf } }
            (queue.drop (min (count - l.got) 255)) false []
        else
          .again { g with arrays := { g.arrays with buf } }
            (queue.drop (min (count - l.got) 255)) l []) := by
  dsimp only [rawTurn]
  rw [hdata, hwrite]
  simp only [if_true, hgot]
  split_ifs
  · rfl
  · rfl

/-- A turn of `RecvRaw` that finds bytes. -/
theorem rawTurn_bytes
    {g : Globals} {queue data : Bytes} {now count tmo : Nat} {l : RecvRaw}
    {buf : Memory.Area 4096} (hdata : queue.take (min (count - l.got) 255) = data)
    (hne : data ≠ []) (hwrite : g.arrays.buf.write l.got data = some buf) :
    rawTurn g queue now count tmo l =
      some
        (if l.got + data.length < count then
          .again { g with arrays := { g.arrays with buf }, lastRx := now }
            (queue.drop (min (count - l.got) 255)) { got := l.got + data.length, t := now } []
        else
          .returned { g with arrays := { g.arrays with buf }, lastRx := now }
            (queue.drop (min (count - l.got) 255)) true []) := by
  have hnow : ¬ now - now > tmo := by omega
  dsimp only [rawTurn]
  rw [hdata, hwrite]
  simp only [if_neg hne, if_neg hnow]
  split_ifs
  · rfl
  · rfl

/-- A turn of `RecvRaw` in the middle of a payload. -/
theorem agrees_raw
    (hflow : cfg.flow = true) {h : DataHeader} {frame : Frame} {l : RecvRaw}
    (hphase : f.r.phase = .payload h) (hplace : st.place = .raw frame l)
    (hgot : l.got = f.part.length) (hlt : f.part.length < h.length)
    (hbuf : st.g.arrays.buf.bytes.take l.got = f.part) (hframed : Framed m h frame)
    (halike : Alike m f.r st.g) {st' : State} {out : List Effect}
    (hstep : step nums st tick = some (st', out)) :
    ∃ f' effects, run (Fed.step m) (f, []) (consumed nums st tick) = some (f', effects) ∧
      Agrees m f' st' ∧ out.filterMap Effect.act? = effects.filterMap act? := by
  have hlimit := halike.blocksize_le
  have hle := hframed.length_le
  have hcount : frame.ln.toNat = h.length := by
    rw [hframed.ln, Int.toNat_natCast]
  generalize hdata : (st.queue ++ tick.arrived).take (min (frame.ln.toNat - l.got) 255) = data
  have hlen : data.length ≤ h.length - l.got := by
    rw [← hdata, List.length_take, hcount]
    omega
  obtain ⟨buf, hwrite, htake⟩ :=
    st.g.arrays.buf.exists_write l.got data (by omega)
  rw [hbuf] at htake
  unfold step at hstep
  rw [hplace] at hstep
  dsimp only at hstep
  have hconsumed : consumed nums st tick =
      if data = [] then if tick.now - l.t > Const.DATTMO then [.silence] else []
      else data.map .byte := by
    rw [consumed, hplace]
    dsimp only
    rw [hdata]
    cases data with
    | nil => rfl
    | cons b data => rfl
  rw [hconsumed]
  by_cases hne : data = []
  · subst hne
    rw [List.length_nil, Nat.add_zero, List.append_nil] at htake
    rw [rawTurn_nothing hdata hwrite (by omega)] at hstep
    rw [if_pos rfl]
    have halike' : Alike m f.r { st.g with arrays := { st.g.arrays with buf } } := { halike with }
    split_ifs at hstep ⊢ with hlate
    · have htogether := together_rawTimedOut tick.now hflow halike'
      have hsilent : f.step m .silence =
          some (⟨(Recv.onRawTimeout cfg f.r).1, []⟩, (Recv.onRawTimeout cfg f.r).2) := by
        rw [Fed.step, hphase]
      cases hstep
      exact ⟨_, _, run_single hsilent, htogether.stands.agrees _, htogether.acts⟩
    · cases hstep
      exact ⟨f, [], rfl, .reads hphase rfl hgot hlt htake hframed halike', rfl⟩
  · rw [rawTurn_bytes hdata hne hwrite] at hstep
    rw [if_neg hne]
    have halike' : Alike m f.r
        { st.g with arrays := { st.g.arrays with buf }, lastRx := tick.now } := { halike with }
    have hpart : (f.part ++ data).length = l.got + data.length := by
      rw [List.length_append, hgot]
    split_ifs at hstep with hmore
    · cases hstep
      refine ⟨_, _, fed_more hphase (by omega), .reads hphase rfl hpart.symm ?_ htake hframed halike',
        rfl⟩
      rw [hpart]
      omega
    · have hwhole : f.part.length + data.length = h.length := by omega
      have htogether := together_onPayload tick.now hflow halike' hframed
        (f.part ++ data) (by omega) (by rw [hpart]; exact htake)
      cases hstep
      exact ⟨_, _, fed_whole hphase hne hwhole, htogether.stands.agrees _, htogether.acts⟩

/-- A turn of `RecvLine$` that finds nothing. -/
theorem agrees_nothing
    {l : RecvLine} (hphase : f.r.phase = .header) (hplace : st.place = .line .data l)
    (hs : l.s = kept (text f.part)) (halike : Alike m f.r st.g)
    (hqueue : st.queue ++ tick.arrived = []) {st' : State} {out : List Effect}
    (hstep : step nums st tick = some (st', out)) :
    ∃ f' effects, run (Fed.step m) (f, []) (consumed nums st tick) = some (f', effects) ∧
      Agrees m f' st' ∧ out.filterMap Effect.act? = effects.filterMap act? := by
  have hsilent : f.step m .silence =
      some (⟨f.r.raise (TimeoutError_ "timed out waiting for a control line"), []⟩, []) := by
    rw [Fed.step, hphase]
  have hturn : recvTurn nums st.g (st.queue ++ tick.arrived) tick.now Const.RSTTMO l =
      recvClock st.g [] tick.now Const.RSTTMO l [] := by
    rw [hqueue, recvTurn]
  rw [consumed, hplace]
  dsimp only
  rw [hqueue]
  dsimp only
  rw [recvClock] at hturn
  split_ifs at hturn with hlost hlate hlate'
  · rw [step_lost hplace hturn] at hstep
    cases hstep
    rw [if_pos (Or.inl hlost)]
    exact ⟨_, _, run_single hsilent, .raised rfl rfl (Or.inr rfl), rfl⟩
  · obtain ⟨g', hend⟩ := afterData_nil nums st.g tick.now
    rw [step_returned hplace hturn, hend] at hstep
    cases hstep
    rw [if_pos (Or.inr (Or.inl hlate))]
    exact ⟨_, _, run_single hsilent, .raised rfl rfl (Or.inl rfl), rfl⟩
  · obtain ⟨g', hend⟩ := afterData_nil nums st.g tick.now
    rw [step_returned hplace hturn, hend] at hstep
    cases hstep
    rw [if_pos (Or.inr (Or.inr hlate'))]
    exact ⟨_, _, run_single hsilent, .raised rfl rfl (Or.inl rfl), rfl⟩
  · rw [step_again hplace hturn] at hstep
    cases hstep
    rw [if_neg (by tauto)]
    exact ⟨f, [], rfl, .waits hphase rfl hs halike, rfl⟩

theorem consumed_byte
    {l : RecvLine} {b : UInt8} {rest : Bytes} (hplace : st.place = .line .data l)
    (hqueue : st.queue ++ tick.arrived = b :: rest) :
    ∃ more, consumed nums st tick = .byte b :: more := by
  rw [consumed, hplace]
  dsimp only
  rw [hqueue]
  dsimp only
  split_ifs
  · exact ⟨[.silence], rfl⟩
  · exact ⟨[], rfl⟩

/-- A tick of the data loop, and what `_receive` does with the bytes that it reads. -/
theorem agrees_step
    (hnums : ReadsNumbers nums) (hflow : cfg.flow = true) (hagrees : Agrees m f st) {st' : State}
    {out : List Effect} (hstep : dataStep nums st tick = some (st', out))
    (hspeaks : Always (Fed.step m) (fun f i _ _ => f.Speaks m i) f (consumed nums st tick)) :
    ∃ f' effects, run (Fed.step m) (f, []) (consumed nums st tick) = some (f', effects) ∧
      Agrees m f' st' ∧ out.filterMap Effect.act? = effects.filterMap act? := by
  rw [dataStep] at hstep
  split_ifs at hstep with hreceiving
  cases hagrees with
  | waits hphase hplace hs halike =>
      cases hqueue : st.queue ++ tick.arrived with
      | nil => exact agrees_nothing hphase hplace hs halike hqueue hstep
      | cons b rest =>
          by_cases hb : b = 10
          · subst hb
            obtain ⟨more, hmore⟩ : ∃ more, consumed nums st tick = .byte 10 :: more :=
              consumed_byte hplace hqueue
            rw [hmore] at hspeaks
            have hline : ∃ next, f.step m (.byte 10) = some next := by
              rw [Fed.step, hphase]
              exact ⟨_, if_pos rfl⟩
            obtain ⟨next, hnext⟩ := hline
            have hfirst : f.Speaks m (.byte 10) := ((always_cons_some hnext).mp hspeaks).1
            exact agrees_lf hnums hflow hphase hplace hs halike hqueue hfirst hstep
          · exact agrees_byte hphase hplace hs halike hqueue hb hstep
  | reads hphase hplace hgot hlt hbuf hframed halike =>
      exact agrees_raw hflow hphase hplace hgot hlt hbuf hframed halike hstep
  | returned hphase hnot hrunning =>
      rw [hnot] at hreceiving
      cases hreceiving
  | raised hphase hplace hhow =>
      rw [hplace] at hreceiving
      cases hreceiving

end Steps

section Start

variable {cfg : ClientConfig} {nums : Numbers}

theorem mem_digits_of_toUpper
    {c : Char} (h : c.toUpper ∈ "0123456789abcdefABCDEF".toList) :
    c ∈ "0123456789abcdefABCDEF".toList := by
  by_cases hlower : c.val ≥ 'a'.val ∧ c.val ≤ 'z'.val
  · have hall : ∀ d < 26, (Char.ofNat (97 + d)).toUpper ∈ "0123456789abcdefABCDEF".toList →
        Char.ofNat (97 + d) ∈ "0123456789abcdefABCDEF".toList := by
      decide
    have hle : 97 ≤ c.toNat := UInt32.le_iff_toNat_le.mp hlower.1
    have hlt : c.toNat ≤ 122 := UInt32.le_iff_toNat_le.mp hlower.2
    have hback := hall (c.toNat - 97) (by omega)
    rw [Nat.add_sub_cancel' hle, Char.ofNat_toNat] at hback
    exact hback h
  · have hsame : c.toUpper = c := dif_neg hlower
    rwa [hsame] at h

/-- A word whose capitals are a CRC is one. -/
theorem parse_hex_of_upper
    {w : Line} (h : (parse_hex (upper w)).isSome = true) :
    (parse_hex w).isSome = true := by
  rw [parse_hex] at h ⊢
  split_ifs at h with hbad
  · cases h
  · rw [if_neg]
    · rfl
    · rintro (hlen | hany)
      · exact hbad (Or.inl (by rwa [upper, List.length_map]))
      · obtain ⟨c, hc, hnot⟩ := List.any_eq_true.mp hany
        refine hbad (Or.inr (List.any_eq_true.mpr ⟨c.toUpper, List.mem_map_of_mem hc, ?_⟩))
        exact decide_eq_true fun hmem => of_decide_eq_true hnot (mem_digits_of_toUpper hmem)

/-- Both receivers count the blocks of a file alike. -/
theorem blockCount_natCast
    {size blksz : Nat} (hpos : 1 ≤ blksz) :
    blockCount size blksz = (Pcutp.blockCount size blksz : Nat) := by
  have hdiv : ((size : Int) + blksz - 1) / blksz = ((size + blksz - 1) / blksz : Nat) := by
    rw [Int.natCast_ediv, Int.ofNat_sub (by omega), Int.natCast_add]
    rfl
  rw [blockCount, hdiv, Pcutp.blockCount]
  generalize (size + blksz - 1) / blksz = n
  omega

/-- What `_recv_meta` has checked of its line. -/
theorem parseMeta_words
    {ws : List Line} (hws : ∀ w ∈ ws, IsWord w) {announced : Meta}
    (h : parseMeta (join ws) = .ok announced) :
    ∃ name size blocksize blocks crc,
      ws = ["META".toList, name, size, blocksize, blocks, crc] ∧
      isdecimal size = true ∧ isdecimal blocksize = true ∧ isdecimal blocks = true ∧
      (parse_hex crc).isSome = true ∧ announced.size = int size ∧
      announced.blocksize = int blocksize ∧ announced.blocks = int blocks ∧
      announced.crc32 = upper crc := by
  unfold parseMeta at h
  rw [split_join hws] at h
  dsimp only at h
  split_ifs at h with hshape hfields
  obtain ⟨hlen, hhead⟩ := not_or.mp hshape
  obtain ⟨hdecimals, hcrc⟩ := not_or.mp hfields
  rw [not_not] at hlen hhead
  obtain ⟨w0, name, size, blocksize, blocks, crc, rfl⟩ :
      ∃ w0 name size blocksize blocks crc, ws = [w0, name, size, blocksize, blocks, crc] := by
    match ws, hlen with
    | [w0, name, size, blocksize, blocks, crc], _ => exact ⟨_, _, _, _, _, _, rfl⟩
  have hw0 : w0 = "META".toList := hhead
  have hall : ((isdecimal size && isdecimal blocksize) && isdecimal blocks) = true := by
    simpa [word] using hdecimals
  rw [Bool.and_eq_true, Bool.and_eq_true] at hall
  have hsome : (parse_hex (upper crc)).isSome = true := Bool.not_eq_false _ ▸ hcrc
  split at h
  · cases h
  · cases h
    exact ⟨name, size, blocksize, blocks, crc, by rw [hw0], hall.1.1, hall.1.2, hall.2,
      parse_hex_of_upper hsome, rfl, rfl, rfl, rfl⟩

/-- Both receivers accept the same META, and begin alike. -/
theorem alike_start
    (hnums : ReadsNumbers nums) {g : Globals} (hflow : g.flowOn = true)
    (hzip : g.zipOn = cfg.compression) (hlimit : g.maxblk ≤ 4096) (now : Nat) {ws : List Line}
    (hws : ∀ w ∈ ws, IsWord w) {announced : Meta} (hparse : parseMeta (join ws) = .ok announced)
    {m : AcceptedMeta cfg} (haccept : acceptMeta cfg announced = .ok m)
    (hblock : (m.blocksize : Int) ≤ g.maxblk) :
    Stands m Recv.start (afterMeta nums g now (join ws)).g (afterMeta nums g now (join ws)).place := by
  obtain ⟨name, size, blocksize, blocks, crc, rfl, hsize, hblocksize, hblocks, hcrc, hasize,
    hablocksize, hablocks, hacrc⟩ := parseMeta_words hws hparse
  have hmeta := acceptMeta_meta haccept
  have hmsize : m.size = int size := hmeta ▸ hasize
  have hmblocksize : m.blocksize = int blocksize := hmeta ▸ hablocksize
  have hmblocks : m.blocks = int blocks := hmeta ▸ hablocks
  have hmcrc : m.crc32 = upper crc := hmeta ▸ hacrc
  have hblock_ok := m.block_ok
  have hmsize_le := m.size_ok
  have hcount := m.blocks_eq
  have hcount_le := blockCount_le m.size hblock_ok.1
  have hlen : [name, size, blocksize, blocks, crc].length < 9 := Nat.lt_of_sub_pos (Nat.succ_pos 3)
  obtain ⟨parts, hparts, hfields⟩ :=
    split_words (fun w hw => no_blank_of_isWord (hws w hw)) hlen g.parts
  have hmax : Const.MAX_FILE_SIZE < 2 ^ 53 := by decide
  have h0 : parts[0] = "META".toList := hfields 0 (by decide)
  have h2 : parts[2] = size := hfields 2 (by decide)
  have h3 : parts[3] = blocksize := hfields 3 (by decide)
  have h4 : parts[4] = blocks := hfields 4 (by decide)
  have h5 : parts[5] = crc := hfields 5 (by decide)
  have hval2 : nums.Val parts[2] = m.size := by
    rw [h2, hnums.decimal size hsize (by omega), hmsize]
  have hval3 : nums.Val parts[3] = m.blocksize := by
    rw [h3, hnums.decimal blocksize hblocksize (by omega), hmblocksize]
  have hval4 : nums.Val parts[4] = m.blocks := by
    rw [h4, hnums.decimal blocks hblocks (by omega), hmblocks]
  obtain ⟨value, hvalue⟩ := Option.isSome_iff_exists.mp hcrc
  have hval5 : HexVal nums parts[5] = (BitVec.ofNat 32 value).setWidth 64 := by
    rw [h5, hexVal_eq hnums hvalue]
  have hdim : ¬ ((m.blocksize : Int) < 1 ∨ g.maxblk < m.blocksize ∨ (m.size : Int) < 0 ∨
      16777216 < (m.size : Int)) := by
    have hfile : Const.MAX_FILE_SIZE = 16777216 := rfl
    omega
  have hblocks_eq : ¬ (m.blocks : Int) ≠ blockCount m.size m.blocksize := by
    rw [blockCount_natCast hblock_ok.1, hcount]
    exact not_not.mpr rfl
  have hafter : afterMeta nums g now (join ["META".toList, name, size, blocksize, blocks, crc]) =
      receive { g with
        parts, size := m.size, blksz := m.blocksize, blocks := m.blocks
        fcrc := (BitVec.ofNat 32 value).setWidth 64 } now := by
    unfold afterMeta
    rw [hparts]
    dsimp only
    rw [h0, hval2, hval3, hval4, hval5, if_neg (not_not.mpr rfl), if_neg hdim, if_neg hblocks_eq]
  rw [hafter]
  refine .waits now rfl ?_
  exact
    { size := rfl
      blksz := rfl
      blocks := rfl
      fcrc := ⟨_, rfl, (to_hex_of_parse_hex hvalue).2.trans hmcrc.symm⟩
      blocksize_le := by omega
      flowOn := hflow
      zipOn := hzip
      seq := rfl
      rcvd := rfl
      running := rfl
      drops := rfl
      resets := rfl
      received_le := Nat.zero_le _ }

end Start

section Runs

variable {cfg : ClientConfig} {m : AcceptedMeta cfg} {nums : Numbers}

theorem recvClock_leaves
    {g : Globals} {rest whole : Bytes} {now tmo : Nat} {l : RecvLine} {said : List Effect}
    (h : now ≤ g.lastRx ∨ rest = whole) :
    (recvClock g rest now tmo l said).Leaves rest whole := by
  rw [recvClock]
  split_ifs
  · rcases h with hlast | hrest
    · omega
    · exact hrest
  all_goals exact rfl

/-- A turn of `RecvLine$` reads the first byte that waits. -/
theorem recvTurn_leaves (nums : Numbers) (g : Globals) (queue : Bytes) (now tmo : Nat) (l : RecvLine) :
    (recvTurn nums g queue now tmo l).Leaves queue.tail queue := by
  cases queue with
  | nil => exact recvClock_leaves (Or.inr rfl)
  | cons b queue =>
      rw [recvTurn]
      split_ifs
      · cases recvHears nums l.s with
        | served line =>
          exact recvClock_leaves (Or.inl (serve_lastRx nums { g with lastRx := now } l.s line).ge)
        | dropped => exact recvClock_leaves (Or.inl le_rfl)
        | returned => exact rfl
      · exact recvClock_leaves (Or.inl le_rfl)

/-- A turn of `RecvRaw` reads what it asks for. -/
theorem rawTurn_leaves
    {g : Globals} {queue : Bytes} {now count tmo : Nat} {l : RecvRaw} {round : Round RecvRaw Bool}
    (hround : rawTurn g queue now count tmo l = some round) :
    round.Leaves (queue.drop (min (count - l.got) 255)) queue := by
  dsimp only [rawTurn] at hround
  split at hround
  · cases hround
  · split_ifs at hround <;> cases hround <;> exact rfl

theorem filterMap_byte (data : Bytes) :
    (data.map Input.byte).filterMap Input.byte? = data := by
  rw [List.filterMap_map]
  exact List.filterMap_some

theorem consumed_raw
    {st : State} {tick : Tick} {frame : Frame} {l : RecvRaw} (hplace : st.place = .raw frame l) :
    (consumed nums st tick).filterMap Input.byte? =
      (st.queue ++ tick.arrived).take (min (frame.ln.toNat - l.got) 255) := by
  rw [consumed, hplace]
  dsimp only
  cases (st.queue ++ tick.arrived).take (min (frame.ln.toNat - l.got) 255) with
  | nil =>
      dsimp only
      split_ifs
      · rfl
      · rfl
  | cons b data => exact filterMap_byte (b :: data)

theorem consumed_line
    {st : State} {tick : Tick} {l : RecvLine} (hplace : st.place = .line .data l) :
    (consumed nums st tick).filterMap Input.byte? = (st.queue ++ tick.arrived).take 1 := by
  rw [consumed, hplace]
  dsimp only
  cases st.queue ++ tick.arrived with
  | nil =>
      dsimp only
      split_ifs
      · rfl
      · rfl
  | cons b rest =>
      dsimp only
      split_ifs
      · rfl
      · rfl

theorem queue_of_line
    {st st' : State} {tick : Tick} {out : List Effect} {l : RecvLine}
    (hplace : st.place = .line .data l) (hstep : step nums st tick = some (st', out)) :
    st'.queue = (st.queue ++ tick.arrived).drop 1 := by
  have hleaves := recvTurn_leaves nums st.g (st.queue ++ tick.arrived) tick.now
    Const.RSTTMO l
  rw [List.drop_one]
  unfold step at hstep
  rw [hplace] at hstep
  dsimp only [Wait.tmo] at hstep
  cases hturn : recvTurn nums st.g (st.queue ++ tick.arrived) tick.now Const.RSTTMO l with
  | again g queue l' said =>
      rw [hturn] at hleaves hstep
      cases hstep
      exact hleaves
  | returned g queue s said =>
      rw [hturn] at hleaves hstep
      cases hstep
      exact hleaves
  | lost g said =>
      rw [hturn] at hleaves hstep
      cases hstep
      exact hleaves.symm

theorem queue_of_raw
    {st st' : State} {tick : Tick} {out : List Effect} {frame : Frame} {l : RecvRaw}
    (hplace : st.place = .raw frame l) (hbuf : st'.place ≠ .stopped .addressError)
    (hstep : step nums st tick = some (st', out)) :
    st'.queue = (st.queue ++ tick.arrived).drop (min (frame.ln.toNat - l.got) 255) := by
  unfold step at hstep
  rw [hplace] at hstep
  dsimp only at hstep
  cases hturn : rawTurn st.g (st.queue ++ tick.arrived) tick.now frame.ln.toNat Const.DATTMO l with
  | none =>
      rw [hturn] at hstep
      cases hstep
      exact absurd rfl hbuf
  | some round =>
      have hleaves := rawTurn_leaves hturn
      rw [hturn] at hstep
      cases round with
      | again g queue l' said =>
          cases hstep
          exact hleaves
      | returned g queue ok said =>
          cases hstep
          exact hleaves
      | lost g said =>
          cases hstep
          exact hleaves.symm

/-- A tick of the data loop reads the first bytes that wait, and leaves the others. -/
theorem consumed_step
    {st st' : State} {tick : Tick} {out : List Effect} (hbuf : st'.place ≠ .stopped .addressError)
    (hstep : dataStep nums st tick = some (st', out)) :
    (consumed nums st tick).filterMap Input.byte? ++ st'.queue = st.queue ++ tick.arrived := by
  rw [dataStep] at hstep
  split_ifs at hstep with hreceiving
  cases hplace : st.place with
  | line wait l =>
      cases wait with
      | data =>
          rw [consumed_line hplace, queue_of_line hplace hstep]
          exact List.take_append_drop 1 _
      | _ =>
          rw [hplace] at hreceiving
          cases hreceiving
  | raw frame l =>
      rw [consumed_raw hplace, queue_of_raw hplace hbuf hstep]
      exact List.take_append_drop _ _
  | prompt p l =>
      rw [hplace] at hreceiving
      cases hreceiving
  | stopped how =>
      rw [hplace] at hreceiving
      cases hreceiving

/-- The data loop reads every byte that arrives, in order, and none twice. -/
theorem passed_bytes
    {st st' : State} {ticks : List Tick} {before out : List Effect}
    (hbuf : st'.place ≠ .stopped .addressError)
    (hrun : run (dataStep nums) (st, before) ticks = some (st', out)) :
    (passed (dataStep nums) (consumed nums) st ticks).filterMap Input.byte? ++ st'.queue =
      st.queue ++ ticks.flatMap Tick.arrived := by
  induction ticks generalizing st before with
  | nil =>
      cases hrun
      exact (List.append_nil _).symm
  | cons tick ticks ih =>
      cases hnext : dataStep nums st tick with
      | none => simp [run, hnext] at hrun
      | some next =>
          obtain ⟨st₁, out₁⟩ := next
          simp only [run, hnext] at hrun
          have hbuf₁ : st₁.place ≠ .stopped .addressError := by
            -- The data loop does not go on from there.
            intro hplace
            cases ticks with
            | nil =>
                cases hrun
                exact hbuf hplace
            | cons tick' ticks =>
                have hnone : dataStep nums st₁ tick' = none := by
                  rw [dataStep, hplace]
                  rfl
                simp [run, hnone] at hrun
          rw [passed_cons_some hnext, List.filterMap_append, List.append_assoc, ih hrun,
            ← List.append_assoc, consumed_step hbuf₁ hnext, List.append_assoc,
            List.flatMap_cons]

theorem run_settling (p : Recv × List Pcutp.Effect) :
    run (Recv.step m) p (settling p.1) = some (settled m p) := by
  obtain ⟨r, effects⟩ := p
  rw [settled, settling]
  dsimp only
  cases hphase : r.phase with
  | payload h =>
      dsimp only
      split_ifs with hempty
      · have hstep : r.step m (.payload [] none) = some (r.onPayload m h [] none) := by
          rw [Recv.step, hphase]
          exact if_pos hempty.symm
        rw [run, hstep]
        rfl
      · rfl
  | commit =>
      have hstep : r.step m (.commit true) =
          some ({ r with phase := .returned true }, [.replace, .unlink]) := by
        rw [Recv.step, hphase]
        rfl
      rw [run, hstep]
      rfl
  | _ => rfl

/-- `_receive` fed in pieces makes the steps of `_receive`. -/
theorem fed_events
    {f f' : Fed} {i : Input} {effects : List Pcutp.Effect}
    (hstep : f.step m i = some (f', effects)) :
    run (Recv.step m) (f.r, []) (f.events m i) = some (f'.r, effects) := by
  cases i with
  | byte b =>
      rw [Fed.step] at hstep
      rw [Fed.events]
      cases hphase : f.r.phase with
      | header =>
          rw [hphase] at hstep
          dsimp only at hstep ⊢
          split_ifs at hstep ⊢ with hlf
          · have hline : f.r.step m (.line (lineText f.part) true) =
                some (f.r.onLine m (lineText f.part) true) := by
              rw [Recv.step, hphase]
            cases hstep
            rw [run, hline]
            exact run_settling _
          · cases hstep
            rfl
      | payload h =>
          rw [hphase] at hstep
          dsimp only at hstep ⊢
          split_ifs at hstep ⊢ with hwhole
          · have hlen : (f.part ++ [b]).length = h.length := by
              rw [List.length_append, List.length_singleton, hwhole]
            have hpayload : f.r.step m (.payload (f.part ++ [b]) none) =
                some (f.r.onPayload m h (f.part ++ [b]) none) := by
              rw [Recv.step, hphase]
              exact if_pos hlen
            cases hstep
            rw [run, hpayload]
            rfl
          · cases hstep
            rfl
      | _ =>
          rw [hphase] at hstep
          cases hstep
  | silence =>
      rw [Fed.step] at hstep
      rw [Fed.events]
      cases hphase : f.r.phase with
      | header =>
          rw [hphase] at hstep
          cases hstep
          have htimeout : f.r.step m .timeout =
              some (f.r.raise (TimeoutError_ "timed out waiting for a control line"), []) := by
            rw [Recv.step, hphase]
          dsimp only
          rw [run, htimeout]
          rfl
      | payload h =>
          rw [hphase] at hstep
          cases hstep
          have htimeout : f.r.step m .rawTimeout = some (Recv.onRawTimeout cfg f.r) := by
            rw [Recv.step, hphase]
          dsimp only
          rw [run, htimeout]
          rfl
      | _ =>
          rw [hphase] at hstep
          cases hstep

theorem fed_run
    {f f' : Fed} {inputs : List Input} {effects : List Pcutp.Effect}
    (hrun : run (Fed.step m) (f, []) inputs = some (f', effects)) :
    ∃ events, run (Recv.step m) (f.r, []) events = some (f'.r, effects) := by
  have hstep : ∀ (f : Fed) (r : Recv) (i : Input) (f' : Fed) (out : List Pcutp.Effect), f.r = r →
      f.step m i = some (f', out) →
      Always (Recv.step m) (fun _ _ _ _ => True) r (f.events m i) →
      ∃ r' out', run (Recv.step m) (r, []) (f.events m i) = some (r', out') ∧ f'.r = r' ∧
        out.filterMap some = out'.filterMap some := by
    rintro f _ i f' out rfl hstep _
    exact ⟨f'.r, out, fed_events hstep, rfl, rfl⟩
  have hall : Always (Recv.step m) (fun _ _ _ _ => True) f.r
      (passed (Fed.step m) (Fed.events m) f inputs) :=
    always_of_step (fun _ => True) (fun _ _ _ _ _ _ => ⟨trivial, trivial⟩) _ trivial
  obtain ⟨r', out', hrecv, rfl, hout⟩ := run_passed (fun f r => f.r = r) hstep rfl hrun hall
  rw [List.filterMap_some, List.filterMap_some] at hout
  exact ⟨_, hout ▸ hrecv⟩

/-- The state in which `PCUTP.BAS` begins a transfer. -/
def begun (nums : Numbers) (g : Globals) (now : Nat) (announced : Line) : State :=
  (afterMeta nums g now announced).state []

/-- What the data loop has read in a run. -/
def readBy (nums : Numbers) (st : State) (ticks : List Tick) : List Input :=
  passed (dataStep nums) (consumed nums) st ticks

/-- The data loop of `PCUTP.BAS` and `_receive`, from the same META on, do the same acts in the
same order and end alike. -/
theorem receives_alike
    (hnums : ReadsNumbers nums) {g : Globals} (hflowOn : g.flowOn = true)
    (hflow : cfg.flow = true) (hzip : g.zipOn = cfg.compression)
    (hmaxblk : g.maxblk = cfg.max_block_size) (hlimit : cfg.max_block_size ≤ 4096) (now : Nat)
    {ws : List Line} (hws : ∀ w ∈ ws, IsWord w) {announced : Meta}
    (hparse : parseMeta (join ws) = .ok announced) (haccept : acceptMeta cfg announced = .ok m)
    {ticks : List Tick} {st' : State} {out : List Effect}
    (hrun : run (dataStep nums) (begun nums g now (join ws), []) ticks = some (st', out))
    (hspeaks : Always (Fed.step m) (fun f i _ _ => f.Speaks m i) ⟨Recv.start, []⟩
      (readBy nums (begun nums g now (join ws)) ticks)) :
    ∃ (f' : Fed) (effects : List Pcutp.Effect) (events : List RecvEvent),
      run (Fed.step m) (⟨Recv.start, []⟩, []) (readBy nums (begun nums g now (join ws)) ticks) =
        some (f', effects) ∧
      run (Recv.step m) (Recv.start, []) events = some (f'.r, effects) ∧
      Agrees m f' st' ∧
      out.filterMap Effect.act? = effects.filterMap act? ∧
      (readBy nums (begun nums g now (join ws)) ticks).filterMap Input.byte? ++ st'.queue =
        ticks.flatMap Tick.arrived := by
  have hblock : (m.blocksize : Int) ≤ g.maxblk := by
    have hblock_ok := m.block_ok
    omega
  have hstart : Agrees m ⟨Recv.start, []⟩ (begun nums g now (join ws)) :=
    (alike_start hnums hflowOn hzip (by omega) now hws hparse haccept hblock).agrees []
  obtain ⟨f', effects, hfed, hagrees, hacts⟩ := run_passed (fun st f => Agrees m f st)
    (fun st f tick st' out hagrees hstep hP => agrees_step hnums hflow hagrees hstep hP)
    hstart hrun hspeaks
  obtain ⟨events, hrecv⟩ := fed_run hfed
  exact ⟨f', effects, events, hfed, hrecv, hagrees, hacts,
    passed_bytes hagrees.not_addressError hrun⟩

/-- The variables at the start of a download in blocks of one byte. -/
def oneByteGlobals : Globals :=
  { Globals.start 0 with fn := "A".toList, flowOn := true, maxblk := 1 }

/-- A line of the sender, byte by byte. -/
theorem always_line
    {f : Fed} (hphase : f.r.phase = .header) {part rest : Bytes} (hpart : f.part = part)
    (hlf : LF ∉ rest) {ws : List Line} (hline : part ++ rest = encodeAscii (join ws))
    (hsendable : Sendable (join ws)) (hcr : '\r' ∉ join ws) (hshort : (join ws).length ≤ 250)
    (hspoken : Spoken m f.r ws) :
    Always (Fed.step m) (fun f i _ _ => f.Speaks m i) f ((rest ++ [LF]).map .byte) := by
  induction rest generalizing f part with
  | nil =>
      have hnext : ∃ next, f.step m (.byte LF) = some next := by
        rw [Fed.step, hphase]
        exact ⟨_, if_pos rfl⟩
      obtain ⟨next, hnext⟩ := hnext
      rw [List.append_nil] at hline
      exact (always_cons_some hnext).mpr
        ⟨fun _ _ => ⟨ws, hpart.trans hline, hsendable, hcr, hshort, Or.inl hspoken⟩, trivial⟩
  | cons b rest ih =>
      rw [List.mem_cons, not_or] at hlf
      have hnext : f.step m (.byte b) = some (⟨f.r, f.part ++ [b]⟩, []) := by
        rw [Fed.step, hphase]
        exact if_neg (Ne.symm hlf.1)
      refine (always_cons_some hnext).mpr ⟨fun _ hb => absurd hb (Ne.symm hlf.1), ?_⟩
      refine ih (f := ⟨f.r, f.part ++ [b]⟩) hphase (congrArg (· ++ [b]) hpart) hlf.2 ?_ hspoken
      rw [List.append_assoc]
      exact hline

/-- Inside a payload no line comes to its end. -/
theorem always_payload
    {f : Fed} {h : DataHeader} (hphase : f.r.phase = .payload h) {data : Bytes}
    (hle : f.part.length + data.length ≤ h.length) :
    Always (Fed.step m) (fun f i _ _ => f.Speaks m i) f (data.map .byte) := by
  induction data generalizing f with
  | nil => trivial
  | cons b data ih =>
      rw [List.length_cons] at hle
      have hspeaks : f.Speaks m (.byte b) := fun hheader => by
        rw [hphase] at hheader
        cases hheader
      by_cases hwhole : f.part.length + 1 = h.length
      · obtain rfl : data = [] := List.eq_nil_of_length_eq_zero (by omega)
        have hnext : ∃ next, f.step m (.byte b) = some next := by
          rw [Fed.step, hphase]
          exact ⟨_, if_pos hwhole⟩
        obtain ⟨next, hnext⟩ := hnext
        exact (always_cons_some hnext).mpr ⟨hspeaks, trivial⟩
      · have hnext : f.step m (.byte b) = some (⟨f.r, f.part ++ [b]⟩, []) := by
          rw [Fed.step, hphase]
          exact if_neg hwhole
        refine (always_cons_some hnext).mpr ⟨hspeaks, ih hphase ?_⟩
        rw [List.length_append, List.length_singleton]
        omega

/-- The META of a file of one byte. -/
def oneByteMeta : Meta where
  filename := "A".toList
  size := 1
  blocksize := 1
  blocks := 1
  crc32 := "D3D99E8B".toList

/-- What `_recv_meta` makes of it. -/
def oneByteAccepted : AcceptedMeta smallClient where
  toMeta := oneByteMeta
  target := "A".toList
  target_eq := by decide +kernel
  crc_ok := by decide +kernel
  block_ok := by decide
  size_ok := by decide
  blocks_eq := by decide
  fits := fun _ heq => by cases heq

theorem accept_oneByteMeta :
    acceptMeta smallClient oneByteMeta = .ok oneByteAccepted := by
  rfl

/-- The frame of a file of one byte, and DONE. -/
def oneByteTicks : List Tick :=
  bytesIn 0 "DATA 0 1 D3D99E8B" ++ [{ now := 0, arrived := [65], key := none }] ++
    bytesIn 0 "DONE D3D99E8B"

/-- What it is to a receiver. -/
def oneByteHeader : DataHeader where
  seq := 0
  length := 1
  raw_length := 1
  want := "D3D99E8B".toList
  packed := false

/-- A short line is read as it is written, by a check of its characters. -/
theorem sendable_of_check
    {line : Line} (hascii : (line.all fun c => decide (c.toNat < 128)) = true) (hlf : '\n' ∉ line)
    (hcr : '\r' ∉ line) (hnul : line.head? ≠ some (Char.ofNat 0)) (hshort : line.length ≤ 250)
    (hplain : isTransparent (split line) = false) :
    Sendable line where
  ascii := fun c hc => of_decide_eq_true (List.all_eq_true.mp hascii c hc)
  noLf := hlf
  noNul := hnul
  noCrBefore := fun h => hcr (List.mem_of_head? h)
  noCrAfter := fun h => hcr (List.mem_of_getLast? h)
  short := hshort.trans (by decide)
  plain := hplain

/-- The lines of the transfer are lines of a sender. -/
theorem speaks_oneByte :
    Always (Fed.step oneByteAccepted) (fun f i _ _ => f.Speaks oneByteAccepted i) ⟨Recv.start, []⟩
      ((encodeAscii "DATA 0 1 D3D99E8B".toList ++ [LF]).map .byte ++ [.byte 65] ++
        (encodeAscii "DONE D3D99E8B".toList ++ [LF]).map .byte) := by
  have hdata : join ["DATA".toList, "0".toList, "1".toList, "D3D99E8B".toList] =
      "DATA 0 1 D3D99E8B".toList := by
    decide
  have hdone : join ["DONE".toList, "D3D99E8B".toList] = "DONE D3D99E8B".toList := by decide
  -- The header, the payload and DONE, each from where the one before it ends.
  have hheader : ((run (Fed.step oneByteAccepted) (⟨Recv.start, []⟩, [])
      ((encodeAscii "DATA 0 1 D3D99E8B".toList ++ [LF]).map .byte)).any fun p =>
        decide (p.1.r.phase = .payload oneByteHeader ∧ p.1.part = [])) = true := by
    decide +kernel
  have hblock : ((run (Fed.step oneByteAccepted) (⟨Recv.start, []⟩, [])
      ((encodeAscii "DATA 0 1 D3D99E8B".toList ++ [LF]).map .byte ++ [.byte 65])).any fun p =>
        decide (p.1.r.phase = .header ∧ p.1.part = [] ∧ p.1.r.expected = 1)) = true := by
    decide +kernel
  rw [Option.any_eq_true] at hheader hblock
  obtain ⟨⟨f₁, out₁⟩, hrun₁, hfirst⟩ := hheader
  obtain ⟨⟨f₂, out₂⟩, hrun₂, hsecond⟩ := hblock
  obtain ⟨hphase₁, hpart₁⟩ := of_decide_eq_true hfirst
  obtain ⟨hphase₂, hpart₂, hexpected⟩ := of_decide_eq_true hsecond
  refine always_of_run_append (always_of_run_append ?_ hrun₁ ?_) hrun₂ ?_
  · exact always_line (f := ⟨Recv.start, []⟩) rfl rfl (by decide) (congrArg encodeAscii hdata.symm)
      (hdata ▸ sendable_of_check (by decide) (by decide) (by decide) (by decide) (by decide)
        (by decide +kernel)) (by decide) (by decide)
      (.data (by decide) (by decide) (isWord_of_check (by decide)) (by decide) (by decide))
  · have hlen : f₁.part.length + [(65 : UInt8)].length ≤ oneByteHeader.length := by
      rw [show f₁.part = [] from hpart₁]
      decide
    exact always_payload hphase₁ hlen
  · exact always_line hphase₂ hpart₂ (by decide) (congrArg encodeAscii hdone.symm)
      (hdone ▸ sendable_of_check (by decide) (by decide) (by decide) (by decide) (by decide)
        (by decide +kernel)) (by decide) (by decide)
      (.done (by decide +kernel) hexpected)

/-- A file of one byte: its block is stored, and DONE brings it to its name. -/
theorem receives_alike_one_byte :
    ∃ (st' : State) (out : List Effect) (f' : Fed) (effects : List Pcutp.Effect)
      (events : List RecvEvent),
      run (Recv.step oneByteAccepted) (Recv.start, []) events = some (f'.r, effects) ∧
        Agrees oneByteAccepted f' st' ∧
        out.filterMap Effect.act? = effects.filterMap act? ∧
        out.filterMap Effect.act? =
          [.wrote [65], .reply "ACK 0".toList, .reply "OK D3D99E8B".toList, .installed] := by
  have hline : "META A 1 1 1 D3D99E8B".toList =
      join ["META".toList, "A".toList, "1".toList, "1".toList, "1".toList, "D3D99E8B".toList] := by
    decide
  have hwords : ∀ w ∈ ["META".toList, "A".toList, "1".toList, "1".toList, "1".toList,
      "D3D99E8B".toList], IsWord w := by
    have hcheck : ["META".toList, "A".toList, "1".toList, "1".toList, "1".toList,
        "D3D99E8B".toList].all (fun w => !w.isEmpty && w.all fun c => !isSpace c) = true := by
      decide
    exact fun w hw => isWord_of_check (List.all_eq_true.mp hcheck w hw)
  have hparse : parseMeta (join ["META".toList, "A".toList, "1".toList, "1".toList, "1".toList,
      "D3D99E8B".toList]) = .ok oneByteMeta := by
    rfl
  have hread : readBy integers (begun integers oneByteGlobals 0 "META A 1 1 1 D3D99E8B".toList)
      oneByteTicks = (encodeAscii "DATA 0 1 D3D99E8B".toList ++ [LF]).map .byte ++ [.byte 65] ++
        (encodeAscii "DONE D3D99E8B".toList ++ [LF]).map .byte := by
    decide +kernel
  have hrun : (run (dataStep integers)
      (begun integers oneByteGlobals 0 "META A 1 1 1 D3D99E8B".toList, []) oneByteTicks).any
        (fun p => decide (p.2.filterMap Effect.act? =
          [.wrote [65], .reply "ACK 0".toList, .reply "OK D3D99E8B".toList, .installed])) = true := by
    decide +kernel
  rw [Option.any_eq_true] at hrun
  obtain ⟨⟨st', out⟩, hrun, hout⟩ := hrun
  have hspeaks := speaks_oneByte
  rw [← hread] at hspeaks
  rw [hline] at hrun hspeaks
  obtain ⟨f', effects, events, _, hrecv, hagrees, hacts, _⟩ :=
    receives_alike readsNumbers_integers rfl rfl rfl rfl (by decide) 0 hwords hparse
      accept_oneByteMeta hrun hspeaks
  exact ⟨st', out, f', effects, events, hrecv, hagrees, hacts, of_decide_eq_true hout⟩

end Runs

end Pcutp.Picocalc
