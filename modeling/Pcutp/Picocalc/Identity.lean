import Pcutp.Picocalc.CallStages

/-!
# Who the PicoCalc is

The line after the accepted proposal is `WHO? 0` exactly when the call is not
disturbed.  A HELLO? that the server has yet to read, or a second proposal,
comes out as an OHRU in the place of `WHO? 0`; then CONNECT is shown without an
IAM, and the server gives the session up.
-/

namespace Pcutp.Picocalc

open Machine (Always always_cons_some always_cons_none)

section Disturbed

variable (baud : Nat) (session : Session)

/-- A call in which the read after HRU will not see `WHO? 0`, or that the server has given up. -/
inductive Doomed (c : Call) : Prop
  | gone {l : RecvLine} (hplace : c.basic.place = .line .who l) (hconnected : c.connected = false)
      (hover : abandoned c.server = true)
  /-- Another line comes first. -/
  | stray {l : RecvLine} (front rest : Bytes) (hplace : c.basic.place = .line .who l)
      (hconnected : c.connected = false) (hahead : c.ahead = front ++ rest) (hend : 10 ∈ front)
      (hplain : Plain (unread l.s front))
  /-- A call that the server has yet to read will make it send another line first. -/
  | crossed {l : RecvLine} {turn k : Nat} {more : List Line}
      (hplace : c.basic.place = .line .who l) (hconnected : c.connected = false) (hs : l.s = [])
      (hahead : c.ahead = []) (hserver : c.server = HandleHello.settled baud session (.hru turn))
      (hlines : c.toServer = Hello.greeting picocalc (k + 1) :: more)
  | stopped (hstopped : isStopped c.basic.place = true)

end Disturbed

section Hopeless

variable {nums : Numbers} {config : ServerConfig} {baud : Nat} {session : Session}

/-- CONNECT without `WHO? 0` comes without IAM. -/
theorem not_identified_afterWho
    {c : Call} {l : RecvLine} (hplace : c.basic.place = .line .who l) {s : Line} (hs : s ≠ whoLine)
    (g : Globals) (rest : Bytes) (arrived : Nat) :
    ¬ Identified c (c.basicMoved arrived ((afterWho g s).state rest, (afterWho g s).out))
      (afterWho g s).out := by
  have hout : (afterWho g s).out = [.show "CONNECT 115200".toList] := by
    have hs' : s ≠ "WHO? 0".toList := hs
    rw [afterWho, if_neg hs']
    rfl
  rintro ⟨hiam, -⟩
  rw [hout] at hiam
  have hconnects : c.connects [.show "CONNECT 115200".toList] = true := by
    rw [Call.connects, hplace]
    rfl
  have hmem := List.mem_singleton.mp (hiam hconnects)
  cases hmem

theorem connects_of_not_mem
    {c : Call} {out : List Effect} (h : .show "CONNECT 115200".toList ∉ out) :
    c.connects out = false := by
  have hcontains : out.contains (.show "CONNECT 115200".toList) = false :=
    Bool.eq_false_iff.mpr fun hmem => h (List.contains_iff_mem.mp hmem)
  rw [Call.connects, hcontains, Bool.and_false]

theorem basicMoved_silent
    {c : Call} (hconnected : c.connected = false) {p : State × List Effect}
    (hsilent : c.connects p.2 = false) (arrived : Nat) :
    (c.basicMoved arrived p).connected = false := by
  rw [Call.basicMoved, hconnected, hsilent]
  rfl

/-- A server that has given up is still given up when CONNECT is shown. -/
theorem doomed_over_basic
    {c : Call} {l : RecvLine} (hplace : c.basic.place = .line .who l)
    (hconnected : c.connected = false) (hover : abandoned c.server = true)
    {now arrived : Nat} {key : Option Char} {p : State × List Effect}
    (h : step nums c.basic { now, arrived := c.toBasic.take arrived, key } = some p)
    (hidentified : Identified c (c.basicMoved arrived p) p.2) :
    c.connects p.2 = false ∧ Doomed baud session (c.basicMoved arrived p) := by
  obtain ⟨basic, out⟩ := p
  rcases who_outcome nums hplace h with ⟨hwho | hstopped, hshow⟩ | ⟨-, hrunning, hshow⟩
  · obtain ⟨l', hplace'⟩ := hwho
    have hsilent : c.connects out = false := connects_of_not_mem hshow
    exact ⟨hsilent, .gone hplace' (basicMoved_silent hconnected hsilent arrived) hover⟩
  · exact ⟨connects_of_not_mem hshow, .stopped hstopped⟩
  · have hconnects : c.connects out = true := by
      rw [Call.connects, hplace, List.contains_iff_mem.mpr hshow]
      rfl
    have hconnected' : (c.basicMoved arrived (basic, out)).connected = true := by
      rw [Call.basicMoved, hconnects, Bool.or_true]
    have hkept : abandoned c.server = false := hidentified.2 hconnected' hrunning
    rw [hover] at hkept
    cases hkept

/-- Another line than `WHO? 0` is read on, or it has come in. -/
theorem doomed_stray_basic
    {c : Call} {l : RecvLine} {front rest : Bytes} (hplace : c.basic.place = .line .who l)
    (hconnected : c.connected = false) (hahead : c.ahead = front ++ rest) (hend : 10 ∈ front)
    (hplain : Plain (unread l.s front)) {now arrived : Nat} {key : Option Char}
    {p : State × List Effect}
    (h : step nums c.basic { now, arrived := c.toBasic.take arrived, key } = some p)
    (hidentified : Identified c (c.basicMoved arrived p) p.2) :
    c.connects p.2 = false ∧ Doomed baud session (c.basicMoved arrived p) := by
  obtain ⟨basic, out⟩ := p
  have hturn := whoTurn_step nums hplace h
  have hconnected' : ∀ basic, (c.basicMoved arrived (basic, [])).connected = false :=
    fun basic => basicMoved_silent hconnected (connects_nil c) arrived
  rw [ahead_eq c arrived] at hahead
  obtain ⟨b, front, rfl⟩ := List.exists_cons_of_ne_nil (List.ne_nil_of_mem hend)
  cases hturn with
  | waits hqueue _ =>
      dsimp only at hqueue
      rw [hqueue] at hahead
      exact ⟨connects_nil c, .stray (b :: front) rest rfl (hconnected' _) hahead hend hplain⟩
  | @reads g' b' queue hqueue hb _ =>
      dsimp only at hqueue
      rw [hqueue, List.cons_append, List.cons_append] at hahead
      obtain ⟨rfl, hahead'⟩ := List.cons.inj hahead
      have hend' : 10 ∈ front := (List.mem_cons.mp hend).resolve_left (Ne.symm hb)
      have hplain' := hplain.suffix (unread_keep hplain fun _ => List.ne_nil_of_mem hend')
      exact ⟨connects_nil c, .stray front rest rfl (hconnected' _) hahead' hend' hplain'⟩
  | @completes g' queue hqueue hheard =>
      dsimp only at hqueue
      rw [hqueue, List.cons_append, List.cons_append] at hahead
      obtain ⟨rfl, -⟩ := List.cons.inj hahead
      have hs := ne_whoLine_of_plain (plain_of_unread hplain)
      exact absurd hidentified (not_identified_afterWho hplace hs g' queue arrived)
  | answers hhead hheard =>
      obtain ⟨queue, hqueue⟩ := List.head?_eq_some_iff.mp hhead
      rw [hqueue] at hahead
      obtain ⟨rfl, -⟩ := List.cons.inj hahead
      exact absurd (recvHears_of_plain nums (plain_of_unread hplain)) hheard
  | late _ _ =>
      exact absurd hidentified (not_identified_afterWho hplace (by decide) _ _ arrived)
  | lost => exact ⟨connects_nil c, .stopped rfl⟩

/-- Nothing comes in before the server has read the call. -/
theorem doomed_crossed_basic
    {c : Call} {l : RecvLine} {turn k : Nat} {more : List Line}
    (hplace : c.basic.place = .line .who l) (hconnected : c.connected = false) (hs : l.s = [])
    (hahead : c.ahead = []) (hserver : c.server = HandleHello.settled baud session (.hru turn))
    (hlines : c.toServer = Hello.greeting picocalc (k + 1) :: more)
    {now arrived : Nat} {key : Option Char} {p : State × List Effect}
    (h : step nums c.basic { now, arrived := c.toBasic.take arrived, key } = some p)
    (hidentified : Identified c (c.basicMoved arrived p) p.2) :
    c.connects p.2 = false ∧ Doomed baud session (c.basicMoved arrived p) := by
  obtain ⟨basic, out⟩ := p
  have hturn := whoTurn_step nums hplace h
  rw [ahead_eq c arrived, List.append_eq_nil_iff] at hahead
  cases hturn with
  | @waits g' hqueue _ =>
      have hlines' : (c.basicMoved arrived (⟨g', .line .who l, []⟩, [])).toServer =
          Hello.greeting picocalc (k + 1) :: more := by
        rw [Call.basicMoved, hlines]
        exact List.append_nil _
      exact ⟨connects_nil c, .crossed rfl (basicMoved_silent hconnected (connects_nil c) arrived) hs
        hahead.2 hserver hlines'⟩
  | reads hqueue _ _ =>
      rw [hahead.1] at hqueue
      cases hqueue
  | completes hqueue _ =>
      rw [hahead.1] at hqueue
      cases hqueue
  | answers hhead _ =>
      rw [hahead.1] at hhead
      cases hhead
  | late _ _ =>
      exact absurd hidentified (not_identified_afterWho hplace (by decide) _ _ arrived)
  | lost => exact ⟨connects_nil c, .stopped rfl⟩

theorem doomed_basic
    {c : Call} (hdoomed : Doomed baud session c) {now arrived : Nat} {key : Option Char}
    {p : State × List Effect}
    (h : step nums c.basic { now, arrived := c.toBasic.take arrived, key } = some p)
    (hidentified : Identified c (c.basicMoved arrived p) p.2) :
    c.connects p.2 = false ∧ Doomed baud session (c.basicMoved arrived p) := by
  cases hdoomed with
  | gone hplace hconnected hover =>
      exact doomed_over_basic hplace hconnected hover h hidentified
  | stray front rest hplace hconnected hahead hend hplain =>
      exact doomed_stray_basic hplace hconnected hahead hend hplain h hidentified
  | crossed hplace hconnected hs hahead hserver hlines =>
      exact doomed_crossed_basic hplace hconnected hs hahead hserver hlines h hidentified
  | stopped hstopped =>
      exact absurd (hstopped.symm.trans (running_of_step h)) Bool.false_ne_true.symm

theorem mem_wireBytes
    {lines : List Line} (h : lines ≠ []) :
    10 ∈ wireBytes lines := by
  obtain ⟨line, lines, rfl⟩ := List.exists_cons_of_ne_nil h
  rw [wireBytes, List.flatMap_cons, encodeFrame]
  exact List.mem_append_left _ (List.mem_append_right _ List.mem_cons_self)

/-- What a server that waits for HRU sends comes before any `WHO? 0`. -/
theorem doomed_repeats
    {c : Call} {l : RecvLine} (hplace : c.basic.place = .line .who l)
    (hconnected : c.connected = false) (hs : l.s = []) (hahead : c.ahead = [])
    {p : HandleHello × List Line} (hrepeats : Repeats baud session p) :
    Doomed baud session (c.serverMoved p) := by
  have hforeign : Foreign (unread [] [] ++ (wireBytes p.2).map Chr) :=
    foreign_wire ⟨.nil, Or.inl rfl⟩ hrepeats.plain
  refine .stray (wireBytes p.2) [] hplace hconnected ?_ (mem_wireBytes hrepeats.some) ?_
  · rw [ahead_serverMoved, hahead, List.append_nil]
    rfl
  · rw [hs]
    exact hforeign.plain

/-- The server moves in a doomed call. -/
theorem doomed_line
    (hidentity : session.identity = true) {c c' : Call} (hdoomed : Doomed baud session c)
    {out : List Effect} (h : c.step nums config baud .line = some (c', out)) :
    c.connects out = false ∧ Doomed baud session c' := by
  obtain ⟨hbasic, hsame, rfl, ⟨more, hsent⟩, hmoved⟩ := Call.step_line_cases h
  refine ⟨connects_nil c, ?_⟩
  cases hdoomed with
  | gone hplace hconnected hover =>
      refine .gone (hbasic ▸ hplace) (hsame.trans hconnected) ?_
      rcases hmoved with hserver | ⟨text, p, hp⟩
      · exact hserver ▸ hover
      · rw [step_of_abandoned hover] at hp
        cases hp
  | stray front rest hplace hconnected hahead hend hplain =>
      refine .stray front (rest ++ more) (hbasic ▸ hplace) (hsame.trans hconnected) ?_ hend hplain
      rw [← List.append_assoc, ← hahead, Call.ahead, Call.ahead, hbasic, hsent, List.append_assoc]
  | @crossed l turn k more hplace hconnected hs hahead hserver hlines =>
      obtain ⟨p, hp, rfl, -⟩ := Call.step_line hlines (not_isTransparent_greeting rfl) h
      rw [hserver, HandleHello.step_again] at hp
      cases hp
      exact doomed_repeats (c := { c with toServer := more }) hplace hconnected hs hahead
        (repeats_nextHru hidentity turn)
  | stopped hstopped => exact .stopped (hbasic ▸ hstopped)

theorem doomed_timeout
    (hidentity : session.identity = true) {c c' : Call} (hdoomed : Doomed baud session c)
    {out : List Effect} (h : c.step nums config baud .timeout = some (c', out)) :
    c.connects out = false ∧ Doomed baud session c' := by
  obtain ⟨p, hp, heq⟩ := Option.map_eq_some_iff.mp h
  cases heq
  refine ⟨connects_nil c, ?_⟩
  cases hdoomed with
  | gone hplace hconnected hover =>
      rw [step_of_abandoned hover] at hp
      cases hp
  | stray front rest hplace hconnected hahead hend hplain =>
      refine .stray front (rest ++ wireBytes p.2) hplace hconnected ?_ hend hplain
      rw [ahead_serverMoved, hahead, List.append_assoc]
  | crossed hplace hconnected hs hahead hserver hlines =>
      rw [hserver] at hp
      exact doomed_repeats hplace hconnected hs hahead (repeats_timeout hidentity hp)
  | stopped hstopped => exact .stopped hstopped

/-- The step lemma of doomed calls. -/
theorem doomed_step
    (hidentity : session.identity = true) {c c' : Call} {e : CallEvent} {out : List Effect}
    (hdoomed : Doomed baud session c) (h : c.step nums config baud e = some (c', out))
    (hidentified : Identified c c' out) :
    c.connects out = false ∧ Doomed baud session c' := by
  cases e with
  | basic now arrived key =>
      obtain ⟨p, hp, heq⟩ := Option.map_eq_some_iff.mp h
      cases heq
      exact doomed_basic hdoomed hp hidentified
  | line => exact doomed_line hidentity hdoomed h
  | timeout => exact doomed_timeout hidentity hdoomed h

theorem eq_lf_of_chr
    {b : UInt8} (h : Chr b = '\n') :
    b = 10 := by
  have hnat : (Chr b).toNat = b.toNat := by
    have hvalid : b.toNat.isValidChar := Or.inl (by have := b.toNat_lt; omega)
    rw [Chr, Char.ofNat, dif_pos hvalid]
    rfl
  rw [h] at hnat
  exact UInt8.toNat_inj.mp hnat.symm

/-- Whole lines end with a line feed. -/
theorem lf_mem_of_foreign
    {queue : Bytes} (h : Foreign (unread [] queue)) (hqueue : queue ≠ []) :
    10 ∈ queue := by
  have hends := h.ends.resolve_left fun hnil => hqueue (List.map_eq_nil_iff.mp hnil)
  obtain ⟨b, hb, hlf⟩ := List.mem_map.mp (List.mem_of_getLast? hends)
  exact eq_lf_of_chr hlf ▸ hb

/-- The proposal is accepted while something else is on its way, or the server has given up. -/
theorem disturbed_dialing
    {c : Call} {helloTry : Nat} {l : RecvLine} (hdialing : Dialing baud session c helloTry l)
    {now arrived : Nat} {key : Option Char} {p : State × List Effect}
    (h : step nums c.basic { now, arrived := c.toBasic.take arrived, key } = some p)
    (hwho' : isWho p.1.place = true)
    (hdisturbed : ¬ (awaitsHru c.server = true ∧ c.toServer = [] ∧ c.ahead = [10])) :
    Doomed baud session (c.basicMoved arrived p) := by
  have hwho := hdialing.not_isWho
  obtain ⟨hplace, hconnected, hforeign, hdialed⟩ := hdialing
  obtain ⟨basic, out⟩ := p
  have hturn := dialTurn_step nums hplace h
  have hconnected' := basicMoved_connected hconnected hwho arrived (basic, out)
  rw [ahead_eq c arrived] at hforeign hdialed hdisturbed
  cases hturn with
  | waits _ => cases hwho'
  | reads _ _ => cases hwho'
  | dials _ => cases hwho'
  | @accepts g' rest hqueue =>
      dsimp only at hqueue
      rw [hqueue, List.cons_append] at hforeign hdialed hdisturbed
      have hrest := hforeign.suffix
        (suffix_unread l.s (List.suffix_cons 10 (rest ++ c.toBasic.drop arrived)))
      by_cases hnil : rest ++ c.toBasic.drop arrived = []
      · cases hdialed with
        | fresh _ _ _ hahead =>
            exact absurd (List.append_eq_nil_iff.mp hahead).2 (List.cons_ne_nil _ _)
        | @proposed turn hserver hlines =>
            cases hsent : c.toServer with
            | nil =>
                refine absurd ⟨?_, hsent, congrArg (List.cons 10) hnil⟩ hdisturbed
                rw [hserver]
                rfl
            | cons text more =>
                obtain ⟨k, rfl⟩ := hlines text (hsent ▸ List.mem_cons_self)
                have hsent' : c.toServer ++ [hruLine] =
                    Hello.greeting picocalc (k + 1) :: (more ++ [hruLine]) :=
                  congrArg (· ++ [hruLine]) hsent
                exact .crossed rfl hconnected' rfl hnil hserver hsent'
        | gone hover _ => exact .gone rfl hconnected' hover
      · exact .stray _ [] rfl hconnected' (List.append_nil _).symm (lf_mem_of_foreign hrest hnil)
          hrest.plain
  | leaves hpast =>
      exact absurd (hwho'.symm.trans (not_isWho_of_past hpast)) Bool.false_ne_true.symm
  | answers hhead hheard => exact absurd (recvHears_of_head hforeign.plain hhead) hheard

/-- The timers of `RecvLine$` run out before WHO?. -/
theorem disturbed_late
    {c : Call} {l : RecvLine} (hplace : c.basic.place = .line .who l)
    {now arrived : Nat} {key : Option Char} {p : State × List Effect}
    (h : step nums c.basic { now, arrived := c.toBasic.take arrived, key } = some p)
    (hlate : lateFor Const.HSTMO l (c.basic.queue ++ c.toBasic.take arrived) now)
    (hidentified : Identified c (c.basicMoved arrived p) p.2) :
    c.connects p.2 = false ∧ Doomed baud session (c.basicMoved arrived p) := by
  obtain ⟨basic, out⟩ := p
  have hturn := whoTurn_step nums hplace h
  have hhead' : (c.basic.queue ++ c.toBasic.take arrived).head? ≠ some 10 := by
    rcases hlate with ⟨hnil, _⟩ | ⟨hhead, _⟩
    · rw [hnil]
      exact (Option.some_ne_none _).symm
    · exact hhead
  cases hturn with
  | waits _ hnot => exact absurd hlate hnot
  | reads _ _ hnot => exact absurd hlate hnot
  | completes hqueue _ => exact absurd (congrArg List.head? hqueue) hhead'
  | answers hhead _ => exact absurd hhead hhead'
  | late _ _ => exact absurd hidentified (not_identified_afterWho hplace (by decide) _ _ arrived)
  | lost => exact ⟨connects_nil c, .stopped rfl⟩

theorem disturbed_basic
    {c : Call} (hstage : Stage baud session c) {now arrived : Nat} {key : Option Char}
    {p : State × List Effect}
    (h : step nums c.basic { now, arrived := c.toBasic.take arrived, key } = some p)
    (hidentified : Identified c (c.basicMoved arrived p) p.2)
    (hdisturbed : ¬ Undisturbed c (c.basicMoved arrived p) (.basic now arrived key)) :
    pastGreeting c.basic.place = false ∧ c.connects p.2 = false ∧
      Doomed baud session (c.basicMoved arrived p) := by
  -- After the greeting there is nothing left to disturb.
  have hpast : pastGreeting c.basic.place = false := by
    refine Bool.eq_false_iff.mpr fun hpast => hdisturbed ⟨fun _ hwho' => ?_, fun l hplace => ?_⟩
    · have hpast' := not_isWho_of_past (past_step nums hpast h)
      exact absurd (hwho'.symm.trans hpast') Bool.false_ne_true.symm
    · rw [hplace] at hpast
      cases hpast
  have hlate : ∀ l, c.basic.place = .line .who l →
      c.connects p.2 = false ∧ Doomed baud session (c.basicMoved arrived p) := by
    intro l hplace
    have hwho : isWho c.basic.place = true := by
      rw [hplace]
      rfl
    refine disturbed_late hplace h (not_not.mp fun hnot => hdisturbed ⟨fun hwho' => ?_, ?_⟩)
      hidentified
    · exact absurd (hwho.symm.trans hwho') Bool.false_ne_true.symm
    · intro l' hplace'
      rw [hplace] at hplace'
      cases hplace'
      exact hnot
  refine ⟨hpast, ?_⟩
  cases hstage with
  | dialing hdialing =>
      have hwho := hdialing.not_isWho
      refine ⟨connects_of_not_isWho hwho p.2, ?_⟩
      have hnone : ∀ l, c.basic.place ≠ .line .who l := by
        intro l hplace
        rw [hplace] at hwho
        cases hwho
      by_cases hwho' : isWho p.1.place = true
      · exact disturbed_dialing hdialing h hwho' fun hquiet =>
          hdisturbed ⟨fun _ _ => hquiet, fun l hplace => absurd hplace (hnone l)⟩
      · refine absurd ?_ hdisturbed
        exact ⟨fun _ h => absurd h hwho', fun l hplace => absurd hplace (hnone l)⟩
  | aside hpast' _ => exact absurd (hpast'.symm.trans hpast) Bool.false_ne_true.symm
  | confirmed hplace _ _ _ _ _ => exact hlate _ hplace
  | asked hplace _ _ _ _ => exact hlate _ hplace
  | named hpast' _ _ _ => exact absurd (hpast'.symm.trans hpast) Bool.false_ne_true.symm
  | done hpast' _ => exact absurd (hpast'.symm.trans hpast) Bool.false_ne_true.symm
  | stopped hstopped =>
      exact absurd ((past_of_isStopped hstopped).symm.trans hpast) Bool.false_ne_true.symm

/-- A timer of the server runs out between HRU and IAM. -/
theorem disturbed_timeout
    (hidentity : session.identity = true) {c c' : Call} (hstage : Stage baud session c)
    {out : List Effect} (h : c.step nums config baud .timeout = some (c', out))
    (hidentified : Identified c c' out) (hdisturbed : ¬ Undisturbed c c' .timeout) :
    pastGreeting c.basic.place = false ∧ c.connects out = false ∧ Doomed baud session c' := by
  obtain ⟨p, hp, heq⟩ := Option.map_eq_some_iff.mp h
  cases heq
  have hunconnected : isWho c.basic.place = false → c.connected = false → False :=
    fun hwho hconnected =>
      hdisturbed ⟨hwho, fun h => absurd (hconnected.symm.trans h) Bool.false_ne_true⟩
  cases hstage with
  | dialing hdialing => exact absurd hdialing.connected (hunconnected hdialing.not_isWho)
  | aside hpast hconnected => exact absurd hconnected (hunconnected (not_isWho_of_past hpast))
  | confirmed hplace hconnected hs hahead hserver _ =>
      rw [hserver] at hp
      exact ⟨by rw [hplace]; rfl, connects_nil c,
        doomed_repeats hplace hconnected hs hahead (repeats_timeout hidentity hp)⟩
  | asked hplace hconnected _ hserver _ =>
      rw [hserver] at hp
      cases hp
      exact ⟨by rw [hplace]; rfl, connects_nil c, .gone hplace hconnected rfl⟩
  | named hpast hconnected hserver _ =>
      rw [hserver] at hp
      cases hp
      have hrunning : isStopped c.basic.place = false :=
        Bool.eq_false_iff.mpr fun hstopped =>
          hdisturbed ⟨not_isWho_of_past hpast, fun _ => hstopped⟩
      exact absurd (hidentified.2 hconnected hrunning) Bool.false_ne_true.symm
  | done _ hserver =>
      unfold HandleHello.step at hp
      dsimp only at hp
      rw [hserver] at hp
      cases hp
  | stopped hstopped =>
      exact absurd ⟨not_isWho_of_past (past_of_isStopped hstopped), fun _ => hstopped⟩ hdisturbed

/-- The step that disturbs a call dooms it. -/
theorem disturbed_step
    (hidentity : session.identity = true) {c c' : Call} {e : CallEvent} {out : List Effect}
    (hstage : Stage baud session c) (h : c.step nums config baud e = some (c', out))
    (hidentified : Identified c c' out) (hdisturbed : ¬ Undisturbed c c' e) :
    pastGreeting c.basic.place = false ∧ c.connects out = false ∧ Doomed baud session c' := by
  cases e with
  | basic now arrived key =>
      obtain ⟨p, hp, heq⟩ := Option.map_eq_some_iff.mp h
      cases heq
      exact disturbed_basic hstage hp hidentified hdisturbed
  | line => exact absurd trivial hdisturbed
  | timeout => exact disturbed_timeout hidentity hstage h hidentified hdisturbed

/-- No CONNECT is shown any more. -/
theorem silent_of_doomed
    (hidentity : session.identity = true) {c : Call} (hdoomed : Doomed baud session c)
    {events : List CallEvent}
    (h : Always (Call.step nums config baud) (fun c _ c' out => Identified c c' out) c events) :
    Always (Call.step nums config baud) (fun c _ _ out => c.connects out = false) c events :=
  Machine.always_of_inv (Doomed baud session)
    (fun _ _ _ _ hdoomed hstep hidentified => doomed_step hidentity hdoomed hstep hidentified)
    hdoomed h

end Hopeless

section Result

variable {nums : Numbers} {config : ServerConfig} {baud : Nat} {session : Session}

/-- CONNECT ends the greeting, and what is past it stays past it. -/
theorem past_of_connects
    {c c' : Call} {e : CallEvent} {out : List Effect}
    (h : c.step nums config baud e = some (c', out))
    (hpast : pastGreeting c.basic.place = true ∨ c.connects out = true) :
    pastGreeting c'.basic.place = true := by
  cases e with
  | basic now arrived key =>
      obtain ⟨p, hp, heq⟩ := Option.map_eq_some_iff.mp h
      cases heq
      rcases hpast with hpast | hconnects
      · exact past_step nums hpast hp
      · obtain ⟨hwho, hshow⟩ := Bool.and_eq_true_iff.mp hconnects
        cases hplace : c.basic.place with
        | line wait l =>
            cases wait with
            | who =>
                rcases who_outcome nums hplace hp with ⟨-, hnot⟩ | ⟨hpast, -⟩
                · exact absurd (List.contains_iff_mem.mp hshow) hnot
                · exact hpast
            | _ =>
                rw [hplace] at hwho
                cases hwho
        | _ =>
            rw [hplace] at hwho
            cases hwho
  | line =>
      obtain ⟨hbasic, -, rfl, -⟩ := Call.step_line_cases h
      rw [connects_nil, or_iff_left Bool.false_ne_true] at hpast
      exact hbasic ▸ hpast
  | timeout =>
      obtain ⟨p, -, heq⟩ := Option.map_eq_some_iff.mp h
      cases heq
      rw [connects_nil, or_iff_left Bool.false_ne_true] at hpast
      exact hpast

/-- A call that comes to CONNECT, and keeps what it shows there, is not disturbed. -/
theorem undisturbed_of_identified
    (hopens : Opens config session) {c : Call} (hstage : Stage baud session c)
    {events : List CallEvent}
    (hidentified :
      Always (Call.step nums config baud) (fun c _ c' out => Identified c c' out) c events)
    (hconnects : pastGreeting c.basic.place = true ∨ Connects nums config baud c events) :
    Always (Call.step nums config baud) (fun c e c' _ => Undisturbed c c' e) c events := by
  induction events generalizing c with
  | nil => trivial
  | cons e events ih =>
      cases hstep : c.step nums config baud e with
      | none => exact always_cons_none hstep
      | some next =>
          obtain ⟨c', out⟩ := next
          obtain ⟨hnow, hrest⟩ := (always_cons_some hstep).mp hidentified
          by_cases hundisturbed : Undisturbed c c' e
          · obtain ⟨-, hstage'⟩ := stage_step hopens hstage hstep hundisturbed
            refine (always_cons_some hstep).mpr ⟨hundisturbed, ih hstage' hrest ?_⟩
            by_cases hshown : pastGreeting c.basic.place = true ∨ c.connects out = true
            · exact Or.inl (past_of_connects hstep hshown)
            · rw [not_or, Bool.not_eq_true, Bool.not_eq_true] at hshown
              refine Or.inr fun hsilent => ?_
              exact hconnects.resolve_left (Bool.eq_false_iff.mp hshown.1)
                ((always_cons_some hstep).mpr ⟨hshown.2, hsilent⟩)
          · obtain ⟨hnot, hsilent, hdoomed⟩ :=
              disturbed_step hopens.identity hstage hstep hnow hundisturbed
            rcases hconnects with hpast | hconnects
            · exact absurd (hpast.symm.trans hnot) Bool.false_ne_true.symm
            · exact absurd ((always_cons_some hstep).mpr
                ⟨hsilent, silent_of_doomed hopens.identity hdoomed hrest⟩) hconnects

/-- A call that never comes to CONNECT promises nothing. -/
theorem identified_of_silent
    {c : Call} (hconnected : c.connected = false) {events : List CallEvent}
    (h : Always (Call.step nums config baud) (fun c _ _ out => c.connects out = false) c events) :
    Always (Call.step nums config baud) (fun c _ c' out => Identified c c' out) c events := by
  refine Machine.always_of_inv (fun c => c.connected = false)
    (fun c e c' out hconnected hstep hsilent => ?_) hconnected h
  have hconnected' : c'.connected = false := by
    cases e with
    | basic now arrived key =>
        obtain ⟨p, -, heq⟩ := Option.map_eq_some_iff.mp hstep
        cases heq
        exact basicMoved_silent hconnected hsilent arrived
    | line => exact (Call.step_line_cases hstep).2.1.trans hconnected
    | timeout =>
        obtain ⟨p, -, heq⟩ := Option.map_eq_some_iff.mp hstep
        cases heq
        exact hconnected
  exact ⟨identified_of_unconnected hsilent hconnected', hconnected'⟩

/-- The PicoCalc says who it is wherever it shows CONNECT, and the server stays with it, exactly in
the calls that are not disturbed or do not come to CONNECT. -/
theorem identified_iff
    (nums : Numbers) (config : ServerConfig) (baud now : Nat) (events : List CallEvent) :
    Always (Call.step nums config baud) (fun c _ c' out => Identified c c' out)
        (Call.start now) events ↔
      (Connects nums config baud (Call.start now) events →
        Always (Call.step nums config baud) (fun c e c' _ => Undisturbed c c' e)
          (Call.start now) events) := by
  obtain ⟨session, hopens⟩ := exists_opens config
  have hstage : Stage baud session (Call.start now) := stage_start now
  constructor
  · intro hidentified hconnects
    exact undisturbed_of_identified hopens hstage hidentified (Or.inr hconnects)
  · intro hundisturbed
    by_cases hsilent : Always (Call.step nums config baud) (fun c _ _ out => c.connects out = false)
        (Call.start now) events
    · exact identified_of_silent rfl hsilent
    · exact Machine.always_of_inv (Stage baud session)
        (fun _ _ _ _ hstage hstep hundisturbed =>
          stage_step hopens hstage hstep hundisturbed)
        hstage (hundisturbed hsilent)

/-- A server of small blocks. -/
def callServer : ServerConfig where
  auto_block := false
  block_limit := 1
  window_limit := 2
  compression_enabled := true
  max_retries := Const.MAX_RETRIES
  probe_retries := Const.PROBE_RETRIES
  estimates := { saves := fun _ _ _ => true, cheaper := fun _ _ _ => false }
  block_ok := oneByte_ok
  window_ok := widestWindow_ok

instance (c c' : Call) (out : List Effect) : Decidable (Identified c c' out) :=
  inferInstanceAs (Decidable ((c.connects out = true →
      .send "IAM 0 TYPE=MCU NAME=PicoCalc ROLE=CLIENT VER=2.1".toList ∈ out) ∧
    (c'.connected = true → isStopped c'.basic.place = false → abandoned c'.server = false)))

/-- A call in which the server answers the first HELLO after the second has been sent. -/
def lateAnswer : List CallEvent :=
  [.basic 10001 0 none, .line, .line] ++ List.replicate 160 (.basic 10001 160 none)

/-- The second proposal comes in the place of `WHO? 0`: CONNECT is shown without IAM. -/
theorem not_identified_lateAnswer :
    ¬ Always (Call.step integers callServer 115200) (fun c _ c' out => Identified c c' out)
      (Call.start 0) lateAnswer := by
  decide +kernel

end Result

end Pcutp.Picocalc
