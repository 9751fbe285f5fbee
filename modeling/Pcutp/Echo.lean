import Pcutp.KeepAlive

/-!
# A link that hears only itself

The bytes of `recv_line` come in chunks, so the loop is first given its buffer
(`Reader`); every turn of it is a turn of the watch.  Then the transport is made
to return nothing but copies of lines that the link itself sent, each as often
and as late as it likes (`Echoes`).

The link also sends what its `on_idle` callback sends: `control_idle` of the
daemon writes an RMB? for every command of its control socket.

An echo of a beacon names the wrong side and is ignored.  An echo of a PING is
recognised by the id that is outstanding, so it passes for a peer's once another
probe was sent, and the echoes of an AYT? and of an RMB? are not recognised at
all.
-/

namespace Pcutp

/-- A watch and the buffer of its link. -/
structure Reader where
  watch : Watch
  buf : Bytes

/-- A turn of the loop over the buffer. -/
inductive ReaderTurn
  /-- The buffer holds a line. -/
  | line (t₁ t₂ : Nat)
  /-- It holds none, and the transport returns these bytes. -/
  | poll (now : Nat) (chunk : Bytes)

namespace Reader

/-- One turn of the loop over the buffer. -/
def step (ka : KeepAlive) (r : Reader) : ReaderTurn → Option (Reader × List Signal)
  | .line t₁ t₂ =>
      match Link.cutLine r.buf with
      | some (raw, rest) =>
          (r.watch.step ka (.line (lineText raw) t₁ t₂)).map fun next =>
            ({ watch := next.1, buf := rest }, next.2)
      | none => none
  | .poll now chunk =>
      if (Link.cutLine r.buf).isSome ∨ r.watch.ending.isSome ∨ 64 < chunk.length then
        none
      else if Const.MAX_LINE_LEN < r.buf.length then
        some ({ r with watch := { r.watch with ending := some .tooLong } }, [])
      else
        (r.watch.step ka (.poll now)).map fun next =>
          ({ watch := next.1
             buf := if next.1.ending.isSome then r.buf else r.buf ++ chunk }, next.2)

end Reader

/-- `RMB? {control_bit}`, in words. -/
def rmbWords (control_bit : Bool) : List Line :=
  ["RMB?".toList, bitLine control_bit]

/-- A link, the lines it sent, the copies of them that are on their way back to it, and the bit of
the daemon's `control_idle`. -/
structure Echoes where
  reader : Reader
  wire : Bytes
  said : List Line
  control_bit : Bool

/-- What can happen to a link that hears only itself. -/
inductive EchoEvent
  /-- A line that was sent comes back, once more. -/
  | copy (text : Line)
  /-- `on_idle` finds an RMB command. -/
  | control
  | line (t₁ t₂ : Nat)
  /-- A poll finds so many bytes. -/
  | poll (now n : Nat)

/-- The signals that answer a line: nothing else is sent when one is read. -/
def Signal.answers : Signal → Bool
  | pong _ => true
  | aytOk _ => true
  | mark _ _ _ => true
  | _ => false

/-- The endings of a read that heard nothing. -/
def WatchEnding.isSilent : WatchEnding → Bool
  | lostTx _ => true
  | lostRx => true
  | timeout => true
  | returned _ => false
  | tooLong => false

namespace Echoes

/-- One event. -/
def step (ka : KeepAlive) (s : Echoes) : EchoEvent → Option (Echoes × List Signal)
  | .copy text =>
      if text ∈ s.said then some ({ s with wire := s.wire ++ encodeFrame text [] }, []) else none
  | .control =>
      if s.reader.watch.ending.isSome then
        none
      else
        some ({ s with
          said := s.said ++ [join (rmbWords s.control_bit)]
          control_bit := !s.control_bit }, [])
  | .line t₁ t₂ =>
      (s.reader.step ka (.line t₁ t₂)).map fun next =>
        ({ s with reader := next.1, said := s.said ++ next.2.map Signal.line }, next.2)
  | .poll now n =>
      (s.reader.step ka (.poll now (s.wire.take (min n 64)))).map fun next =>
        ({ s with
           reader := next.1
           wire := if next.1.watch.ending.isSome then s.wire else s.wire.drop (min n 64)
           said := s.said ++ next.2.map Signal.line }, next.2)

/-- The read begins with an empty buffer. -/
def start (o : Opening) (control_bit : Bool) : Echoes where
  reader := { watch := Watch.start o, buf := [] }
  wire := []
  said := []
  control_bit

/-- The read goes on, or has ended with a loss of the link or with its timeout. -/
def Unheard (w : Watch) : Prop :=
  w.ending.all WatchEnding.isSilent = true

/-- Nothing that happens counts as life: no evidence is noted, no count of probes is cleared,
nothing is answered and no line is returned. -/
def Lifeless (s : Echoes) (_ : EchoEvent) (s' : Echoes) (out : List Signal) : Prop :=
  s'.reader.watch.last_rx = s.reader.watch.last_rx ∧
    s.reader.watch.probes_sent ≤ s'.reader.watch.probes_sent ∧
    (∀ signal ∈ out, signal.answers = false) ∧ Unheard s'.reader.watch

instance (s : Echoes) (e : EchoEvent) (s' : Echoes) (out : List Signal) :
    Decidable (Lifeless s e s' out) :=
  inferInstanceAs (Decidable (_ ∧ _ ∧ _ ∧ _ = true))

/-- The words of the line that is read next. -/
def nextWords (s : Echoes) : List Line :=
  match Link.cutLine s.reader.buf with
  | some (raw, _) => split (lineText raw)
  | none => []

/-- An echo of an AYT? or of an RMB? is not read, and an echo of a PING only while its id is
outstanding. -/
def Prompt (s : Echoes) (e : EchoEvent) (_ : Echoes) (_ : List Signal) : Prop :=
  match e with
  | .line _ _ =>
      word s.nextWords 0 ∉ ["AYT?".toList, "RMB?".toList] ∧
        (isPing s.nextWords = true →
          s.reader.watch.outstanding = some (word s.nextWords 1))
  | _ => True

/-- The words of what a link sends that hears only itself. -/
inductive Own (ka : KeepAlive) : List Line → Prop
  | beacon (bit : Bool) : Own ka ["BEACON".toList, ka.beacon_tx, bitLine bit]
  | ping (bit : Bool) : Own ka ["PING".toList, bitLine bit]
  | ayt (bit : Bool) : Own ka ["AYT?".toList, bitLine bit]
  | rmb (bit : Bool) : Own ka (rmbWords bit)

variable {ka : KeepAlive}

/-- How the framing carries one of these lines. -/
structure Carried (parts : List Line) : Prop where
  noLf : LF ∉ encodeAscii (join parts)
  text : lineText (encodeAscii (join parts)) = join parts
  words : split (join parts) = parts
  short : (join parts).length ≤ Const.MAX_LINE_LEN

theorem side_cases
    {w : Line} (h : isSide w = true) :
    w = "U".toList ∨ w = "P".toList := by
  simpa [isSide] using h

theorem Own.carried
    {words : List Line} (h : Own ka words) :
    Carried words := by
  cases h with
  | beacon bit =>
      generalize ka.beacon_tx = side, ka.tx_side = hside
      rcases side_cases hside with rfl | rfl <;> cases bit <;>
        exact ⟨by decide +kernel, by decide +kernel, by decide +kernel, by decide⟩
  | ping bit =>
      cases bit <;> exact ⟨by decide +kernel, by decide +kernel, by decide +kernel, by decide⟩
  | ayt bit =>
      cases bit <;> exact ⟨by decide +kernel, by decide +kernel, by decide +kernel, by decide⟩
  | rmb bit =>
      cases bit <;> exact ⟨by decide +kernel, by decide +kernel, by decide +kernel, by decide⟩

section Lines

variable {w : Watch} {text : Line} {t₁ t₂ : Nat} {bit : Bool}

theorem isBit_bitLine (b : Bool) : isBit (bitLine b) = true := by
  cases b <;> rfl

/-- The echo of a beacon names the side that sent it. -/
theorem onLine_beacon
    (h : split text = ["BEACON".toList, ka.beacon_tx, bitLine bit]) :
    w.onLine ka text t₁ t₂ = (w, []) := by
  have hbeacon : isBeacon (split text) = true := by
    rw [h]
    simp [isBeacon, ka.tx_side, isBit_bitLine]
  have hside : word (split text) 1 ≠ ka.beacon_rx := by
    rw [h]
    exact ka.sides_ne
  unfold Watch.onLine
  dsimp only
  rw [if_pos (Or.inl hbeacon), if_neg hside]

theorem isPing_of_split
    (h : split text = ["PING".toList, bitLine bit]) :
    isPing (split text) = true ∧
      ¬ (isBeacon (split text) = true ∨ isMarker (split text) = true) := by
  rw [h]
  cases bit <;> decide

/-- The echo of the outstanding PING is recognised. -/
theorem onLine_ping
    (h : split text = ["PING".toList, bitLine bit])
    (hout : w.outstanding = some (bitLine bit)) :
    w.onLine ka text t₁ t₂ = (w, []) := by
  obtain ⟨hping, hbeacon⟩ := isPing_of_split h
  have hword : word (split text) 1 = bitLine bit := by
    rw [h]
    rfl
  unfold Watch.onLine
  dsimp only
  rw [if_neg hbeacon, if_pos hping, if_neg (by rw [hword, hout]; exact fun hne => hne rfl)]

/-- Any other PING is answered. -/
theorem onLine_late_ping
    (h : split text = ["PING".toList, bitLine bit])
    (hout : w.outstanding ≠ some (bitLine bit)) :
    w.onLine ka text t₁ t₂ =
      ({ w with last_rx := t₁, probes_sent := 0 }, [.pong (bitLine bit)]) := by
  obtain ⟨hping, hbeacon⟩ := isPing_of_split h
  have hword : word (split text) 1 = bitLine bit := by
    rw [h]
    rfl
  unfold Watch.onLine
  dsimp only
  rw [if_neg hbeacon, if_pos hping, hword, if_pos hout]

/-- The echo of an AYT? or of an RMB? is returned. -/
theorem onLine_returned
    (h : split text = ["AYT?".toList, bitLine bit] ∨ split text = rmbWords bit) :
    w.onLine ka text t₁ t₂ = ({ w with ending := some (.returned text) }, []) := by
  have hidle : ¬ (isBeacon (split text) = true ∨ isMarker (split text) = true) ∧
      ¬ isPing (split text) = true ∧ ¬ isPong (split text) = true ∧
      ¬ isHere (split text) = true := by
    rcases h with h | h <;> rw [h] <;> cases bit <;> decide
  unfold Watch.onLine
  dsimp only
  rw [if_neg hidle.1, if_neg hidle.2.1, if_neg hidle.2.2.1, if_neg hidle.2.2.2]

end Lines

section Invariant

/-- Lines of a link that hears only itself. -/
def OwnLines (ka : KeepAlive) (lines : List Line) : Prop :=
  ∀ text ∈ lines, ∃ words, Own ka words ∧ text = join words

/-- The link has said only such lines, and only such lines are on their way. -/
structure Alone (ka : KeepAlive) (s : Echoes) : Prop where
  said : OwnLines ka s.said
  coming : ∃ lines, OwnLines ka lines ∧
    s.reader.buf ++ s.wire = lines.flatMap fun text => encodeFrame text []
  unheard : Unheard s.reader.watch

theorem alone_start (ka : KeepAlive) (o : Opening) (control_bit : Bool) :
    Alone ka (start o control_bit) where
  said := fun _ h => absurd h List.not_mem_nil
  coming := ⟨[], fun _ h => absurd h List.not_mem_nil, rfl⟩
  unheard := rfl

theorem OwnLines.append
    {a b : List Line} (ha : OwnLines ka a) (hb : OwnLines ka b) :
    OwnLines ka (a ++ b) := by
  intro text htext
  rcases List.mem_append.mp htext with h | h
  · exact ha text h
  · exact hb text h

/-- The line at the head of the buffer is one of them. -/
theorem Alone.next
    {s : Echoes} (h : Alone ka s) {raw rest : Bytes}
    (hcut : Link.cutLine s.reader.buf = some (raw, rest)) :
    ∃ words, Own ka words ∧ lineText raw = join words ∧ s.nextWords = words ∧
      ∃ lines, OwnLines ka lines ∧
        rest ++ s.wire = lines.flatMap fun text => encodeFrame text [] := by
  obtain ⟨lines, hlines, hstream⟩ := h.coming
  obtain ⟨hbuf, hraw⟩ := Link.cutLine_eq_some hcut
  rw [hbuf, List.append_assoc, List.cons_append] at hstream
  cases lines with
  | nil => simp at hstream
  | cons text lines =>
      obtain ⟨words, hown, rfl⟩ := hlines text List.mem_cons_self
      rw [List.flatMap_cons, encodeFrame, List.append_assoc, List.cons_append,
        List.nil_append] at hstream
      obtain ⟨rfl, hrest⟩ := cut_unique hraw hown.carried.noLf hstream
      refine ⟨words, hown, hown.carried.text, ?_, lines,
        fun text htext => hlines text (List.mem_cons_of_mem _ htext), hrest⟩
      rw [nextWords, hcut]
      dsimp only
      rw [hown.carried.text, hown.carried.words]

/-- What is left of a line without its LF is short. -/
theorem Alone.short
    {s : Echoes} (h : Alone ka s) (hnolf : LF ∉ s.reader.buf) :
    s.reader.buf.length ≤ Const.MAX_LINE_LEN := by
  obtain ⟨lines, hlines, hstream⟩ := h.coming
  cases lines with
  | nil =>
      have hnil : s.reader.buf = [] := (List.append_eq_nil_iff.mp hstream).1
      rw [hnil]
      exact Nat.zero_le _
  | cons text lines =>
      obtain ⟨words, hown, rfl⟩ := hlines text List.mem_cons_self
      rw [List.flatMap_cons, encodeFrame, List.append_assoc, List.cons_append,
        List.nil_append] at hstream
      exact (line_of_no_lf hnolf hstream).1.trans hown.carried.short

theorem unheard_expire
    {v : Watch} {now : Nat} (h : v.ending = none) :
    Unheard (v.expire now).1 := by
  unfold Watch.expire
  split
  · rfl
  · rw [Unheard, h]
    rfl

/-- A poll ends in a loss or in the timeout, if it ends. -/
theorem unheard_poll
    {w w' : Watch} {now : Nat} {sent : List Signal} (hlive : w.ending = none)
    (h : Watch.PollKind ka w now w' sent) :
    Unheard w' := by
  have hlive₁ : (w.beaconed ka now).ending = none := Watch.beaconed_ending.trans hlive
  cases h with
  | lostTx => rfl
  | ping => exact unheard_expire hlive₁
  | ayt => exact unheard_expire hlive₁
  | lostRx => rfl
  | idle => exact unheard_expire hlive₁
  | quiet => exact unheard_expire hlive₁

theorem own_of_probe
    {p : Signal} {id : Line} (h : p.probe? = some id) :
    Own ka p.words ∧ p.answers = false := by
  cases p with
  | ping bit => exact ⟨.ping bit, rfl⟩
  | ayt bit => exact ⟨.ayt bit, rfl⟩
  | pong | aytOk | beacon | mark => cases h

/-- A poll hears nothing, and sends what it may. -/
theorem poll_unheard
    {w w' : Watch} {now : Nat} {out : List Signal}
    (h : w.step ka (.poll now) = some (w', out)) :
    w'.last_rx = w.last_rx ∧ w.probes_sent ≤ w'.probes_sent ∧
      (∀ signal ∈ out, Own ka signal.words ∧ signal.answers = false) ∧ Unheard w' := by
  obtain ⟨hlive, _, hw, hsent⟩ := Watch.step_poll h
  have hkind : Watch.PollKind ka w now _ _ := Watch.poll_cases hlive
  have hbeacon : ∀ signal ∈ w.beaconSent ka now,
      Own ka signal.words ∧ signal.answers = false := by
    intro signal hsignal
    unfold Watch.beaconSent Watch.sendBeacon at hsignal
    split at hsignal
    · cases List.mem_singleton.mp hsignal
      exact ⟨.beacon _, rfl⟩
    · exact absurd hsignal List.not_mem_nil
  have hprobed : ∀ {p : Signal} {id : Line}, p.probe? = some id →
      ∀ signal ∈ w.beaconSent ka now ++ [p], Own ka signal.words ∧ signal.answers = false := by
    intro p id hp signal hsignal
    rcases List.mem_append.mp hsignal with h | h
    · exact hbeacon signal h
    · rw [List.mem_singleton.mp h]
      exact own_of_probe hp
  have hunheard : Unheard w' := by
    have := unheard_poll hlive hkind
    rw [hw]
    exact this
  rw [← hsent] at hkind
  have hrx : (w.beaconed ka now).last_rx = w.last_rx :=
    Watch.beaconed_last_rx
  have hprobes : (w.beaconed ka now).probes_sent = w.probes_sent :=
    Watch.beaconed_probes_sent
  rcases hkind.summary with ⟨ending, heq, hsame⟩ | ⟨p, id, _, _, ending, _, hp, hprobe, heq⟩ |
      ⟨p, id, _, ending, _, _, _, _, hp, hprobe, heq⟩
  · rw [heq] at hw
    refine ⟨by rw [hw]; exact hrx, by rw [hw]; exact hprobes.ge, ?_, hunheard⟩
    rw [hsame]
    exact hbeacon
  · rw [heq] at hw
    refine ⟨by rw [hw]; exact hrx, by rw [hw]; exact hprobes.ge, ?_, hunheard⟩
    rw [hprobe]
    exact hprobed hp
  · rw [heq] at hw
    refine ⟨by rw [hw]; exact hrx, by rw [hw]; exact Nat.le_succ _, ?_, hunheard⟩
    rw [hprobe]
    exact hprobed hp

/-- What is sent when a line is read answers it. -/
theorem answers_of_line
    {w w' : Watch} {text : Line} {t₁ t₂ : Nat} {out : List Signal}
    (h : Watch.LineKind ka w text t₁ t₂ w' out) :
    ∀ signal ∈ out, signal.answers = true := by
  cases h with
  | beacon | ping | here =>
      intro signal hsignal
      rw [List.mem_singleton.mp hsignal]
      rfl
  | marked | marker | pong | ignored | returned =>
      exact fun _ hsignal => absurd hsignal List.not_mem_nil

/-- What a line does to a link that hears only itself: nothing, if the line is prompt. -/
theorem line_lifeless_iff
    {s s' : Echoes} {t₁ t₂ : Nat} {out : List Signal}
    (h : Alone ka s) (hstep : s.step ka (.line t₁ t₂) = some (s', out)) :
    Lifeless s (.line t₁ t₂) s' out ↔ Prompt s (.line t₁ t₂) s' out := by
  simp only [step, Option.map_eq_some_iff] at hstep
  obtain ⟨⟨reader, sent⟩, hreader, heq⟩ := hstep
  cases heq
  simp only [Reader.step] at hreader
  split at hreader
  · rename_i raw rest hcut
    rw [Option.map_eq_some_iff] at hreader
    obtain ⟨⟨w', sent'⟩, hwatch, heq⟩ := hreader
    cases heq
    obtain ⟨words, hown, htext, hwords, _⟩ := h.next hcut
    obtain ⟨hlive, _, _, hw, hout⟩ := Watch.step_line hwatch
    have hsplit : split (lineText raw) = words := by
      rw [htext, hown.carried.words]
    simp only [Lifeless, Prompt, hwords]
    cases hown with
    | beacon bit =>
        rw [onLine_beacon hsplit] at hw hout
        refine iff_of_true ⟨by rw [hw], by rw [hw], by simp [hout], ?_⟩ ⟨?_, ?_⟩
        · rw [hw, Unheard, hlive]
          rfl
        · simp [word]
        · intro hping
          exact absurd (show "BEACON".toList = "PING".toList from Watch.isPing_word hping)
            (by decide)
    | ping bit =>
        by_cases hout' : s.reader.watch.outstanding = some (bitLine bit)
        · rw [onLine_ping hsplit hout'] at hw hout
          refine iff_of_true ⟨by rw [hw], by rw [hw], by simp [hout], ?_⟩ ⟨?_, ?_⟩
          · rw [hw, Unheard, hlive]
            rfl
          · simp [word]
          · exact fun _ => hout'
        · rw [onLine_late_ping hsplit hout'] at hw hout
          refine iff_of_false (fun hlifeless => ?_) (fun hprompt => hout' (hprompt.2 ?_))
          · have := hlifeless.2.2.1 (.pong (bitLine bit)) (by rw [hout]; exact List.mem_cons_self)
            cases this
          · exact hsplit ▸ (isPing_of_split hsplit).1
    | ayt bit | rmb bit =>
        first
          | rw [onLine_returned (Or.inl hsplit)] at hw hout
          | rw [onLine_returned (Or.inr hsplit)] at hw hout
        refine iff_of_false (fun hlifeless => ?_)
          (fun hprompt => hprompt.1 (by simp [rmbWords, word]))
        have hend : w'.ending = some (.returned (lineText raw)) := by
          rw [hw]
        have hunheard := hlifeless.2.2.2
        rw [Unheard, hend] at hunheard
        cases hunheard
  · cases hreader

/-- A poll of a link that hears only itself. -/
theorem poll_lifeless
    {s s' : Echoes} {now n : Nat} {out : List Signal}
    (h : Alone ka s) (hstep : s.step ka (.poll now n) = some (s', out)) :
    Lifeless s (.poll now n) s' out ∧ Alone ka s' := by
  simp only [step, Option.map_eq_some_iff] at hstep
  obtain ⟨⟨reader, sent⟩, hreader, heq⟩ := hstep
  cases heq
  simp only [Reader.step] at hreader
  split_ifs at hreader with hnone hlong
  · simp only [not_or, Bool.not_eq_true, Option.isSome_eq_false_iff,
      Option.isNone_iff_eq_none] at hnone
    have := h.short (Link.cutLine_eq_none hnone.1)
    omega
  · rw [Option.map_eq_some_iff] at hreader
    obtain ⟨⟨w', sent'⟩, hwatch, heq⟩ := hreader
    cases heq
    obtain ⟨hrx, hprobes, hsent, hunheard⟩ := poll_unheard hwatch
    refine ⟨⟨hrx, hprobes, fun signal hsignal => (hsent signal hsignal).2, hunheard⟩, ?_, ?_,
      hunheard⟩
    · refine h.said.append (fun text htext => ?_)
      obtain ⟨signal, hsignal, rfl⟩ := List.mem_map.mp htext
      exact ⟨signal.words, (hsent signal hsignal).1, rfl⟩
    · obtain ⟨lines, hlines, hstream⟩ := h.coming
      refine ⟨lines, hlines, ?_⟩
      dsimp only
      split
      · exact hstream
      · rw [List.append_assoc, List.take_append_drop]
        exact hstream

/-- The link stays alone as long as what it reads is prompt. -/
theorem alone_step
    {s s' : Echoes} {e : EchoEvent} {out : List Signal}
    (h : Alone ka s) (hstep : s.step ka e = some (s', out)) (hprompt : Prompt s e s' out) :
    Alone ka s' := by
  cases e with
  | copy text =>
      simp only [step] at hstep
      split_ifs at hstep with hsaid
      cases hstep
      obtain ⟨lines, hlines, hstream⟩ := h.coming
      refine ⟨h.said, ⟨lines ++ [text], hlines.append ?_, ?_⟩, h.unheard⟩
      · intro text' htext'
        rw [List.mem_singleton.mp htext']
        exact h.said text hsaid
      · rw [← List.append_assoc, hstream, List.flatMap_append]
        simp
  | control =>
      simp only [step] at hstep
      split_ifs at hstep
      cases hstep
      refine ⟨h.said.append (fun text htext => ?_), h.coming, h.unheard⟩
      exact ⟨rmbWords s.control_bit, .rmb _, List.mem_singleton.mp htext⟩
  | line t₁ t₂ =>
      have hlifeless := (line_lifeless_iff h hstep).mpr hprompt
      simp only [step, Option.map_eq_some_iff] at hstep
      obtain ⟨⟨reader, sent⟩, hreader, heq⟩ := hstep
      cases heq
      simp only [Reader.step] at hreader
      split at hreader
      · rename_i raw rest hcut
        rw [Option.map_eq_some_iff] at hreader
        obtain ⟨⟨w', sent'⟩, hwatch, heq⟩ := hreader
        cases heq
        obtain ⟨_, _, _, _, hlines⟩ := h.next hcut
        obtain ⟨_, _, _, _, hout⟩ := Watch.step_line hwatch
        have hnil : sent' = [] := by
          refine List.eq_nil_iff_forall_not_mem.mpr (fun signal hsignal => ?_)
          have hkind : Watch.LineKind ka s.reader.watch (lineText raw) t₁ t₂ _ _ :=
            Watch.line_cases
          have hanswer := answers_of_line hkind signal (hout ▸ hsignal)
          rw [hlifeless.2.2.1 signal hsignal] at hanswer
          cases hanswer
        refine ⟨?_, hlines, hlifeless.2.2.2⟩
        rw [hnil]
        simpa using h.said
      · cases hreader
  | poll now n => exact (poll_lifeless h hstep).2

end Invariant

end Echoes

open Echoes

/-- A link that hears only itself hears nothing, in every run in which no echo of an AYT? or of an
RMB? is read and an echo of a PING only while its id is outstanding; in any other run it does. -/
theorem echo_lifeless_iff
    (ka : KeepAlive) (o : Opening) (control_bit : Bool) (events : List EchoEvent) :
    Machine.Always (Echoes.step ka) Lifeless (Echoes.start o control_bit) events ↔
      Machine.Always (Echoes.step ka) Prompt (Echoes.start o control_bit) events := by
  refine Machine.always_iff_of_inv (Alone ka) (fun s e s' out h hstep => ?_)
    (fun s e s' out h hstep hprompt => alone_step h hstep hprompt) (alone_start ka o control_bit)
  cases e with
  | copy text =>
      simp only [Echoes.step] at hstep
      split_ifs at hstep
      cases hstep
      exact iff_of_true ⟨rfl, Nat.le_refl _, fun _ hs => absurd hs List.not_mem_nil, h.unheard⟩
        trivial
  | control =>
      simp only [Echoes.step] at hstep
      split_ifs at hstep
      cases hstep
      exact iff_of_true ⟨rfl, Nat.le_refl _, fun _ hs => absurd hs List.not_mem_nil, h.unheard⟩
        trivial
  | line t₁ t₂ => exact line_lifeless_iff h hstep
  | poll now n => exact iff_of_true (poll_lifeless h hstep).1 trivial

/-- The echo of PING 0 arrives when PING 1 is outstanding. -/
def latePing : List EchoEvent :=
  [.poll 4 0, .poll 5 0, .poll 10 0, .copy "PING 0".toList, .poll 11 64, .line 11 11]

/-- The echo of AYT? 0 arrives at once. -/
def promptAyt : List EchoEvent :=
  [.poll 4 0, .poll 5 0, .poll 10 0, .poll 15 0, .copy "AYT? 0".toList, .poll 16 64, .line 16 16]

/-- The echo of an RMB? that the control socket asked for arrives at once. -/
def promptRmb : List EchoEvent :=
  [.control, .copy "RMB? 0".toList, .poll 1 64, .line 1 1]

/-- The first echo is taken for a PING of the peer, the others for requests. -/
theorem echo_counts_as_life :
    ¬ Machine.Always (Echoes.step defaultKeepAlive) Lifeless (Echoes.start hourOpening false)
        latePing ∧
      ¬ Machine.Always (Echoes.step defaultKeepAlive) Lifeless (Echoes.start hourOpening false)
        promptAyt ∧
      ¬ Machine.Always (Echoes.step defaultKeepAlive) Lifeless (Echoes.start hourOpening false)
        promptRmb := by
  refine ⟨?_, ?_, ?_⟩ <;> decide +kernel

end Pcutp
