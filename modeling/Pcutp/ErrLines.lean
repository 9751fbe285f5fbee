import Pcutp.SendWindow
import Pcutp.Serving
import Pcutp.Transfer

/-!
# The ERR lines of the server

Whatever `serve_once` reports to its peer goes through `PcutpError.wire` or
`_fail`.  The codes of the wire are those of section 7 of the protocol
document; `LINKLOST` is not among them, since it is a local verdict.

`Live` is the daemon of `Serving` with the exceptions that the code around it
can raise: `recv_line` raises a `ProtocolError`, and a `LinkLostError` only
with a keep-alive, and the fetcher is `fetch`.

The one exception that reaches the wire against the document is the
`LinkLostError` of `_probe_receiver`, after the last RST request.
-/

namespace Pcutp

section Codes

/-- The codes of an ERR line, as the protocol document lists them. -/
def wireCodes : List Line :=
  ["VERSION".toList, "URL".toList, "HTTP".toList, "DNS".toList, "SIZE".toList, "STORAGE".toList,
    "FILE".toList, "WRITE".toList, "TIMEOUT".toList, "RETRY".toList, "PROTOCOL".toList]

/-- The text of a write. -/
def Output.text : Output → Line
  | line text => text
  | command c => c.line

/-- Not a line that begins with `ERR LINKLOST`, and if an ERR line then one with a documented
code. -/
def Output.Documented (o : Output) : Prop :=
  "ERR LINKLOST".toList.isPrefixOf o.text = false ∧
    (isErr o.text = true → word (split o.text) 1 ∈ wireCodes)

instance (o : Output) : Decidable o.Documented :=
  inferInstanceAs (Decidable (_ ∧ _))

variable {o : Output} {w : Line} {ws : List Line}

/-- With a documented code a line is not `ERR LINKLOST`. -/
theorem documented_of_code
    (h : isErr o.text = true → word (split o.text) 1 ∈ wireCodes) :
    o.Documented := by
  refine ⟨?_, h⟩
  by_contra hlost
  rw [Bool.not_eq_false, List.isPrefixOf_iff_prefix] at hlost
  obtain ⟨rest, hrest⟩ := hlost
  have herr : IsWord "ERR".toList := isWord_of_check (by decide)
  have hcode : IsWord "LINKLOST".toList := isWord_of_check (by decide)
  have hsplit : split o.text = "ERR".toList :: split ("LINKLOST".toList ++ rest) := by
    rw [← hrest]
    exact Words.words_cons (by decide) herr _
  obtain ⟨others, hothers⟩ := Words.words_append hcode rest
  have hword : word (split o.text) 1 ∈ wireCodes := by
    refine h ?_
    rw [isErr, hsplit]
    rfl
  have hlinklost : ∀ code ∈ wireCodes, ¬ "LINKLOST".toList <+: code := by
    decide
  refine hlinklost _ hword ?_
  rw [hsplit, word_succ, split, hothers]
  exact List.prefix_append _ _

theorem documented_join
    (hw : IsWord w) (hne : w ≠ "ERR".toList) (htext : o.text = join (w :: ws)) :
    o.Documented := by
  refine documented_of_code fun herr => ?_
  rw [isErr, htext, split_join_first hw] at herr
  exact absurd (by simpa using herr) hne

theorem isWord_of_mem_wireCodes
    (h : w ∈ wireCodes) :
    IsWord w := by
  have hall : ∀ code ∈ wireCodes, (!code.isEmpty && code.all (fun c => !isSpace c)) = true := by
    decide
  exact isWord_of_check (hall w h)

/-- An exception with a documented code gives a documented line. -/
theorem documented_wire
    {exc : PcutpError} (hcode : exc.code ∈ wireCodes) :
    (Output.line exc.wire).Documented := by
  refine documented_of_code fun _ => ?_
  have herr : IsWord "ERR".toList := isWord_of_check (by decide)
  have hword := isWord_of_mem_wireCodes hcode
  have hsplit : split exc.wire = "ERR".toList ::
      split (exc.code ++ if exc.detail = [] then [] else ' ' :: exc.detail) :=
    Words.words_cons (by decide) herr _
  rw [Output.text, hsplit, word_succ]
  split
  · rw [List.append_nil, split, Words.words_single hword]
    exact hcode
  · rw [split, Words.words_cons (by decide) hword]
    exact hcode

/-- `_fail` with a documented code. -/
theorem documented_err
    (hcode : w ∈ wireCodes) :
    (Output.command (.err w)).Documented := by
  refine documented_of_code fun _ => ?_
  have herr : IsWord "ERR".toList := isWord_of_check (by decide)
  have hsplit : split (Output.command (.err w)).text = ["ERR".toList, w] :=
    split_join (List.forall_mem_cons.mpr ⟨herr,
      List.forall_mem_cons.mpr ⟨isWord_of_mem_wireCodes hcode, List.forall_mem_nil _⟩⟩)
  rw [hsplit]
  exact hcode

/-- The only command that can be an ERR line is the one of `_fail`. -/
theorem documented_command
    {c : Command} (h : ∀ code, c = .err code → code ∈ wireCodes) :
    (Output.command c).Documented := by
  cases c with
  | err code => exact documented_err (h code rfl)
  | fetching | fileMeta | data | zdata | ayt | rst | barrier | done | rmbAck =>
      exact documented_join (isWord_of_check (by decide)) (by decide) rfl

end Codes

namespace Sender

section Sent

/-- The codes of these commands are documented. -/
def Reports (out : List Command) : Prop :=
  ∀ c ∈ out, ∀ code, c = .err code → code ∈ wireCodes

variable {job : Job} {s : Sender} {parts : List Line} {late : Bool}

theorem reports_nil : Reports [] :=
  fun _ hc => absurd hc List.not_mem_nil

theorem reports_one
    {c : Command} (hc : ∀ code, c ≠ .err code) :
    Reports [c] := by
  intro c' hc' code hcode
  rw [List.mem_singleton.mp hc'] at hcode
  exact absurd hcode (hc code)

theorem reports_fail
    {exc : PcutpError} (hcode : exc.code ∈ wireCodes) :
    Reports (s.fail exc).2 := by
  intro c hc code hcode'
  rw [List.mem_singleton.mp hc] at hcode'
  cases hcode'
  exact hcode

theorem reports_protocol (message : String) :
    Reports (s.fail (ProtocolError message)).2 :=
  reports_fail (show ErrorClass.protocol.code ∈ wireCodes by decide)

theorem reports_timeout (message : String) :
    Reports (s.fail (TimeoutError_ message)).2 :=
  reports_fail (show ErrorClass.timeout.code ∈ wireCodes by decide)

theorem reports_retry (message : String) :
    Reports (s.fail (RetryError message)).2 :=
  reports_fail (show ErrorClass.retry.code ∈ wireCodes by decide)

theorem reports_recover (reset : Bool) :
    Reports (s.recover job reset).2 :=
  reports_one fun _ => Command.noConfusion

theorem reports_dispatch :
    Reports (s.dispatch job parts late).2 := by
  unfold dispatch
  dsimp only
  split_ifs
  · exact reports_protocol _
  · exact reports_timeout _
  · exact reports_nil
  · exact reports_nil
  · exact reports_retry _
  · exact reports_recover true
  · exact reports_recover false
  · exact reports_nil
  · exact reports_protocol _

theorem reports_ask (left : Nat) :
    Reports (s.ask left).2 := by
  cases left with
  | zero => exact reports_one fun _ => Command.noConfusion
  | succ left => exact reports_one fun _ => Command.noConfusion

theorem reports_askReset {left : Nat} (h : left ≠ 0) :
    Reports (s.askReset left).2 := by
  cases left with
  | zero => exact absurd rfl h
  | succ left => exact reports_one fun _ => Command.noConfusion

theorem reports_askBarrier (reset : Bool) (left : Nat) :
    Reports (s.askBarrier reset left).2 := by
  cases left with
  | zero => exact reports_timeout _
  | succ left => exact reports_one fun _ => Command.noConfusion

theorem reports_onReply :
    Reports (s.onReply job parts late).2 := by
  unfold onReply
  split_ifs
  · exact reports_nil
  · exact reports_nil
  · exact reports_dispatch

theorem reports_onGuard (again : Bool) (text : Line) :
    Reports (s.onGuard job again text).2 := by
  unfold onGuard
  split_ifs
  · exact reports_ask _
  · exact reports_nil
  · exact reports_dispatch

theorem reports_onProbe (left : Nat) :
    Reports (s.onProbe job left parts late).2 := by
  unfold onProbe
  split_ifs
  · exact reports_dispatch
  · exact reports_dispatch
  · exact reports_ask _
  · exact reports_nil

/-- A line that does not end the wait for RST-ACK. -/
def staleReset (s : Sender) (parts : List Line) : Bool :=
  parts != ["RST-ACK".toList, dec s.barrier_id, "0".toList] &&
    ["ACK".toList, "NAK".toList, "DROP".toList, "HERE".toList, "RESUME".toList].contains
      (word parts 0)

/-- The last wait for RST-ACK is over and the request was not answered. -/
def givesUp (s : Sender) : SendEvent → Bool
  | .run => false
  | .timeout => s.phase == .rst 0
  | .line text late =>
      s.phase == .rst 0 && late && (isRmb text || s.staleReset (split text))

theorem reports_onReset
    {left : Nat} (h : left = 0 → late = true → s.staleReset parts = false) :
    Reports (s.onReset job left parts late).2 := by
  unfold onReset
  split_ifs with hack hold hlate
  · exact reports_dispatch
  · refine reports_askReset fun hleft => ?_
    have hstale : s.staleReset parts = true := by
      simp only [staleReset, Bool.and_eq_true, bne_iff_ne, List.contains_iff_mem]
      exact ⟨hack, hold⟩
    rw [h hleft hlate] at hstale
    cases hstale
  · exact reports_nil
  · exact reports_protocol _

theorem reports_resume (reset : Bool) (seq : Nat) :
    Reports (s.resume job reset seq).2 := by
  unfold resume
  dsimp only
  split_ifs
  · exact reports_protocol _
  · exact reports_nil
  · exact reports_retry _
  · exact reports_nil
  · exact reports_retry _
  · exact reports_nil

theorem reports_onBarrier (reset : Bool) (left : Nat) :
    Reports (s.onBarrier job reset left parts late).2 := by
  rw [onBarrier]
  generalize (if reset = true then 0 else s.base) = lo
  split_ifs
  · exact reports_resume _ _
  · exact reports_protocol _
  · exact reports_askBarrier _ _
  · exact reports_nil
  · exact reports_protocol _

theorem reports_sendBlock (attempt timeouts : Nat) :
    Reports (s.sendBlock job attempt timeouts).2 :=
  reports_one fun _ => Command.noConfusion

theorem reports_sendAgain (attempt timeouts : Nat) :
    Reports (s.sendAgain job attempt timeouts).2 := by
  unfold sendAgain
  split
  · exact reports_sendBlock _ _
  · exact reports_retry _

theorem reports_onBlock (attempt timeouts : Nat) :
    Reports (s.onBlock job attempt timeouts parts).2 := by
  unfold onBlock
  split_ifs
  · exact reports_nil
  · exact reports_sendAgain _ _
  · exact reports_nil
  · exact reports_nil

theorem reports_onBlockTimeout (attempt timeouts : Nat) :
    Reports (s.onBlockTimeout job attempt timeouts).2 := by
  unfold onBlockTimeout
  split
  · exact reports_timeout _
  · exact reports_sendAgain _ _

theorem reports_onFinal :
    Reports (s.onFinal job parts late).2 := by
  unfold onFinal
  split_ifs
  · exact reports_nil
  · exact reports_nil
  · exact reports_nil

/-- A read that times out reports a documented code, unless the sender gives up. -/
theorem reports_onTimeout
    {exc : PcutpError} {next : Sender × List Command} (h : s.onTimeout job exc = some next)
    (hlost : s.phase ≠ .rst 0) :
    Reports next.2 := by
  unfold onTimeout at h
  split at h <;> cases h
  · exact reports_nil
  · exact reports_nil
  · exact reports_ask _
  · exact reports_ask _
  · rename_i left hphase
    exact reports_askReset fun hleft => hlost (hleft ▸ hphase)
  · exact reports_askBarrier _ _
  · exact reports_onBlockTimeout _ _
  · exact reports_nil

/-- A line that is read leads to a documented code, unless the sender gives up. -/
theorem reports_onLine
    {text : Line} {next : Sender × List Command} (h : s.onLine job text late = some next)
    (hlost : s.phase = .rst 0 → late = true → s.staleReset (split text) = false) :
    Reports next.2 := by
  unfold onLine at h
  split at h
  · split at h <;>
      · cases h
        exact reports_nil
  · cases h
    exact reports_onReply
  · cases h
    exact reports_onGuard _ _
  · cases h
    exact reports_onProbe _
  · rename_i left hphase
    cases h
    exact reports_onReset fun hleft => hlost (hleft ▸ hphase)
  · cases h
    exact reports_onBarrier _ _
  · cases h
    exact reports_onBlock _ _
  · cases h
    exact reports_onFinal
  · cases h

/-- Every cached command is a data frame. -/
def Caches (s : Sender) : Prop :=
  ∀ seq c, s.frames seq = some c → c.isFrame = true

theorem Caches.next
    (h : s.Caches) (job : Job) (seq : Nat) :
    ((s.frames seq).getD (job.frame seq)).isFrame = true := by
  cases hframe : s.frames seq with
  | none => exact job.isFrame_frame seq
  | some c => exact h seq c hframe

theorem reports_frame
    {c : Command} (h : c.isFrame = true) :
    Reports [c] := by
  refine reports_one fun code hcode => ?_
  rw [hcode] at h
  cases h

theorem reports_run
    (h : s.Caches) :
    Reports (s.fillWindow job).2 ∧ Reports (s.fillBlock job).2 := by
  constructor
  · unfold fillWindow
    split_ifs
    · exact reports_retry _
    · exact reports_frame (h.next job _)
    · exact reports_nil
    · exact reports_one fun _ => Command.noConfusion
  · unfold fillBlock
    split
    · exact reports_sendBlock _ _
    · exact reports_one fun _ => Command.noConfusion

/-- A step reports a documented code, unless the sender gives up. -/
theorem reports_step
    {e : SendEvent} {next : Sender × List Command} (h : s.Caches)
    (hstep : s.step job e = some next) (hlost : s.givesUp e = false) :
    Reports next.2 := by
  cases e with
  | run =>
      simp only [Sender.step] at hstep
      split_ifs at hstep
      · cases hstep
        exact (reports_run h).1
      · cases hstep
        exact (reports_run h).2
  | timeout =>
      refine reports_onTimeout hstep fun hphase => ?_
      simp [givesUp, hphase] at hlost
  | line text late =>
      simp only [Sender.step] at hstep
      split_ifs at hstep with hrmb hreads hlate
      · -- An RMB line that uses up the time of the read.
        rw [Option.map_eq_some_iff] at hstep
        obtain ⟨next', hnext, rfl⟩ := hstep
        have hreports : Reports next'.2 := by
          refine reports_onTimeout hnext fun hphase => ?_
          simp [givesUp, hphase, hlate, hrmb] at hlost
        intro c hc
        rcases List.mem_cons.mp hc with rfl | hc
        · exact fun _ => Command.noConfusion
        · exact hreports c hc
      · cases hstep
        exact reports_one fun _ => Command.noConfusion
      · refine reports_onLine hstep fun hphase hlate => ?_
        simpa [givesUp, hphase, hlate, hrmb] using hlost

theorem frames_sendAgain (attempt timeouts : Nat) :
    (s.sendAgain job attempt timeouts).1.frames = s.frames := by
  unfold sendAgain sendBlock
  split <;> rfl

theorem frames_onTimeout
    {exc : PcutpError} {next : Sender × List Command} (hwaits : s.phase.waits = false)
    (h : s.onTimeout job exc = some next) :
    next.1.frames = s.frames := by
  unfold onTimeout at h
  split at h
  all_goals first
    | (rename_i hphase; rw [hphase] at hwaits; cases hwaits)
    | skip
  all_goals cases h
  · rfl
  · unfold onBlockTimeout
    split
    · rfl
    · exact frames_sendAgain _ _
  · rfl

theorem frames_onLine
    {text : Line} {next : Sender × List Command} (hwaits : s.phase.waits = false)
    (h : s.onLine job text late = some next) :
    next.1.frames = s.frames := by
  unfold onLine at h
  split at h
  all_goals first
    | (rename_i hphase; rw [hphase] at hwaits; cases hwaits)
    | skip
  · split at h <;>
      · cases h
        rfl
  · cases h
    unfold onBlock
    split_ifs
    · rfl
    · exact frames_sendAgain _ _
    · rfl
    · rfl
  · cases h
    unfold onFinal
    split_ifs <;> rfl
  · cases h

theorem ReadOutcome.frames
    {s' : Sender} (h : ReadOutcome job s parts late s') {seq : Nat} {c : Command}
    (hframe : s'.frames seq = some c) :
    s.frames seq = some c := by
  cases h with
  | stays => exact hframe
  | moves _ hsame => rwa [hsame.frames] at hframe
  | acknowledged => exact dropBelow_some hframe
  | resets _ _ _ _ _ hframes => rwa [hframes] at hframe
  | resumed => exact dropBelow_some hframe
  | restarts => exact hframe
  | raised _ _ _ _ _ _ _ hframes => rwa [hframes] at hframe

/-- A read caches nothing. -/
theorem frames_read
    {e : SendEvent} {next : Sender × List Command} (hread : e ≠ .run)
    (hstep : s.step job e = some next) {seq : Nat} {c : Command}
    (hframe : next.1.frames seq = some c) :
    s.frames seq = some c := by
  cases hwaits : s.phase.waits with
  | true =>
      cases e with
      | run => exact absurd rfl hread
      | timeout =>
          obtain ⟨next', hnext, houtcome, _⟩ := @timeout_ends job s [] _ hwaits
          cases hstep.symm.trans hnext
          exact houtcome.frames hframe
      | line text late =>
          obtain ⟨next', hnext, houtcome, _⟩ := @line_ends job s late text hwaits
          cases hstep.symm.trans hnext
          exact houtcome.frames hframe
  | false =>
      have hframes : next.1.frames = s.frames := by
        cases e with
        | run => exact absurd rfl hread
        | timeout => exact frames_onTimeout hwaits hstep
        | line text late =>
            simp only [Sender.step] at hstep
            split_ifs at hstep
            · rw [Option.map_eq_some_iff] at hstep
              obtain ⟨next', hnext, rfl⟩ := hstep
              have hsame := frames_onTimeout hwaits hnext
              exact hsame
            · cases hstep
              rfl
            · exact frames_onLine hwaits hstep
      rwa [hframes] at hframe

/-- A step caches nothing but data frames. -/
theorem Caches.step
    {e : SendEvent} {next : Sender × List Command} (h : s.Caches)
    (hstep : s.step job e = some next) :
    next.1.Caches := by
  intro seq c hframe
  by_cases hread : e = .run
  · subst hread
    simp only [Sender.step] at hstep
    split_ifs at hstep
    · cases hstep
      unfold fillWindow at hframe
      split_ifs at hframe
      · exact h seq c hframe
      · simp only [writeFrame, Function.update_apply] at hframe
        split at hframe
        · cases hframe
          exact h.next job _
        · exact h seq c hframe
      · exact h seq c hframe
      · exact h seq c hframe
    · cases hstep
      unfold fillBlock at hframe
      split at hframe
      · exact h seq c hframe
      · exact h seq c hframe
  · exact h seq c (frames_read hread hstep hframe)

end Sent

end Sender

namespace HandleHello

variable {config : ServerConfig} {baud : Nat} {h : HandleHello}

/-- The lines that the greeting sends. -/
def Greets (lines : List Line) : Prop :=
  ∀ text ∈ lines, (Output.line text).Documented

theorem greets_nil : Greets [] :=
  fun _ hc => absurd hc List.not_mem_nil

theorem greets_cons
    {text : Line} {lines : List Line} (htext : (Output.line text).Documented)
    (h : Greets lines) :
    Greets (text :: lines) := by
  intro text' htext'
  rcases List.mem_cons.mp htext' with rfl | htext'
  · exact htext
  · exact h text' htext'

theorem greets_refuse
    {exc : PcutpError} (hcode : exc.code ∈ wireCodes) :
    Greets (h.refuse exc).2 :=
  greets_cons (documented_wire hcode) greets_nil

theorem documented_ohruLine (tail : List Line) :
    (Output.line (ohruLine tail)).Documented :=
  documented_join (isWord_of_check (by decide)) (by decide) rfl

theorem greets_onFirst (text : Line) :
    Greets (onFirst config baud h text).2 := by
  unfold onFirst
  dsimp only
  split
  · exact greets_refuse (show ErrorClass.protocol.code ∈ wireCodes by decide)
  split
  · exact greets_refuse (show ErrorClass.version.code ∈ wireCodes by decide)
  · cases negotiate config ((split text).drop 2) with
    | error exc => exact greets_nil
    | ok settled =>
        refine greets_cons ?_ greets_nil
        split
        · exact documented_join (isWord_of_check (by decide)) (by decide) rfl
        · exact documented_ohruLine _

theorem greets_nextHru (attempt : Nat) :
    Greets (h.nextHru attempt).2 := by
  unfold nextHru
  split
  · exact greets_cons (documented_ohruLine _) greets_nil
  · exact greets_cons (documented_ohruLine _)
      (greets_cons (documented_wire (show ErrorClass.timeout.code ∈ wireCodes by decide))
        greets_nil)

theorem documented_whoLine :
    (Output.line whoLine).Documented := by
  decide

theorem greets_connected :
    Greets h.connected.2 := by
  unfold connected
  split
  · exact greets_cons documented_whoLine greets_nil
  · exact greets_nil

theorem greets_onHru (attempt : Nat) (text : Line) :
    Greets (h.onHru attempt text).2 := by
  unfold onHru
  split_ifs
  · exact greets_nextHru attempt
  · exact greets_connected
  · exact greets_connected
  · exact greets_refuse (show ErrorClass.protocol.code ∈ wireCodes by decide)

theorem greets_onIam (attempt : Nat) (text : Line) :
    Greets (h.onIam attempt text).2 := by
  unfold onIam
  dsimp only
  split_ifs
  · exact greets_cons documented_whoLine greets_nil
  · exact greets_nil
  · exact greets_nil
  · exact greets_nil

theorem greets_onHruTimeout (attempt : Nat) :
    Greets (h.onHruTimeout attempt).2 := by
  unfold onHruTimeout
  split
  · exact greets_refuse (show ErrorClass.timeout.code ∈ wireCodes by decide)
  · exact greets_nextHru attempt

theorem documented_rmbAck (bit : Line) :
    (Output.line (join ["RMB-ACK".toList, bit])).Documented :=
  documented_join (isWord_of_check (by decide)) (by decide) rfl

/-- The greeting sends documented lines. -/
theorem greets_step
    {e : GreetEvent} {next : HandleHello × List Line}
    (hstep : h.step config baud e = some next) :
    Greets next.2 := by
  unfold HandleHello.step at hstep
  cases e with
  | timeout =>
      dsimp only at hstep
      split at hstep <;> cases hstep
      · exact greets_nil
      · exact greets_onHruTimeout _
      · exact greets_nil
  | line text =>
      dsimp only at hstep
      split at hstep
      · cases hstep
      · cases hstep
      · split_ifs at hstep
        · cases hstep
          exact greets_cons (documented_rmbAck _) greets_nil
        · split at hstep <;> cases hstep
          · exact greets_onFirst text
          · exact greets_onHru _ text
          · exact greets_onIam _ text

end HandleHello

section Fetch

/-- If this raises one of the program's errors, its code is documented. -/
def Coded {α : Type} (r : Except Exc α) : Prop :=
  ∀ exc, r = .error (.pcutp exc) → exc.code ∈ wireCodes

variable {web : Web} {max_size : Nat}

theorem coded_ok {α : Type} (a : α) :
    Coded (.ok a : Except Exc α) :=
  fun _ h => by cases h

theorem coded_library {α : Type} (exc : LibraryError) :
    Coded (.error (.library exc) : Except Exc α) :=
  fun _ h => by cases h

theorem coded_error
    {α : Type} {exc : PcutpError} (h : exc.code ∈ wireCodes) :
    Coded (.error (.pcutp exc) : Except Exc α) := by
  intro exc' heq
  cases heq
  exact h

theorem coded_validate_url (url : Line) :
    Coded (validate_url web url) := by
  unfold validate_url
  split
  · exact coded_library _
  · split
    · exact coded_error (show ErrorClass.url.code ∈ wireCodes by decide)
    · split
      · exact coded_error (show ErrorClass.url.code ∈ wireCodes by decide)
      · exact coded_ok _

theorem coded_openFrom (urls : List Line) :
    Coded (openFrom web urls) := by
  induction urls with
  | nil =>
      unfold openFrom
      cases web.opened with
      | error exc => exact coded_library exc
      | ok response => exact coded_ok response
  | cons url urls ih =>
      unfold openFrom
      cases hvalidate : validate_url web url with
      | error exc =>
          intro exc' heq
          cases heq
          exact coded_validate_url url exc' hvalidate
      | ok _ => exact ih

theorem coded_checkDeclared (declared : Option Line) :
    Coded (checkDeclared max_size declared) := by
  unfold checkDeclared
  split
  · exact coded_ok _
  · split
    · exact coded_ok _
    · split
      · exact coded_library _
      · split
        · exact coded_error (show ErrorClass.size.code ∈ wireCodes by decide)
        · exact coded_ok _

theorem coded_readBody (response : Response) (i total : Nat) (chunks : Bytes) :
    Coded (readBody max_size response i total chunks) := by
  fun_induction readBody max_size response i total chunks with
  | case1 => exact coded_library _
  | case2 => exact coded_library _
  | case3 => exact coded_ok _
  | case4 i total chunks _ _ chunk _ _ ih => exact ih
  | case5 => exact coded_ok _

theorem coded_download :
    Coded (download web max_size) := by
  unfold download
  cases hopen : openFrom web web.redirects with
  | error exc =>
      intro exc' heq
      cases heq
      exact coded_openFrom _ exc' hopen
  | ok response =>
      dsimp only
      cases hdeclared : checkDeclared max_size response.content_length with
      | error exc =>
          intro exc' heq
          cases heq
          exact coded_checkDeclared _ exc' hdeclared
      | ok _ =>
          dsimp only
          cases hbody : readBody max_size response 0 0 [] with
          | error exc =>
              intro exc' heq
              cases heq
              exact coded_readBody response 0 0 [] exc' hbody
          | ok data =>
              dsimp only
              split
              · exact coded_library _
              · exact coded_ok _

/-- The handlers of `fetch` keep to the documented codes. -/
theorem coded_fetchHandler
    {exc : Exc} (h : ∀ exc', exc = .pcutp exc' → exc'.code ∈ wireCodes) :
    ∀ exc', fetchHandler exc = .pcutp exc' → exc'.code ∈ wireCodes := by
  have hhttp : ErrorClass.http.code ∈ wireCodes := by decide
  have hdns : ErrorClass.dns.code ∈ wireCodes := by decide
  intro exc' heq
  unfold fetchHandler at heq
  split at heq
  · cases heq
    exact hhttp
  · cases heq
    exact hhttp
  · cases heq
    exact hdns
  · cases heq
    exact hhttp
  · exact h exc' heq

/-- `fetch` raises documented codes. -/
theorem coded_fetch (url : Line) :
    Coded (fetch web max_size url) := by
  unfold fetch
  cases hvalidate : validate_url web url with
  | error exc =>
      intro exc' heq
      cases heq
      exact coded_validate_url url exc' hvalidate
  | ok _ =>
      dsimp only
      cases hdownload : download web max_size with
      | error exc =>
          intro exc' heq
          simp only [Except.mapError, Except.error.injEq] at heq
          refine coded_fetchHandler (fun exc'' heq' => ?_) exc' heq
          rw [heq'] at hdownload
          exact coded_download exc'' hdownload
      | ok data =>
          simp only [Except.mapError]
          split
          · exact coded_error (show ErrorClass.size.code ∈ wireCodes by decide)
          · exact coded_ok _

theorem sanitize_filename_code
    {name : Line} {exc : PcutpError} (h : sanitize_filename name = .error exc) :
    exc.code ∈ wireCodes := by
  have hfile : ErrorClass.file.code ∈ wireCodes := by decide
  unfold sanitize_filename at h
  dsimp only at h
  split_ifs at h <;>
    · cases h
      exact hfile

end Fetch

/-- What can happen to the daemon, with the exceptions that the code around it raises. -/
inductive LiveEvent
  | wrote
  | run (now : Nat)
  | line (text : Line) (late : Bool) (now : Nat)
  | timeout (now : Nat)
  /-- `recv_line` raises its `ProtocolError`. -/
  | tooLong (now : Nat)
  /-- `recv_line` raises a `LinkLostError`, in the read of a request. -/
  | lost (message : String) (now : Nat)
  /-- `fetch` returns or raises. -/
  | fetched (web : Web) (max_size : Nat) (url : Line)
  | osError
  | reconnected
  | interrupt (now : Nat)

/-- The event of the daemon machine. -/
def LiveEvent.event (s : Serving) : LiveEvent → Option ServeEvent
  | wrote => some .wrote
  | run now => some (.run now)
  | line text late now => some (.line text late now)
  | timeout now => some (.timeout now)
  | tooLong now => some (.failed (ProtocolError "control line too long") now)
  | lost message now =>
      match s.place with
      | .request _ => some (.failed (LinkLostError message) now)
      | _ => none
  | fetched web max_size url => some (.fetched (fetch web max_size url))
  | osError => some .osError
  | reconnected => some .reconnected
  | interrupt now => some (.interrupt now)

namespace Serving

/-- One step of the daemon with the code around it. -/
def live (config : ServerConfig) (baud : Nat) (s : Serving) (e : LiveEvent) :
    Option (Serving × List Output) :=
  (e.event s).bind (s.step config baud)

/-- Everything that is written, or about to be, is documented. -/
def Documents (_ : Serving) (_ : LiveEvent) (s' : Serving) (out : List Output) : Prop :=
  ∀ o ∈ out ++ s'.queue, o.Documented

instance (s : Serving) (e : LiveEvent) (s' : Serving) (out : List Output) :
    Decidable (Documents s e s' out) :=
  inferInstanceAs (Decidable (∀ o ∈ out ++ s'.queue, o.Documented))

/-- The last RST request of a transfer goes unanswered. -/
def givesUp (s : Serving) (e : LiveEvent) : Bool :=
  match s.place, e with
  | .sending _ sender, .timeout _ => sender.givesUp .timeout
  | .sending _ sender, .line text late _ => sender.givesUp (.line text late)
  | _, _ => false

/-- The receiver answers one of the RST requests in time. -/
def KeepsOn (s : Serving) (e : LiveEvent) (_ : Serving) (_ : List Output) : Prop :=
  s.givesUp e = false

section Careful

/-- What the daemon is about to write is documented, and a transfer caches data frames. -/
structure Careful (s : Serving) : Prop where
  queue : ∀ o ∈ s.queue, o.Documented
  caches : ∀ job sender, s.place = .sending job sender → sender.Caches

variable {config : ServerConfig} {baud : Nat} {s : Serving}

theorem careful_start : Careful start where
  queue := fun _ h => absurd h List.not_mem_nil
  caches := fun _ _ h => by cases h

theorem careful_leave (outcome : Except Exc Unit) :
    Careful (s.leave outcome) := by
  have hnone : ∀ {s' : Serving}, s'.queue = [] → (∀ job sender, s'.place ≠ .sending job sender) →
      Careful s' := by
    intro s' hqueue hplace
    exact ⟨fun o ho => absurd (hqueue ▸ ho) List.not_mem_nil,
      fun job sender h => absurd h (hplace job sender)⟩
  unfold leave
  split
  · exact hnone rfl (fun _ _ => ServePlace.noConfusion)
  · exact hnone rfl (fun _ _ => ServePlace.noConfusion)
  · split
    · exact hnone rfl (fun _ _ => ServePlace.noConfusion)
    · exact hnone rfl (fun _ _ => ServePlace.noConfusion)
  · exact hnone rfl (fun _ _ => ServePlace.noConfusion)
  · exact hnone rfl (fun _ _ => ServePlace.noConfusion)

/-- Lines are written. -/
theorem careful_write
    {queue : List Output} (hplace : ∀ job sender, s.place = .sending job sender → sender.Caches)
    (hqueue : ∀ o ∈ queue, o.Documented) :
    Careful (s.write queue) :=
  ⟨hqueue, hplace⟩

theorem documented_lines
    {lines : List Line} (h : HandleHello.Greets lines) :
    ∀ o ∈ lines.map Output.line, o.Documented := by
  intro o ho
  obtain ⟨text, htext, rfl⟩ := List.mem_map.mp ho
  exact h text htext

theorem documented_commands
    {commands : List Command} (h : Sender.Reports commands) :
    ∀ o ∈ commands.map Output.command, o.Documented := by
  intro o ho
  obtain ⟨c, hc, rfl⟩ := List.mem_map.mp ho
  exact documented_command (h c hc)

theorem careful_greet
    {next : HandleHello × List Line} (h : HandleHello.Greets next.2) :
    Careful (s.greet next) :=
  ⟨documented_lines h, fun _ _ heq => by cases heq⟩

theorem careful_close
    {next : ClosePhase × List Line} (h : HandleHello.Greets next.2) :
    Careful (s.close next) :=
  ⟨documented_lines h, fun _ _ heq => by cases heq⟩

theorem careful_finish
    {next : ClosePhase × List Line} (h : HandleHello.Greets next.2) :
    Careful (s.finish next) :=
  ⟨documented_lines h, fun _ _ heq => by cases heq⟩

theorem careful_transfer
    {job : Job} {next : Sender × List Command} (hcaches : next.1.Caches)
    (hreports : Sender.Reports next.2) :
    Careful (s.transfer job next) := by
  refine ⟨documented_commands hreports, fun job' sender heq => ?_⟩
  cases heq
  exact hcaches

theorem greets_close
    {lines : List Line} (h : ∀ text ∈ lines, text = closeLine ∨ text = byeLine) :
    HandleHello.Greets lines := by
  intro text htext
  rcases h text htext with rfl | rfl <;> decide

theorem greets_read (awaits : Bool) (now : Nat) (phase : ClosePhase) (text : Line) :
    HandleHello.Greets (phase.read awaits now text).2 := by
  refine greets_close ?_
  unfold ClosePhase.read
  cases phase with
  | serving | fin | await | linger =>
      dsimp only
      split_ifs <;> simp [ClosePhase.send_fin]
  | «over» | next => simp

theorem greets_expire (now : Nat) (phase : ClosePhase) :
    HandleHello.Greets (phase.expire now).2 := by
  refine greets_close ?_
  unfold ClosePhase.expire
  split <;> simp

theorem greets_finish (now : Nat) (phase : ClosePhase) :
    HandleHello.Greets (expire now phase).2 := by
  unfold expire
  split
  · exact HandleHello.greets_nil
  · exact greets_expire now phase

theorem careful_handleGet
    {session : Session} {text : Line} {s' : Serving}
    (h : s.handleGet session text = some s') :
    Careful s' := by
  have hprotocol : ErrorClass.protocol.code ∈ wireCodes := by decide
  have hone : ∀ {o : Output}, o.Documented → ∀ o' ∈ [o], o'.Documented := by
    intro o ho o' ho'
    rwa [List.mem_singleton.mp ho']
  unfold handleGet at h
  dsimp only at h
  split at h
  · cases h
    exact careful_write (fun _ _ heq => by cases heq) (hone (documented_wire hprotocol))
  · split at h
    · rename_i exc hexc
      cases h
      exact careful_write (fun _ _ heq => by cases heq)
        (hone (documented_wire (sanitize_filename_code hexc)))
    · rw [Option.map_eq_some_iff] at h
      obtain ⟨filename, _, rfl⟩ := h
      exact careful_write (fun _ _ heq => by cases heq)
        (hone (documented_command fun _ => Command.noConfusion))

theorem careful_onRequest
    {session : Session} {text : Line} {now : Nat} {s' : Serving}
    (h : s.onRequest config baud session text now = some s') :
    Careful s' := by
  unfold onRequest at h
  split_ifs at h
  · cases h
    exact careful_close (greets_read _ _ _ _)
  · cases h
    exact careful_greet (HandleHello.greets_onFirst _)
  · exact careful_handleGet h

theorem careful_onFetched
    {session : Session} {filename : SafeName} {outcome : Except Exc Bytes}
    (h : Coded outcome) :
    Careful (s.onFetched session filename outcome) := by
  unfold onFetched
  split
  · exact careful_transfer (fun _ _ hframe => by cases hframe)
      (Sender.reports_one fun _ => Command.noConfusion)
  · rename_i exc
    refine careful_write (fun _ _ heq => by cases heq) fun o ho => ?_
    rw [List.mem_singleton.mp ho]
    exact documented_wire (h exc rfl)
  · exact careful_leave _

/-- Nothing is queued, and no transfer begins. -/
theorem careful_of_empty
    {s' : Serving} (hqueue : s'.queue = [])
    (hplace : ∀ job sender, s'.place = .sending job sender → sender.Caches) :
    Careful s' :=
  ⟨fun _ ho => absurd (hqueue ▸ ho) List.not_mem_nil, hplace⟩

theorem careful_onRun
    {now : Nat} {s' : Serving} (h : Careful s) (hqueue : s.queue = [])
    (hnext : s.onRun config baud now = some s') :
    Careful s' := by
  unfold onRun at hnext
  split at hnext
  · split at hnext
    · rw [Option.map_eq_some_iff] at hnext
      obtain ⟨session, _, rfl⟩ := hnext
      exact careful_of_empty hqueue fun _ _ heq => by cases heq
    · cases hnext
      exact careful_leave _
    · cases hnext
      exact careful_leave _
    · cases hnext
  · split at hnext
    · exact careful_onRequest hnext
    · cases hnext
  · cases hnext
    exact careful_leave _
  · cases hnext
    exact careful_of_empty hqueue fun _ _ heq => by cases heq
  · cases hnext
    exact careful_leave _
  · cases hnext
    exact careful_leave _
  · rename_i job sender hplace
    split at hnext
    · cases hnext
      exact careful_of_empty hqueue fun _ _ heq => by cases heq
    · cases hnext
      exact careful_leave _
    · rw [Option.map_eq_some_iff] at hnext
      obtain ⟨next, hstep, rfl⟩ := hnext
      have hcaches := h.caches job sender hplace
      exact careful_transfer (hcaches.step hstep) (Sender.reports_step hcaches hstep rfl)
  · cases hnext
    exact careful_of_empty hqueue fun _ _ heq => by cases heq
  · cases hnext
    exact careful_of_empty hqueue fun _ _ heq => by cases heq
  · cases hnext

theorem careful_onLine
    {text : Line} {late : Bool} {now : Nat} {s' : Serving} (h : Careful s)
    (hkeeps : s.givesUp (.line text late now) = false)
    (hnext : s.onLine config baud text late now = some s') :
    Careful s' := by
  unfold onLine at hnext
  split at hnext
  · rename_i hello _
    rw [Option.map_eq_some_iff] at hnext
    obtain ⟨next, hbind, rfl⟩ := hnext
    rw [Option.bind_eq_some_iff] at hbind
    obtain ⟨first, hfirst, hlate⟩ := hbind
    refine careful_greet ?_
    have hgreets := HandleHello.greets_step hfirst
    unfold greetLate at hlate
    split at hlate
    · rw [Option.map_eq_some_iff] at hlate
      obtain ⟨after, hafter, rfl⟩ := hlate
      intro text' htext'
      rcases List.mem_append.mp htext' with htext' | htext'
      · exact hgreets text' htext'
      · exact HandleHello.greets_step hafter text' htext'
    · cases hlate
      exact hgreets
  · split at hnext
    · cases hnext
      refine careful_write (fun job sender heq => ?_) fun o ho => ?_
      · dsimp only at heq
        split at heq <;> cases heq
      · rw [List.mem_singleton.mp ho]
        exact documented_command fun _ => Command.noConfusion
    · exact careful_onRequest hnext
  · cases hnext
    exact careful_close (greets_read _ _ _ _)
  · rename_i job sender hplace
    rw [Option.map_eq_some_iff] at hnext
    obtain ⟨next, hstep, rfl⟩ := hnext
    have hcaches := h.caches job sender hplace
    refine careful_transfer (hcaches.step hstep) (Sender.reports_step hcaches hstep ?_)
    simpa only [givesUp, hplace] using hkeeps
  · cases hnext
    exact careful_finish (greets_read _ _ _ _)
  · cases hnext

theorem careful_onTimeout
    {now : Nat} {s' : Serving} (h : Careful s) (hkeeps : s.givesUp (.timeout now) = false)
    (hnext : s.onTimeout config baud now = some s') :
    Careful s' := by
  unfold onTimeout at hnext
  split at hnext
  · rw [Option.map_eq_some_iff] at hnext
    obtain ⟨next, hstep, rfl⟩ := hnext
    exact careful_greet (HandleHello.greets_step hstep)
  · cases hnext
    exact careful_leave _
  · cases hnext
    exact careful_close (greets_expire _ _)
  · rename_i job sender hplace
    rw [Option.map_eq_some_iff] at hnext
    obtain ⟨next, hstep, rfl⟩ := hnext
    have hcaches := h.caches job sender hplace
    refine careful_transfer (hcaches.step hstep) (Sender.reports_step hcaches hstep ?_)
    simpa only [givesUp, hplace] using hkeeps
  · cases hnext
    exact careful_finish (greets_finish _ _)
  · cases hnext

theorem careful_tooLong
    (h : Careful s) (now : Nat) :
    Careful (s.onFailed (ProtocolError "control line too long") now) := by
  have hprotocol : ErrorClass.protocol.code ∈ wireCodes := by decide
  have hcls : (ProtocolError "control line too long").cls = .protocol := rfl
  unfold onFailed
  split
  · rw [if_pos hcls]
    exact careful_close (greets_expire _ _)
  · rename_i job sender hplace
    have hcaches := h.caches job sender hplace
    split
    · exact careful_transfer hcaches (Sender.reports_fail hprotocol)
    · exact careful_transfer hcaches Sender.reports_nil
  · rw [if_pos hcls]
    exact careful_finish (greets_finish _ _)
  · exact careful_leave _

theorem careful_shutdown (now : Nat) :
    Careful (s.shutdown now) := by
  have hclose : (Output.line closeLine).Documented := by decide
  have hretry : ErrorClass.retry.code ∈ wireCodes := by decide
  unfold shutdown
  split
  · refine ⟨fun o ho => ?_, fun _ _ heq => by cases heq⟩
    rw [List.mem_singleton.mp ho]
    exact hclose
  · refine ⟨fun o ho => ?_, fun _ _ heq => by cases heq⟩
    rw [List.mem_singleton.mp ho]
    exact documented_err hretry
  · exact careful_of_empty rfl fun _ _ heq => by cases heq

theorem careful_onInterrupt
    {now : Nat} {s' : Serving} (hnext : s.onInterrupt now = some s') :
    Careful s' := by
  unfold onInterrupt at hnext
  split at hnext <;> cases hnext
  · exact careful_of_empty rfl fun _ _ heq => by cases heq
  · exact careful_of_empty rfl fun _ _ heq => by cases heq
  · exact careful_shutdown now

theorem careful_onOSError
    {s' : Serving} (hnext : s.onOSError = some s') :
    Careful s' := by
  unfold onOSError at hnext
  split at hnext
  · cases hnext
  · split at hnext <;> cases hnext
    · exact careful_of_empty rfl fun _ _ heq => by cases heq
    · exact careful_of_empty rfl fun _ _ heq => by cases heq
    · exact careful_leave _

/-- Every step keeps to the documented lines, unless the sender gives up. -/
theorem careful_live
    {e : LiveEvent} {s' : Serving} {out : List Output} (h : Careful s)
    (hstep : s.live config baud e = some (s', out)) (hkeeps : s.givesUp e = false) :
    Careful s' ∧ ∀ o ∈ out, o.Documented := by
  have hquiet : ∀ {s₁ : Serving} {out₁ : List Output}, Careful s₁ →
      some (s₁, ([] : List Output)) = some (s', out₁) →
      Careful s' ∧ ∀ o ∈ out₁, o.Documented := by
    intro s₁ out₁ hcareful heq
    cases heq
    exact ⟨hcareful, fun _ ho => absurd ho List.not_mem_nil⟩
  unfold live at hstep
  rw [Option.bind_eq_some_iff] at hstep
  obtain ⟨e', hevent, hstep⟩ := hstep
  unfold LiveEvent.event at hevent
  cases e with
  | wrote =>
      cases hevent
      simp only [Serving.step, Serving.wrote] at hstep
      split at hstep
      · cases hstep
      · rename_i o rest hqueue
        cases hstep
        refine ⟨careful_write h.caches fun o' ho' => h.queue o' ?_, fun o' ho' => h.queue o' ?_⟩
        · rw [hqueue]
          exact List.mem_cons_of_mem _ ho'
        · rw [hqueue, List.mem_singleton.mp ho']
          exact List.mem_cons_self
  | run now =>
      cases hevent
      simp only [Serving.step] at hstep
      split_ifs at hstep with hqueue
      obtain ⟨s₁, hnext, heq⟩ := Option.map_eq_some_iff.mp hstep
      exact hquiet (careful_onRun h (not_not.mp hqueue) hnext) (congrArg some heq)
  | line text late now =>
      cases hevent
      simp only [Serving.step] at hstep
      split_ifs at hstep
      obtain ⟨s₁, hnext, heq⟩ := Option.map_eq_some_iff.mp hstep
      exact hquiet (careful_onLine h hkeeps hnext) (congrArg some heq)
  | timeout now =>
      cases hevent
      simp only [Serving.step] at hstep
      split_ifs at hstep
      obtain ⟨s₁, hnext, heq⟩ := Option.map_eq_some_iff.mp hstep
      exact hquiet (careful_onTimeout h hkeeps hnext) (congrArg some heq)
  | tooLong now =>
      cases hevent
      simp only [Serving.step, Serving.onRead] at hstep
      split_ifs at hstep
      · cases hstep
      · exact hquiet (careful_tooLong h now) hstep
  | lost message now =>
      dsimp only at hevent
      split at hevent
      · rename_i session hplace
        cases hevent
        simp only [Serving.step, Serving.onRead, Serving.onFailed, hplace] at hstep
        split_ifs at hstep
        · cases hstep
        · exact hquiet (careful_leave _) hstep
      · cases hevent
  | fetched web max_size url =>
      cases hevent
      simp only [Serving.step] at hstep
      split at hstep
      · split_ifs at hstep
        exact hquiet (careful_onFetched (coded_fetch url)) hstep
      · cases hstep
  | osError =>
      cases hevent
      obtain ⟨s₁, hnext, heq⟩ := Option.map_eq_some_iff.mp hstep
      exact hquiet (careful_onOSError hnext) (congrArg some heq)
  | reconnected =>
      cases hevent
      simp only [Serving.step] at hstep
      split at hstep
      · cases hstep
        exact ⟨⟨h.queue, fun _ _ heq => by cases heq⟩, fun _ ho => absurd ho List.not_mem_nil⟩
      · cases hstep
  | interrupt now =>
      cases hevent
      obtain ⟨s₁, hnext, heq⟩ := Option.map_eq_some_iff.mp hstep
      exact hquiet (careful_onInterrupt hnext) (congrArg some heq)

/-- A sender that gives up reports it. -/
theorem reports_linkLost
    {job : Job} {sender : Sender} {e : SendEvent} {next : Sender × List Command}
    (hstep : sender.step job e = some next) (hlost : sender.givesUp e = true) :
    .err ErrorClass.linkLost.code ∈ next.2 := by
  cases e with
  | run => cases hlost
  | timeout =>
      have hphase : sender.phase = .rst 0 := by
        simpa [Sender.givesUp] using hlost
      rw [Sender.step, Sender.onTimeout, hphase] at hstep
      cases hstep
      exact List.mem_singleton.mpr rfl
  | line text late =>
      simp only [Sender.givesUp, Bool.and_eq_true, beq_iff_eq, Bool.or_eq_true] at hlost
      obtain ⟨⟨hphase, rfl⟩, hline⟩ := hlost
      by_cases hrmb : Sender.isRmb text = true
      · have hreads : sender.reads ≠ false := by
          simp [Sender.reads, hphase]
        rw [Sender.step, if_pos hrmb, if_neg hreads, if_pos rfl, Sender.onTimeout, hphase] at hstep
        cases hstep
        exact List.mem_cons_of_mem _ (List.mem_singleton.mpr rfl)
      · have hstale := hline.resolve_left hrmb
        simp only [Sender.staleReset, Bool.and_eq_true, bne_iff_ne, List.contains_iff_mem]
          at hstale
        rw [Sender.step, if_neg hrmb, Sender.onLine, hphase] at hstep
        cases hstep
        rw [Sender.onReset, if_neg hstale.1, if_pos hstale.2, if_pos rfl]
        exact List.mem_singleton.mpr rfl

/-- When the sender gives up, `ERR LINKLOST` is about to be written. -/
theorem linkLost_queued
    {e : LiveEvent} {s' : Serving} {out : List Output}
    (hstep : s.live config baud e = some (s', out)) (hlost : s.givesUp e = true) :
    Output.command (.err ErrorClass.linkLost.code) ∈ s'.queue := by
  unfold live at hstep
  rw [Option.bind_eq_some_iff] at hstep
  obtain ⟨e', hevent, hstep⟩ := hstep
  unfold givesUp at hlost
  split at hlost
  · rename_i job sender now hplace
    cases hevent
    simp only [Serving.step, Serving.onRead, Serving.onTimeout, hplace] at hstep
    split_ifs at hstep
    rw [Option.map_map, Option.map_eq_some_iff] at hstep
    obtain ⟨next, hnext, heq⟩ := hstep
    cases heq
    exact List.mem_map_of_mem (reports_linkLost hnext hlost)
  · rename_i job sender text late now hplace
    cases hevent
    simp only [Serving.step, Serving.onRead, Serving.onLine, hplace] at hstep
    split_ifs at hstep
    rw [Option.map_map, Option.map_eq_some_iff] at hstep
    obtain ⟨next, hnext, heq⟩ := hstep
    cases heq
    exact List.mem_map_of_mem (reports_linkLost hnext hlost)
  · cases hlost

end Careful

end Serving

open Serving

/-- The ERR lines of the server are documented, and none is `ERR LINKLOST`, in every run in which
no transfer gives its receiver up for lost; in any other run one is. -/
theorem linkLost_stays_local_iff
    (config : ServerConfig) (baud : Nat) (events : List LiveEvent) :
    Machine.Always (Serving.live config baud) Documents Serving.start events ↔
      Machine.Always (Serving.live config baud) KeepsOn Serving.start events := by
  refine Machine.always_iff_of_inv Careful
    (fun s e s' out h hstep => ⟨fun hdoc => ?_, fun hkeeps => ?_⟩)
    (fun s e s' out h hstep hkeeps => (careful_live h hstep hkeeps).1) careful_start
  · by_contra hlost
    have hmem := linkLost_queued hstep (by simpa [KeepsOn] using hlost)
    have hnot : ¬ (Output.command (.err ErrorClass.linkLost.code)).Documented := by decide
    exact hnot (hdoc _ (List.mem_append_right _ hmem))
  · obtain ⟨hcareful, hout⟩ := careful_live h hstep hkeeps
    intro o ho
    rcases List.mem_append.mp ho with ho | ho
    · exact hout o ho
    · exact hcareful.queue o ho

/-- A web that has an empty file at every address. -/
def emptyWeb : Web where
  urlparse _ := some ("http".toList, "a".toList)
  redirects := []
  opened := .ok
    { content_length := none
      expired := fun _ => false
      read := fun _ _ => .ok []
      overdue := false
      geturl := [] }

/-- So many times a read times out and the next request is written. -/
def unanswered (n : Nat) : List LiveEvent :=
  (List.replicate n [.timeout 0, .wrote]).flatten

/-- The receiver falls silent after READY. -/
def silentReceiver : List LiveEvent :=
  [.line "HELLO PCUTP/2 FLOW=1 RXBUF=16384".toList false 0, .wrote, .line "HRU".toList false 0,
    .run 0, .line "GET A http://a/".toList false 0, .wrote, .fetched emptyWeb 1 [], .wrote,
    .line "READY".toList false 0, .run 0, .wrote, .run 0, .timeout 0] ++
    unanswered (Const.PROBE_RETRIES + Const.RST_RETRIES + 1)

/-- `ERR LINKLOST` is written after the third RST request. -/
theorem linkLost_written :
    ¬ Machine.Always (Serving.live smallServer 115200) Documents Serving.start silentReceiver := by
  decide +kernel

end Pcutp
