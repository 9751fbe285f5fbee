import Pcutp.Picocalc.Session

/-!
# Between two reads

What every piece of the program leaves alone between two reads, and where it
can go.  Three things are said of each piece at once, because they need the
same case analysis: it neither touches the state of the beacons nor sends one;
it stops with an index error only when `Split` did; and where it goes, the
variables are as the place needs them.
-/

namespace Pcutp.Picocalc

section Defs

variable (nums : Numbers)

/-- The variables say that no transfer is under way. -/
structure Idle (g : Globals) : Prop where
  seq : g.seq = 0
  rmbState : g.rmbState = .none ∨ g.rmbState = .done

/-- The variables as a place needs them. -/
def Good (g : Globals) : Place → Prop
  | .line (.dial _) _ => Idle g
  | .line .who _ => Idle g
  | .prompt _ _ => Idle g
  | .line .data _ => 1 ≤ g.blocks
  | .raw _ _ => 1 ≤ g.blocks
  | _ => True

/-- What follows a read, when it was split and when its file was accepted. -/
structure Follows (split accepted : Prop) (g : Globals) (next : Next) : Prop where
  beacons : SameBeacons g next.g
  quiet : quiet next.out = true
  noError : split → next.place ≠ .stopped .indexError
  good : accepted → Good next.g next.place

/-- The file is not what META and DONE say. -/
def Mismatch (g : Globals) (crc : Line) : Prop :=
  g.running ≠ g.fcrc ∨ g.running ≠ HexVal nums crc ∨ g.rcvd ≠ g.size

/-- DONE is answered with FAIL FILECRC. -/
def Rejects (g : Globals) (s : Line) : Prop :=
  begins "ERR" s = false ∧ s ≠ "CLOSE".toList ∧ ∃ parts, Split s g.parts = some parts ∧
    parts.get 0 = "DONE".toList ∧ g.seq = g.blocks ∧ Mismatch nums g (parts.get 1)

end Defs

section Leaves

variable {split accepted : Prop} {g g' : Globals} {now : Nat} {out : List Effect}

theorem follows_recvLine
    (wait : Wait) (hbeacons : SameBeacons g g') (hquiet : quiet out = true)
    (hgood : accepted → ∀ l, Good g' (.line wait l)) :
    Follows split accepted g (recvLine g' now wait out) :=
  ⟨hbeacons, hquiet, fun _ h => Place.noConfusion h, fun h => hgood h _⟩

theorem follows_inputAlive
    (p : Prompt) (hbeacons : SameBeacons g g') (hquiet : quiet out = true)
    (hgood : accepted → Idle g') :
    Follows split accepted g (inputAlive g' p out) :=
  ⟨hbeacons, hquiet, fun _ h => Place.noConfusion h, hgood⟩

theorem follows_stop
    {how : Stop} (hbeacons : SameBeacons g g') (hquiet : quiet out = true)
    (hhow : split → how ≠ .indexError) :
    Follows split accepted g (stop g' how out) :=
  ⟨hbeacons, hquiet, fun hsplit h => hhow hsplit (Place.stopped.inj h), fun _ => trivial⟩

theorem follows_ended
    (hbeacons : SameBeacons g g') (hquiet : quiet out = true) :
    Follows split accepted g (stop g' .ended out) :=
  follows_stop hbeacons hquiet fun _ => Stop.noConfusion

/-- What led to a read counts to what follows it. -/
theorem Follows.trans
    {next : Next} (hbeacons : SameBeacons g g') (h : Follows split accepted g' next) :
    Follows split accepted g next :=
  ⟨⟨h.beacons.beaconAt.trans hbeacons.beaconAt, h.beacons.beaconBit.trans hbeacons.beaconBit,
    h.beacons.beaconPending.trans hbeacons.beaconPending⟩, h.quiet, h.noError, h.good⟩

end Leaves

section Closing

variable {split accepted : Prop} {g g' : Globals} (now : Nat) {out : List Effect}

theorem follows_linger
    (hbeacons : SameBeacons g g') (hquiet : quiet out = true) :
    Follows split accepted g (Linger g' now out) :=
  follows_recvLine _ hbeacons hquiet fun _ _ => trivial

theorem follows_awaitClose
    (hbeacons : SameBeacons g g') (hquiet : quiet out = true) :
    Follows split accepted g (awaitClose g' now out) := by
  rw [awaitClose]
  split_ifs
  · exact follows_linger now hbeacons hquiet
  · exact follows_recvLine _ hbeacons hquiet fun _ _ => trivial

theorem follows_closeSession
    (hbeacons : SameBeacons g g') (hquiet : quiet out = true) :
    Follows split accepted g (CloseSession g' now out) := by
  refine follows_recvLine _ hbeacons ?_ fun _ _ => trivial
  rw [quiet, List.all_append, Bool.and_eq_true]
  exact ⟨hquiet, rfl⟩

theorem follows_afterBye (k : Nat) (s : Line) :
    Follows split accepted g (afterBye g now k s) := by
  dsimp only [afterBye]
  split_ifs
  · exact follows_awaitClose now ⟨rfl, rfl, rfl⟩ rfl
  · exact follows_recvLine _ ⟨rfl, rfl, rfl⟩ rfl fun _ _ => trivial
  · exact follows_recvLine _ ⟨rfl, rfl, rfl⟩ rfl fun _ _ => trivial
  · refine follows_awaitClose now ?_ rfl
    exact ⟨rfl, rfl, rfl⟩
  · exact follows_awaitClose now ⟨rfl, rfl, rfl⟩ rfl

theorem follows_afterClose (t0 : Nat) (s : Line) :
    Follows split accepted g (afterClose g now t0 s) := by
  rw [afterClose]
  split_ifs
  · exact follows_linger now ⟨rfl, rfl, rfl⟩ rfl
  · exact follows_linger now ⟨rfl, rfl, rfl⟩ rfl
  · exact follows_recvLine _ ⟨rfl, rfl, rfl⟩ rfl fun _ _ => trivial
  · exact follows_linger now ⟨rfl, rfl, rfl⟩ rfl

theorem follows_afterLinger (t0 : Nat) (s : Line) :
    Follows split accepted g (afterLinger g now t0 s) := by
  dsimp only [afterLinger]
  split_ifs
  · exact follows_recvLine _ ⟨rfl, rfl, rfl⟩ rfl fun _ _ => trivial
  · exact follows_recvLine _ ⟨rfl, rfl, rfl⟩ rfl fun _ _ => trivial
  · exact follows_ended ⟨rfl, rfl, rfl⟩ rfl
  · exact follows_ended ⟨rfl, rfl, rfl⟩ rfl

end Closing

section Dialing

variable (nums : Numbers) {split accepted : Prop} {g : Globals} (now : Nat)

/-- Nothing that a piece of the program leaves alone has changed. -/
structure Kept (g g' : Globals) : Prop extends SameBeacons g g' where
  seq : g'.seq = g.seq
  rmbState : g'.rmbState = g.rmbState

/-- Reading a proposal changes what it proposes only. -/
theorem readFields_kept
    {g g' : Globals} {fields : List Line} (h : readFields nums g fields = some g') :
    Kept g g' := by
  induction fields generalizing g with
  | nil =>
      cases h
      exact ⟨⟨rfl, rfl, rfl⟩, rfl, rfl⟩
  | cons field fields ih =>
      rw [readFields] at h
      split_ifs at h
      all_goals
        obtain ⟨⟨hat, hbit, hpending⟩, hseq, hrmb⟩ := ih h
        exact ⟨⟨hat, hbit, hpending⟩, hseq, hrmb⟩

theorem Idle.kept
    {g g' : Globals} (h : Idle g) (hkept : Kept g g') :
    Idle g' :=
  ⟨hkept.seq.trans h.seq, hkept.rmbState.symm ▸ h.rmbState⟩

theorem follows_confirm
    {g' : Globals} (hkept : Kept g g') (hidle : accepted → Idle g) (s : Line) :
    Follows split accepted g (confirm g' now s) := by
  rw [confirm]
  split_ifs
  · exact follows_ended hkept.toSameBeacons rfl
  · exact follows_ended hkept.toSameBeacons rfl
  · exact follows_recvLine _ hkept.toSameBeacons rfl fun h _ => (hidle h).kept hkept
  · exact follows_inputAlive _ hkept.toSameBeacons rfl fun h => (hidle h).kept hkept

theorem follows_acceptProposal
    (hidle : accepted → Idle g) (answerAt : Nat) (s : Line) :
    Follows split accepted g (acceptProposal nums g now answerAt s) := by
  dsimp only [acceptProposal]
  split
  · exact follows_ended ⟨rfl, rfl, rfl⟩ rfl
  · rename_i g' hfields
    obtain ⟨⟨hat, hbit, hpending⟩, hseq, hrmb⟩ := readFields_kept nums hfields
    have hkept : Kept g (if g'.flowOn = true then g' else { g' with winsz := 1 }) := by
      split_ifs
      · exact ⟨⟨hat, hbit, hpending⟩, hseq, hrmb⟩
      · exact ⟨⟨hat, hbit, hpending⟩, hseq, hrmb⟩
    exact follows_confirm now hkept hidle s

theorem follows_answered
    (hidle : accepted → Idle g) (s : Line)
    (hsplit : split → isProposal s = true → Split s g.parts ≠ none) :
    Follows split accepted g (answered nums g now s) := by
  rw [answered]
  split_ifs with _ hproposal
  · exact follows_ended ⟨rfl, rfl, rfl⟩ rfl
  · cases hparts : Split s g.parts with
    | none => exact follows_stop ⟨rfl, rfl, rfl⟩ rfl fun h => absurd hparts (hsplit h hproposal)
    | some parts =>
        dsimp only
        split_ifs
        · refine Follows.trans ?_ (follows_acceptProposal nums now ?_ 3 s)
          · exact ⟨rfl, rfl, rfl⟩
          · exact fun h => ⟨(hidle h).seq, (hidle h).rmbState⟩
        · refine Follows.trans ?_ (follows_acceptProposal nums now ?_ 2 s)
          · exact ⟨rfl, rfl, rfl⟩
          · exact fun h => ⟨(hidle h).seq, (hidle h).rmbState⟩
        · exact follows_ended ⟨rfl, rfl, rfl⟩ rfl
  · exact follows_stop ⟨rfl, rfl, rfl⟩ rfl fun _ => Stop.noConfusion

theorem quiet_hello (helloTry : Nat) :
    quiet [.send (helloLine helloTry)] = true := by
  rw [helloLine]
  split_ifs
  · rfl
  · rfl

theorem follows_afterDial
    (hidle : accepted → Idle g) (helloTry : Nat) (s : Line)
    (hsplit : split → isProposal s = true → Split s g.parts ≠ none) :
    Follows split accepted g (afterDial nums g now helloTry s) := by
  rw [afterDial]
  split_ifs
  · exact follows_answered nums now hidle s hsplit
  · refine follows_recvLine _ ?_ (quiet_hello _) fun h _ => ?_
    · exact ⟨rfl, rfl, rfl⟩
    · exact ⟨(hidle h).seq, (hidle h).rmbState⟩
  · exact follows_answered nums now hidle s hsplit

theorem follows_afterWho
    (hidle : accepted → Idle g) (s : Line) :
    Follows split accepted g (afterWho g s) := by
  rw [afterWho, connect]
  split_ifs
  · exact follows_inputAlive _ ⟨rfl, rfl, rfl⟩ rfl hidle
  · exact follows_inputAlive _ ⟨rfl, rfl, rfl⟩ rfl hidle

end Dialing

section Prompts

variable {split accepted : Prop} {g : Globals} (now : Nat)

theorem follows_afterUrl
    (hidle : accepted → Idle g) (url : Line) :
    Follows split accepted g (afterUrl g now url) := by
  rw [afterUrl]
  split_ifs
  · exact follows_closeSession now ⟨rfl, rfl, rfl⟩ rfl
  · exact follows_inputAlive _ ⟨rfl, rfl, rfl⟩ rfl hidle
  · exact follows_inputAlive _ ⟨rfl, rfl, rfl⟩ rfl hidle

theorem follows_afterFilename
    (hidle : accepted → Idle g) (url name : Line) :
    Follows split accepted g (afterFilename g now url name) := by
  have hbeacons : SameBeacons g { g with fn := name } := ⟨rfl, rfl, rfl⟩
  have hnamed : accepted → Idle { g with fn := name } :=
    fun h => ⟨(hidle h).seq, (hidle h).rmbState⟩
  dsimp only [afterFilename]
  split_ifs
  · exact follows_inputAlive _ hbeacons rfl hnamed
  · refine follows_recvLine _ ?_ rfl fun _ _ => trivial
    exact ⟨rfl, rfl, rfl⟩
  · exact follows_inputAlive _ hbeacons rfl hnamed

end Prompts

section Fetching

variable (nums : Numbers) {split accepted : Prop} {g : Globals} (now : Nat)

theorem cleared_idle (g : Globals) :
    Idle (cleared g .none) :=
  ⟨rfl, Or.inl rfl⟩

theorem follows_receive
    {g' : Globals} (hbeacons : SameBeacons g g') (hblocks : 1 ≤ g'.blocks) :
    Follows split accepted g (receive g' now) := by
  refine follows_recvLine _ ?_ rfl fun _ _ => hblocks
  exact ⟨hbeacons.beaconAt, hbeacons.beaconBit, hbeacons.beaconPending⟩

/-- A file has at least one block. -/
theorem one_le_blockCount
    {size blksz : Int} (hsize : 0 ≤ size) (hblksz : 1 ≤ blksz) :
    1 ≤ blockCount size blksz := by
  dsimp only [blockCount]
  have hnonneg : 0 ≤ (size + blksz - 1) / blksz := Int.ediv_nonneg (by omega) (by omega)
  split_ifs with hzero
  · exact le_refl 1
  · omega

theorem follows_afterMeta
    (s : Line) (hsplit : split → Split s g.parts ≠ none) :
    Follows split accepted g (afterMeta nums g now s) := by
  unfold afterMeta
  cases hparts : Split s g.parts with
  | none => exact follows_stop ⟨rfl, rfl, rfl⟩ rfl fun h => absurd hparts (hsplit h)
  | some parts =>
      dsimp only
      split_ifs with _ hbad hcount
      · exact follows_ended ⟨rfl, rfl, rfl⟩ rfl
      · exact follows_ended ⟨rfl, rfl, rfl⟩ rfl
      · exact follows_ended ⟨rfl, rfl, rfl⟩ rfl
      · refine follows_receive now ?_ ?_
        · exact ⟨rfl, rfl, rfl⟩
        · simp only [not_or, not_lt] at hbad
          rw [not_not.mp hcount]
          exact one_le_blockCount hbad.2.2.1 hbad.1

theorem follows_afterAnswer
    (s : Line) (hsplit : split → begins "ERR" s = false → s ≠ "FETCHING".toList →
      Split s g.parts ≠ none) :
    Follows split accepted g (afterAnswer nums g now s) := by
  rw [afterAnswer]
  split_ifs with herr hfetching
  · exact follows_inputAlive _ ⟨rfl, rfl, rfl⟩ rfl fun _ => cleared_idle g
  · refine follows_recvLine _ ?_ rfl fun _ _ => trivial
    exact ⟨rfl, rfl, rfl⟩
  · exact follows_afterMeta nums now s fun h => hsplit h (Bool.eq_false_iff.mpr herr) hfetching

theorem follows_afterFetched
    (s : Line) (hsplit : split → begins "ERR" s = false → Split s g.parts ≠ none) :
    Follows split accepted g (afterFetched nums g now s) := by
  dsimp only [afterFetched]
  split_ifs with herr
  · exact follows_inputAlive _ ⟨rfl, rfl, rfl⟩ rfl fun _ => cleared_idle _
  · refine Follows.trans ?_ (follows_afterMeta nums now s ?_)
    · exact ⟨rfl, rfl, rfl⟩
    · exact fun h => hsplit h (Bool.eq_false_iff.mpr herr)

end Fetching

section Transfer

variable (nums : Numbers) {split accepted : Prop} {g : Globals} (now : Nat)

theorem follows_protocolError :
    Follows split accepted g (protocolError g) :=
  follows_ended ⟨rfl, rfl, rfl⟩ rfl

/-- A piece of the transfer that waits for the next line. -/
theorem follows_data
    {g' : Globals} {out : List Effect} (hblocks : accepted → 1 ≤ g.blocks)
    (hbeacons : SameBeacons g g')
    (hsame : g'.blocks = g.blocks) (hquiet : quiet out = true) :
    Follows split accepted g (recvLine g' now .data out) :=
  follows_recvLine _ hbeacons hquiet fun h _ => (hblocks h).trans_eq hsame.symm

theorem follows_finalCrc
    (haccepted : accepted → ¬ Mismatch nums g (g.parts.get 1)) :
    Follows split accepted g (finalCrc nums g now) := by
  dsimp only [finalCrc]
  split_ifs with hmismatch hdone
  · refine follows_inputAlive _ ?_ rfl fun h => absurd hmismatch (haccepted h)
    exact ⟨rfl, rfl, rfl⟩
  · refine follows_closeSession now ?_ rfl
    exact ⟨rfl, rfl, rfl⟩
  · refine follows_inputAlive _ ?_ rfl fun _ => ?_
    · exact ⟨rfl, rfl, rfl⟩
    · exact ⟨rfl, Or.inr rfl⟩

theorem follows_commit
    (hblocks : accepted → 1 ≤ g.blocks) (n ln : Int) (running : BitVec 64) :
    Follows split accepted g (commit g now n ln running) := by
  dsimp only [commit]
  split_ifs
  all_goals first
    | exact follows_protocolError
    | split
      · exact follows_stop ⟨rfl, rfl, rfl⟩ rfl fun _ => Stop.noConfusion
      · exact follows_data now hblocks ⟨rfl, rfl, rfl⟩ rfl rfl

theorem follows_outOfPlace
    (hblocks : accepted → 1 ≤ g.blocks) (n : Int) :
    Follows split accepted g (outOfPlace g now n) := by
  dsimp only [outOfPlace]
  split_ifs
  · refine follows_ended ?_ rfl
    exact ⟨rfl, rfl, rfl⟩
  · refine follows_data now hblocks ?_ rfl rfl
    exact ⟨rfl, rfl, rfl⟩
  · refine follows_data now hblocks ?_ rfl rfl
    exact ⟨rfl, rfl, rfl⟩

theorem follows_checkBlock
    (hblocks : accepted → 1 ≤ g.blocks) (frame : Frame) (ln : Int) :
    Follows split accepted g (checkBlock g now frame ln) := by
  unfold checkBlock
  split
  · exact follows_stop ⟨rfl, rfl, rfl⟩ rfl fun _ => Stop.noConfusion
  · split_ifs
    · exact follows_data now hblocks ⟨rfl, rfl, rfl⟩ rfl rfl
    · exact follows_data now hblocks ⟨rfl, rfl, rfl⟩ rfl rfl
    · exact follows_data now hblocks ⟨rfl, rfl, rfl⟩ rfl rfl
    · exact follows_outOfPlace now hblocks frame.n
    · exact follows_commit now hblocks frame.n ln _

theorem follows_afterRaw
    (hblocks : accepted → 1 ≤ g.blocks) (frame : Frame) :
    Follows split accepted g (afterRaw g now frame) := by
  unfold afterRaw
  split_ifs
  · split
    · exact follows_stop ⟨rfl, rfl, rfl⟩ rfl fun _ => Stop.noConfusion
    · refine follows_data now hblocks ?_ rfl rfl
      exact ⟨rfl, rfl, rfl⟩
    · refine Follows.trans ?_ (follows_checkBlock now ?_ frame frame.rawlen)
      · exact ⟨rfl, rfl, rfl⟩
      · exact hblocks
  · exact follows_checkBlock now hblocks frame frame.ln

theorem follows_afterFrame
    (hblocks : accepted → 1 ≤ g.blocks) (frame : Frame) :
    Follows split accepted g (afterFrame g now frame) := by
  rw [afterFrame]
  split_ifs
  · exact follows_protocolError
  · exact follows_protocolError
  · exact follows_afterRaw now hblocks frame
  · exact ⟨⟨rfl, rfl, rfl⟩, rfl, fun _ h => Place.noConfusion h, hblocks⟩

theorem follows_afterData
    (hblocks : accepted → 1 ≤ g.blocks) (s : Line)
    (hsplit : split → begins "ERR" s = false → s ≠ "CLOSE".toList → Split s g.parts ≠ none)
    (haccepted : accepted → ¬ Rejects nums g s) :
    Follows split accepted g (afterData nums g now s) := by
  unfold afterData
  split_ifs with herr hclose
  · exact follows_ended ⟨rfl, rfl, rfl⟩ rfl
  · refine follows_data now hblocks ?_ rfl rfl
    exact ⟨rfl, rfl, rfl⟩
  · have herr' := Bool.eq_false_iff.mpr herr
    cases hparts : Split s g.parts with
    | none => exact follows_stop ⟨rfl, rfl, rfl⟩ rfl fun h => absurd hparts (hsplit h herr' hclose)
    | some parts =>
        dsimp only
        split_ifs with _ hdone hseq
        · refine follows_data now hblocks ?_ rfl rfl
          exact ⟨rfl, rfl, rfl⟩
        · refine Follows.trans ?_ follows_protocolError
          exact ⟨rfl, rfl, rfl⟩
        · refine Follows.trans ?_ (follows_finalCrc nums now fun h hmismatch => ?_)
          · exact ⟨rfl, rfl, rfl⟩
          · exact haccepted h
              ⟨herr', hclose, parts, hparts, hdone, not_not.mp hseq, hmismatch⟩
        · refine follows_data now hblocks ?_ rfl rfl
          exact ⟨rfl, rfl, rfl⟩
        · refine follows_ended ?_ rfl
          exact ⟨rfl, rfl, rfl⟩
        · refine Follows.trans ?_ (follows_afterFrame now ?_ _)
          · exact ⟨rfl, rfl, rfl⟩
          · exact hblocks

theorem follows_rawTimedOut
    (hblocks : accepted → 1 ≤ g.blocks) :
    Follows split accepted g (rawTimedOut g now) :=
  follows_data now hblocks ⟨rfl, rfl, rfl⟩ rfl rfl

end Transfer

section Steps

variable (nums : Numbers) {split accepted : Prop} {g : Globals} (now : Nat)

theorem follows_afterPrompt
    (hidle : accepted → Idle g) (txt : Line) (p : Prompt) :
    Follows split accepted g (afterPrompt g now txt p) := by
  cases p with
  | url => exact follows_afterUrl now hidle txt
  | filename url => exact follows_afterFilename now hidle url txt

/-- The lines that are passed to `Split`, by where they were read. -/
def isSplit : Wait → Line → Bool
  | .dial _, s => isProposal s
  | .answer, s => !begins "ERR" s && s ≠ "FETCHING".toList
  | .fetched, s => !begins "ERR" s
  | .data, s => !begins "ERR" s && s ≠ "CLOSE".toList
  | _, _ => false

/-- What follows a line that was read for someone. -/
theorem follows_afterLine
    {wait : Wait} (l : RecvLine) (hgood : accepted → Good g (.line wait l)) (s : Line)
    (hsplit : split → isSplit wait s = true → Split s g.parts ≠ none)
    (haccepted : accepted → wait = .data → ¬ Rejects nums g s) :
    Follows split accepted g (afterLine nums g now s wait) := by
  cases wait with
  | dial helloTry => exact follows_afterDial nums now hgood helloTry s hsplit
  | who => exact follows_afterWho hgood s
  | answer =>
      refine follows_afterAnswer nums now s fun h herr hfetching => hsplit h ?_
      rw [isSplit, herr, Bool.not_false, Bool.true_and]
      exact decide_eq_true hfetching
  | fetched =>
      refine follows_afterFetched nums now s fun h herr => hsplit h ?_
      rw [isSplit, herr, Bool.not_false]
  | data =>
      refine follows_afterData nums now hgood s (fun h herr hclose => hsplit h ?_)
        fun h => haccepted h rfl
      rw [isSplit, herr, Bool.not_false, Bool.true_and]
      exact decide_eq_true hclose
  | bye k => exact follows_afterBye now k s
  | close t0 => exact follows_afterClose now t0 s
  | linger t0 => exact follows_afterLinger now t0 s

/-- The line that the next byte makes `RecvLine$` return. -/
def Returns (st : State) (tick : Tick) (wait : Wait) (s : Line) : Prop :=
  ∃ l, st.place = .line wait l ∧ s = l.s ∧ (st.queue ++ tick.arrived).head? = some 10 ∧
    recvHears nums l.s = .returned

/-- A line that is returned is returned as it stands in the buffer. -/
theorem recvTurn_of_returns
    {st : State} {tick : Tick} {wait : Wait} {s : Line} (h : Returns nums st tick wait s) :
    ∃ l queue', st.place = .line wait l ∧
      recvTurn nums st.g (st.queue ++ tick.arrived) tick.now wait.tmo l =
        .returned { st.g with lastRx := tick.now } queue' s [] := by
  obtain ⟨l, hplace, rfl, hhead, hheard⟩ := h
  cases hqueue : st.queue ++ tick.arrived with
  | nil =>
      rw [hqueue] at hhead
      cases hhead
  | cons b queue' =>
      rw [hqueue] at hhead
      cases hhead
      refine ⟨l, queue', hplace, ?_⟩
      rw [recvTurn, if_pos rfl, hheard]

/-- The same reader, with other locals. -/
inductive SamePlace : Place → Place → Prop
  | line (wait : Wait) (l l' : RecvLine) : SamePlace (.line wait l) (.line wait l')
  | prompt (p : Prompt) (l l' : InputAlive) : SamePlace (.prompt p l) (.prompt p l')
  | raw (frame : Frame) (l l' : RecvRaw) : SamePlace (.raw frame l) (.raw frame l')

theorem SamePlace.ne_stopped
    {place place' : Place} {how : Stop} (h : SamePlace place place') :
    place' ≠ .stopped how := by
  cases h with
  | line => exact Place.noConfusion
  | prompt => exact Place.noConfusion
  | raw => exact Place.noConfusion

/-- What a step does: it stays in its reader, or the reader comes back. -/
inductive Stepped (st : State) (tick : Tick) : State → Prop
  | stays {g' : Globals} {place' : Place} {queue' : Bytes} (hplace : SamePlace st.place place')
      (hsame : SameTransfer st.g g') : Stepped st tick ⟨g', place', queue'⟩
  | line {g' : Globals} {wait : Wait} {l : RecvLine} {s : Line} {queue' : Bytes}
      (hplace : st.place = .line wait l) (hsame : SameTransfer st.g g')
      (hs : s = [] ∨ Returns nums st tick wait s) :
      Stepped st tick ((afterLine nums g' tick.now s wait).state queue')
  | prompt {g' : Globals} {p : Prompt} {l : InputAlive} {txt : Line} {queue' : Bytes}
      (hplace : st.place = .prompt p l) (hsame : SameTransfer st.g g') :
      Stepped st tick ((afterPrompt g' tick.now txt p).state queue')
  | block {g' : Globals} {frame : Frame} {l : RecvRaw} {queue' : Bytes}
      (hplace : st.place = .raw frame l) (hsame : SameTransfer st.g g') :
      Stepped st tick ((afterRaw g' tick.now frame).state queue')
  | late {g' : Globals} {frame : Frame} {l : RecvRaw} {queue' : Bytes}
      (hplace : st.place = .raw frame l) (hsame : SameTransfer st.g g') :
      Stepped st tick ((rawTimedOut g' tick.now).state queue')
  | stopped {g' : Globals} {how : Stop} {queue' : Bytes} (hhow : how ≠ .indexError) :
      Stepped st tick ⟨g', .stopped how, queue'⟩

theorem stepped_of_step
    {st st' : State} {tick : Tick} {out : List Effect}
    (h : step nums st tick = some (st', out)) :
    Stepped nums st tick st' := by
  unfold step at h
  dsimp only at h
  cases hplace : st.place with
  | stopped how =>
      rw [hplace] at h
      cases h
  | line wait l =>
      rw [hplace] at h
      dsimp only at h
      have hspec := recvTurn_spec nums st.g (st.queue ++ tick.arrived) tick.now wait.tmo l
      cases hturn : recvTurn nums st.g (st.queue ++ tick.arrived) tick.now wait.tmo l with
      | again g' queue' l' out' =>
          rw [hturn] at h hspec
          cases h
          exact .stays (hplace ▸ .line wait l l') hspec.transfer
      | returned g' queue' s out' =>
          rw [hturn] at h hspec
          cases h
          exact .line hplace hspec.1.transfer (hspec.2.imp_right fun hs => ⟨l, hplace, hs⟩)
      | lost g' out' =>
          rw [hturn] at h
          cases h
          exact .stopped Stop.noConfusion
  | prompt p l =>
      rw [hplace] at h
      dsimp only at h
      obtain ⟨g₁, out₁, hheeds, hspec⟩ :=
        inputTurn_spec nums st.g (st.queue ++ tick.arrived) tick.now tick.key l
      have hbeaten : SameTransfer st.g (beacon g₁ tick.now).1 :=
        hheeds.transfer.trans (beacon_transfer g₁ tick.now)
      cases hturn : inputTurn nums st.g (st.queue ++ tick.arrived) tick.now tick.key l with
      | again g' queue' l' out' =>
          rw [hturn] at h hspec
          cases h
          exact .stays (hplace ▸ .prompt p l l') (hspec.1 ▸ hbeaten)
      | returned g' queue' txt out' =>
          rw [hturn] at h hspec
          cases h
          refine .prompt hplace ?_
          rcases hspec with ⟨hg, _⟩ | ⟨_, _, _, hg, _⟩
          · exact hg ▸ hbeaten
          · rw [hg]
            exact hheeds.transfer.trans ⟨rfl, rfl, rfl, rfl, rfl, rfl, rfl, rfl⟩
      | lost g' out' =>
          rw [hturn] at h
          cases h
          exact .stopped Stop.noConfusion
  | raw frame l =>
      rw [hplace] at h
      dsimp only at h
      cases hturn : rawTurn st.g (st.queue ++ tick.arrived) tick.now frame.ln.toNat
          Const.DATTMO l with
      | none =>
          rw [hturn] at h
          cases h
          exact .stopped Stop.noConfusion
      | some round =>
          have hspec := rawTurn_spec st.g (st.queue ++ tick.arrived) tick.now hturn
          rw [hturn] at h
          cases round with
          | again g' queue' l' out' =>
              cases h
              exact .stays (hplace ▸ .raw frame l l') hspec.1
          | returned g' queue' ok out' =>
              cases h
              cases ok with
              | true => exact .block hplace hspec.1
              | false => exact .late hplace hspec.1
          | lost g' out' =>
              cases h
              exact .stopped Stop.noConfusion

variable {g' : Globals}

theorem Idle.same
    (h : Idle g) (hsame : SameTransfer g g') :
    Idle g' :=
  ⟨hsame.seq.trans h.seq, hsame.rmbState.symm ▸ h.rmbState⟩

/-- Turning in a reader leaves the variables as its place needs them. -/
theorem Good.same
    {place place' : Place} (h : Good g place) (hsame : SameTransfer g g')
    (hplace : SamePlace place place') :
    Good g' place' := by
  cases hplace with
  | line wait l l' =>
      cases wait with
      | dial helloTry => exact Idle.same h hsame
      | who => exact Idle.same h hsame
      | data => exact le_of_le_of_eq h hsame.blocks.symm
      | _ => trivial
  | prompt p l l' => exact Idle.same h hsame
  | raw frame l l' => exact le_of_le_of_eq h hsame.blocks.symm

theorem Rejects.same
    {s : Line} (h : Rejects nums g' s) (hsame : SameTransfer g g') :
    Rejects nums g s := by
  obtain ⟨herr, hclose, parts, hparts, hdone, hseq, hmismatch⟩ := h
  refine ⟨herr, hclose, parts, hsame.parts ▸ hparts, hdone, ?_, ?_⟩
  · rw [← hsame.seq, ← hsame.blocks]
    exact hseq
  · rw [Mismatch, ← hsame.running, ← hsame.fcrc, ← hsame.rcvd, ← hsame.size]
    exact hmismatch

/-- A timeout is no DONE. -/
theorem not_rejects_nil :
    ¬ Rejects nums g [] := by
  rintro ⟨_, _, parts, hparts, hdone, _⟩
  have hfirst : parts[0] = [] := by
    rw [Split, splitLoop, dif_pos (Nat.zero_lt_succ 8), Option.some.injEq] at hparts
    rw [← hparts, Vector.getElem_ofFn]
    simp
  have hdone' : parts[0] = "DONE".toList := hdone
  rw [hfirst] at hdone'
  exact absurd hdone' (by decide)

/-- The next byte completes a DONE that is answered with FAIL FILECRC. -/
def RejectsFile (st : State) (tick : Tick) : Prop :=
  ∃ s, Returns nums st tick .data s ∧ Rejects nums st.g s

/-- The variables stay as the places need them, as long as every file is accepted. -/
theorem good_step
    {st st' : State} {tick : Tick} {out : List Effect} (hgood : Good st.g st.place)
    (h : step nums st tick = some (st', out)) (haccepted : ¬ RejectsFile nums st tick) :
    Good st'.g st'.place := by
  cases stepped_of_step nums h with
  | stays hplace hsame => exact hgood.same hsame hplace
  | @line g' wait l s queue' hplace hsame hs =>
      rw [hplace] at hgood
      have hgood' := hgood.same hsame (.line wait l l)
      have hnext : Follows False True g' (afterLine nums g' tick.now s wait) := by
        refine follows_afterLine nums tick.now l (fun _ => hgood') s False.elim
          fun _ hwait hrejects => ?_
        subst hwait
        rcases hs with rfl | hs
        · exact not_rejects_nil nums hrejects
        · exact haccepted ⟨s, hs, hrejects.same nums hsame⟩
      exact hnext.good trivial
  | @prompt g' p l txt queue' hplace hsame =>
      rw [hplace] at hgood
      have hnext : Follows False True g' (afterPrompt g' tick.now txt p) :=
        follows_afterPrompt tick.now (fun _ => hgood.same hsame (.prompt p l l)) txt p
      exact hnext.good trivial
  | @block g' frame l queue' hplace hsame =>
      rw [hplace] at hgood
      have hnext : Follows False True g' (afterRaw g' tick.now frame) :=
        follows_afterRaw tick.now (fun _ => hgood.same hsame (.raw frame l l)) frame
      exact hnext.good trivial
  | @late g' frame l queue' hplace hsame =>
      rw [hplace] at hgood
      have hnext : Follows False True g' (rawTimedOut g' tick.now) :=
        follows_rawTimedOut tick.now fun _ => hgood.same hsame (.raw frame l l)
      exact hnext.good trivial
  | stopped _ => trivial

end Steps

end Pcutp.Picocalc
