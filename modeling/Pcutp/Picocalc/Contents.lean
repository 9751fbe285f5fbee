import Pcutp.Picocalc.Alike

/-!
# What the data loop puts into a file

The acts of the data loop say what stands in `.PART`; here the drive is shown to
hold it.  Every piece of the loop keeps the name of the file, opens and writes
`.PART` only, and takes the file to its name in one way.
-/

namespace Pcutp.Picocalc

section Defs

/-- The bytes of the partial file after an act. -/
def grown (part : Bytes) : Act → Bytes
  | .emptied => []
  | .wrote data => part ++ data
  | _ => part

/-- An effect that opens `.PART` or notes the state, and neither confirms, kills nor renames. -/
def Effect.Fits (g : Globals) : Effect → Prop
  | .send line => begins "OK " line = false
  | .openPart path => path = partPath g
  | .save path _ => path = recordPath g
  | .kill _ => False
  | .rename _ _ => False
  | _ => True

/-- An effect other than the line CLOSE. -/
def Effect.calm : Effect → Bool
  | .send line => !begins "CLOSE" line
  | _ => true

/-- What a piece of the data loop keeps. -/
structure Keeps (g : Globals) (next : Next) : Prop where
  fn : next.g.fn = g.fn
  peerDone : next.g.peerDone = g.peerDone
  calm : next.out.all Effect.calm = true
  fits : (∀ e ∈ next.out, e.Fits g) ∨
    receiving next.place = false ∧ ∃ reply, next.out = replacing g reply

end Defs

section Drive

variable {g : Globals}

theorem fits_of_talks
    {out : List Effect} (h : talks out = true) :
    ∀ e ∈ out, e.Fits g := by
  intro e he
  have hone := List.all_eq_true.mp h e he
  cases e with
  | send line => exact (Bool.not_eq_true' _).mp hone
  | «show» line => trivial
  | _ => cases hone

theorem confirms_of_fits
    {out : List Effect} (hout : ∀ e ∈ out, e.Fits g) :
    confirms out = false := by
  rw [confirms, List.any_eq_false]
  intro e he
  have hfits := hout e he
  cases e with
  | send line => exact Bool.eq_false_iff.mp hfits
  | _ => exact Bool.false_ne_true

theorem grown_cons_send (line : Line) (out : List Effect) (part : Bytes) :
    ((Effect.send line :: out).filterMap Effect.act?).foldl grown part =
      (out.filterMap Effect.act?).foldl grown part := by
  by_cases hclose : line = "CLOSE".toList
  · have hnone : (Effect.send line).act? = none := if_pos hclose
    rw [List.filterMap_cons_none hnone]
  · have hsome : (Effect.send line).act? = some (.reply line) := if_neg hclose
    rw [List.filterMap_cons_some hsome]
    rfl

/-- The drive holds what the acts make of the partial file. -/
theorem after_fits
    {d d' : Disk} {out : List Effect} (hout : ∀ e ∈ out, e.Fits g) (hafter : d.after out = some d')
    (hopen : ∀ path, d.open2 = some path → path = entry (partPath g)) {part : Bytes}
    (hpart : d.files (entry (partPath g)) = some (.data part)) :
    d'.files (entry (partPath g)) = some (.data ((out.filterMap Effect.act?).foldl grown part)) := by
  induction out generalizing d part with
  | nil =>
      cases hafter
      exact hpart
  | cons e out ih =>
      rw [List.forall_mem_cons] at hout
      obtain ⟨he, hrest⟩ := hout
      rw [Disk.after, Option.bind_eq_some_iff] at hafter
      obtain ⟨d₁, happly, hafter⟩ := hafter
      have hgoes : ∀ {part₁ : Bytes}, (∀ path, d₁.open2 = some path → path = entry (partPath g)) →
          d₁.files (entry (partPath g)) = some (.data part₁) →
          ((e :: out).filterMap Effect.act?).foldl grown part =
            (out.filterMap Effect.act?).foldl grown part₁ →
          d'.files (entry (partPath g)) =
            some (.data (((e :: out).filterMap Effect.act?).foldl grown part)) := by
        intro part₁ hopen₁ hpart₁ hfold
        rw [hfold]
        exact ih hrest hafter hopen₁ hpart₁
      cases e with
      | send line =>
          cases happly
          exact hgoes hopen hpart (grown_cons_send line out part)
      | «show» line =>
          cases happly
          exact hgoes hopen hpart rfl
      | openPart path =>
          obtain rfl : path = partPath g := he
          rw [Effect.apply, Option.ite_none_right_eq_some] at happly
          obtain ⟨-, happly⟩ := happly
          cases happly
          refine hgoes (fun path hpath => (Option.some.inj hpath).symm) ?_ rfl
          exact Function.update_self ..
      | write data =>
          cases hnumber : d.open2 with
          | none =>
              rw [Effect.apply, hnumber] at happly
              cases happly
          | some path =>
              obtain rfl := hopen path hnumber
              rw [apply_write hnumber hpart] at happly
              cases happly
              exact hgoes hopen (Function.update_self ..) rfl
      | close =>
          rw [Effect.apply, Option.ite_none_left_eq_some] at happly
          obtain ⟨-, happly⟩ := happly
          cases happly
          exact hgoes (fun path hpath => absurd hpath (Option.some_ne_none path).symm) hpart rfl
      | save path line =>
          obtain rfl : path = recordPath g := he
          rw [Effect.apply, Option.ite_none_left_eq_some] at happly
          obtain ⟨-, happly⟩ := happly
          cases happly
          refine hgoes hopen ?_ rfl
          exact (Function.update_of_ne (partPath_ne_record g) _ _).trans hpart
      | kill path => exact absurd he not_false
      | rename old new => exact absurd he not_false

end Drive

section Pieces

variable {g : Globals} (now : Nat)

theorem keeps_reply
    (g' : Globals) (hfn : g'.fn = g.fn) (hpeer : g'.peerDone = g.peerDone) {reply : Line}
    (hreply : begins "CLOSE" reply = false) (hok : begins "OK " reply = false) :
    Keeps g (recvLine g' now .data [.send reply]) where
  fn := hfn
  peerDone := hpeer
  calm := (Bool.and_true _).trans (congrArg not hreply)
  fits := Or.inl fun e he => by
    rw [List.mem_singleton.mp he]
    exact hok

theorem keeps_stop
    (g' : Globals) (hfn : g'.fn = g.fn) (hpeer : g'.peerDone = g.peerDone) (how : Stop)
    {out : List Effect} (hcalm : out.all Effect.calm = true) (hout : ∀ e ∈ out, e.Fits g) :
    Keeps g (stop g' how out) :=
  ⟨hfn, hpeer, hcalm, Or.inl hout⟩

theorem keeps_protocolError :
    Keeps g (protocolError g) := by
  refine keeps_stop g rfl rfl .ended rfl fun e he => ?_
  rcases List.mem_pair.mp he with rfl | rfl
  · exact rfl
  · trivial

theorem keeps_reopen
    (resets : Int) {reply : Line} (hreply : begins "CLOSE" reply = false)
    (hok : begins "OK " reply = false) :
    Keeps g
      (recvLine (restarted g resets) now .data
        ([.close, .openPart (partPath (restarted g resets))] ++
          SaveRmb (restarted g resets) (restarted g resets).rmbState ++ [.send reply])) := by
  refine ⟨rfl, rfl, ?_, Or.inl fun e he => ?_⟩
  · exact (Bool.and_true _).trans (congrArg not hreply)
  · rcases List.mem_append.mp he with he | he
    · rcases List.mem_append.mp he with he | he
      · rcases List.mem_pair.mp he with rfl | rfl
        · trivial
        · exact rfl
      · rw [List.mem_singleton.mp he]
        exact rfl
    · rw [List.mem_singleton.mp he]
      exact hok

theorem keeps_commit
    (n ln : Int) (running : BitVec 64) :
    Keeps g (commit g now n ln running) := by
  by_cases hlength : ln = min g.blksz (g.size - g.rcvd)
  · cases hwrite : writeLoop g.arrays.buf ln.toNat 0 with
    | none =>
        rw [commit_of_none now hlength hwrite]
        exact keeps_stop g rfl rfl .addressError rfl fun e he => absurd he List.not_mem_nil
    | some data =>
        obtain ⟨state, saved, hcommit, hsaved⟩ := commit_of_eq now hlength hwrite n running
        rw [hcommit]
        have hnote : saved.all Effect.calm = true ∧ ∀ e ∈ saved, e.Fits g := by
          rcases hsaved with ⟨rfl, -⟩ | rfl
          · exact ⟨rfl, fun e he => absurd he List.not_mem_nil⟩
          · exact ⟨rfl, fun e he => by rw [List.mem_singleton.mp he]; exact rfl⟩
        refine ⟨rfl, rfl, ?_, Or.inl fun e he => ?_⟩
        · exact hnote.1
        · rcases List.mem_append.mp he with he | he
          · rcases List.mem_pair.mp he with rfl | rfl
            · trivial
            · exact rfl
          · exact hnote.2 e he
  · rw [commit_of_ne now hlength]
    exact keeps_protocolError

theorem keeps_outOfPlace
    (n : Int) :
    Keeps g (outOfPlace g now n) := by
  dsimp only [outOfPlace]
  split_ifs
  · refine keeps_stop (g := g) { g with drops := g.drops + 1, resets := g.resets + 1 } rfl rfl .ended rfl
      fun e he => ?_
    rcases List.mem_pair.mp he with rfl | rfl
    · exact rfl
    · trivial
  · exact keeps_reopen now _ rfl rfl
  · exact keeps_reply (g := g) now { g with drops := g.drops + 1 } rfl rfl rfl rfl

theorem keeps_checkBlock
    (frame : Frame) (ln : Int) :
    Keeps g (checkBlock g now frame ln) := by
  unfold checkBlock
  split
  · exact keeps_stop g rfl rfl .addressError rfl fun e he => absurd he List.not_mem_nil
  · split_ifs
    · exact keeps_reply now g rfl rfl rfl rfl
    · exact keeps_reply now g rfl rfl rfl rfl
    · exact keeps_reply now g rfl rfl rfl rfl
    · exact keeps_outOfPlace now frame.n
    · exact keeps_commit now frame.n ln _

theorem keeps_afterRaw
    (frame : Frame) :
    Keeps g (afterRaw g now frame) := by
  unfold afterRaw
  split_ifs
  · split
    · exact keeps_stop g rfl rfl .addressError rfl fun e he => absurd he List.not_mem_nil
    · rename_i arrays _
      exact keeps_reply (g := g) now { g with arrays } rfl rfl rfl rfl
    · rename_i arrays _
      have hkeeps := keeps_checkBlock (g := { g with arrays }) now frame frame.rawlen
      exact ⟨hkeeps.fn, hkeeps.peerDone, hkeeps.calm, hkeeps.fits⟩
  · exact keeps_checkBlock now frame frame.ln

theorem keeps_afterFrame
    (frame : Frame) :
    Keeps g (afterFrame g now frame) := by
  rw [afterFrame]
  split_ifs
  · exact keeps_protocolError
  · exact keeps_protocolError
  · exact keeps_afterRaw now frame
  · exact ⟨rfl, rfl, rfl, Or.inl fun e he => absurd he List.not_mem_nil⟩

variable (nums : Numbers)

theorem keeps_finalCrc
    (hpeer : g.peerDone = false) :
    Keeps g (finalCrc nums g now) := by
  have hnot : ¬ g.peerDone = true := Bool.eq_false_iff.mp hpeer
  dsimp only [finalCrc]
  split_ifs
  · refine ⟨rfl, rfl, rfl, Or.inl fun e he => ?_⟩
    rcases List.mem_pair.mp he with rfl | rfl
    · trivial
    · exact rfl
  · exact ⟨rfl, rfl, rfl, Or.inr ⟨rfl, _, rfl⟩⟩

/-- A line of the transfer, unless the peer closes or has closed. -/
theorem keeps_afterData
    (hpeer : g.peerDone = false) {s : Line} (hs : s ≠ "CLOSE".toList) :
    Keeps g (afterData nums g now s) := by
  have hclose : ∀ e ∈ [Effect.close], e.Fits g := fun e he => by
    rw [List.mem_singleton.mp he]
    trivial
  unfold afterData
  rw [if_neg hs]
  split_ifs
  · exact keeps_stop g rfl rfl .ended rfl hclose
  · cases Split s g.parts with
    | none => exact keeps_stop g rfl rfl .indexError rfl fun e he => absurd he List.not_mem_nil
    | some parts =>
        have hback : ∀ {next}, Keeps { g with parts } next → Keeps g next := fun h =>
          ⟨h.fn, h.peerDone, h.calm, h.fits⟩
        dsimp only
        split_ifs
        · exact hback (keeps_reopen (g := { g with parts }) now 0 rfl rfl)
        · exact hback keeps_protocolError
        · exact hback (keeps_finalCrc (g := { g with parts }) now nums hpeer)
        · exact keeps_reply (g := g) now { g with parts } rfl rfl rfl rfl
        · exact keeps_stop (g := g) { g with parts } rfl rfl .ended rfl hclose
        · exact hback (keeps_afterFrame now _)

end Pieces

section Steps

variable (nums : Numbers)

theorem calm_serve (g : Globals) (s : Line) (line : KeepAlive) :
    (serve nums g s line).2.all Effect.calm = true := by
  cases line with
  | beacon =>
      unfold serve BeaconU
      cases bit? nums s with
      | none => rfl
      | some bit => rfl
  | ping => rfl
  | ayt => rfl
  | aytOk => rfl
  | rmb => rfl
  | mark => rfl

/-- What a turn of `RecvLine$` says, and what it returns. -/
def Calmly (queue : Bytes) (l : RecvLine) : Round RecvLine Line → Prop
  | .again _ _ _ out => out.all Effect.calm = true
  | .returned _ _ s out =>
      out.all Effect.calm = true ∧ (s = [] ∨ s = l.s ∧ ∃ rest, queue = 10 :: rest)
  | .lost _ out => out.all Effect.calm = true

theorem recvClock_calmly
    {g : Globals} {rest queue : Bytes} {now tmo : Nat} {l l' : RecvLine} {out : List Effect}
    (h : out.all Effect.calm = true) :
    Calmly queue l (recvClock g rest now tmo l' out) := by
  rw [recvClock]
  split_ifs
  · exact h
  · exact ⟨h, Or.inl rfl⟩
  · exact ⟨h, Or.inl rfl⟩
  · exact h

theorem recvTurn_calmly (g : Globals) (queue : Bytes) (now tmo : Nat) (l : RecvLine) :
    Calmly queue l (recvTurn nums g queue now tmo l) := by
  cases queue with
  | nil => exact recvClock_calmly rfl
  | cons b queue =>
      rw [recvTurn]
      split_ifs with hb
      · cases recvHears nums l.s with
        | served line => exact recvClock_calmly (calm_serve nums _ l.s line)
        | dropped => exact recvClock_calmly rfl
        | returned => exact ⟨rfl, Or.inr ⟨rfl, queue, by rw [hb]⟩⟩
      · exact recvClock_calmly rfl

/-- What a tick of the data loop keeps. -/
structure KeepsTick (g g' : Globals) (place : Place) (out : List Effect) : Prop where
  fn : g'.fn = g.fn
  peerDone : g'.peerDone = g.peerDone
  calm : out.all Effect.calm = true
  fits : (∀ e ∈ out, e.Fits g) ∨
    receiving place = false ∧ ∃ said reply, talks said = true ∧ out = said ++ replacing g reply

theorem Idles.keepsTick
    {g g' : Globals} {place : Place} {out : List Effect} (h : Idles g g' out)
    (hcalm : out.all Effect.calm = true) :
    KeepsTick g g' place out :=
  ⟨h.aside.fn, h.aside.peerDone, hcalm, Or.inl (fits_of_talks h.talks)⟩

/-- A turn, and the piece that follows it. -/
theorem Keeps.keepsTick
    {g g' : Globals} {out : List Effect} (h : Idles g g' out) (hcalm : out.all Effect.calm = true)
    {next : Next} (hkeeps : Keeps g' next) :
    KeepsTick g next.g next.place (out ++ next.out) := by
  have hfn : g'.fn = g.fn := h.aside.fn
  have hfits : ∀ e : Effect, e.Fits g' → e.Fits g := by
    intro e he
    cases e with
    | openPart path => exact he.trans (by rw [partPath, partPath, hfn])
    | save path line => exact he.trans (by rw [recordPath, recordPath, hfn])
    | _ => exact he
  refine ⟨hkeeps.fn.trans hfn, hkeeps.peerDone.trans h.aside.peerDone, ?_, ?_⟩
  · rw [List.all_append, hcalm, hkeeps.calm]
    rfl
  · rcases hkeeps.fits with hall | ⟨hnot, reply, hout⟩
    · refine Or.inl fun e he => ?_
      rcases List.mem_append.mp he with he | he
      · exact fits_of_talks h.talks e he
      · exact hfits e (hall e he)
    · refine Or.inr ⟨hnot, out, reply, h.talks, ?_⟩
      rw [hout, replacing, replacing, partPath, partPath, hfn]

theorem rawTurn_silent
    {g : Globals} {queue : Bytes} {now count tmo : Nat} {l : RecvRaw} {round : Round RecvRaw Bool}
    (hround : rawTurn g queue now count tmo l = some round) :
    round.Sat (fun g' out => Idles g g' out ∧ out.all Effect.calm = true)
      (fun g' _ out => Idles g g' out ∧ out.all Effect.calm = true)
      (fun g' out => Idles g g' out ∧ out.all Effect.calm = true) := by
  dsimp only [rawTurn] at hround
  split at hround
  · cases hround
  · split_ifs at hround <;> cases hround <;> exact ⟨⟨rfl, rfl⟩, rfl⟩

theorem keepsTick_step
    {st st' : State} {tick : Tick} {out : List Effect} (hreceiving : receiving st.place = true)
    (hpeer : st.g.peerDone = false)
    (hclose : ∀ l rest, st.place = .line .data l → st.queue ++ tick.arrived = 10 :: rest →
      l.s ≠ "CLOSE".toList)
    (hstep : step nums st tick = some (st', out)) :
    KeepsTick st.g st'.g st'.place out := by
  obtain ⟨g, place, queue⟩ := st
  cases place with
  | line wait l =>
      cases wait with
      | data =>
          dsimp only [step] at hstep
          have hidles := recvTurn_idles nums g (queue ++ tick.arrived) tick.now Const.RSTTMO l
          have hcalm := recvTurn_calmly nums g (queue ++ tick.arrived) tick.now Const.RSTTMO l
          dsimp only [Wait.tmo] at hstep
          cases hround : recvTurn nums g (queue ++ tick.arrived) tick.now Const.RSTTMO l with
          | again g' queue' l' said =>
              rw [hround] at hidles hcalm hstep
              cases hstep
              exact Idles.keepsTick hidles hcalm
          | returned g' queue' s said =>
              rw [hround] at hidles hcalm hstep
              cases hstep
              obtain ⟨hcalm, hs⟩ := hcalm
              have hne : s ≠ "CLOSE".toList := by
                rcases hs with rfl | ⟨rfl, rest, hrest⟩
                · decide
                · exact hclose l rest rfl hrest
              have hpeer' : g'.peerDone = false := hidles.aside.peerDone.trans hpeer
              exact Keeps.keepsTick hidles hcalm (keeps_afterData tick.now nums hpeer' hne)
          | lost g' said =>
              rw [hround] at hidles hcalm hstep
              cases hstep
              exact Idles.keepsTick hidles hcalm
      | _ => cases hreceiving
  | raw frame l =>
      dsimp only [step] at hstep
      cases hround : rawTurn g (queue ++ tick.arrived) tick.now frame.ln.toNat Const.DATTMO l with
      | none =>
          rw [hround] at hstep
          cases hstep
          exact Idles.keepsTick ⟨aside_refl g, rfl⟩ rfl
      | some round =>
          have hidles := rawTurn_silent hround
          rw [hround] at hstep
          cases round with
          | again g' queue' l' said =>
              cases hstep
              exact Idles.keepsTick hidles.1 hidles.2
          | returned g' queue' ok said =>
              cases hstep
              have hkeeps : Keeps g' (if ok = true then afterRaw g' tick.now frame
                  else rawTimedOut g' tick.now) := by
                split_ifs
                · exact keeps_afterRaw tick.now frame
                · exact keeps_reply tick.now g' rfl rfl rfl rfl
              exact Keeps.keepsTick hidles.1 hidles.2 hkeeps
          | lost g' said =>
              cases hstep
              exact Idles.keepsTick hidles.1 hidles.2
  | prompt p l => cases hreceiving
  | stopped how => cases hreceiving

end Steps

end Pcutp.Picocalc
