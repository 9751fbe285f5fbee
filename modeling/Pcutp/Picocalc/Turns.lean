import Pcutp.Picocalc.Reader

/-!
# What the readers leave alone

A turn of a reader moves the clocks and the state of the beacons, and `RecvRaw`
fills `buf%()`.  No turn touches anything else, and what a turn sends is never
a verdict.
-/

namespace Pcutp.Picocalc

section Aside

/-- The variables agree but for the clocks, the beacons and the buffers. -/
def Aside (g g' : Globals) : Prop :=
  g' = { g with
    lastRx := g'.lastRx
    beaconAt := g'.beaconAt
    beaconBit := g'.beaconBit
    peerBeaconBit := g'.peerBeaconBit
    beaconPending := g'.beaconPending
    beaconMarkAt := g'.beaconMarkAt
    arrays := g'.arrays }

theorem Aside.trans
    {g g' g'' : Globals} (h : Aside g g') (h' : Aside g' g'') :
    Aside g g'' := by
  rw [Aside] at h h' ⊢
  rw [h'] at ⊢
  rw [h]

theorem aside_refl (g : Globals) :
    Aside g g :=
  rfl

section Fields

variable {g g' : Globals}

theorem Aside.fn
    (h : Aside g g') :
    g'.fn = g.fn := by
  rw [Aside] at h
  rw [h]

theorem Aside.blksz
    (h : Aside g g') :
    g'.blksz = g.blksz := by
  rw [Aside] at h
  rw [h]

theorem Aside.maxblk
    (h : Aside g g') :
    g'.maxblk = g.maxblk := by
  rw [Aside] at h
  rw [h]

theorem Aside.peerDone
    (h : Aside g g') :
    g'.peerDone = g.peerDone := by
  rw [Aside] at h
  rw [h]

end Fields

/-- What a turn does besides reading. -/
structure Idles (g g' : Globals) (out : List Effect) : Prop where
  aside : Aside g g'
  talks : talks out = true

theorem talks_serve (nums : Numbers) (g : Globals) (s : Line) (line : KeepAlive) :
    talks (serve nums g s line).2 = true := by
  cases line with
  | beacon =>
      unfold serve BeaconU
      cases bit? nums s <;> rfl
  | ping => rfl
  | ayt => rfl
  | aytOk => rfl
  | rmb => rfl
  | mark => rfl

theorem idles_serve (nums : Numbers) (g : Globals) (s : Line) (line : KeepAlive) :
    Idles g (serve nums g s line).1 (serve nums g s line).2 := by
  refine ⟨?_, talks_serve nums g s line⟩
  obtain ⟨bit, hserve⟩ := serve_frame nums g s line
  rw [hserve]
  rfl

end Aside

section Turns

variable (nums : Numbers) (g : Globals) (queue : Bytes) (now : Nat)

theorem recvClock_idles
    {g' : Globals} {tmo : Nat} {l : RecvLine} {out : List Effect} (h : Idles g g' out) :
    (recvClock g' queue now tmo l out).Sat (Idles g) (fun g' _ out => Idles g g' out)
      (Idles g) := by
  rw [recvClock]
  split_ifs
  all_goals exact h

/-- A turn of `RecvLine$`. -/
theorem recvTurn_idles (tmo : Nat) (l : RecvLine) :
    (recvTurn nums g queue now tmo l).Sat (Idles g) (fun g' _ out => Idles g g' out)
      (Idles g) := by
  cases queue with
  | nil => exact recvClock_idles g [] now ⟨aside_refl g, rfl⟩
  | cons b queue =>
      have hread : Aside g { g with lastRx := now } := rfl
      rw [recvTurn]
      split_ifs
      · cases recvHears nums l.s with
        | served line =>
            have hserved := idles_serve nums { g with lastRx := now } l.s line
            exact recvClock_idles g queue now ⟨hread.trans hserved.aside, hserved.talks⟩
        | dropped => exact recvClock_idles g queue now ⟨hread, rfl⟩
        | returned => exact ⟨hread, rfl⟩
      · exact recvClock_idles g queue now ⟨hread, rfl⟩

theorem idles_beacon :
    Idles g (beacon g now).1 (beacon g now).2 := by
  rw [beacon]
  split_ifs
  · exact ⟨rfl, rfl⟩
  · exact ⟨rfl, rfl⟩

theorem talks_append (xs ys : List Effect) :
    talks (xs ++ ys) = (talks xs && talks ys) :=
  List.all_append

theorem Idles.trans
    {g g' g'' : Globals} {out out' : List Effect} (h : Idles g g' out) (h' : Idles g' g'' out') :
    Idles g g'' (out ++ out') := by
  refine ⟨h.aside.trans h'.aside, ?_⟩
  rw [talks_append, h.talks, h'.talks]
  rfl

theorem inputKeys_idles
    {g' : Globals} {out : List Effect} (h : Idles g g' out) (key : Option Char) (l : InputAlive) :
    (inputKeys g' queue now key l out).Sat (Idles g) (fun g' _ out => Idles g g' out)
      (Idles g) := by
  have hbeaten := h.trans (idles_beacon g' now)
  cases key with
  | none =>
      dsimp only [inputKeys]
      split_ifs
      all_goals exact hbeaten
  | some ch =>
      dsimp only [inputKeys]
      split_ifs
      all_goals exact hbeaten

/-- A turn of `InputAlive$`: CLOSE alone is more than idling. -/
theorem inputTurn_idles (key : Option Char) (l : InputAlive) :
    (inputTurn nums g queue now key l).Sat (Idles g)
      (fun g' _ out => Idles g { g' with peerDone := g.peerDone } out ∧
        (g'.peerDone = g.peerDone ∨ g'.peerDone = true))
      (Idles g) := by
  have hkept : ∀ (g' : Globals) (queue : Bytes) (l : InputAlive) (out : List Effect),
      Idles g g' out →
        (inputKeys g' queue now key l out).Sat (Idles g)
          (fun g' _ out => Idles g { g' with peerDone := g.peerDone } out ∧
            (g'.peerDone = g.peerDone ∨ g'.peerDone = true))
          (Idles g) := by
    intro g' queue l out h
    have hidles := inputKeys_idles g queue now h key l
    cases hround : inputKeys g' queue now key l out with
    | again g'' queue' l' out' =>
        rw [hround] at hidles
        exact hidles
    | returned g'' queue' txt out' =>
        rw [hround] at hidles
        have hpeer : g''.peerDone = g.peerDone := hidles.aside.peerDone
        have hsame : { g'' with peerDone := g.peerDone } = g'' := by rw [← hpeer]
        exact ⟨hsame.symm ▸ hidles, Or.inl hpeer⟩
    | lost g'' out' =>
        rw [hround] at hidles
        exact hidles
  cases queue with
  | nil => exact hkept g [] l [] ⟨aside_refl g, rfl⟩
  | cons b queue =>
      have hread : Aside g { g with lastRx := now } := rfl
      rw [inputTurn]
      split_ifs
      · cases inputHears nums l.u with
        | served line =>
            have hserved := idles_serve nums { g with lastRx := now } l.u line
            exact hkept _ queue _ _ ⟨hread.trans hserved.aside, hserved.talks⟩
        | dropped => exact hkept _ queue _ _ ⟨hread, rfl⟩
        | returned => exact ⟨⟨hread, rfl⟩, Or.inr rfl⟩
      · exact hkept _ queue _ _ ⟨hread, rfl⟩

/-- A turn of `RecvRaw` never leaves `buf%()`, for a block that fits. -/
theorem rawTurn_idles
    {count : Nat} (hcount : count ≤ 4096) (tmo : Nat) {l : RecvRaw} (hgot : l.got ≤ count) :
    ∃ round, rawTurn g queue now count tmo l = some round ∧
      round.Sat (fun g' out => Idles g g' out) (fun g' _ out => Idles g g' out)
        (fun g' out => Idles g g' out) ∧
      ∀ g' queue' l' out, round = .again g' queue' l' out → l'.got ≤ count := by
  have hfits : l.got + (queue.take (min (count - l.got) 255)).length ≤ 4096 := by
    rw [List.length_take]
    omega
  have hgot' : l.got + (queue.take (min (count - l.got) 255)).length ≤ count := by
    rw [List.length_take]
    omega
  have hwrite : g.arrays.buf.write l.got (queue.take (min (count - l.got) 255)) = some _ :=
    dif_pos hfits
  dsimp only [rawTurn]
  rw [hwrite]
  dsimp only
  split_ifs
  all_goals
    refine ⟨_, rfl, ⟨rfl, rfl⟩, fun g' queue' l' out hround => ?_⟩
    cases hround
  · exact hgot
  · exact hgot'

end Turns

end Pcutp.Picocalc
