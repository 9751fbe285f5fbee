import Pcutp.Lib.Transition
import Mathlib.Order.Nat

/-!
# Two ends that wait on a line

Two machines exchange messages over a pair of wires.  Time counts in natural
numbers.  A machine either listens or does not, and waits for at most one
deadline; both are read off its state.  A message arrives after the delay of
its wire, never before one that was sent earlier, and some messages are lost.

Time passes only while neither end has anything to do: a message that has
arrived is read at once by an end that listens, and a deadline is met when it
comes.  Where both happen at one instant, either may come first.

`Punctual` says what this keeps: no listening end is late for a message, and no
end for its deadline.
-/

namespace Timed

universe u v w

/-- A machine that reads messages and meets deadlines. -/
structure Party (σ : Type u) (μ : Type w) where
  listens : σ → Bool
  deadline : σ → Option Nat
  /-- What it does with a message, at a time. -/
  read : Nat → σ → μ → σ × List μ
  /-- What it does at its deadline. -/
  expire : Nat → σ → σ × List μ

/-- The delay of each message of a wire, by its number, and which are lost. -/
structure Route (μ : Type w) where
  delay : Nat → Nat
  lost : Nat → μ → Bool

/-- The messages under way with their times of arrival. -/
structure Wire (μ : Type w) where
  queue : List (Nat × μ)
  /-- How many were sent. -/
  sent : Nat
  /-- The last arrival that is certain. -/
  latest : Nat

/-- A machine and the wire to it. -/
structure Seat (σ : Type u) (μ : Type w) where
  state : σ
  inbox : Wire μ

/-- What an end can do. -/
inductive Act
  | read
  | expire
  deriving DecidableEq

/-- What can happen. -/
inductive Event
  /-- Time passes. -/
  | tick
  | left (act : Act)
  | right (act : Act)
  deriving DecidableEq

/-- One message that a fault picks, by its direction and its number there. -/
inductive Pick
  | toLeft (n : Nat)
  | toRight (n : Nat)
  deriving DecidableEq

/-- The two machines and their routes. -/
structure System (σ : Type u) (τ : Type v) (μ : Type w) where
  left : Party σ μ
  right : Party τ μ
  toLeft : Route μ
  toRight : Route μ

/-- Both ends at one time. -/
structure World (σ : Type u) (τ : Type v) (μ : Type w) where
  now : Nat
  left : Seat σ μ
  right : Seat τ μ

variable {σ : Type u} {τ : Type v} {μ : Type w}

/-- The deadlines that a machine sets are not past and at most `span` ahead, and a deadline
does not make it listen. -/
structure Party.Steady (p : Party σ μ) (span : Nat) : Prop where
  hears : ∀ now s, p.listens (p.expire now s).1 = true → p.listens s = true
  read : ∀ now s m d, p.deadline (p.read now s m).1 = some d →
    p.deadline s = some d ∨ now ≤ d ∧ d ≤ now + span
  expire : ∀ now s d, p.deadline (p.expire now s).1 = some d →
    p.deadline s = some d ∨ now ≤ d ∧ d ≤ now + span

namespace Wire

/-- A wire on which nothing was sent. -/
def empty : Wire μ where
  queue := []
  sent := 0
  latest := 0

/-- Send one message. -/
def put (route : Route μ) (now : Nat) (wire : Wire μ) (m : μ) : Wire μ :=
  if route.lost wire.sent m = true then
    { wire with sent := wire.sent + 1 }
  else
    { queue := wire.queue ++ [(max wire.latest (now + route.delay wire.sent), m)]
      sent := wire.sent + 1
      latest := max wire.latest (now + route.delay wire.sent) }

/-- Send messages in order. -/
def puts (route : Route μ) (now : Nat) (wire : Wire μ) (out : List μ) : Wire μ :=
  out.foldl (put route now) wire

variable {route : Route μ} {now : Nat} {wire : Wire μ} {m : μ}

@[simp] theorem puts_nil : wire.puts route now [] = wire := rfl

@[simp] theorem puts_cons (out : List μ) :
    wire.puts route now (m :: out) = (wire.put route now m).puts route now out := rfl

theorem put_lost
    (h : route.lost wire.sent m = true) :
    wire.put route now m = { wire with sent := wire.sent + 1 } :=
  if_pos h

theorem put_kept
    (h : route.lost wire.sent m = false) :
    wire.put route now m =
      { queue := wire.queue ++ [(max wire.latest (now + route.delay wire.sent), m)]
        sent := wire.sent + 1
        latest := max wire.latest (now + route.delay wire.sent) } :=
  if_neg (by simp [h])

/-- A message that overtakes nothing arrives after its delay. -/
theorem put_due
    (h : route.lost wire.sent m = false) (hle : wire.latest ≤ now + route.delay wire.sent) :
    wire.put route now m =
      { queue := wire.queue ++ [(now + route.delay wire.sent, m)]
        sent := wire.sent + 1
        latest := now + route.delay wire.sent } := by
  rw [put_kept h, Nat.max_eq_right hle]

@[simp] theorem put_sent : (wire.put route now m).sent = wire.sent + 1 := by
  unfold put
  split <;> rfl

/-- Arrivals keep the order of sending, and none is `bound` or more ahead. -/
structure Ordered (bound now : Nat) (wire : Wire μ) : Prop where
  sorted : wire.queue.Pairwise (fun x y => x.1 ≤ y.1)
  latest : ∀ x ∈ wire.queue, x.1 ≤ wire.latest
  near : wire.latest < now + bound

theorem ordered_empty
    {bound : Nat} (hbound : 0 < bound) :
    (empty : Wire μ).Ordered bound 0 where
  sorted := .nil
  latest _ hx := absurd hx List.not_mem_nil
  near := (Nat.zero_add bound).symm ▸ hbound

theorem Ordered.put
    {bound : Nat} (hdelay : ∀ n, route.delay n < bound) (h : wire.Ordered bound now) :
    (wire.put route now m).Ordered bound now := by
  unfold Wire.put
  split
  · exact { h with }
  · have hnear := h.near
    have hn := hdelay wire.sent
    refine ⟨?_, ?_, ?_⟩
    · rw [List.pairwise_append]
      refine ⟨h.sorted, List.pairwise_singleton _ _, fun x hx y hy => ?_⟩
      rw [List.mem_singleton.mp hy]
      exact (h.latest x hx).trans (Nat.le_max_left _ _)
    · intro x hx
      rcases List.mem_append.mp hx with hx | hx
      · exact (h.latest x hx).trans (Nat.le_max_left _ _)
      · exact (congrArg Prod.fst (List.mem_singleton.mp hx)).le
    · simp only
      omega

theorem Ordered.puts
    {bound : Nat} (hdelay : ∀ n, route.delay n < bound) {out : List μ}
    (h : wire.Ordered bound now) :
    (wire.puts route now out).Ordered bound now := by
  induction out generalizing wire with
  | nil =>
      exact h
  | cons m out ih =>
      exact ih (h.put hdelay)

/-- What is sent arrives no earlier than now. -/
theorem mem_puts
    {out : List μ} {x : Nat × μ} (h : x ∈ (wire.puts route now out).queue) :
    x ∈ wire.queue ∨ now ≤ x.1 := by
  induction out generalizing wire with
  | nil =>
      exact Or.inl h
  | cons m out ih =>
      rcases ih h with hx | hx
      · unfold Wire.put at hx
        split at hx
        · exact Or.inl hx
        · rcases List.mem_append.mp hx with hx | hx
          · exact Or.inl hx
          · rw [List.mem_singleton.mp hx]
            exact Or.inr ((Nat.le_add_right _ _).trans (Nat.le_max_right _ _))
      · exact Or.inr hx

theorem subset_puts {x : Nat × μ} (hx : x ∈ wire.queue) (out : List μ) :
    x ∈ (wire.puts route now out).queue := by
  induction out generalizing wire with
  | nil =>
      exact hx
  | cons m out ih =>
      refine ih ?_
      unfold Wire.put
      split
      · exact hx
      · exact List.mem_append_left _ hx

/-- On a wire without delay everything arrives when it is sent. -/
theorem puts_at_once
    (hdelay : ∀ n, route.delay n = 0) (hlatest : wire.latest ≤ now) (out : List μ) :
    (wire.puts route now out).latest ≤ now ∧
      ∀ x ∈ (wire.puts route now out).queue, x ∈ wire.queue ∨ x.1 = now := by
  induction out generalizing wire with
  | nil =>
      exact ⟨hlatest, fun x hx => Or.inl hx⟩
  | cons m out ih =>
      have hput : (wire.put route now m).latest ≤ now ∧
          ∀ x ∈ (wire.put route now m).queue, x ∈ wire.queue ∨ x.1 = now := by
        unfold Wire.put
        split
        · exact ⟨hlatest, fun x hx => Or.inl hx⟩
        · rw [hdelay, Nat.add_zero, Nat.max_eq_right hlatest]
          refine ⟨Nat.le_refl _, fun x hx => ?_⟩
          rcases List.mem_append.mp hx with hx | hx
          · exact Or.inl hx
          · rw [List.mem_singleton.mp hx]
            exact Or.inr rfl
      obtain ⟨hle, hmem⟩ := ih hput.1
      refine ⟨hle, fun x hx => ?_⟩
      rcases hmem x hx with hx | hx
      · exact hput.2 x hx
      · exact Or.inr hx

end Wire

namespace Seat

variable (p : Party σ μ) (now : Nat) (s : Seat σ μ)

/-- What the end does; `none` when it has no cause to. -/
def act : Act → Option (Seat σ μ × List μ)
  | .read =>
      match s.inbox.queue with
      | [] => none
      | (due, m) :: queue =>
          if p.listens s.state = true ∧ due ≤ now then
            let (state, out) := p.read now s.state m
            some ({ state, inbox := { s.inbox with queue } }, out)
          else
            none
  | .expire =>
      match p.deadline s.state with
      | none => none
      | some d =>
          if d ≤ now then
            let (state, out) := p.expire now s.state
            some ({ s with state }, out)
          else
            none

/-- The other end has sent something. -/
def deliver (route : Route μ) (out : List μ) : Seat σ μ :=
  { s with inbox := s.inbox.puts route now out }

@[simp] theorem deliver_nil {route : Route μ} : s.deliver now route [] = s := rfl

/-- The end can act. -/
def Pressed : Prop :=
  (s.act p now .read).isSome = true ∨ (s.act p now .expire).isSome = true

instance : Decidable (s.Pressed p now) :=
  inferInstanceAs (Decidable (_ ∨ _))

/-- Nothing is due at the end before a time. -/
def Free (t : Nat) : Prop :=
  (p.listens s.state = true → ∀ x ∈ s.inbox.queue, t ≤ x.1) ∧
    ∀ d, p.deadline s.state = some d → t ≤ d

variable {p now s}

/-- A message that is not lost arrives behind the others, within the bound. -/
theorem deliver_kept
    (route : Route μ) {bound n latest : Nat} {state : σ} {queue : List (Nat × μ)} {m : μ}
    (hdelay : ∀ n, route.delay n < bound) (hnear : latest < now + bound)
    (hkept : route.lost n m = false) :
    ∃ due, latest ≤ due ∧ now ≤ due ∧ due < now + bound ∧
      deliver now { state, inbox := { queue, sent := n, latest } } route [m] =
        { state, inbox := { queue := queue ++ [(due, m)], sent := n + 1, latest := due } } := by
  have hn := hdelay n
  refine ⟨max latest (now + route.delay n), Nat.le_max_left _ _, by omega, by omega, ?_⟩
  rw [deliver, Wire.puts_cons, Wire.put_kept hkept, Wire.puts_nil]

theorem act_read
    {s' : Seat σ μ} {out : List μ} (h : s.act p now .read = some (s', out)) :
    ∃ due m queue, s.inbox.queue = (due, m) :: queue ∧ p.listens s.state = true ∧ due ≤ now ∧
      s' = { state := (p.read now s.state m).1, inbox := { s.inbox with queue } } ∧
        out = (p.read now s.state m).2 := by
  unfold act at h
  simp only at h
  split at h
  · cases h
  · rename_i due m queue hqueue
    split at h
    · rename_i hread
      cases h
      exact ⟨due, m, queue, hqueue, hread.1, hread.2, rfl, rfl⟩
    · cases h

theorem act_expire
    {s' : Seat σ μ} {out : List μ} (h : s.act p now .expire = some (s', out)) :
    ∃ d, p.deadline s.state = some d ∧ d ≤ now ∧
      s' = { s with state := (p.expire now s.state).1 } ∧ out = (p.expire now s.state).2 := by
  unfold act at h
  simp only at h
  split at h
  · cases h
  · rename_i d hd
    split at h
    · rename_i hle
      cases h
      exact ⟨d, hd, hle, rfl, rfl⟩
    · cases h

theorem act_read_of
    {due : Nat} {m : μ} {queue : List (Nat × μ)} (hqueue : s.inbox.queue = (due, m) :: queue)
    (hlistens : p.listens s.state = true) (hdue : due ≤ now) :
    s.act p now .read =
      some ({ state := (p.read now s.state m).1, inbox := { s.inbox with queue } },
        (p.read now s.state m).2) := by
  simp [act, hqueue, hlistens, hdue]

theorem act_expire_of
    {d : Nat} (hd : p.deadline s.state = some d) (hle : d ≤ now) :
    s.act p now .expire =
      some ({ s with state := (p.expire now s.state).1 }, (p.expire now s.state).2) := by
  simp [act, hd, hle]

/-- An end with nothing due before a later time is not pressed now. -/
theorem Free.not_pressed
    {t : Nat} (h : s.Free p t) (hlt : now < t) :
    ¬ s.Pressed p now := by
  rintro (hact | hact)
  · obtain ⟨⟨s', out⟩, hact⟩ := Option.isSome_iff_exists.mp hact
    obtain ⟨due, m, queue, hqueue, hlistens, hdue, _⟩ := act_read hact
    have hle := h.1 hlistens (due, m) (by rw [hqueue]; exact List.mem_cons_self)
    simp only at hle
    omega
  · obtain ⟨⟨s', out⟩, hact⟩ := Option.isSome_iff_exists.mp hact
    obtain ⟨d, hd, hle, _⟩ := act_expire hact
    have hge := h.2 d hd
    omega

theorem free_of_deadline
    {d t : Nat} (hd : p.deadline s.state = some d) (hle : t ≤ d)
    (hqueue : ∀ x ∈ s.inbox.queue, t ≤ x.1) :
    s.Free p t := by
  refine ⟨fun _ => hqueue, fun d' hd' => ?_⟩
  obtain rfl := Option.some.inj (hd.symm.trans hd')
  exact hle

theorem free_of_none
    {t : Nat} (hd : p.deadline s.state = none) (hqueue : ∀ x ∈ s.inbox.queue, t ≤ x.1) :
    s.Free p t :=
  ⟨fun _ => hqueue, fun d hd' => by rw [hd] at hd'; cases hd'⟩

/-- The end is late for nothing, and its wire is in order. -/
structure Punctual (p : Party σ μ) (bound span now : Nat) (s : Seat σ μ) : Prop where
  ordered : s.inbox.Ordered bound now
  free : s.Free p now
  soon : ∀ d, p.deadline s.state = some d → d ≤ now + span

/-- An end that listens has read what arrived before now. -/
theorem Punctual.le_latest
    {bound span : Nat} (h : s.Punctual p bound span now) (hlistens : p.listens s.state = true)
    (hqueue : s.inbox.queue ≠ []) :
    now ≤ s.inbox.latest := by
  obtain ⟨x, queue, hx⟩ := List.exists_cons_of_ne_nil hqueue
  have hmem : x ∈ s.inbox.queue := by
    rw [hx]
    exact List.mem_cons_self
  exact (h.free.1 hlistens x hmem).trans (h.ordered.latest x hmem)

/-- An end does not come to its deadline while a message is under way that arrives before. -/
theorem Punctual.not_due
    {bound span d : Nat} (h : s.Punctual p bound span now) (hlistens : p.listens s.state = true)
    (hqueue : s.inbox.queue ≠ []) (hlt : s.inbox.latest < d) :
    ¬ d ≤ now := by
  have hnow := h.le_latest hlistens hqueue
  omega

/-- An end that cannot act can wait. -/
theorem Punctual.free_succ
    {bound span : Nat} (h : s.Punctual p bound span now) (hpressed : ¬ s.Pressed p now) :
    s.Free p (now + 1) := by
  refine ⟨fun hlistens x hx => ?_, fun d hd => ?_⟩
  · cases hqueue : s.inbox.queue with
    | nil =>
        rw [hqueue] at hx
        cases hx
    | cons y queue =>
        have hhead : now < y.1 := by
          by_contra hle
          exact hpressed (Or.inl (by
            rw [act_read_of (show s.inbox.queue = (y.1, y.2) :: queue from hqueue) hlistens
              (by omega)]
            rfl))
        have hsorted := h.ordered.sorted
        rw [hqueue] at hx hsorted
        rcases List.mem_cons.mp hx with rfl | hx
        · exact hhead
        · exact hhead.trans_le ((List.pairwise_cons.mp hsorted).1 x hx)
  · by_contra hle
    exact hpressed (Or.inr (by
      rw [act_expire_of hd (by omega)]
      rfl))

theorem Punctual.tick
    {bound span : Nat} (h : s.Punctual p bound span now) (hpressed : ¬ s.Pressed p now) :
    s.Punctual p bound span (now + 1) where
  ordered := { h.ordered with near := h.ordered.near.trans_le (by omega) }
  free := h.free_succ hpressed
  soon d hd := (h.soon d hd).trans (by omega)

theorem Punctual.act
    {bound span : Nat} (hp : p.Steady span) (h : s.Punctual p bound span now)
    {a : Act} {s' : Seat σ μ} {out : List μ} (hact : s.act p now a = some (s', out)) :
    s'.Punctual p bound span now := by
  cases a with
  | read =>
      obtain ⟨due, m, queue, hqueue, hlistens, hdue, rfl, rfl⟩ := act_read hact
      have hsub : ∀ x ∈ queue, x ∈ s.inbox.queue := fun x hx => by
        rw [hqueue]
        exact List.mem_cons_of_mem _ hx
      have hsorted := h.ordered.sorted
      rw [hqueue] at hsorted
      have hdeadline := hp.read now s.state m
      refine ⟨⟨(List.pairwise_cons.mp hsorted).2, fun x hx => h.ordered.latest x (hsub x hx),
        h.ordered.near⟩, ⟨fun _ x hx => h.free.1 hlistens x (hsub x hx), fun d hd => ?_⟩,
        fun d hd => ?_⟩
      · exact (hdeadline d hd).elim (h.free.2 d) And.left
      · exact (hdeadline d hd).elim (h.soon d) And.right
  | expire =>
      obtain ⟨d, hd, hle, rfl, rfl⟩ := act_expire hact
      have hdeadline := hp.expire now s.state
      refine ⟨h.ordered, ⟨fun hlistens x hx => h.free.1 (hp.hears now s.state hlistens) x hx,
        fun d' hd' => ?_⟩, fun d' hd' => ?_⟩
      · exact (hdeadline d' hd').elim (h.free.2 d') And.left
      · exact (hdeadline d' hd').elim (h.soon d') And.right

theorem Punctual.deliver
    {bound span : Nat} (h : s.Punctual p bound span now)
    {route : Route μ} (hdelay : ∀ n, route.delay n < bound) (out : List μ) :
    (s.deliver now route out).Punctual p bound span now where
  ordered := h.ordered.puts hdelay
  free := ⟨fun hlistens x hx => (Wire.mem_puts hx).elim (h.free.1 hlistens x) id, h.free.2⟩
  soon := h.soon

end Seat

namespace World

variable (sys : System σ τ μ) (w : World σ τ μ)

/-- The left end has moved. -/
def leftMoved (r : Seat σ μ × List μ) : World σ τ μ :=
  { w with left := r.1, right := w.right.deliver w.now sys.toRight r.2 }

/-- The right end has moved. -/
def rightMoved (r : Seat τ μ × List μ) : World σ τ μ :=
  { w with right := r.1, left := w.left.deliver w.now sys.toLeft r.2 }

/-- One step of the two ends. -/
def step : Event → Option (World σ τ μ)
  | .tick =>
      if w.left.Pressed sys.left w.now ∨ w.right.Pressed sys.right w.now then none
      else some { w with now := w.now + 1 }
  | .left a => (w.left.act sys.left w.now a).map (w.leftMoved sys)
  | .right a => (w.right.act sys.right w.now a).map (w.rightMoved sys)

/-- What a run can come to. -/
abbrev Leads : World σ τ μ → World σ τ μ → Prop :=
  Transition.Steps (step sys) (fun _ _ => True)

variable {sys w}

theorem step_tick
    {w' : World σ τ μ} (h : w.step sys .tick = some w') :
    ¬ w.left.Pressed sys.left w.now ∧ ¬ w.right.Pressed sys.right w.now ∧
      w' = { w with now := w.now + 1 } := by
  unfold step at h
  simp only at h
  split at h
  · cases h
  · rename_i hpressed
    exact ⟨fun hleft => hpressed (Or.inl hleft), fun hright => hpressed (Or.inr hright),
      (Option.some.inj h).symm⟩

theorem step_left
    {a : Act} {w' : World σ τ μ} (h : w.step sys (.left a) = some w') :
    ∃ s out, w.left.act sys.left w.now a = some (s, out) ∧
      w' = { w with left := s, right := w.right.deliver w.now sys.toRight out } := by
  obtain ⟨⟨s, out⟩, hact, rfl⟩ := Option.map_eq_some_iff.mp h
  exact ⟨s, out, hact, rfl⟩

theorem step_right
    {a : Act} {w' : World σ τ μ} (h : w.step sys (.right a) = some w') :
    ∃ s out, w.right.act sys.right w.now a = some (s, out) ∧
      w' = { w with right := s, left := w.left.deliver w.now sys.toLeft out } := by
  obtain ⟨⟨s, out⟩, hact, rfl⟩ := Option.map_eq_some_iff.mp h
  exact ⟨s, out, hact, rfl⟩

/-- Something can always happen. -/
theorem exists_step (sys : System σ τ μ) (w : World σ τ μ) :
    ∃ e w', w.step sys e = some w' := by
  by_cases hpressed : w.left.Pressed sys.left w.now ∨ w.right.Pressed sys.right w.now
  · rcases hpressed with (hact | hact) | (hact | hact) <;>
      obtain ⟨r, hact⟩ := Option.isSome_iff_exists.mp hact
    · exact ⟨.left .read, _, congrArg (Option.map (w.leftMoved sys)) hact⟩
    · exact ⟨.left .expire, _, congrArg (Option.map (w.leftMoved sys)) hact⟩
    · exact ⟨.right .read, _, congrArg (Option.map (w.rightMoved sys)) hact⟩
    · exact ⟨.right .expire, _, congrArg (Option.map (w.rightMoved sys)) hact⟩
  · exact ⟨.tick, _, if_neg hpressed⟩

/-- Both ends are late for nothing. -/
structure Punctual (sys : System σ τ μ) (bound span : Nat) (w : World σ τ μ) : Prop where
  left : w.left.Punctual sys.left bound span w.now
  right : w.right.Punctual sys.right bound span w.now

theorem Punctual.step
    {bound span : Nat} (hleft : sys.left.Steady span) (hright : sys.right.Steady span)
    (htoLeft : ∀ n, sys.toLeft.delay n < bound) (htoRight : ∀ n, sys.toRight.delay n < bound)
    {e : Event} {w' : World σ τ μ} (h : w.Punctual sys bound span)
    (hstep : w.step sys e = some w') :
    w'.Punctual sys bound span := by
  cases e with
  | tick =>
      obtain ⟨hl, hr, rfl⟩ := step_tick hstep
      exact ⟨h.left.tick hl, h.right.tick hr⟩
  | left a =>
      obtain ⟨s, out, hact, rfl⟩ := step_left hstep
      exact ⟨h.left.act hleft hact, h.right.deliver htoRight out⟩
  | right a =>
      obtain ⟨s, out, hact, rfl⟩ := step_right hstep
      exact ⟨h.left.deliver htoLeft out, h.right.act hright hact⟩

/-- A run goes on for as long as one likes. -/
theorem exists_exec (sys : System σ τ μ) (n : Nat) (w : World σ τ μ) :
    ∃ events w', events.length = n ∧
      Transition.exec (step sys) (fun _ _ => True) w events = some w' := by
  induction n generalizing w with
  | zero => exact ⟨[], w, rfl, rfl⟩
  | succ n ih =>
      obtain ⟨e, w₁, hstep⟩ := exists_step sys w
      obtain ⟨events, w', hlength, hexec⟩ := ih w₁
      exact ⟨e :: events, w', congrArg Nat.succ hlength, by
        rw [Transition.exec, if_pos trivial, hstep]
        exact hexec⟩

/-- The deadline that is waited for: that of the left end, or else that of the right one. -/
def wake (sys : System σ τ μ) (w : World σ τ μ) : Option Nat :=
  (sys.left.deadline w.left.state).or (sys.right.deadline w.right.state)

/-- What is left of a run in which no end acts without lowering its rank. -/
def remaining (sys : System σ τ μ) (span : Nat) (rankLeft : σ → Nat) (rankRight : τ → Nat)
    (w : World σ τ μ) : Nat :=
  (span + 1) * (rankLeft w.left.state + rankRight w.right.state) +
    ((w.wake sys).getD w.now - w.now)

theorem Punctual.wake_le
    {bound span d : Nat} (h : w.Punctual sys bound span) (hd : w.wake sys = some d) :
    w.now ≤ d ∧ d ≤ w.now + span := by
  unfold wake at hd
  rcases Option.or_eq_some_iff.mp hd with hd | ⟨-, hd⟩
  · exact ⟨h.left.free.2 d hd, h.left.soon d hd⟩
  · exact ⟨h.right.free.2 d hd, h.right.soon d hd⟩

/-- Each step lowers what is left while some end waits for a deadline. -/
theorem Punctual.remaining_lt
    {bound span : Nat} {rankLeft : σ → Nat} {rankRight : τ → Nat} {e : Event}
    {w' : World σ τ μ}
    (h : w.Punctual sys bound span) (h' : w'.Punctual sys bound span)
    (hleft : ∀ a s out, w.left.act sys.left w.now a = some (s, out) →
      rankLeft s.state < rankLeft w.left.state)
    (hright : ∀ a s out, w.right.act sys.right w.now a = some (s, out) →
      rankRight s.state < rankRight w.right.state)
    (hwake : (w'.wake sys).isSome = true) (hstep : w.step sys e = some w') :
    w'.remaining sys span rankLeft rankRight < w.remaining sys span rankLeft rankRight := by
  obtain ⟨d, hd⟩ := Option.isSome_iff_exists.mp hwake
  have hle := h'.wake_le hd
  -- An act makes up for the time to the next deadline.
  have hact : ∀ r' r : Nat, r' < r →
      (span + 1) * r' + (d - w'.now) < (span + 1) * r + ((w.wake sys).getD w.now - w.now) := by
    intro r' r hlt
    have hmul : (span + 1) * (r' + 1) ≤ (span + 1) * r := Nat.mul_le_mul_left _ hlt
    rw [Nat.mul_succ] at hmul
    omega
  cases e with
  | tick =>
      obtain ⟨hl, hr, rfl⟩ := step_tick hstep
      have hwait : w.now + 1 ≤ d := by
        rcases Option.or_eq_some_iff.mp hd with hd | ⟨-, hd⟩
        · exact (h.left.free_succ hl).2 d hd
        · exact (h.right.free_succ hr).2 d hd
      have hsame : w.wake sys = some d := hd
      simp only [remaining, hd, hsame, Option.getD_some]
      omega
  | left a =>
      obtain ⟨s, out, hs, rfl⟩ := step_left hstep
      have hlt := hleft a s out hs
      simp only [remaining, hd, Option.getD_some]
      exact hact _ _ (Nat.add_lt_add_right hlt _)
  | right a =>
      obtain ⟨s, out, hs, rfl⟩ := step_right hstep
      have hlt := hright a s out hs
      simp only [remaining, hd, Option.getD_some]
      exact hact _ _ (Nat.add_lt_add_left hlt _)

/-- Time can pass while nothing is due. -/
theorem Leads.wait
    {t : Nat} (ht : w.now ≤ t) (hleft : w.left.Free sys.left t)
    (hright : w.right.Free sys.right t) :
    Leads sys w { w with now := t } := by
  obtain ⟨n, rfl⟩ := Nat.exists_eq_add_of_le ht
  suffices h : ∀ k ≤ n, Leads sys w { w with now := w.now + k } from h n le_rfl
  intro k hk
  induction k with
  | zero =>
      exact .refl
  | succ k ih =>
      refine (ih (by omega)).tail ⟨.tick, trivial, if_neg ?_⟩
      rintro (hpressed | hpressed)
      · exact Seat.Free.not_pressed hleft (show w.now + k < w.now + n by omega) hpressed
      · exact Seat.Free.not_pressed hright (show w.now + k < w.now + n by omega) hpressed

section Runs

variable {w₀ : World σ τ μ} {now t due d n l : Nat} {x z : σ} {y v : τ} {m : μ}
  {queue : List (Nat × μ)} {inbox : Wire μ} {o : List μ} {left : Seat σ μ} {right : Seat τ μ}

theorem Leads.pass
    (h : Leads sys w₀ { now, left, right }) (ht : now ≤ t) (hleft : left.Free sys.left t)
    (hright : right.Free sys.right t) :
    Leads sys w₀ { now := t, left, right } :=
  h.trans (Leads.wait ht hleft hright)

theorem Leads.readLeft
    (h : Leads sys w₀ { now, left := ⟨x, ⟨(due, m) :: queue, n, l⟩⟩, right })
    (hlistens : sys.left.listens x = true) (hdue : due ≤ now)
    (hread : sys.left.read now x m = (z, o)) :
    Leads sys w₀
      { now
        left := ⟨z, ⟨queue, n, l⟩⟩
        right := right.deliver now sys.toRight o } := by
  refine h.tail ⟨.left .read, trivial, ?_⟩
  simp [step, Seat.act, hlistens, hdue, hread, leftMoved]

theorem Leads.readRight
    (h : Leads sys w₀ { now, left, right := ⟨y, ⟨(due, m) :: queue, n, l⟩⟩ })
    (hlistens : sys.right.listens y = true) (hdue : due ≤ now)
    (hread : sys.right.read now y m = (v, o)) :
    Leads sys w₀
      { now
        left := left.deliver now sys.toLeft o
        right := ⟨v, ⟨queue, n, l⟩⟩ } := by
  refine h.tail ⟨.right .read, trivial, ?_⟩
  simp [step, Seat.act, hlistens, hdue, hread, rightMoved]

theorem Leads.expireLeft
    (h : Leads sys w₀ { now, left := ⟨x, inbox⟩, right })
    (hd : sys.left.deadline x = some d) (hle : d ≤ now)
    (hexpire : sys.left.expire now x = (z, o)) :
    Leads sys w₀
      { now
        left := ⟨z, inbox⟩
        right := right.deliver now sys.toRight o } := by
  refine h.tail ⟨.left .expire, trivial, ?_⟩
  simp [step, Seat.act, hd, hle, hexpire, leftMoved]

theorem Leads.expireRight
    (h : Leads sys w₀ { now, left, right := ⟨y, inbox⟩ })
    (hd : sys.right.deadline y = some d) (hle : d ≤ now)
    (hexpire : sys.right.expire now y = (v, o)) :
    Leads sys w₀
      { now
        left := left.deliver now sys.toLeft o
        right := ⟨v, inbox⟩ } := by
  refine h.tail ⟨.right .expire, trivial, ?_⟩
  simp [step, Seat.act, hd, hle, hexpire, rightMoved]

end Runs

end World

end Timed
