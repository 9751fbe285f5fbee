import Pcutp.Lib.Timed
import Pcutp.Lines

/-!
# The close exchange

`Link.send_fin`, `await_fin` and `linger` as one machine, run by
`PcutpClient.close` at one end and by the CLOSE branch of `serve_once` at the
other.  Times are in milliseconds.

After `linger` an end has let go of the line.  The next line that reaches it is
read by whatever session comes next; `next` keeps that line.
-/

namespace Pcutp

open Timed (World Wire Seat Act)

namespace Const

def CLOSE_TIMEOUT : Nat := 3000
def CLOSE_RETRIES : Nat := 3
def LINGER_TIME : Nat := 2000

end Const

def closeLine : Line :=
  "CLOSE".toList

def byeLine : Line :=
  "BYE".toList

/-- Where an end stands in the close exchange. -/
inductive ClosePhase
  /-- `serve_once` waits for a request. -/
  | serving
  /-- `send_fin` waits for BYE, with `left` attempts after this one. -/
  | fin (left deadline : Nat)
  /-- `await_fin` waits for CLOSE. -/
  | await (deadline : Nat)
  | linger (deadline : Nat)
  /-- The end has returned. -/
  | over
  /-- The first line that the next session reads. -/
  | next (first : Line)
  deriving DecidableEq

namespace ClosePhase

/-- `send_fin` up to its first read. -/
def send_fin (now : Nat) : ClosePhase × List Line :=
  (.fin (Const.CLOSE_RETRIES - 1) (now + Const.CLOSE_TIMEOUT), [closeLine])

def await_fin (now : Nat) : ClosePhase :=
  .await (now + Const.CLOSE_TIMEOUT)

def start_linger (now : Nat) : ClosePhase :=
  .linger (now + Const.LINGER_TIME)

/-- A line is read.  `awaits` tells `close`, which runs `await_fin`, from `serve_once`. -/
def read (awaits : Bool) (now : Nat) (phase : ClosePhase) (line : Line) :
    ClosePhase × List Line :=
  match phase with
  | .serving =>
      -- Any other request is served, and the session goes on.
      if line = closeLine then ((send_fin now).1, byeLine :: (send_fin now).2)
      else (.serving, [])
  | .fin left deadline =>
      if line = byeLine then (if awaits then await_fin now else start_linger now, [])
      else (.fin left deadline, if line = closeLine then [byeLine] else [])
  | .await deadline =>
      if line = closeLine then (start_linger now, [byeLine])
      else (.await deadline, [])
  | .linger deadline => (.linger deadline, if line = closeLine then [byeLine] else [])
  | .over => (.next line, [])
  | .next first => (.next first, [])

/-- A read has timed out. -/
def expire (now : Nat) (phase : ClosePhase) : ClosePhase × List Line :=
  match phase with
  | .fin (left + 1) _ => (.fin left (now + Const.CLOSE_TIMEOUT), [closeLine])
  | .fin 0 _ => (start_linger now, [])
  | .await _ => (start_linger now, [])
  | .linger _ => (.over, [])
  | phase => (phase, [])

def listens : ClosePhase → Bool
  | .next _ => false
  | _ => true

def deadline : ClosePhase → Option Nat
  | .fin _ deadline => some deadline
  | .await deadline => some deadline
  | .linger deadline => some deadline
  | _ => none

/-- An end of the close exchange. -/
def party (awaits : Bool) : Timed.Party ClosePhase Line where
  listens := listens
  deadline := deadline
  read := read awaits
  expire := expire

theorem party_steady (awaits : Bool) :
    (party awaits).Steady Const.CLOSE_TIMEOUT where
  hears now s h := by
    cases s with
    | next first => cases h
    | _ => rfl
  read now s m d h := by
    change deadline (read awaits now s m).1 = some d at h
    change deadline s = some d ∨ now ≤ d ∧ d ≤ now + Const.CLOSE_TIMEOUT
    cases s with
    | serving =>
        simp only [read] at h
        split at h
        · obtain rfl := Option.some.inj h
          exact Or.inr ⟨Nat.le_add_right _ _, Nat.add_le_add_left (by decide) _⟩
        · cases h
    | fin left dl =>
        simp only [read] at h
        split at h
        · split at h <;>
            · obtain rfl := Option.some.inj h
              exact Or.inr ⟨Nat.le_add_right _ _, Nat.add_le_add_left (by decide) _⟩
        · exact Or.inl h
    | await dl =>
        simp only [read] at h
        split at h
        · obtain rfl := Option.some.inj h
          exact Or.inr ⟨Nat.le_add_right _ _, Nat.add_le_add_left (by decide) _⟩
        · exact Or.inl h
    | linger dl => exact Or.inl h
    | «over» => cases h
    | next first => cases h
  expire now s d h := by
    change deadline (expire now s).1 = some d at h
    change deadline s = some d ∨ now ≤ d ∧ d ≤ now + Const.CLOSE_TIMEOUT
    cases s with
    | serving => cases h
    | fin left dl =>
        cases left <;>
          · obtain rfl := Option.some.inj h
            exact Or.inr ⟨Nat.le_add_right _ _, Nat.add_le_add_left (by decide) _⟩
    | await dl =>
        obtain rfl := Option.some.inj h
        exact Or.inr ⟨Nat.le_add_right _ _, Nat.add_le_add_left (by decide) _⟩
    | linger dl => cases h
    | «over» => cases h
    | next first => cases h

end ClosePhase

namespace ClosePhase

variable (awaits : Bool) (now : Nat)

theorem read_serving :
    (party awaits).read now .serving closeLine = (.fin 2 (now + 3000), [byeLine, closeLine]) :=
  rfl

theorem read_fin_bye (left d : Nat) :
    (party awaits).read now (.fin left d) byeLine =
      (if awaits then .await (now + 3000) else .linger (now + 2000), []) :=
  rfl

theorem read_fin_close (left d : Nat) :
    (party awaits).read now (.fin left d) closeLine = (.fin left d, [byeLine]) :=
  rfl

theorem read_await (d : Nat) :
    (party awaits).read now (.await d) closeLine = (.linger (now + 2000), [byeLine]) :=
  rfl

theorem read_linger (d : Nat) :
    (party awaits).read now (.linger d) closeLine = (.linger d, [byeLine]) :=
  rfl

end ClosePhase

section Exchange

variable (toServer toClient : Nat → Nat) (lost : Timed.Pick)

/-- `close` at the left end and `serve_once` at the right one; `lost` is lost if it is a BYE. -/
def closing : Timed.System ClosePhase ClosePhase Line where
  left := ClosePhase.party true
  right := ClosePhase.party false
  toLeft :=
    { delay := toClient
      lost := fun n line => decide (lost = .toLeft n ∧ line = byeLine) }
  toRight :=
    { delay := toServer
      lost := fun n line => decide (lost = .toRight n ∧ line = byeLine) }

/-- The client has called `close`, and the server is serving. -/
def closeStart : World ClosePhase ClosePhase Line where
  now := 0
  left := { state := (ClosePhase.send_fin 0).1, inbox := .empty }
  right :=
    { state := .serving
      inbox := Wire.empty.puts (closing toServer toClient lost).toRight 0
        (ClosePhase.send_fin 0).2 }

end Exchange

section Lines

variable {toServer toClient : Nat → Nat} {lost : Timed.Pick}

/-- No CLOSE is lost. -/
theorem closeLine_kept (n : Nat) :
    (closing toServer toClient lost).toLeft.lost n closeLine = false ∧
      (closing toServer toClient lost).toRight.lost n closeLine = false := by
  have hne : closeLine ≠ byeLine := by decide
  simp [closing, hne]

theorem byeLine_toLeft (n : Nat) :
    (closing toServer toClient lost).toLeft.lost n byeLine = decide (lost = .toLeft n) := by
  simp [closing]

theorem byeLine_toRight (n : Nat) :
    (closing toServer toClient lost).toRight.lost n byeLine = decide (lost = .toRight n) := by
  simp [closing]

end Lines

/-- Neither end has left a CLOSE to the next session.  A CLOSE behind a stray BYE would go unseen
here; there is none, since no line at all is left to it where `Covered` holds
(`CloseStage.nothing_left`). -/
def Attended (w : World ClosePhase ClosePhase Line) : Prop :=
  w.left.state ≠ .next closeLine ∧ w.right.state ≠ .next closeLine

/-- The BYE with which the client answers the CLOSE of the server is not the lost one.  When
the BYE of the server is, its linger outlasts the repetition of the CLOSE that it answered. -/
def Covered (toServer toClient : Nat → Nat) (lost : Timed.Pick) : Prop :=
  lost ≠ .toRight 1 ∧
    (lost = .toLeft 0 →
      Const.CLOSE_TIMEOUT + toServer 2 <
        toServer 0 + toClient 1 + toServer 1 + Const.LINGER_TIME)

section Stage

variable (toServer toClient : Nat → Nat) (lost : Timed.Pick)

/-- What is under way while `Covered` holds. -/
inductive CloseStage : World ClosePhase ClosePhase Line → Prop
  /-- The CLOSE of the client is on its way. -/
  | asked (now : Nat) :
      CloseStage
        { now
          left := ⟨.fin 2 3000, ⟨[], 0, 0⟩⟩
          right := ⟨.serving, ⟨[(toServer 0, closeLine)], 1, toServer 0⟩⟩ }
  /-- The server has answered. -/
  | answered (now x y d l : Nat) (hy : y < 1000) (hd : 3000 ≤ d) (hl : l < 500) :
      CloseStage
        { now
          left := ⟨.fin 2 3000, ⟨[(x, byeLine), (y, closeLine)], 2, y⟩⟩
          right := ⟨.fin 2 d, ⟨[], 1, l⟩⟩ }
  /-- The client has read BYE. -/
  | awaiting (now y c d l : Nat) (hy : y < 1000) (hc : 3000 ≤ c) (hd : 3000 ≤ d) (hl : l < 500) :
      CloseStage
        { now
          left := ⟨.await c, ⟨[(y, closeLine)], 2, y⟩⟩
          right := ⟨.fin 2 d, ⟨[], 1, l⟩⟩ }
  /-- The client has answered as well. -/
  | acknowledged (now z c d l n m : Nat) (hz : z < 1500) (hc : 2000 ≤ c) (hd : 3000 ≤ d) :
      CloseStage
        { now
          left := ⟨.linger c, ⟨[], n, l⟩⟩
          right := ⟨.fin 2 d, ⟨[(z, byeLine)], m, z⟩⟩ }
  /-- The BYE of the server is lost. -/
  | unheard (now d : Nat) (hlost : lost = .toLeft 0) (hd : 3000 ≤ d) :
      CloseStage
        { now
          left := ⟨.fin 2 3000, ⟨[(toServer 0 + toClient 1, closeLine)], 2,
            toServer 0 + toClient 1⟩⟩
          right := ⟨.fin 2 d, ⟨[], 1, toServer 0⟩⟩ }
  /-- The client has answered the CLOSE of the server and still waits for its BYE. -/
  | crossed (now d : Nat) (hlost : lost = .toLeft 0) (hd : 3000 ≤ d) :
      CloseStage
        { now
          left := ⟨.fin 2 3000, ⟨[], 2, toServer 0 + toClient 1⟩⟩
          right := ⟨.fin 2 d, ⟨[(toServer 0 + toClient 1 + toServer 1, byeLine)], 2,
            toServer 0 + toClient 1 + toServer 1⟩⟩ }
  /-- The server lingers, the client is about to repeat its CLOSE. -/
  | lingering (now : Nat) (hlost : lost = .toLeft 0) :
      CloseStage
        { now
          left := ⟨.fin 2 3000, ⟨[], 2, toServer 0 + toClient 1⟩⟩
          right := ⟨.linger (toServer 0 + toClient 1 + toServer 1 + 2000), ⟨[], 2,
            toServer 0 + toClient 1 + toServer 1⟩⟩ }
  /-- The repetition is on its way. -/
  | repeated (now : Nat) (hlost : lost = .toLeft 0) :
      CloseStage
        { now
          left := ⟨.fin 1 6000, ⟨[], 2, toServer 0 + toClient 1⟩⟩
          right := ⟨.linger (toServer 0 + toClient 1 + toServer 1 + 2000),
            ⟨[(3000 + toServer 2, closeLine)], 3, 3000 + toServer 2⟩⟩ }
  /-- The repetition is answered. -/
  | reanswered (now v l n : Nat) (phase : ClosePhase) (hv : v < 4000)
      (hphase : phase = .over ∨ ∃ d, phase = .linger d) :
      CloseStage
        { now
          left := ⟨.fin 1 6000, ⟨[(v, byeLine)], 3, v⟩⟩
          right := ⟨phase, ⟨[], n, l⟩⟩ }
  /-- No line is on its way, and none will be. -/
  | quiet (now k l m n : Nat) (client server : ClosePhase)
      (hclient : client = .over ∨ (∃ d, client = .linger d) ∨ ∃ d, client = .await d)
      (hserver : server = .over ∨ ∃ d, server = .linger d) :
      CloseStage
        { now
          left := ⟨client, ⟨[], k, l⟩⟩
          right := ⟨server, ⟨[], m, n⟩⟩ }

variable {toServer toClient lost}

theorem CloseStage.tick
    {w : World ClosePhase ClosePhase Line} (h : CloseStage toServer toClient lost w) :
    CloseStage toServer toClient lost { w with now := w.now + 1 } := by
  cases h with
  | asked => exact .asked _
  | answered now x y d l hy hd hl => exact .answered _ _ _ _ _ hy hd hl
  | awaiting now y c d l hy hc hd hl => exact .awaiting _ _ _ _ _ hy hc hd hl
  | acknowledged now z c d l n m hz hc hd => exact .acknowledged _ _ _ _ _ _ _ hz hc hd
  | unheard now d hlost hd => exact .unheard _ _ hlost hd
  | crossed now d hlost hd => exact .crossed _ _ hlost hd
  | lingering now hlost => exact .lingering _ hlost
  | repeated now hlost => exact .repeated _ hlost
  | reanswered now v l n phase hv hphase => exact .reanswered _ _ _ _ _ hv hphase
  | quiet now k l m n client server hclient hserver =>
      exact .quiet _ _ _ _ _ _ _ hclient hserver

/-- What the client reads. -/
theorem CloseStage.clientReads
    (hserver : ∀ n, toServer n < 500) (hclient : ∀ n, toClient n < 500)
    (hcovered : Covered toServer toClient lost)
    {w : World ClosePhase ClosePhase Line} {s : Seat ClosePhase Line} {out : List Line}
    (hp : w.Punctual (closing toServer toClient lost) 500 Const.CLOSE_TIMEOUT)
    (h : CloseStage toServer toClient lost w)
    (hact : w.left.act (ClosePhase.party true) w.now .read = some (s, out)) :
    CloseStage toServer toClient lost
      { w with
        left := s
        right := w.right.deliver w.now (closing toServer toClient lost).toRight out } := by
  have hs0 := hserver 0
  have hs1 := hserver 1
  have hc1 := hclient 1
  obtain ⟨due, m, queue, hqueue, _, hdue, rfl, rfl⟩ := Seat.act_read hact
  have hkept : (closing toServer toClient lost).toRight.lost 1 byeLine = false := by
    rw [byeLine_toRight]
    exact decide_eq_false hcovered.1
  cases h with
  | asked => cases hqueue
  | answered now x y d l hy hd hl =>
      cases hqueue
      rw [ClosePhase.read_fin_bye]
      exact .awaiting _ _ _ _ _ hy (Nat.le_add_left _ _) hd hl
  | awaiting now y c d l hy hc hd hl =>
      cases hqueue
      have hnow : now ≤ due := hp.left.free.1 rfl _ List.mem_cons_self
      rw [ClosePhase.read_await, Seat.deliver, Wire.puts_cons, Wire.put_kept hkept]
      refine .acknowledged _ _ _ _ _ _ _ ?_ (Nat.le_add_left _ _) hd
      simp only [closing]
      omega
  | acknowledged => cases hqueue
  | unheard now d hlost hd =>
      cases hqueue
      obtain rfl : now = toServer 0 + toClient 1 :=
        Nat.le_antisymm (hp.left.free.1 rfl _ List.mem_cons_self) hdue
      rw [ClosePhase.read_fin_close, Seat.deliver, Wire.puts_cons,
        Wire.put_due hkept (by simp only; omega)]
      exact .crossed _ _ hlost hd
  | crossed => cases hqueue
  | lingering => cases hqueue
  | repeated => cases hqueue
  | reanswered now v l n phase hv hphase =>
      cases hqueue
      rw [ClosePhase.read_fin_bye]
      exact .quiet _ _ _ _ _ _ _ (Or.inr (Or.inr ⟨_, rfl⟩)) hphase
  | quiet => cases hqueue

/-- What the client does at its deadline. -/
theorem CloseStage.clientExpires
    (hserver : ∀ n, toServer n < 500) (hclient : ∀ n, toClient n < 500)
    {w : World ClosePhase ClosePhase Line} {s : Seat ClosePhase Line} {out : List Line}
    (hp : w.Punctual (closing toServer toClient lost) 500 Const.CLOSE_TIMEOUT)
    (h : CloseStage toServer toClient lost w)
    (hact : w.left.act (ClosePhase.party true) w.now .expire = some (s, out)) :
    CloseStage toServer toClient lost
      { w with
        left := s
        right := w.right.deliver w.now (closing toServer toClient lost).toRight out } := by
  have hs0 := hserver 0
  have hs1 := hserver 1
  have hs2 := hserver 2
  have hc1 := hclient 1
  obtain ⟨e, he, hdue, rfl, rfl⟩ := Seat.act_expire hact
  have hleft := fun {d} => hp.left.not_due (d := d)
  have hright := fun {d} => hp.right.not_due (d := d)
  cases h with
  | asked now =>
      cases he
      exact (hright rfl (List.cons_ne_nil _ _) (by simp only; omega) hdue).elim
  | answered now x y d l hy hd hl =>
      cases he
      exact (hleft rfl (List.cons_ne_nil _ _) (by simp only; omega) hdue).elim
  | awaiting now y c d l hy hc hd hl =>
      cases he
      exact (hleft rfl (List.cons_ne_nil _ _) (by simp only; omega) hdue).elim
  | acknowledged now z c d l n m hz hc hd =>
      cases he
      exact (hright rfl (List.cons_ne_nil _ _) (by simp only; omega) hdue).elim
  | unheard now d hlost hd =>
      cases he
      exact (hleft rfl (List.cons_ne_nil _ _) (by simp only; omega) hdue).elim
  | crossed now d hlost hd =>
      cases he
      exact (hright rfl (List.cons_ne_nil _ _) (by simp only; omega) hdue).elim
  | lingering now hlost =>
      cases he
      obtain rfl : now = 3000 := Nat.le_antisymm (hp.left.free.2 _ rfl) hdue
      rw [show (ClosePhase.party true).expire 3000 (.fin 2 3000) =
        (.fin 1 6000, [closeLine]) from rfl, Seat.deliver, Wire.puts_cons,
        Wire.put_due (closeLine_kept _).2 (by simp only; omega)]
      exact .repeated _ hlost
  | repeated now hlost =>
      cases he
      exact (hright rfl (List.cons_ne_nil _ _) (by simp only; omega) hdue).elim
  | reanswered now v l n phase hv hphase =>
      cases he
      exact (hleft rfl (List.cons_ne_nil _ _) (by simp only; omega) hdue).elim
  | quiet now k l m n client server hclient hserver =>
      rcases hclient with rfl | ⟨d, rfl⟩ | ⟨d, rfl⟩
      · cases he
      · exact .quiet _ _ _ _ _ _ _ (Or.inl rfl) hserver
      · exact .quiet _ _ _ _ _ _ _ (Or.inr (Or.inl ⟨_, rfl⟩)) hserver

/-- What the server reads. -/
theorem CloseStage.serverReads
    (hserver : ∀ n, toServer n < 500) (hclient : ∀ n, toClient n < 500)
    {w : World ClosePhase ClosePhase Line} {s : Seat ClosePhase Line} {out : List Line}
    (hp : w.Punctual (closing toServer toClient lost) 500 Const.CLOSE_TIMEOUT)
    (h : CloseStage toServer toClient lost w)
    (hact : w.right.act (ClosePhase.party false) w.now .read = some (s, out)) :
    CloseStage toServer toClient lost
      { w with
        right := s
        left := w.left.deliver w.now (closing toServer toClient lost).toLeft out } := by
  have hs0 := hserver 0
  have hs1 := hserver 1
  have hs2 := hserver 2
  have hc0 := hclient 0
  have hc1 := hclient 1
  have hc2 := hclient 2
  obtain ⟨due, m, queue, hqueue, _, hdue, rfl, rfl⟩ := Seat.act_read hact
  cases h with
  | asked now =>
      cases hqueue
      obtain rfl : now = toServer 0 :=
        Nat.le_antisymm (hp.right.free.1 rfl _ List.mem_cons_self) hdue
      rw [ClosePhase.read_serving, Seat.deliver, Wire.puts_cons]
      by_cases hlost : lost = .toLeft 0
      · rw [Wire.put_lost (by
          rw [byeLine_toLeft]
          exact decide_eq_true hlost), Wire.puts_cons,
          Wire.put_due (closeLine_kept _).1 (Nat.zero_le _)]
        exact .unheard _ _ hlost (Nat.le_add_left _ _)
      · rw [Wire.put_kept (by
          rw [byeLine_toLeft]
          exact decide_eq_false hlost), Wire.puts_cons, Wire.put_kept (closeLine_kept _).1]
        refine .answered _ _ _ _ _ ?_ (Nat.le_add_left _ _) hs0
        simp only [closing, Nat.zero_add]
        omega
  | answered => cases hqueue
  | awaiting => cases hqueue
  | acknowledged now z c d l n m hz hc hd =>
      cases hqueue
      rw [ClosePhase.read_fin_bye]
      exact .quiet _ _ _ _ _ _ _ (Or.inr (Or.inl ⟨_, rfl⟩)) (Or.inr ⟨_, rfl⟩)
  | unheard => cases hqueue
  | crossed now d hlost hd =>
      cases hqueue
      obtain rfl : now = toServer 0 + toClient 1 + toServer 1 :=
        Nat.le_antisymm (hp.right.free.1 rfl _ List.mem_cons_self) hdue
      rw [ClosePhase.read_fin_bye]
      exact .lingering _ hlost
  | lingering => cases hqueue
  | repeated now hlost =>
      cases hqueue
      have hnow : now ≤ 3000 + toServer 2 :=
        hp.right.free.1 rfl _ List.mem_cons_self
      rw [ClosePhase.read_linger, Seat.deliver, Wire.puts_cons, Wire.put_kept (by
        rw [byeLine_toLeft, hlost]
        rfl)]
      refine .reanswered _ _ _ _ _ ?_ (Or.inr ⟨_, rfl⟩)
      simp only [closing]
      omega
  | reanswered => cases hqueue
  | quiet => cases hqueue

/-- What the server does at its deadline. -/
theorem CloseStage.serverExpires
    (hserver : ∀ n, toServer n < 500) (hclient : ∀ n, toClient n < 500)
    (hcovered : Covered toServer toClient lost)
    {w : World ClosePhase ClosePhase Line} {s : Seat ClosePhase Line} {out : List Line}
    (hp : w.Punctual (closing toServer toClient lost) 500 Const.CLOSE_TIMEOUT)
    (h : CloseStage toServer toClient lost w)
    (hact : w.right.act (ClosePhase.party false) w.now .expire = some (s, out)) :
    CloseStage toServer toClient lost
      { w with
        right := s
        left := w.left.deliver w.now (closing toServer toClient lost).toLeft out } := by
  have hs0 := hserver 0
  have hs1 := hserver 1
  have hc1 := hclient 1
  obtain ⟨e, he, hdue, rfl, rfl⟩ := Seat.act_expire hact
  have hleft := fun {d} => hp.left.not_due (d := d)
  have hright := fun {d} => hp.right.not_due (d := d)
  cases h with
  | asked => cases he
  | answered now x y d l hy hd hl =>
      cases he
      exact (hleft rfl (List.cons_ne_nil _ _) (by simp only; omega) hdue).elim
  | awaiting now y c d l hy hc hd hl =>
      cases he
      exact (hleft rfl (List.cons_ne_nil _ _) (by simp only; omega) hdue).elim
  | acknowledged now z c d l n m hz hc hd =>
      cases he
      exact (hright rfl (List.cons_ne_nil _ _) (by simp only; omega) hdue).elim
  | unheard now d hlost hd =>
      cases he
      exact (hleft rfl (List.cons_ne_nil _ _) (by simp only; omega) hdue).elim
  | crossed now d hlost hd =>
      cases he
      exact (hright rfl (List.cons_ne_nil _ _) (by simp only; omega) hdue).elim
  | lingering now hlost =>
      cases he
      have hnow : now ≤ 3000 := hp.left.free.2 _ rfl
      have hlong := hcovered.2 hlost
      simp only [Const.CLOSE_TIMEOUT, Const.LINGER_TIME] at hdue hlong
      omega
  | repeated now hlost =>
      cases he
      have hlong : 3000 + toServer 2 < toServer 0 + toClient 1 + toServer 1 + 2000 :=
        hcovered.2 hlost
      exact (hright rfl (List.cons_ne_nil _ _) hlong hdue).elim
  | reanswered now v l n phase hv hphase =>
      rcases hphase with rfl | ⟨d, rfl⟩
      · cases he
      · exact .reanswered _ _ _ _ _ hv (Or.inl rfl)
  | quiet now k l m n client server hclient hserver =>
      rcases hserver with rfl | ⟨d, rfl⟩
      · cases he
      · exact .quiet _ _ _ _ _ _ _ hclient (Or.inl rfl)

theorem CloseStage.step
    (hserver : ∀ n, toServer n < 500) (hclient : ∀ n, toClient n < 500)
    (hcovered : Covered toServer toClient lost)
    {w w' : World ClosePhase ClosePhase Line} {e : Timed.Event}
    (hp : w.Punctual (closing toServer toClient lost) 500 Const.CLOSE_TIMEOUT)
    (h : CloseStage toServer toClient lost w)
    (hstep : w.step (closing toServer toClient lost) e = some w') :
    CloseStage toServer toClient lost w' := by
  cases e with
  | tick =>
      obtain ⟨_, _, rfl⟩ := World.step_tick hstep
      exact h.tick
  | left a =>
      obtain ⟨s, out, hact, rfl⟩ := World.step_left hstep
      cases a with
      | read => exact h.clientReads hserver hclient hcovered hp hact
      | expire => exact h.clientExpires hserver hclient hp hact
  | right a =>
      obtain ⟨s, out, hact, rfl⟩ := World.step_right hstep
      cases a with
      | read => exact h.serverReads hserver hclient hp hact
      | expire => exact h.serverExpires hserver hclient hcovered hp hact

/-- No line at all is left to the next session. -/
theorem CloseStage.nothing_left
    {w : World ClosePhase ClosePhase Line} (h : CloseStage toServer toClient lost w) :
    (∀ line, w.left.state ≠ .next line) ∧ ∀ line, w.right.state ≠ .next line := by
  cases h with
  | reanswered now v l n phase hv hphase =>
      rcases hphase with rfl | ⟨d, rfl⟩ <;> exact ⟨nofun, nofun⟩
  | quiet now k l m n client server hclient hserver =>
      rcases hclient with rfl | ⟨d, rfl⟩ | ⟨d, rfl⟩ <;>
        rcases hserver with rfl | ⟨d', rfl⟩ <;> exact ⟨nofun, nofun⟩
  | _ => exact ⟨nofun, nofun⟩

end Stage

section Runs

variable {toServer toClient : Nat → Nat} {lost : Timed.Pick}

theorem closeStart_eq :
    closeStart toServer toClient lost =
      { now := 0
        left := ⟨.fin 2 3000, ⟨[], 0, 0⟩⟩
        right := ⟨.serving, ⟨[(toServer 0, closeLine)], 1, toServer 0⟩⟩ } := by
  have hput : Wire.empty.puts (closing toServer toClient lost).toRight 0 [closeLine] =
      ⟨[(toServer 0, closeLine)], 1, toServer 0⟩ := by
    rw [Wire.puts_cons, Wire.put_due (closeLine_kept _).2 (Nat.zero_le _)]
    simp [Wire.empty, closing]
  rw [closeStart, ClosePhase.send_fin, hput]
  rfl

theorem closeStart_punctual
    (hserver : ∀ n, toServer n < 500) :
    (closeStart toServer toClient lost).Punctual (closing toServer toClient lost) 500
      Const.CLOSE_TIMEOUT := by
  have hs0 := hserver 0
  rw [closeStart_eq]
  constructor
  · refine ⟨⟨.nil, nofun, by simp⟩, ⟨fun _ => nofun, fun d _ => Nat.zero_le _⟩, fun d hd => ?_⟩
    obtain rfl := Option.some.inj hd
    simp [Const.CLOSE_TIMEOUT]
  · refine ⟨⟨List.pairwise_singleton _ _, by simp, by simpa using hs0⟩,
      ⟨fun _ _ _ => Nat.zero_le _, nofun⟩, nofun⟩

/-- While `Covered` holds, what is under way is what the stages say. -/
theorem CloseStage.of_leads
    (hserver : ∀ n, toServer n < 500) (hclient : ∀ n, toClient n < 500)
    (hcovered : Covered toServer toClient lost)
    {w : World ClosePhase ClosePhase Line}
    (h : World.Leads (closing toServer toClient lost) (closeStart toServer toClient lost) w) :
    CloseStage toServer toClient lost w := by
  refine (Transition.Steps.invariant
    (fun w => w.Punctual (closing toServer toClient lost) 500 Const.CLOSE_TIMEOUT ∧
      CloseStage toServer toClient lost w) ?_ h
    ⟨closeStart_punctual hserver, ?_⟩).2
  · rintro w e w' ⟨hp, hw⟩ - hstep
    exact ⟨hp.step (ClosePhase.party_steady _) (ClosePhase.party_steady _) hclient hserver hstep,
      hw.step hserver hclient hcovered hp hstep⟩
  · rw [closeStart_eq]
    exact .asked 0

/-- The server reads the CLOSE. -/
theorem leads_asked
    (hserver : ∀ n, toServer n < 500) :
    World.Leads (closing toServer toClient lost) (closeStart toServer toClient lost)
      { now := toServer 0
        left := Seat.deliver (toServer 0) ⟨.fin 2 3000, ⟨[], 0, 0⟩⟩
          (closing toServer toClient lost).toLeft [byeLine, closeLine]
        right := ⟨.fin 2 (toServer 0 + 3000), ⟨[], 1, toServer 0⟩⟩ } := by
  have hs0 := hserver 0
  have hstart : World.Leads (closing toServer toClient lost) (closeStart toServer toClient lost)
      { now := 0
        left := ⟨.fin 2 3000, ⟨[], 0, 0⟩⟩
        right := ⟨.serving, ⟨[(toServer 0, closeLine)], 1, toServer 0⟩⟩ } := by
    rw [← closeStart_eq]
  exact (hstart.pass (t := toServer 0) (Nat.zero_le _)
    (Seat.free_of_deadline rfl (by omega) (List.forall_mem_nil _))
    (Seat.free_of_none rfl (by simp))).readRight rfl le_rfl (ClosePhase.read_serving _ _)

/-- The client has read both lines of the server, and its own BYE is lost. -/
theorem leads_answer_lost
    (hserver : ∀ n, toServer n < 500) (hclient : ∀ n, toClient n < 500)
    (hlost : lost = .toRight 1) :
    ∃ y, y < toServer 0 + 500 ∧
      World.Leads (closing toServer toClient lost) (closeStart toServer toClient lost)
        { now := y
          left := ⟨.linger (y + 2000), ⟨[], 2, y⟩⟩
          right := ⟨.fin 2 (toServer 0 + 3000), ⟨[], 2, toServer 0⟩⟩ } := by
  have hs0 := hserver 0
  have hc0 := hclient 0
  have hc1 := hclient 1
  have hbye : (closing toServer toClient lost).toLeft.lost 0 byeLine = false := by
    rw [byeLine_toLeft, hlost]
    rfl
  have hanswer : (closing toServer toClient lost).toRight.lost 1 byeLine = true := by
    rw [byeLine_toRight, hlost]
    rfl
  have hasked : World.Leads (closing toServer toClient lost) _ _ := leads_asked hserver
  rw [Seat.deliver, Wire.puts_cons, Wire.put_due hbye (Nat.zero_le _), Wire.puts_cons,
    Wire.put_kept (closeLine_kept _).1] at hasked
  generalize hx : toServer 0 + toClient 0 = x
  generalize hy : max x (toServer 0 + toClient 1) = y
  have hxy : x ≤ y := by omega
  have hlate : y < toServer 0 + 500 := by omega
  have hanswered : World.Leads (closing toServer toClient lost)
      (closeStart toServer toClient lost)
      { now := toServer 0
        left := ⟨.fin 2 3000, ⟨[(x, byeLine), (y, closeLine)], 2, y⟩⟩
        right := ⟨.fin 2 (toServer 0 + 3000), ⟨[], 1, toServer 0⟩⟩ } := by
    subst hy hx
    exact hasked
  have hawaits := (hanswered.pass (t := x) (by omega)
    (Seat.free_of_deadline rfl (by omega) (by simpa using hxy))
    (Seat.free_of_deadline rfl (by omega) (List.forall_mem_nil _))).readLeft rfl le_rfl
      (ClosePhase.read_fin_bye _ _ _ _)
  have hlingers := (hawaits.pass (t := y) hxy
    (Seat.free_of_deadline rfl (by omega) (by simp))
    (Seat.free_of_deadline rfl (by omega) (List.forall_mem_nil _))).readLeft rfl le_rfl
      (ClosePhase.read_await _ _ _)
  rw [Seat.deliver_nil, Seat.deliver, Wire.puts_cons, Wire.put_lost hanswer] at hlingers
  exact ⟨y, hlate, hlingers⟩

/-- Without the answer of the client the server repeats its CLOSE into an idle line. -/
theorem strayed_of_answer_lost
    (hserver : ∀ n, toServer n < 500) (hclient : ∀ n, toClient n < 500)
    (hlost : lost = .toRight 1) :
    ∃ w, World.Leads (closing toServer toClient lost) (closeStart toServer toClient lost) w ∧
      ¬ Attended w := by
  have hc2 := hclient 2
  obtain ⟨y, hy, hlingers⟩ := leads_answer_lost hserver hclient hlost
  -- The linger of the client ends before the server gives up its first CLOSE.
  have hover := (hlingers.pass (t := y + 2000) (by omega)
    (Seat.free_of_deadline rfl le_rfl (List.forall_mem_nil _))
    (Seat.free_of_deadline rfl (by omega) (List.forall_mem_nil _))).expireLeft rfl le_rfl
      (z := .over) (o := []) rfl
  have hrepeated := (hover.pass (t := toServer 0 + 3000) (by omega)
    (Seat.free_of_none rfl (List.forall_mem_nil _))
    (Seat.free_of_deadline rfl le_rfl (List.forall_mem_nil _))).expireRight rfl le_rfl
      (v := .fin 1 (toServer 0 + 3000 + 3000)) (o := [closeLine]) rfl
  rw [Seat.deliver, Wire.puts_cons, Wire.put_due (closeLine_kept _).1 (by simp only; omega)]
    at hrepeated
  have hstray := (hrepeated.pass (t := toServer 0 + 3000 + toClient 2) (by omega)
    (Seat.free_of_none rfl (by simp [closing]))
    (Seat.free_of_deadline rfl (by omega) (List.forall_mem_nil _))).readLeft rfl le_rfl
      (z := .next closeLine) (o := []) rfl
  exact ⟨_, hstray, fun hattended => hattended.1 rfl⟩

/-- The BYE of the server is lost, and it lingers after that of the client. -/
theorem leads_bye_lost
    (hserver : ∀ n, toServer n < 500) (hclient : ∀ n, toClient n < 500)
    (hlost : lost = .toLeft 0) :
    World.Leads (closing toServer toClient lost) (closeStart toServer toClient lost)
      { now := toServer 0 + toClient 1 + toServer 1
        left := ⟨.fin 2 3000, ⟨[], 2, toServer 0 + toClient 1⟩⟩
        right := ⟨.linger (toServer 0 + toClient 1 + toServer 1 + 2000),
          ⟨[], 2, toServer 0 + toClient 1 + toServer 1⟩⟩ } := by
  have hs0 := hserver 0
  have hs1 := hserver 1
  have hc1 := hclient 1
  have hbye : (closing toServer toClient lost).toLeft.lost 0 byeLine = true := by
    rw [byeLine_toLeft, hlost]
    rfl
  have hanswer : (closing toServer toClient lost).toRight.lost 1 byeLine = false := by
    rw [byeLine_toRight, hlost]
    rfl
  have hasked : World.Leads (closing toServer toClient lost) _ _ := leads_asked hserver
  rw [Seat.deliver, Wire.puts_cons, Wire.put_lost hbye, Wire.puts_cons,
    Wire.put_due (closeLine_kept _).1 (Nat.zero_le _)] at hasked
  have hcrossed := (hasked.pass (t := toServer 0 + toClient 1) (by omega)
    (Seat.free_of_deadline rfl (by omega) (by simp [closing]))
    (Seat.free_of_deadline rfl (by omega) (List.forall_mem_nil _))).readLeft rfl le_rfl
      (ClosePhase.read_fin_close _ _ _ _)
  rw [Seat.deliver, Wire.puts_cons, Wire.put_due hanswer (by simp only; omega)] at hcrossed
  exact (hcrossed.pass (t := toServer 0 + toClient 1 + toServer 1) (by omega)
    (Seat.free_of_deadline rfl (by omega) (List.forall_mem_nil _))
    (Seat.free_of_deadline rfl (by omega) (by simp [closing]))).readRight rfl le_rfl
      (ClosePhase.read_fin_bye _ _ _ _)

/-- Without the BYE of the server its linger may end before the repeated CLOSE arrives. -/
theorem strayed_of_bye_lost
    (hserver : ∀ n, toServer n < 500) (hclient : ∀ n, toClient n < 500)
    (hlost : lost = .toLeft 0)
    (hlate : toServer 0 + toClient 1 + toServer 1 + 2000 ≤ 3000 + toServer 2) :
    ∃ w, World.Leads (closing toServer toClient lost) (closeStart toServer toClient lost) w ∧
      ¬ Attended w := by
  have hs0 := hserver 0
  have hs1 := hserver 1
  have hs2 := hserver 2
  have hc1 := hclient 1
  have hlingers := leads_bye_lost hserver hclient hlost
  generalize hz : toServer 0 + toClient 1 + toServer 1 = z at hlingers hlate
  generalize hy : toServer 0 + toClient 1 = y at hlingers
  -- When the repeated CLOSE arrives, the server has let go of the line.
  have hlate : World.Leads (closing toServer toClient lost)
      (closeStart toServer toClient lost)
      { now := 3000 + toServer 2
        left := ⟨.fin 1 6000, ⟨[], 2, y⟩⟩
        right := ⟨.over, ⟨[(3000 + toServer 2, closeLine)], 3, 3000 + toServer 2⟩⟩ } := by
    by_cases hearly : z + 2000 ≤ 3000
    · have hover := (hlingers.pass (t := z + 2000) (by omega)
        (Seat.free_of_deadline rfl hearly (List.forall_mem_nil _))
        (Seat.free_of_deadline rfl le_rfl (List.forall_mem_nil _))).expireRight rfl le_rfl
          (v := .over) (o := []) rfl
      have hrepeated := (hover.pass (t := 3000) hearly
        (Seat.free_of_deadline rfl le_rfl (List.forall_mem_nil _))
        (Seat.free_of_none rfl (List.forall_mem_nil _))).expireLeft rfl le_rfl
          (z := .fin 1 6000) (o := [closeLine]) rfl
      rw [Seat.deliver, Wire.puts_cons, Wire.put_due (closeLine_kept _).2 (by simp only; omega)]
        at hrepeated
      exact hrepeated.pass (by omega) (Seat.free_of_deadline rfl (by omega) (List.forall_mem_nil _))
        (Seat.free_of_none rfl (by simp [closing]))
    · have hrepeated := (hlingers.pass (t := 3000) (by omega)
        (Seat.free_of_deadline rfl le_rfl (List.forall_mem_nil _))
        (Seat.free_of_deadline rfl (by omega) (List.forall_mem_nil _))).expireLeft rfl le_rfl
          (z := .fin 1 6000) (o := [closeLine]) rfl
      rw [Seat.deliver, Wire.puts_cons, Wire.put_due (closeLine_kept _).2 (by simp only; omega)]
        at hrepeated
      have hover := (hrepeated.pass (t := z + 2000) (by omega)
        (Seat.free_of_deadline rfl (by omega) (List.forall_mem_nil _))
        (Seat.free_of_deadline rfl le_rfl (by simpa [closing] using hlate))).expireRight
          rfl le_rfl (v := .over) (o := []) rfl
      exact hover.pass (by omega) (Seat.free_of_deadline rfl (by omega) (List.forall_mem_nil _))
        (Seat.free_of_none rfl (by simp [closing]))
  have hstray := hlate.readRight rfl le_rfl (v := .next closeLine) (o := []) rfl
  exact ⟨_, hstray, fun hattended => hattended.2 rfl⟩

end Runs

/-- Exactly when `Covered` holds, no CLOSE of the exchange is left to the next session: every
one is read while the end still answers it. -/
theorem linger_covers_lost_bye_iff
    (toServer toClient : Nat → Nat)
    (hserver : ∀ n, toServer n < 500)
    (hclient : ∀ n, toClient n < 500)
    (lost : Timed.Pick) :
    (∀ w, World.Leads (closing toServer toClient lost) (closeStart toServer toClient lost) w →
      Attended w) ↔
        Covered toServer toClient lost := by
  constructor
  · intro hall
    constructor
    · intro hlost
      obtain ⟨w, hw, hstray⟩ := strayed_of_answer_lost hserver hclient hlost
      exact hstray (hall w hw)
    · intro hlost
      by_contra hlate
      simp only [Const.CLOSE_TIMEOUT, Const.LINGER_TIME, Nat.not_lt] at hlate
      obtain ⟨w, hw, hstray⟩ := strayed_of_bye_lost hserver hclient hlost hlate
      exact hstray (hall w hw)
  · intro hcovered w hw
    have hnothing := (CloseStage.of_leads hserver hclient hcovered hw).nothing_left
    exact ⟨hnothing.1 closeLine, hnothing.2 closeLine⟩

/-- The BYE of the server is lost, and only the repeated CLOSE is not delayed. -/
theorem linger_covers_slow_bye :
    Covered (fun n => if n = 2 then 0 else 499) (fun _ => 499) (.toLeft 0) ∧
      ∀ w, World.Leads (closing (fun n => if n = 2 then 0 else 499) (fun _ => 499) (.toLeft 0))
        (closeStart (fun n => if n = 2 then 0 else 499) (fun _ => 499) (.toLeft 0)) w →
          Attended w := by
  have hcovered : Covered (fun n => if n = 2 then 0 else 499) (fun _ => 499) (.toLeft 0) :=
    ⟨nofun, fun _ => by decide⟩
  exact ⟨hcovered, (linger_covers_lost_bye_iff _ _ (fun n => by split <;> omega)
    (fun _ => by omega) _).mpr hcovered⟩

/-- Without any delay, the loss of the BYE of the server leaves a CLOSE to the next session. -/
theorem linger_misses_repeated_close :
    ¬ ∀ w, World.Leads (closing (fun _ => 0) (fun _ => 0) (.toLeft 0))
      (closeStart (fun _ => 0) (fun _ => 0) (.toLeft 0)) w → Attended w := by
  intro hall
  have hno : ∀ _ : Nat, 0 < 500 := fun _ => by omega
  obtain ⟨w, hw, hstray⟩ := strayed_of_bye_lost hno hno rfl (by omega)
  exact hstray (hall w hw)

end Pcutp
