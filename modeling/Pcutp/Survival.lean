import Pcutp.Lib.Timed
import Pcutp.Negotiation

/-!
# A greeting on a slow line that loses one message

The machines of `hello` and `_handle_hello` with their timers, in milliseconds.
Every read of either machine that waits on waits `HANDSHAKE_TIMEOUT` from the
moment it starts; a server that has no session yet waits as long as it takes.

One line of the exchange, picked by its direction and its number there, is
lost.  `Survives` says that every run comes to its good end.
-/

namespace Pcutp

open Timed (World Wire Seat Act Pick)

namespace Const

def HANDSHAKE_TIMEOUT : Nat := 10000

end Const

/-- Whether `hello` is in a read. -/
def HelloPhase.waits : HelloPhase → Bool
  | .answer _ => true
  | .who _ => true
  | _ => false

/-- Whether the server is in a read. -/
def GreetPhase.listens : GreetPhase → Bool
  | .idle => true
  | .hru _ => true
  | .who _ => true
  | _ => false

/-- Whether the server is in a read of `_handle_hello`. -/
def GreetPhase.waits : GreetPhase → Bool
  | .hru _ => true
  | .who _ => true
  | _ => false

/-- A bound on the reads of `hello` that may follow. -/
def HelloPhase.rank : HelloPhase → Nat
  | .answer attempt => Const.HELLO_RETRIES + 2 + (Const.HELLO_RETRIES - attempt)
  | .who attempt => 1 + (Const.HELLO_RETRIES - attempt)
  | _ => 0

/-- A bound on the reads of the server that may follow. -/
def GreetPhase.rank : GreetPhase → Nat
  | .idle => 2 * Const.HELLO_RETRIES + 3
  | .hru attempt => Const.HELLO_RETRIES + 2 + (Const.HELLO_RETRIES - attempt)
  | .who attempt => 1 + (Const.HELLO_RETRIES - attempt)
  | _ => 0

namespace Hello

variable (client : HelloConfig)

/-- `hello` with the deadline of its read. -/
def party : Timed.Party (Hello × Nat) Line where
  listens s := s.1.phase.waits
  deadline s := if s.1.phase.waits = true then some s.2 else none
  read now s text :=
    match step client s.1 (.line text) with
    | some (h, out) => ((h, now + Const.HANDSHAKE_TIMEOUT), out)
    | none => (s, [])
  expire now s :=
    match step client s.1 .timeout with
    | some (h, out) => ((h, now + Const.HANDSHAKE_TIMEOUT), out)
    | none => (s, [])

end Hello

namespace HandleHello

variable (config : ServerConfig) (baud : Nat)

/-- `_handle_hello` with the deadline of its read, which a state report does not move. -/
def party : Timed.Party (HandleHello × Nat) Line where
  listens s := s.1.phase.listens
  deadline s := if s.1.phase.waits = true then some s.2 else none
  read now s text :=
    match step config baud s.1 (.line text) with
    | some (h, out) =>
        ((h, if Sender.isRmb text = true then s.2 else now + Const.HANDSHAKE_TIMEOUT), out)
    | none => (s, [])
  expire now s :=
    match step config baud s.1 .timeout with
    | some (h, out) => ((h, now + Const.HANDSHAKE_TIMEOUT), out)
    | none => (s, [])

end HandleHello

section Exchange

variable (client : HelloConfig) (config : ServerConfig) (baud : Nat)
  (toServer toClient : Nat → Nat) (lost : Pick)

/-- `hello` at the left end and `_handle_hello` at the right one. -/
def knocking : Timed.System (Hello × Nat) (HandleHello × Nat) Line where
  left := Hello.party client
  right := HandleHello.party config baud
  toLeft := { delay := toClient, lost := fun n _ => decide (lost = .toLeft n) }
  toRight := { delay := toServer, lost := fun n _ => decide (lost = .toRight n) }

/-- The client has written its HELLO. -/
def knockStart : World (Hello × Nat) (HandleHello × Nat) Line where
  now := 0
  left := { state := ((Hello.start client).1, Const.HANDSHAKE_TIMEOUT), inbox := .empty }
  right :=
    { state := (HandleHello.start, 0)
      inbox := Wire.empty.puts (knocking client config baud toServer toClient lost).toRight 0
        (Hello.start client).2 }

/-- `hello` has returned, and `_handle_hello` has returned `True`. -/
def Greeted (w : World (Hello × Nat) (HandleHello × Nat) Line) : Prop :=
  (∃ maxblk, w.left.state.1.phase = .returned maxblk) ∧
    w.right.state.1.phase = .returned true

/-- No run goes on without coming to its good end.  There are runs of any length
(`World.exists_exec`). -/
def Survives : Prop :=
  ∃ n, ∀ events w,
    Transition.exec (World.step (knocking client config baud toServer toClient lost))
      (fun _ _ => True) (knockStart client config baud toServer toClient lost) events = some w →
    n ≤ events.length → Greeted w

/-- The lost line is not the IAM.  When it is `WHO? 0`, the HRU that the client repeats for it
is not slower than the first. -/
def Recoverable : Prop :=
  client.receive_buffer ≤ Const.MAX_CAPABILITY ∧ lost ≠ .toRight 2 ∧
    (lost = .toLeft 1 → toServer 2 < toServer 1)

end Exchange

section Parties

variable {client : HelloConfig} {config : ServerConfig} {baud : Nat}

theorem Hello.rank_accept (client : HelloConfig) (h : Hello) (capabilities : Capabilities) :
    (Hello.accept client h capabilities).1.phase.rank ≤ 1 + Const.HELLO_RETRIES := by
  unfold Hello.accept
  dsimp only
  generalize (if decide (capabilities .FLOW = some 1) = true then
    (capabilities .WINDOW).getD 1 else 1) = window_size
  split
  · exact Nat.zero_le _
  · split
    · exact Nat.zero_le _
    · dsimp only
      split <;> simp [HelloPhase.rank]

theorem Hello.rank_answer (client : HelloConfig) (h : Hello) (text : Line) :
    (Hello.onAnswer client h text).1.phase.rank ≤ 1 + Const.HELLO_RETRIES := by
  unfold Hello.onAnswer
  dsimp only
  split
  · exact Nat.zero_le _
  · split
    · exact Nat.zero_le _
    · split
      · exact Nat.zero_le _
      · exact Hello.rank_accept _ _ _

theorem Hello.rank_who (h : Hello) (attempt : Nat) (text : Line) :
    (h.onWho attempt text).1.phase.rank < 1 + (Const.HELLO_RETRIES - attempt) := by
  unfold Hello.onWho
  dsimp only
  split_ifs <;> simp only [Hello.raise, HelloPhase.rank] <;> omega

/-- Every turn of `hello` brings it closer to its end. -/
theorem Hello.rank_step
    {h h' : Hello} {e : GreetEvent} {out : List Line}
    (hstep : Hello.step client h e = some (h', out)) :
    h'.phase.rank < h.phase.rank := by
  cases hphase : h.phase with
  | answer attempt =>
      cases e with
      | timeout =>
          simp only [Hello.step, hphase] at hstep
          split at hstep <;> cases hstep <;> simp only [HelloPhase.rank] <;> omega
      | line text =>
          simp only [Hello.step, hphase, Option.some.injEq] at hstep
          have hle : h'.phase.rank ≤ 1 + Const.HELLO_RETRIES := by
            have hle := Hello.rank_answer client h text
            rwa [hstep] at hle
          simp only [HelloPhase.rank] at hle ⊢
          omega
  | who attempt =>
      cases e with
      | timeout =>
          simp only [Hello.step, hphase] at hstep
          split at hstep <;> cases hstep <;> simp only [HelloPhase.rank] <;> omega
      | line text =>
          simp only [Hello.step, hphase, Option.some.injEq] at hstep
          have hlt := Hello.rank_who h attempt text
          rw [hstep] at hlt
          exact hlt
  | returned maxblk =>
      cases e <;> simp [Hello.step, hphase] at hstep
  | raised exc =>
      cases e <;> simp [Hello.step, hphase] at hstep

theorem HandleHello.rank_next (s : HandleHello) (attempt : Nat) :
    (s.nextHru attempt).1.phase.rank <
      Const.HELLO_RETRIES + 2 + (Const.HELLO_RETRIES - attempt) := by
  unfold HandleHello.nextHru
  split_ifs <;> simp only [GreetPhase.rank] <;> omega

theorem HandleHello.rank_connected (s : HandleHello) :
    s.connected.1.phase.rank ≤ 1 + Const.HELLO_RETRIES := by
  unfold HandleHello.connected
  split_ifs <;> simp [GreetPhase.rank]

theorem HandleHello.rank_hru (s : HandleHello) (attempt : Nat) (text : Line) :
    (s.onHru attempt text).1.phase.rank <
      Const.HELLO_RETRIES + 2 + (Const.HELLO_RETRIES - attempt) := by
  unfold HandleHello.onHru
  split_ifs
  · exact HandleHello.rank_next _ _
  · have hle := HandleHello.rank_connected s
    omega
  · have hle := HandleHello.rank_connected { s with pending := some text }
    omega
  · simp only [HandleHello.refuse, GreetPhase.rank]
    omega

theorem HandleHello.rank_iam (s : HandleHello) (attempt : Nat) (text : Line) :
    (s.onIam attempt text).1.phase.rank < 1 + (Const.HELLO_RETRIES - attempt) := by
  unfold HandleHello.onIam
  dsimp only
  split_ifs <;> simp only [HandleHello.raise, GreetPhase.rank] <;> omega

theorem HandleHello.rank_first (s : HandleHello) (text : Line) :
    (HandleHello.onFirst config baud s text).1.phase.rank < 2 * Const.HELLO_RETRIES + 3 := by
  unfold HandleHello.onFirst
  dsimp only
  split
  · simp [HandleHello.refuse, GreetPhase.rank]
  · split
    · simp [HandleHello.refuse, GreetPhase.rank]
    · split
      · simp [HandleHello.raise, GreetPhase.rank]
      · simp [GreetPhase.rank, Const.HELLO_RETRIES]

/-- Every turn of the server but a state report brings it closer to the end. -/
theorem HandleHello.rank_step
    {s s' : HandleHello} {e : GreetEvent} {out : List Line}
    (hrmb : ∀ text, e = .line text → Sender.isRmb text = false)
    (hstep : HandleHello.step config baud s e = some (s', out)) :
    s'.phase.rank < s.phase.rank := by
  cases e with
  | timeout =>
      cases hphase : s.phase with
      | idle =>
          simp only [HandleHello.step, hphase, Option.some.injEq] at hstep
          rw [show s' = _ from (congrArg Prod.fst hstep).symm]
          simp [HandleHello.raise, GreetPhase.rank]
      | hru attempt =>
          simp only [HandleHello.step, hphase, Option.some.injEq,
            HandleHello.onHruTimeout] at hstep
          split at hstep
          · rw [show s' = _ from (congrArg Prod.fst hstep).symm]
            simp only [HandleHello.refuse, GreetPhase.rank]
            omega
          · rw [show s' = _ from (congrArg Prod.fst hstep).symm]
            exact HandleHello.rank_next _ _
      | who attempt =>
          simp only [HandleHello.step, hphase, Option.some.injEq] at hstep
          rw [show s' = _ from (congrArg Prod.fst hstep).symm]
          simp only [HandleHello.raise, GreetPhase.rank]
          omega
      | returned ok => simp [HandleHello.step, hphase] at hstep
      | raised exc => simp [HandleHello.step, hphase] at hstep
  | line text =>
      have hrmb := hrmb text rfl
      cases hphase : s.phase with
      | idle =>
          simp only [HandleHello.step, hphase, hrmb, Bool.false_eq_true, if_false,
            Option.some.injEq] at hstep
          rw [show s' = _ from (congrArg Prod.fst hstep).symm]
          exact HandleHello.rank_first _ _
      | hru attempt =>
          simp only [HandleHello.step, hphase, hrmb, Bool.false_eq_true, if_false,
            Option.some.injEq] at hstep
          rw [show s' = _ from (congrArg Prod.fst hstep).symm]
          exact HandleHello.rank_hru _ _ _
      | who attempt =>
          simp only [HandleHello.step, hphase, hrmb, Bool.false_eq_true, if_false,
            Option.some.injEq] at hstep
          rw [show s' = _ from (congrArg Prod.fst hstep).symm]
          exact HandleHello.rank_iam _ _ _
      | returned ok => simp [HandleHello.step, hphase] at hstep
      | raised exc => simp [HandleHello.step, hphase] at hstep

/-- A party that keeps its deadline only where it stays as it is. -/
theorem Hello.party_steady (client : HelloConfig) :
    (Hello.party client).Steady Const.HANDSHAKE_TIMEOUT where
  hears now s h := by
    simp only [Hello.party] at h ⊢
    split at h
    · rename_i hstep
      cases hphase : s.1.phase with
      | returned maxblk => simp [Hello.step, hphase] at hstep
      | raised exc => simp [Hello.step, hphase] at hstep
      | _ => rfl
    · exact h
  read now s m d h := by
    simp only [Hello.party] at h ⊢
    split at h
    · split at h
      · obtain rfl := Option.some.inj h
        exact Or.inr ⟨Nat.le_add_right _ _, le_rfl⟩
      · cases h
    · exact Or.inl h
  expire now s d h := by
    simp only [Hello.party] at h ⊢
    split at h
    · split at h
      · obtain rfl := Option.some.inj h
        exact Or.inr ⟨Nat.le_add_right _ _, le_rfl⟩
      · cases h
    · exact Or.inl h

/-- A state report leaves the server as it is. -/
theorem HandleHello.step_rmb
    {s s' : HandleHello} {text : Line} {out : List Line} (hrmb : Sender.isRmb text = true)
    (hstep : HandleHello.step config baud s (.line text) = some (s', out)) :
    s' = s := by
  cases hphase : s.phase with
  | returned ok => simp [HandleHello.step, hphase] at hstep
  | raised exc => simp [HandleHello.step, hphase] at hstep
  | _ =>
      simp only [HandleHello.step, hphase, hrmb, if_true, Option.some.injEq, Prod.mk.injEq]
        at hstep
      exact hstep.1.symm

theorem HandleHello.party_steady (config : ServerConfig) (baud : Nat) :
    (HandleHello.party config baud).Steady Const.HANDSHAKE_TIMEOUT where
  hears now s h := by
    simp only [HandleHello.party] at h ⊢
    split at h
    · rename_i hstep
      cases hphase : s.1.phase with
      | returned ok => simp [HandleHello.step, hphase] at hstep
      | raised exc => simp [HandleHello.step, hphase] at hstep
      | _ => rfl
    · exact h
  read now s m d h := by
    simp only [HandleHello.party] at h ⊢
    split at h
    · rename_i h' out hstep
      dsimp only at h
      by_cases hrmb : Sender.isRmb m = true
      · rw [HandleHello.step_rmb hrmb hstep, if_pos hrmb] at h
        exact Or.inl h
      · rw [if_neg hrmb] at h
        split at h
        · obtain rfl := Option.some.inj h
          exact Or.inr ⟨Nat.le_add_right _ _, le_rfl⟩
        · cases h
    · exact Or.inl h
  expire now s d h := by
    simp only [HandleHello.party] at h ⊢
    split at h
    · split at h
      · obtain rfl := Option.some.inj h
        exact Or.inr ⟨Nat.le_add_right _ _, le_rfl⟩
      · cases h
    · exact Or.inl h

/-- Whatever `hello` does brings it closer to its end. -/
theorem Hello.rank_act
    {now : Nat} {a : Act} {s s' : Seat (Hello × Nat) Line} {out : List Line}
    (hact : s.act (Hello.party client) now a = some (s', out)) :
    s'.state.1.phase.rank < s.state.1.phase.rank := by
  cases a with
  | read =>
      obtain ⟨due, text, queue, -, hlistens, -, rfl, -⟩ := Seat.act_read hact
      simp only [Hello.party] at hlistens ⊢
      split
      · rename_i hstep
        exact Hello.rank_step hstep
      · rename_i hstep
        cases hphase : s.state.1.phase with
        | answer attempt => simp [Hello.step, hphase] at hstep
        | who attempt => simp [Hello.step, hphase] at hstep
        | returned maxblk => rw [hphase] at hlistens; cases hlistens
        | raised exc => rw [hphase] at hlistens; cases hlistens
  | expire =>
      obtain ⟨d, hd, -, rfl, -⟩ := Seat.act_expire hact
      simp only [Hello.party] at hd ⊢
      split
      · rename_i hstep
        exact Hello.rank_step hstep
      · rename_i hstep
        cases hphase : s.state.1.phase with
        | answer attempt =>
            simp only [Hello.step, hphase] at hstep
            split at hstep <;> cases hstep
        | who attempt =>
            simp only [Hello.step, hphase] at hstep
            split at hstep <;> cases hstep
        | returned maxblk => rw [hphase] at hd; cases hd
        | raised exc => rw [hphase] at hd; cases hd

/-- Whatever the server does but with a state report brings it closer to the end. -/
theorem HandleHello.rank_act
    {now : Nat} {a : Act} {s s' : Seat (HandleHello × Nat) Line} {out : List Line}
    (hplain : s.state.1.phase.listens = true →
      ∀ x ∈ s.inbox.queue, Sender.isRmb x.2 = false)
    (hact : s.act (HandleHello.party config baud) now a = some (s', out)) :
    s'.state.1.phase.rank < s.state.1.phase.rank := by
  cases a with
  | read =>
      obtain ⟨due, text, queue, hqueue, hlistens, -, rfl, -⟩ := Seat.act_read hact
      have hrmb : Sender.isRmb text = false :=
        hplain hlistens (due, text) (by
          rw [hqueue]
          exact List.mem_cons_self)
      simp only [HandleHello.party] at hlistens ⊢
      split
      · rename_i hstep
        exact HandleHello.rank_step (fun text' h => by cases h; exact hrmb) hstep
      · rename_i hstep
        cases hphase : s.state.1.phase with
        | returned ok => rw [hphase] at hlistens; cases hlistens
        | raised exc => rw [hphase] at hlistens; cases hlistens
        | _ => simp [HandleHello.step, hphase, hrmb] at hstep
  | expire =>
      obtain ⟨d, hd, -, rfl, -⟩ := Seat.act_expire hact
      simp only [HandleHello.party] at hd ⊢
      split
      · rename_i hstep
        exact HandleHello.rank_step (fun text h => by cases h) hstep
      · rename_i hstep
        cases hphase : s.state.1.phase with
        | hru attempt => simp [HandleHello.step, hphase] at hstep
        | who attempt => simp [HandleHello.step, hphase] at hstep
        | _ => rw [hphase] at hd; cases hd

end Parties

section Ends

variable {client : HelloConfig} {config : ServerConfig} {baud : Nat}
  {toServer toClient : Nat → Nat} {lost : Pick}

/-- An end of `hello` that is through does nothing more. -/
theorem Hello.act_returned
    {now maxblk : Nat} {a : Act} {s : Seat (Hello × Nat) Line}
    (h : s.state.1.phase = .returned maxblk) :
    s.act (Hello.party client) now a = none := by
  cases a with
  | read =>
      cases hqueue : s.inbox.queue with
      | nil => simp [Seat.act, hqueue]
      | cons x queue => simp [Seat.act, hqueue, Hello.party, h, HelloPhase.waits]
  | expire => simp [Seat.act, Hello.party, h, HelloPhase.waits]

/-- A server that is through does nothing more. -/
theorem HandleHello.act_over
    {now : Nat} {a : Act} {s : Seat (HandleHello × Nat) Line}
    (h : s.state.1.phase.listens = false) :
    s.act (HandleHello.party config baud) now a = none := by
  have hwaits : s.state.1.phase.waits = false := by
    by_contra hwaits
    cases hphase : s.state.1.phase <;> simp_all [GreetPhase.waits, GreetPhase.listens]
  cases a with
  | read =>
      cases hqueue : s.inbox.queue with
      | nil => simp [Seat.act, hqueue]
      | cons x queue => simp [Seat.act, hqueue, HandleHello.party, h]
  | expire => simp [Seat.act, HandleHello.party, hwaits]

/-- A greeting that has come to its good end stays there. -/
theorem Greeted.step
    {w w' : World (Hello × Nat) (HandleHello × Nat) Line} {e : Timed.Event} (h : Greeted w)
    (hstep : w.step (knocking client config baud toServer toClient lost) e = some w') :
    Greeted w' := by
  obtain ⟨⟨maxblk, hleft⟩, hright⟩ := h
  cases e with
  | tick =>
      obtain ⟨_, _, rfl⟩ := World.step_tick hstep
      exact ⟨⟨maxblk, hleft⟩, hright⟩
  | left a =>
      obtain ⟨s, out, hact, rfl⟩ := World.step_left hstep
      cases (Hello.act_returned hleft).symm.trans hact
  | right a =>
      obtain ⟨s, out, hact, rfl⟩ := World.step_right hstep
      cases (HandleHello.act_over (by rw [hright]; rfl)).symm.trans hact

/-- A server that has given up stays so. -/
theorem raised_step
    {w w' : World (Hello × Nat) (HandleHello × Nat) Line} {e : Timed.Event}
    (h : ∃ exc, w.right.state.1.phase = .raised exc)
    (hstep : w.step (knocking client config baud toServer toClient lost) e = some w') :
    ∃ exc, w'.right.state.1.phase = .raised exc := by
  obtain ⟨exc, hright⟩ := h
  cases e with
  | tick =>
      obtain ⟨_, _, rfl⟩ := World.step_tick hstep
      exact ⟨exc, hright⟩
  | left a =>
      obtain ⟨s, out, hact, rfl⟩ := World.step_left hstep
      exact ⟨exc, hright⟩
  | right a =>
      obtain ⟨s, out, hact, rfl⟩ := World.step_right hstep
      cases (HandleHello.act_over (by rw [hright]; rfl)).symm.trans hact

/-- A greeting in which the server can give up is not survived. -/
theorem not_survives_of_raised
    {w : World (Hello × Nat) (HandleHello × Nat) Line}
    (hw : World.Leads (knocking client config baud toServer toClient lost)
      (knockStart client config baud toServer toClient lost) w)
    (h : ∃ exc, w.right.state.1.phase = .raised exc) :
    ¬ Survives client config baud toServer toClient lost := by
  rintro ⟨n, hn⟩
  obtain ⟨events, hevents⟩ := Transition.Steps.exists_exec hw
  obtain ⟨more, w', hlength, hmore⟩ :=
    World.exists_exec (knocking client config baud toServer toClient lost) n w
  have hgreeted := hn (events ++ more) w' (Transition.exec_append hevents hmore) (by
    rw [List.length_append]
    omega)
  obtain ⟨exc, hraised⟩ := Transition.Steps.invariant
    (fun w : World (Hello × Nat) (HandleHello × Nat) Line =>
      ∃ exc, w.right.state.1.phase = .raised exc)
    (fun _ _ _ hi _ hs => raised_step hi hs) (Transition.Steps.of_exec hmore) h
  rw [hgreeted.2] at hraised
  cases hraised

end Ends

end Pcutp
