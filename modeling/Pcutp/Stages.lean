import Pcutp.Genuine

/-!
# What is in flight in each stage of the sender

On a line that keeps the order of what it carries, what is in flight is tied to
what the sender waits for.  `StageInv` says how: while the window is open the
receiver stands between `base` and `next_seq`; while a barrier or a reset is
out, the answers to it and what follows them form an epoch of the pipeline.

The receiver is seen from the line only: `Turned` lists how its position and
its gap counter change with each command, and which reply it sends.
-/

namespace Pcutp

open Channel (Epoch)

section Receiver

/-- A turn of the receiver, seen from the line: the expected block and the gap counter
before and after it, and the replies. -/
inductive Turned (blocks : Nat) : Command → Nat × Nat → Nat × Nat → List Reply → Prop
  | ayt (t e d : Nat) : Turned blocks (.ayt t) (e, d) (e, d) [.here (dec t) e]
  | rst (t e d : Nat) : Turned blocks (.rst t) (e, d) (0, 0) [.rstAck (dec t)]
  | barrier (t e d : Nat) : Turned blocks (.barrier t) (e, d) (e, d) [.resume (dec t) e]
  | silent (c : Command) (e d : Nat) : Turned blocks c (e, d) (e, d) []
  | answer (c : Command) (e d : Nat) (reply : Reply)
      (hprobe : ∀ t, c ≠ .ayt t ∧ c ≠ .rst t ∧ c ≠ .barrier t)
      (hreply : reply = .ready ∨ ∃ w, reply = .ok w ∨ reply = .failCrc w ∨ reply = .err w) :
      Turned blocks c (e, d) (e, d) [reply]
  | nak (c : Command) (seq e d : Nat) (why : Line) (hseq : c.seq? = some seq)
      (hdamaged : ¬ c.Intact) :
      Turned blocks c (e, d) (e, d) [.nak e why]
  | old (c : Command) (seq e d : Nat) (hseq : c.seq? = some seq) (hlt : seq < e) :
      Turned blocks c (e, d) (e, d) [.ack (e - 1)]
  | gap (c : Command) (seq e d : Nat) (hseq : c.seq? = some seq) (hlt : e < seq)
      (hdrops : d + 1 < Const.MAX_DROPS) :
      Turned blocks c (e, d) (e, d + 1) [.drop e (dec seq)]
  | restart (c : Command) (seq e d : Nat) (hseq : c.seq? = some seq) (hlt : e < seq)
      (hdrops : Const.MAX_DROPS ≤ d + 1) :
      Turned blocks c (e, d) (0, 0) [.rst]
  | abort (c : Command) (seq e d : Nat) (hseq : c.seq? = some seq) (hlt : e < seq)
      (hdrops : Const.MAX_DROPS ≤ d + 1) :
      Turned blocks c (e, d) (e, d + 1) [.err "RETRY".toList]
  | store (c : Command) (e d : Nat) (hseq : c.seq? = some e) (hlt : e < blocks) :
      Turned blocks c (e, d) (e + 1, 0) [.ack e]

/-- Every turn of `_receive` is a turn of the receiver seen from the line. -/
theorem turned_of_turn
    {cfg : ClientConfig} {m : AcceptedMeta cfg} {job : Job} {r r' : Recv} {c : Command}
    {effects : List Effect} (hflow : cfg.flow = true)
    (h : Recv.Turn m job r c r' effects) :
    Turned job.blocks c (r.expected, r.drops) (r'.expected, r'.drops) (sends effects) := by
  cases h with
  | ayt t => exact .ayt t _ _
  | rst t => exact .rst t _ _
  | barrier t => exact .barrier t _ _
  | early => exact .silent _ _ _
  | refused => exact .answer _ _ _ _ (by simp) (Or.inr ⟨_, Or.inr (Or.inl rfl)⟩)
  | verified => exact .answer _ _ _ _ (by simp) (Or.inr ⟨_, Or.inl rfl⟩)
  | raised c exc hframe hc => exact .silent c _ _
  | frame seq c hc hkind =>
      have hseq := hc.isFrame.2
      cases hkind with
      | nak why hwhy hdamaged => exact .nak c seq _ _ why hseq hdamaged
      | old hlt =>
          rw [if_pos hflow]
          exact .old c seq _ _ hseq hlt
      | gap hlt =>
          simp only [Recv.onGap]
          split
          · rename_i hdrops
            split
            · exact .abort c seq _ _ hseq hlt hdrops
            · exact .restart c seq _ _ hseq hlt hdrops
          · rename_i hdrops
            exact .gap c seq _ _ hseq hlt (Nat.not_le.mp hdrops)
      | store heq =>
          subst heq
          have hout : sends (r.onBlock m r.expected (job.chunk r.expected)).2 =
              [.ack r.expected] := by
            simp only [Recv.onBlock]
            split <;> rfl
          rw [hout]
          exact .store c _ _ hseq hc.lt_blocks

end Receiver

namespace Client

variable {cfg : ClientConfig}

/-- The block the receiver waits for. -/
def expected (client : Client cfg) : Nat :=
  match client with
  | .receiving _ r => r.expected
  | _ => 0

/-- The gaps the receiver has counted. -/
def drops (client : Client cfg) : Nat :=
  match client with
  | .receiving _ r => r.drops
  | _ => 0

end Client

section Stage

/-- The window is open: nothing in flight contradicts the sender's counters. -/
structure Aligned (s : Sender) (blocks e : Nat) (commands : List Command)
    (replies : List Reply) : Prop where
  base_le : s.base ≤ e
  le_next : e ≤ s.next_seq
  next_le : s.next_seq ≤ blocks
  frames : ∀ c ∈ commands, ∀ seq, c.seq? = some seq → seq < s.next_seq
  noRst : ∀ t, Command.rst t ∉ commands
  noRstAck : ∀ w, Reply.rstAck w ∉ replies
  acks : ∀ a, Reply.ack a ∈ replies → a < e

/-- A barrier is out: once a RESUME for it has come back, only barriers are on the way. -/
structure Draining (id e : Nat) (commands : List Command) (replies : List Reply) : Prop where
  epoch : Epoch (fun r => ∃ n, r = Reply.resume (dec id) n) (fun c => c = Command.barrier id)
    replies commands
  resume : ∀ n, Reply.resume (dec id) n ∈ replies → n = e

/-- An RST request is out: once it was acknowledged, the receiver is at the start and only
such requests are on the way. -/
structure Resetting (s : Sender) (blocks e : Nat) (commands : List Command)
    (replies : List Reply) : Prop where
  le_next : e ≤ s.next_seq
  next_le : s.next_seq ≤ blocks
  frames : ∀ c ∈ commands, ∀ seq, c.seq? = some seq → seq < s.next_seq
  rst : ∀ t, Command.rst t ∈ commands → t = s.barrier_id
  rstAck : ∀ w, Reply.rstAck w ∈ replies → w = dec s.barrier_id
  epoch : Epoch (fun r => r = Reply.rstAck (dec s.barrier_id))
    (fun c => c = Command.rst s.barrier_id) replies commands
  zero : Reply.rstAck (dec s.barrier_id) ∈ replies → e = 0

/-- The reset was acknowledged and a barrier follows it: only these two are on the way. -/
structure Restarting (s : Sender) (e : Nat) (commands : List Command)
    (replies : List Reply) : Prop where
  zero : e = 0
  command : ∀ c ∈ commands,
    (∃ t, c = .rst t ∧ s.reset_token = some (dec t)) ∨ c = .barrier s.barrier_id
  reply : ∀ r ∈ replies,
    (∃ w, r = .rstAck w ∧ s.reset_token = some w) ∨ r = .resume (dec s.barrier_id) 0
  epoch : Epoch (fun r => ∃ n, r = Reply.resume (dec s.barrier_id) n)
    (fun c => c = Command.barrier s.barrier_id) replies commands

/-- What holds of the line in the stage the sender is in. -/
def StageInv (s : Sender) (blocks e : Nat) (commands : List Command) (replies : List Reply) :
    Prop :=
  match s.phase with
  | .rst _ => Resetting s blocks e commands replies
  | .barrier true _ => Restarting s e commands replies
  | .barrier false _ =>
      Aligned s blocks e commands replies ∧ Draining s.barrier_id e commands replies
  | .block _ _ => True
  | .returned _ => True
  | .raised _ => True
  | _ => Aligned s blocks e commands replies

/-- The tokens of a command and of a reply are numbers the sender has used. -/
def Command.TokenLe (id : Nat) : Command → Prop
  | .ayt t => t ≤ id
  | .rst t => t ≤ id
  | .barrier t => t ≤ id
  | _ => True

def Reply.TokenLe (id : Nat) : Reply → Prop
  | .here w _ => ∃ t ≤ id, w = dec t
  | .rstAck w => ∃ t ≤ id, w = dec t
  | .resume w _ => ∃ t ≤ id, w = dec t
  | _ => True

end Stage

section Faults

/-- A line that keeps the order has lost, repeated or damaged something. -/
structure Weathered (commands : List Command) (replies : List Reply)
    (commands' : List Command) (replies' : List Reply) : Prop where
  command : ∀ c ∈ commands', c ∈ commands ∨
    ∃ c₀ ∈ commands, c₀.isFrame = true ∧ ∃ bytes, c = c₀.withPayload bytes
  reply : ∀ r ∈ replies', r ∈ replies
  epoch : ∀ (newFront : Reply → Prop) (newBack : Command → Prop),
    (∀ c, c.isFrame = true → ∀ bytes, newBack (c.withPayload bytes) ↔ newBack c) →
      Epoch newFront newBack replies commands → Epoch newFront newBack replies' commands'

variable {commands commands' : List Command} {replies replies' : List Reply}

/-- A damaged frame is a frame of the same block, and no control line. -/
theorem withPayload_control
    {c : Command} (hframe : c.isFrame = true) (bytes : Bytes) :
    (c.withPayload bytes).isFrame = true ∧ (c.withPayload bytes).seq? = c.seq? := by
  cases c <;> first | exact ⟨rfl, rfl⟩ | cases hframe

theorem Weathered.pop
    {r : Reply} (h : replies = r :: replies') :
    Weathered commands replies commands replies' where
  command := fun _ hc => Or.inl hc
  reply := fun _ hr => h ▸ List.mem_cons_of_mem _ hr
  epoch := fun _ _ _ hepoch => (h ▸ hepoch : Epoch _ _ (r :: replies') _).pop

theorem Weathered.seq
    (h : Weathered commands replies commands' replies') {bound : Nat}
    (hframes : ∀ c ∈ commands, ∀ seq, c.seq? = some seq → seq < bound) :
    ∀ c ∈ commands', ∀ seq, c.seq? = some seq → seq < bound := by
  intro c hc seq hseq
  rcases h.command c hc with hc | ⟨c₀, hc₀, hframe, bytes, rfl⟩
  · exact hframes c hc seq hseq
  · rw [(withPayload_control hframe bytes).2] at hseq
    exact hframes c₀ hc₀ seq hseq

theorem Weathered.control
    (h : Weathered commands replies commands' replies') {c : Command}
    (hframe : c.isFrame = false) (hc : c ∈ commands') :
    c ∈ commands := by
  rcases h.command c hc with hc | ⟨c₀, _, hframe₀, bytes, rfl⟩
  · exact hc
  · rw [(withPayload_control hframe₀ bytes).1] at hframe
    cases hframe

theorem control_epoch
    {b : Command} (hb : b.isFrame = false) {c : Command} (hframe : c.isFrame = true)
    (bytes : Bytes) :
    c.withPayload bytes = b ↔ c = b := by
  constructor
  · rintro rfl
    rw [(withPayload_control hframe bytes).1] at hb
    cases hb
  · rintro rfl
    rw [hframe] at hb
    cases hb

/-- What a stage promises survives the line. -/
theorem StageInv.weathered
    {s : Sender} {blocks e : Nat}
    (hs : StageInv s blocks e commands replies)
    (h : Weathered commands replies commands' replies') :
    StageInv s blocks e commands' replies' := by
  have haligned : Aligned s blocks e commands replies → Aligned s blocks e commands' replies' :=
    fun ha =>
      { ha with
        frames := h.seq ha.frames
        noRst := fun t hmem => ha.noRst t (h.control rfl hmem)
        noRstAck := fun w hmem => ha.noRstAck w (h.reply _ hmem)
        acks := fun a hmem => ha.acks a (h.reply _ hmem) }
  have hbarrier : ∀ id, ∀ c : Command, c.isFrame = true → ∀ bytes,
      c.withPayload bytes = .barrier id ↔ c = .barrier id :=
    fun id c hframe bytes => control_epoch rfl hframe bytes
  have hrst : ∀ id, ∀ c : Command, c.isFrame = true → ∀ bytes,
      c.withPayload bytes = .rst id ↔ c = .rst id :=
    fun id c hframe bytes => control_epoch rfl hframe bytes
  unfold StageInv at hs ⊢
  split at hs
  · exact
      { hs with
        frames := h.seq hs.frames
        rst := fun t hmem => hs.rst t (h.control rfl hmem)
        rstAck := fun w hmem => hs.rstAck w (h.reply _ hmem)
        epoch := h.epoch _ _ (hrst _) hs.epoch
        zero := fun hmem => hs.zero (h.reply _ hmem) }
  · refine
      { zero := hs.zero
        command := fun c hc => ?_
        reply := fun r hr => hs.reply r (h.reply r hr)
        epoch := h.epoch _ _ (hbarrier _) hs.epoch }
    rcases h.command c hc with hc | ⟨c₀, hc₀, hframe, _⟩
    · exact hs.command c hc
    · rcases hs.command c₀ hc₀ with ⟨t, rfl, _⟩ | rfl <;> cases hframe
  · exact ⟨haligned hs.1,
      { epoch := h.epoch _ _ (hbarrier _) hs.2.epoch
        resume := fun n hmem => hs.2.resume n (h.reply _ hmem) }⟩
  · trivial
  · trivial
  · trivial
  · exact haligned hs

end Faults

section Turns

variable {blocks e d e' d' : Nat} {c : Command} {out : List Reply}

theorem Turned.length_le
    (h : Turned blocks c (e, d) (e', d') out) :
    out.length ≤ 1 := by
  cases h <;> simp

theorem ne_of_seq
    {b : Command} {seq : Nat} (hseq : c.seq? = some seq) (hb : b.seq? = none) :
    c ≠ b := by
  rintro rfl
  rw [hb] at hseq
  cases hseq

/-- A RESUME for a token answers a barrier with that token. -/
theorem Turned.resume_iff
    (h : Turned blocks c (e, d) (e', d') out) (id : Nat) :
    ∀ r ∈ out, (∃ n, r = .resume (dec id) n) ↔ c = .barrier id := by
  have hframe : ∀ {seq}, c.seq? = some seq → c ≠ .barrier id := fun hseq => ne_of_seq hseq rfl
  cases h with
  | barrier t => simp
  | answer c e d reply hprobe hreply =>
      rcases hreply with rfl | ⟨w, rfl | rfl | rfl⟩ <;> simp [hprobe]
  | nak c seq e d why hseq => simp [hframe hseq]
  | old c seq e d hseq => simp [hframe hseq]
  | gap c seq e d hseq => simp [hframe hseq]
  | restart c seq e d hseq => simp [hframe hseq]
  | abort c seq e d hseq => simp [hframe hseq]
  | store c e d hseq => simp [hframe hseq]
  | _ => simp

/-- An RST-ACK for a token answers a request with that token. -/
theorem Turned.rstAck_iff
    (h : Turned blocks c (e, d) (e', d') out) (id : Nat) :
    ∀ r ∈ out, r = .rstAck (dec id) ↔ c = .rst id := by
  have hframe : ∀ {seq}, c.seq? = some seq → c ≠ .rst id := fun hseq => ne_of_seq hseq rfl
  cases h with
  | rst t => simp
  | answer c e d reply hprobe hreply =>
      rcases hreply with rfl | ⟨w, rfl | rfl | rfl⟩ <;> simp [hprobe]
  | nak c seq e d why hseq => simp [hframe hseq]
  | old c seq e d hseq => simp [hframe hseq]
  | gap c seq e d hseq => simp [hframe hseq]
  | restart c seq e d hseq => simp [hframe hseq]
  | abort c seq e d hseq => simp [hframe hseq]
  | store c e d hseq => simp [hframe hseq]
  | _ => simp

/-- Without a restart of its own, the receiver moves only by storing a block or by an RST. -/
theorem Turned.moves
    (h : Turned blocks c (e, d) (e', d') out) (hnone : Reply.rst ∉ out) :
    e' = e ∨ (∃ t, c = .rst t ∧ e' = 0) ∨ (c.seq? = some e ∧ e < blocks ∧ e' = e + 1) := by
  cases h with
  | rst t => exact Or.inr (Or.inl ⟨t, rfl, rfl⟩)
  | store c e d hseq hlt => exact Or.inr (Or.inr ⟨hseq, hlt, rfl⟩)
  | restart => simp at hnone
  | _ => exact Or.inl rfl

variable {s : Sender} {commands : List Command} {replies : List Reply}

theorem Aligned.turned
    (hs : Aligned s blocks e (c :: commands) replies)
    (h : Turned blocks c (e, d) (e', d') out) (hnone : Reply.rst ∉ out) :
    Aligned s blocks e' commands (replies ++ out) := by
  have hrst : ∀ t, c ≠ .rst t := by
    rintro t rfl
    exact hs.noRst t List.mem_cons_self
  have hmoves : e ≤ e' ∧ e' ≤ s.next_seq := by
    rcases h.moves hnone with rfl | ⟨t, heq, _⟩ | ⟨hseq, _, rfl⟩
    · exact ⟨Nat.le_refl _, hs.le_next⟩
    · exact absurd heq (hrst t)
    · exact ⟨Nat.le_succ _, hs.frames c List.mem_cons_self e hseq⟩
  refine
    { base_le := hs.base_le.trans hmoves.1
      le_next := hmoves.2
      next_le := hs.next_le
      frames := fun c' hc' => hs.frames c' (List.mem_cons_of_mem _ hc')
      noRst := fun t hmem => hs.noRst t (List.mem_cons_of_mem _ hmem)
      noRstAck := fun w hmem => ?_
      acks := fun a hmem => ?_ }
  · rcases List.mem_append.mp hmem with hmem | hmem
    · exact hs.noRstAck w hmem
    · cases h with
      | rst t => exact hrst t rfl
      | answer c e d reply hprobe hreply =>
          rcases hreply with rfl | ⟨w, rfl | rfl | rfl⟩ <;> simp at hmem
      | _ => simp at hmem
  · rcases List.mem_append.mp hmem with hmem | hmem
    · exact (hs.acks a hmem).trans_le hmoves.1
    · cases h with
      | answer c e d reply hprobe hreply =>
          rcases hreply with rfl | ⟨w, rfl | rfl | rfl⟩ <;> simp at hmem
      | old c seq e d hseq hlt =>
          simp at hmem
          omega
      | store c e d hseq hlt =>
          simp at hmem
          omega
      | _ => simp at hmem

theorem Draining.turned
    {id : Nat} (hs : Draining id e (c :: commands) replies) (hrst : ∀ t, c ≠ .rst t)
    (h : Turned blocks c (e, d) (e', d') out) (hnone : Reply.rst ∉ out) :
    Draining id e' commands (replies ++ out) := by
  refine ⟨hs.epoch.turn h.length_le (h.resume_iff id), fun n hmem => ?_⟩
  -- An answer to the barrier is the last thing that can change the receiver's position.
  have hbarrier : c = .barrier id := by
    rcases List.mem_append.mp hmem with hmem | hmem
    · exact hs.epoch.back_of_mem hmem ⟨n, rfl⟩ c List.mem_cons_self
    · exact (h.resume_iff id _ hmem).mp ⟨n, rfl⟩
  subst hbarrier
  cases h with
  | barrier t =>
      rcases List.mem_append.mp hmem with hmem | hmem
      · exact hs.resume n hmem
      · simpa using hmem
  | silent =>
      rw [List.append_nil] at hmem
      exact hs.resume n hmem
  | answer c e d reply hprobe => exact absurd rfl (hprobe id).2.2
  | _ => simp_all [Command.seq?]

theorem Resetting.turned
    (hs : Resetting s blocks e (c :: commands) replies)
    (h : Turned blocks c (e, d) (e', d') out) (hnone : Reply.rst ∉ out) :
    Resetting s blocks e' commands (replies ++ out) := by
  have hmoves : e' ≤ s.next_seq := by
    rcases h.moves hnone with rfl | ⟨t, _, rfl⟩ | ⟨hseq, _, rfl⟩
    · exact hs.le_next
    · exact Nat.zero_le _
    · exact hs.frames c List.mem_cons_self e hseq
  refine
    { le_next := hmoves
      next_le := hs.next_le
      frames := fun c' hc' => hs.frames c' (List.mem_cons_of_mem _ hc')
      rst := fun t hmem => hs.rst t (List.mem_cons_of_mem _ hmem)
      rstAck := fun w hmem => ?_
      epoch := hs.epoch.turn h.length_le (h.rstAck_iff s.barrier_id)
      zero := fun hmem => ?_ }
  · rcases List.mem_append.mp hmem with hmem | hmem
    · exact hs.rstAck w hmem
    · cases h with
      | rst t =>
          obtain rfl := hs.rst t List.mem_cons_self
          simpa using hmem
      | answer c e d reply hprobe hreply =>
          rcases hreply with rfl | ⟨w, rfl | rfl | rfl⟩ <;> simp at hmem
      | _ => simp at hmem
  · have hrst : c = .rst s.barrier_id := by
      rcases List.mem_append.mp hmem with hmem | hmem
      · exact hs.epoch.back_of_mem hmem rfl c List.mem_cons_self
      · exact (h.rstAck_iff s.barrier_id _ hmem).mp rfl
    subst hrst
    cases h with
    | rst t => rfl
    | silent =>
        rw [List.append_nil] at hmem
        exact hs.zero hmem
    | answer c e d reply hprobe => exact absurd rfl (hprobe s.barrier_id).2.1
    | _ => simp_all [Command.seq?]

theorem Restarting.turned
    (hs : Restarting s e (c :: commands) replies)
    (h : Turned blocks c (e, d) (e', d') out) :
    Restarting s e' commands (replies ++ out) := by
  have hcommand := hs.command c List.mem_cons_self
  have hturn : e' = 0 ∧ ∀ r ∈ out,
      (∃ w, r = .rstAck w ∧ s.reset_token = some w) ∨ r = .resume (dec s.barrier_id) 0 := by
    have hzero := hs.zero
    subst hzero
    rcases hcommand with ⟨t, rfl, htoken⟩ | rfl
    · cases h with
      | rst t => exact ⟨rfl, by simpa using htoken⟩
      | silent => exact ⟨rfl, by simp⟩
      | answer c e d reply hprobe => exact absurd rfl (hprobe t).2.1
      | _ => simp_all [Command.seq?]
    · cases h with
      | barrier t => exact ⟨rfl, by simp⟩
      | silent => exact ⟨rfl, by simp⟩
      | answer c e d reply hprobe => exact absurd rfl (hprobe s.barrier_id).2.2
      | _ => simp_all [Command.seq?]
  exact
    { zero := hturn.1
      command := fun c' hc' => hs.command c' (List.mem_cons_of_mem _ hc')
      reply := fun r hr => (List.mem_append.mp hr).elim (hs.reply r) (hturn.2 r)
      epoch := hs.epoch.turn h.length_le (h.resume_iff s.barrier_id) }

/-- A turn of the receiver keeps what the stage promises. -/
theorem StageInv.turned
    (hs : StageInv s blocks e (c :: commands) replies)
    (h : Turned blocks c (e, d) (e', d') out) (hnone : Reply.rst ∉ out) :
    StageInv s blocks e' commands (replies ++ out) := by
  unfold StageInv at hs ⊢
  split at hs
  · exact hs.turned h hnone
  · exact hs.turned h
  · refine ⟨hs.1.turned h hnone, hs.2.turned ?_ h hnone⟩
    rintro t rfl
    exact hs.1.noRst t List.mem_cons_self
  · trivial
  · trivial
  · trivial
  · exact hs.turned h hnone

end Turns

section Sending

variable {job : Job} {s s' : Sender} {blocks e : Nat} {commands : List Command}
  {replies : List Reply}

theorem StageInv.aligned
    (hs : StageInv s blocks e commands replies)
    (hphase : s.phase = .ready ∨ s.phase = .fill ∨ s.phase = .final ∨ s.Listening ∨
      ∃ left, s.phase = .barrier false left) :
    Aligned s blocks e commands replies := by
  unfold StageInv at hs
  rcases hphase with h | h | h | (h | ⟨_, h⟩ | ⟨_, h⟩) | ⟨_, h⟩ <;> rw [h] at hs <;>
    first | exact hs | exact hs.1

/-- Only the window counters of the sender matter to an open window. -/
theorem Aligned.congr
    (ha : Aligned s blocks e commands replies)
    (hbase : s'.base = s.base) (hnext : s'.next_seq = s.next_seq) :
    Aligned s' blocks e commands replies :=
  { ha with
    base_le := hbase ▸ ha.base_le
    le_next := hnext ▸ ha.le_next
    next_le := hnext ▸ ha.next_le
    frames := hnext ▸ ha.frames }

/-- A control line that is no RST request joins an open window. -/
theorem Aligned.push
    (ha : Aligned s blocks e commands replies) {c : Command}
    (hframe : c.seq? = none) (hrst : ∀ t, c ≠ .rst t) :
    Aligned s blocks e (commands ++ [c]) replies where
  base_le := ha.base_le
  le_next := ha.le_next
  next_le := ha.next_le
  frames := by
    intro c' hc' seq hseq
    rcases List.mem_append.mp hc' with hc' | hc'
    · exact ha.frames c' hc' seq hseq
    · rw [List.mem_singleton.mp hc', hframe] at hseq
      cases hseq
  noRst := by
    intro t hmem
    rcases List.mem_append.mp hmem with hmem | hmem
    · exact ha.noRst t hmem
    · exact hrst t (List.mem_singleton.mp hmem).symm
  noRstAck := ha.noRstAck
  acks := ha.acks

theorem resume_not_fresh
    (htokens : ∀ r ∈ replies, r.TokenLe s.barrier_id) :
    ∀ r ∈ replies, ¬ ∃ n, r = .resume (dec (s.barrier_id + 1)) n := by
  rintro r hr ⟨n, rfl⟩
  obtain ⟨t, ht, heq⟩ := htokens _ hr
  have := dec_injective heq
  omega

theorem barrier_not_fresh
    (htokens : ∀ c ∈ commands, c.TokenLe s.barrier_id) :
    ∀ c ∈ commands, ¬ c = .barrier (s.barrier_id + 1) := by
  rintro c hc rfl
  exact absurd (htokens _ hc) (Nat.not_succ_le_self _)

/-- A barrier with a fresh token starts an epoch. -/
theorem fresh_barrier
    (hreplies : ∀ r ∈ replies, r.TokenLe s.barrier_id)
    (hcommands : ∀ c ∈ commands, c.TokenLe s.barrier_id) :
    Epoch (fun r => ∃ n, r = Reply.resume (dec (s.barrier_id + 1)) n)
      (fun c => c = Command.barrier (s.barrier_id + 1)) replies
      (commands ++ [.barrier (s.barrier_id + 1)]) :=
  (Epoch.fresh (resume_not_fresh hreplies) (barrier_not_fresh hcommands)).push rfl

/-- After the answer to the barrier has been read, nothing but barriers is left. -/
theorem Draining.answered
    {id n : Nat} (hs : Draining id e commands (.resume (dec id) n :: replies)) :
    n = e ∧ (∀ c ∈ commands, c = .barrier id) ∧
      ∀ r ∈ replies, ∃ n, r = .resume (dec id) n := by
  obtain ⟨hreplies, hcommands⟩ := hs.epoch.after ⟨n, rfl⟩
  exact ⟨hs.resume n List.mem_cons_self, hcommands, hreplies⟩

/-- When only barriers and their answers are on the way, the window may open anywhere at the
receiver's position. -/
theorem aligned_of_drained
    {id : Nat} (hcommands : ∀ c ∈ commands, c = .barrier id)
    (hreplies : ∀ r ∈ replies, ∃ n, r = .resume (dec id) n)
    (hbase : s.base = e) (hnext : s.next_seq = e) (hblocks : e ≤ blocks) :
    Aligned s blocks e commands replies where
  base_le := hbase.le
  le_next := hnext.ge
  next_le := hnext.trans_le hblocks
  frames := by
    intro c hc seq hseq
    rw [hcommands c hc] at hseq
    cases hseq
  noRst := by
    intro t hmem
    cases hcommands _ hmem
  noRstAck := by
    intro w hmem
    obtain ⟨n, heq⟩ := hreplies _ hmem
    cases heq
  acks := by
    intro a hmem
    obtain ⟨n, heq⟩ := hreplies _ hmem
    cases heq

theorem StageInv.wait
    {phase : SendPhase} (hs : StageInv s blocks e commands replies)
    (hwait : Sender.Waits s.phase phase) :
    StageInv { s with phase } blocks e commands replies := by
  obtain ⟨p, hp⟩ : ∃ p, s.phase = p := ⟨_, rfl⟩
  rw [hp] at hwait
  unfold StageInv at hs
  rw [hp] at hs
  cases hwait with
  | rst left =>
      have hr : Resetting s blocks e commands replies := hs
      exact { hr with }
  | barrier reset left =>
      cases reset with
      | true =>
          have hr : Restarting s e commands replies := hs
          exact { hr with }
      | false => exact ⟨hs.1.congr rfl rfl, hs.2⟩
  | _ => exact Aligned.congr hs rfl rfl

/-- The first RST request goes out while the window is open. -/
theorem Aligned.resetting
    (ha : Aligned s blocks e commands replies) (left : Nat) :
    Resetting { s with phase := .rst left, barrier_id := s.barrier_id + 1 } blocks e
      (commands ++ [.rst (s.barrier_id + 1)]) replies where
  le_next := ha.le_next
  next_le := ha.next_le
  frames := by
    intro c hc seq hseq
    rcases List.mem_append.mp hc with hc | hc
    · exact ha.frames c hc seq hseq
    · rw [List.mem_singleton.mp hc] at hseq
      cases hseq
  rst := by
    intro t hmem
    rcases List.mem_append.mp hmem with hmem | hmem
    · exact absurd hmem (ha.noRst t)
    · cases List.mem_singleton.mp hmem
      rfl
  rstAck := fun w hmem => absurd hmem (ha.noRstAck w)
  epoch := by
    refine (Epoch.fresh ?_ ?_).push rfl
    · rintro r hr rfl
      exact ha.noRstAck _ hr
    · rintro c hc rfl
      exact ha.noRst _ hc
  zero := fun hmem => absurd hmem (ha.noRstAck _)

theorem Resetting.push
    (hr : Resetting s blocks e commands replies) :
    Resetting s blocks e (commands ++ [.rst s.barrier_id]) replies :=
  { hr with
    frames := by
      intro c hc seq hseq
      rcases List.mem_append.mp hc with hc | hc
      · exact hr.frames c hc seq hseq
      · rw [List.mem_singleton.mp hc] at hseq
        cases hseq
    rst := by
      intro t hmem
      rcases List.mem_append.mp hmem with hmem | hmem
      · exact hr.rst t hmem
      · cases List.mem_singleton.mp hmem
        rfl
    epoch := hr.epoch.push rfl }

theorem Restarting.push
    (hr : Restarting s e commands replies) :
    Restarting s e (commands ++ [.barrier s.barrier_id]) replies :=
  { hr with
    command := by
      intro c hc
      rcases List.mem_append.mp hc with hc | hc
      · exact hr.command c hc
      · exact Or.inr (List.mem_singleton.mp hc)
    epoch := hr.epoch.push rfl }

/-- The acknowledgement of a reset finds the receiver at the start, and a barrier follows. -/
theorem Resetting.restarting
    (hr : Resetting s blocks e commands (.rstAck (dec s.barrier_id) :: replies))
    (hreplies : ∀ r ∈ replies, r.TokenLe s.barrier_id)
    (hcommands : ∀ c ∈ commands, c.TokenLe s.barrier_id)
    (hbarrier : s'.barrier_id = s.barrier_id + 1)
    (htoken : s'.reset_token = some (dec s.barrier_id)) :
    Restarting s' e (commands ++ [.barrier (s.barrier_id + 1)]) replies := by
  obtain ⟨hold, hsent⟩ := hr.epoch.after rfl
  refine
    { zero := hr.zero List.mem_cons_self
      command := fun c hc => ?_
      reply := fun r hr' => Or.inl ⟨_, hold r hr', htoken⟩
      epoch := ?_ }
  · rcases List.mem_append.mp hc with hc | hc
    · exact Or.inl ⟨_, hsent c hc, htoken⟩
    · rw [hbarrier]
      exact Or.inr (List.mem_singleton.mp hc)
  · rw [hbarrier]
    exact fresh_barrier hreplies hcommands

theorem Restarting.answered
    {n : Nat} (hr : Restarting s e commands (.resume (dec s.barrier_id) n :: replies)) :
    n = 0 ∧ (∀ c ∈ commands, c = .barrier s.barrier_id) ∧
      ∀ r ∈ replies, ∃ n, r = .resume (dec s.barrier_id) n := by
  obtain ⟨hreplies, hcommands⟩ := hr.epoch.after ⟨n, rfl⟩
  refine ⟨?_, hcommands, hreplies⟩
  rcases hr.reply _ List.mem_cons_self with ⟨w, heq, _⟩ | heq
  · cases heq
  · cases heq
    rfl

theorem StageInv.of_rst
    {left : Nat} (hs : StageInv s blocks e commands replies) (hphase : s.phase = .rst left) :
    Resetting s blocks e commands replies := by
  rw [StageInv, hphase] at hs
  exact hs

theorem StageInv.of_barrier_true
    {left : Nat} (hs : StageInv s blocks e commands replies)
    (hphase : s.phase = .barrier true left) :
    Restarting s e commands replies := by
  rw [StageInv, hphase] at hs
  exact hs

theorem StageInv.of_barrier_false
    {left : Nat} (hs : StageInv s blocks e commands replies)
    (hphase : s.phase = .barrier false left) :
    Aligned s blocks e commands replies ∧ Draining s.barrier_id e commands replies := by
  rw [StageInv, hphase] at hs
  exact hs

/-- The stage in which a read finds the sender decides what the read can do. -/
theorem StageInv.read
    {r : Option Reply} {out : List Command}
    (hs : StageInv s blocks e commands (r.toList ++ replies))
    (hreplies : ∀ r' ∈ r.toList ++ replies, r'.TokenLe s.barrier_id)
    (hcommands : ∀ c ∈ commands, c.TokenLe s.barrier_id)
    (hnone : Reply.rst ∉ r.toList ++ replies)
    (hkind : Sender.ReadKind job s r s' out) :
    StageInv s' blocks e (commands ++ out) replies ∧
      ∀ exc, s'.phase = .raised exc → exc.message ∉ Sender.seriousMessages := by
  have hpop : StageInv s blocks e commands replies := by
    cases r with
    | none => exact hs
    | some r => exact hs.weathered (.pop rfl)
  have hrest : ∀ r' ∈ replies, r'.TokenLe s.barrier_id :=
    fun r' hr' => hreplies r' (List.mem_append_right _ hr')
  cases hkind with
  | begin hphase =>
      rw [List.append_nil]
      exact ⟨(hpop.aligned (Or.inl hphase)).congr rfl rfl, by simp⟩
  | refused r hphase => exact ⟨trivial, by simp⟩
  | advance a hphase hbase hsent =>
      have ha := hs.aligned (Or.inr (Or.inr (Or.inr (Or.inl hphase))))
      have hle : a < e := ha.acks a List.mem_cons_self
      have ha' := hpop.aligned (Or.inr (Or.inr (Or.inr (Or.inl hphase))))
      rw [List.append_nil]
      refine ⟨?_, by simp [Sender.advance]⟩
      exact
        { base_le := hle
          le_next := ha'.le_next
          next_le := ha'.next_le
          frames := ha'.frames
          noRst := ha'.noRst
          noRstAck := ha'.noRstAck
          acks := ha'.acks }
  | unsent a hphase hsent =>
      have ha := hs.aligned (Or.inr (Or.inr (Or.inr (Or.inl hphase))))
      have hle : a < e := ha.acks a List.mem_cons_self
      have := ha.le_next
      omega
  | wait r phase hwait =>
      rw [List.append_nil]
      refine ⟨hpop.wait hwait, fun exc heq => ?_⟩
      exact absurd heq (hwait.not_raised' exc)
  | probe hphase =>
      rw [List.append_nil]
      exact ⟨(hpop.aligned (Or.inr (Or.inr (Or.inr (Or.inl (Or.inl hphase)))))).congr rfl rfl,
        by simp⟩
  | askAlive r left hphase =>
      have ha := hpop.aligned (Or.inr (Or.inr (Or.inr (Or.inl (Or.inr hphase)))))
      exact ⟨(ha.push rfl (by simp)).congr rfl rfl, by simp⟩
  | askRestart r hphase =>
      have ha := hpop.aligned (Or.inr (Or.inr (Or.inr (Or.inl (Or.inr hphase)))))
      exact ⟨ha.resetting _, by simp⟩
  | askReset r left hphase =>
      have hr := (hpop.of_rst hphase).push
      exact ⟨{ hr with }, by simp⟩
  | askBarrier r reset left hphase =>
      refine ⟨?_, by simp⟩
      cases reset with
      | true =>
          have hr := (hpop.of_barrier_true hphase).push
          exact { hr with }
      | false =>
          obtain ⟨ha, hd⟩ := hpop.of_barrier_false hphase
          exact ⟨(ha.push rfl (by simp)).congr rfl rfl,
            { hd with epoch := hd.epoch.push rfl }⟩
  | gap r hphase hgap =>
      have ha := hpop.aligned (Or.inr (Or.inr (Or.inr (Or.inl hphase))))
      exact ⟨⟨(ha.push rfl (by simp)).congr rfl rfl,
        { epoch := fresh_barrier hrest hcommands
          resume := fun n hmem => absurd ⟨n, rfl⟩ (resume_not_fresh hrest _ hmem) }⟩, by simp⟩
  | restarted hphase => simp at hnone
  | resetDone left hphase =>
      exact ⟨(hs.of_rst hphase).restarting hrest hcommands rfl rfl, by simp⟩
  | resumed left n hphase hlo hhi =>
      obtain ⟨ha, hd⟩ := hs.of_barrier_false hphase
      obtain ⟨rfl, hcommands', hreplies'⟩ := hd.answered
      rw [List.append_nil]
      exact ⟨aligned_of_drained hcommands' hreplies' rfl rfl (hhi.trans ha.next_le), by simp⟩
  | resumedReset left hphase =>
      have hr := hs.of_barrier_true hphase
      obtain ⟨_, hcommands', hreplies'⟩ := hr.answered
      rw [List.append_nil]
      exact ⟨aligned_of_drained hcommands' hreplies' hr.zero.symm hr.zero.symm
        (hr.zero ▸ Nat.zero_le _), by simp⟩
  | badReset left n hphase hn =>
      exact absurd (hs.of_barrier_true hphase).answered.1 hn
  | badResume left n reset hphase hn =>
      refine absurd ?_ hn
      cases reset with
      | true =>
          obtain ⟨rfl, _⟩ := (hs.of_barrier_true hphase).answered
          exact ⟨Or.inl rfl, Nat.zero_le _⟩
      | false =>
          obtain ⟨ha, hd⟩ := hs.of_barrier_false hphase
          obtain ⟨rfl, _⟩ := hd.answered
          exact ⟨Or.inr ha.base_le, ha.le_next⟩
  | failed r s' exc out hphase hphase' hmessage =>
      refine ⟨?_, fun exc' heq => ?_⟩
      · rw [StageInv, hphase']
        trivial
      · rw [hphase'] at heq
        cases heq
        exact hmessage
  | ended r phase hphase hphase' =>
      rcases hphase' with ⟨exc, rfl, hmessage⟩ | ⟨result, rfl⟩
      · refine ⟨trivial, fun exc' heq => ?_⟩
        cases heq
        exact hmessage
      · exact ⟨trivial, by simp⟩

/-- What the sender does without reading keeps the stage. -/
theorem StageInv.fill
    {out : List Command} (hs : StageInv s job.blocks e commands replies)
    (hphase : s.phase = .fill)
    (hframes : ∀ seq c, s.frames seq = some c → job.IsFrameOf seq c)
    (hkind : Sender.FillKind job s s' out) :
    StageInv s' job.blocks e (commands ++ out) replies ∧
      ∀ exc, s'.phase = .raised exc → exc.message ∉ Sender.seriousMessages := by
  have ha := hs.aligned (Or.inr (Or.inl hphase))
  cases hkind with
  | frame frame hcache hblocks hroom hbase =>
      have hseq : frame.seq? = some s.next_seq :=
        ((hcache ▸ isFrameOf_cached hframes).carries hblocks).isFrame.2
      refine ⟨?_, by simp [Sender.writeFrame, hphase]⟩
      rw [StageInv, Sender.writeFrame, hphase]
      exact
        { base_le := ha.base_le
          le_next := ha.le_next.trans (Nat.le_succ _)
          next_le := hblocks
          frames := by
            intro c hc seq hc'
            rcases List.mem_append.mp hc with hc | hc
            · exact (ha.frames c hc seq hc').trans (Nat.lt_succ_self _)
            · rw [List.mem_singleton.mp hc, hseq] at hc'
              cases hc'
              exact Nat.lt_succ_self _
          noRst := by
            intro t hmem
            rcases List.mem_append.mp hmem with hmem | hmem
            · exact ha.noRst t hmem
            · rw [← List.mem_singleton.mp hmem] at hseq
              cases hseq
          noRstAck := ha.noRstAck
          acks := ha.acks }
  | wait hbase hfull =>
      rw [List.append_nil]
      exact ⟨ha.congr rfl rfl, by simp⟩
  | done hblocks => exact ⟨(ha.push rfl (by simp)).congr rfl rfl, by simp⟩
  | failed exc hcls hmessage =>
      refine ⟨trivial, fun exc' heq => ?_⟩
      cases heq
      exact hmessage

end Sending

end Pcutp
