import Pcutp.ByteLine

/-!
# Following a transfer without faults

As long as the line loses nothing, the bytes on it are those of the commands of a
transfer on its `Course`, and the receiver is at most one header ahead.  The sender
may have sent some blocks before: then its counts of attempts differ, and nothing
else does (`Sender.Twin`).
-/

namespace Pcutp

section Twin

/-- The sender `s` does what `t` does, which has tried no block before; `s` has tried those from
`next_seq` on at most `tried` times. -/
structure Sender.Twin (tried : Nat) (s t : Sender) : Prop where
  same : ∃ phase attempts retransmits, t = { s with phase, attempts, retransmits }
  phase : s.phase = t.phase ∨
    (∃ result, s.phase = .returned (some result) ∧ result.verified = true) ∧
      ∃ result, t.phase = .returned (some result)
  untried : ∀ seq, s.next_seq ≤ seq → s.attempts seq ≤ tried
  attempts : ∀ seq, s.attempts seq ≤ tried + 1

variable {job : Job} {s t : Sender} {tried : Nat} {p : Sender × List Command}

namespace Sender.Twin

theorem refl
    (huntried : ∀ seq, s.next_seq ≤ seq → s.attempts seq ≤ tried)
    (hattempts : ∀ seq, s.attempts seq ≤ tried + 1) :
    s.Twin tried s :=
  ⟨⟨_, _, _, rfl⟩, Or.inl rfl, huntried, hattempts⟩

/-- Two senders that have not returned are in one phase. -/
theorem phase_eq
    (h : s.Twin tried t) (hphase : ∀ result, t.phase ≠ .returned (some result)) :
    s.phase = t.phase :=
  h.phase.resolve_right fun ⟨_, result, hreturned⟩ => hphase result hreturned

theorem phase_eq_left
    (h : s.Twin tried t) (hphase : ∀ result, s.phase ≠ .returned (some result)) :
    s.phase = t.phase := by
  rcases h.phase with heq | ⟨⟨result, hreturned, _⟩, _⟩
  · exact heq
  · exact absurd hreturned (hphase result)

/-- Their windows are one. -/
theorem window_eq
    (h : s.Twin tried t) :
    t.base = s.base ∧ t.next_seq = s.next_seq := by
  obtain ⟨_, _, _, rfl⟩ := h.same
  exact ⟨rfl, rfl⟩

theorem rephase
    (h : s.Twin tried t) (phase : SendPhase) :
    ({ s with phase } : Sender).Twin tried { t with phase } := by
  obtain ⟨_, _, _, rfl⟩ := h.same
  exact ⟨⟨_, _, _, rfl⟩, Or.inl rfl, h.untried, h.attempts⟩

/-- Both write a frame. -/
theorem write
    (h : s.Twin tried t) (frame : Command) :
    (s.writeFrame frame).Twin tried (t.writeFrame frame) := by
  have hone : ∀ seq, Function.update s.attempts s.next_seq (s.attempts s.next_seq + 1) seq ≤
      tried + 1 := by
    intro seq
    by_cases hseq : seq = s.next_seq
    · subst hseq
      rw [Function.update_self]
      exact Nat.succ_le_succ (h.untried _ le_rfl)
    · rw [Function.update_of_ne hseq]
      exact h.attempts seq
  have hafter : ∀ seq, s.next_seq + 1 ≤ seq →
      Function.update s.attempts s.next_seq (s.attempts s.next_seq + 1) seq ≤ tried := by
    intro seq hseq
    rw [Function.update_of_ne (Nat.ne_of_gt hseq)]
    exact h.untried seq (Nat.le_of_succ_le hseq)
  obtain ⟨phase, attempts, retransmits, rfl⟩ := h.same
  exact ⟨⟨_, _, _, rfl⟩, h.phase, hafter, hone⟩

/-- Both read an ACK that moves the window. -/
theorem advance
    (h : s.Twin tried t) (a : Nat) :
    (s.advance job a).Twin tried (t.advance job a) := by
  have hdrop : ∀ seq, Sender.dropBelow (a + 1) 0 s.attempts seq ≤ s.attempts seq := by
    intro seq
    rw [Sender.dropBelow]
    split
    · exact le_rfl
    · exact Nat.zero_le _
  obtain ⟨phase, attempts, retransmits, rfl⟩ := h.same
  exact ⟨⟨_, _, _, rfl⟩, Or.inl rfl, fun seq hseq => (hdrop seq).trans (h.untried seq hseq),
    fun seq => (hdrop seq).trans (h.attempts seq)⟩

/-- Both do the same between two reads. -/
theorem run
    (h : s.Twin tried t) (hflow : job.session.flow = true)
    (hretries : tried ≤ job.session.config.max_retries)
    (huntried : ∀ seq, t.next_seq ≤ seq → t.attempts seq = 0)
    (hp : s.step job .run = some p) :
    ∃ q, t.step job .run = some q ∧ q.2 = p.2 ∧ p.1.Twin tried q.1 ∧
      p.1.recoveries = s.recoveries := by
  rw [Sender.step] at hp
  split at hp
  swap
  · cases hp
  rename_i hphase
  have hsame : s.phase = t.phase := by
    rcases h.phase with heq | ⟨⟨result, hreturned, _⟩, _⟩
    · exact heq
    · rw [hphase] at hreturned
      cases hreturned
  have htried := h.untried s.next_seq le_rfl
  have hzero : t.attempts t.next_seq = 0 := huntried _ le_rfl
  have hfields : t.base = s.base ∧ t.next_seq = s.next_seq ∧ t.cwnd = s.cwnd ∧
      t.frames = s.frames := by
    obtain ⟨_, _, _, rfl⟩ := h.same
    exact ⟨rfl, rfl, rfl, rfl⟩
  obtain ⟨hbase, hnext, hcwnd, hframes⟩ := hfields
  have hstep : t.step job .run = some (t.fillWindow job) := by
    rw [Sender.step, if_pos (hsame ▸ hphase), if_pos hflow]
  refine ⟨t.fillWindow job, hstep, ?_⟩
  rw [Option.some.injEq, Sender.fillWindow] at hp
  split at hp
  · rename_i hlt
    split at hp
    · rename_i hroom
      rw [if_neg (Nat.not_lt.mpr (htried.trans hretries))] at hp
      have hfill : t.fillWindow job =
          (t.writeFrame ((s.frames s.next_seq).getD (job.frame s.next_seq)),
            [(s.frames s.next_seq).getD (job.frame s.next_seq)]) := by
        rw [Sender.fillWindow, if_pos (hbase ▸ hlt), if_pos (by rwa [hnext, hbase, hcwnd]), hzero,
          if_neg (Nat.not_lt_zero _), hnext, hframes]
      rw [hfill]
      cases hp
      exact ⟨rfl, h.write _, rfl⟩
    · rename_i hfull
      have hfill : t.fillWindow job = ({ t with phase := .reply }, []) := by
        rw [Sender.fillWindow, if_pos (hbase ▸ hlt), if_neg (by rwa [hnext, hbase, hcwnd])]
      rw [hfill]
      cases hp
      exact ⟨rfl, h.rephase _, rfl⟩
  · rename_i hall
    have hfill : t.fillWindow job = ({ t with phase := .final }, [.done job.crc]) := by
      rw [Sender.fillWindow, if_neg (hbase ▸ hall)]
    rw [hfill]
    cases hp
    exact ⟨rfl, h.rephase _, rfl⟩

end Sender.Twin

end Twin

section Course

variable {cfg : ClientConfig} {job : Job} {t : Transfer cfg}

/-- A sender at work has a number of blocks on the way. -/
theorem Course.sending_of
    (hs : Course job t) (hphase : t.sender.phase = .fill ∨ t.sender.phase = .reply) :
    ∃ m r n, Kept job t m r ∧ Sending job t r n := by
  cases hs with
  | opening barrier_id reset_token hsender =>
      rw [hsender] at hphase
      simp [Sender.start] at hphase
  | greeted barrier_id reset_token m hsender =>
      rw [hsender] at hphase
      simp [Sender.start] at hphase
  | sending m r n hkept hsending => exact ⟨m, r, n, hkept, hsending⟩
  | asked m r hkept hfinal => simp [hfinal] at hphase
  | answered m r hkept hfinal => simp [hfinal] at hphase
  | told m r result hkept hreturned => simp [hreturned] at hphase

/-- A sender and its twin read the next reply alike, late or not. -/
theorem Course.reply_twin
    (hs : Course job t) (hflow : job.session.flow = true) {s : Sender} {tried : Nat}
    (htwin : s.Twin tried t.sender) {r : Reply} {replies : List Reply}
    (hreplies : t.replies = r :: replies) {late : Bool} {p : Sender × List Command}
    (h : s.step job (.line r.line late) = some p) :
    ∃ q, t.sender.step job (.line r.line false) = some q ∧ q.2 = p.2 ∧ p.1.Twin tried q.1 ∧
      p.1.recoveries ≤ s.recoveries ∧
      (t.sender.phase = .reply → q.1.phase = .fill ∧ q.2 = []) := by
  cases hs with
  | opening barrier_id reset_token hsender hclient hcommands hnone =>
      rw [hnone] at hreplies
      cases hreplies
  | greeted barrier_id reset_token m hsender hkept hcommands hready =>
      rw [hready] at hreplies
      cases hreplies
      have hphase : t.sender.phase = .ready := by rw [hsender]; rfl
      have hsame := htwin.phase_eq (by rw [hphase]; simp)
      rw [Sender.step_ready (hsame.trans hphase)] at h
      cases h
      exact ⟨_, Sender.step_ready hphase, rfl, htwin.rephase _, le_rfl, by simp [hphase]⟩
  | sending m r' n hkept hs =>
      have hsender := hs.sender
      rw [Sender.HasSent, if_pos hflow] at hsender
      obtain ⟨rfl, _, _, _, hphase⟩ := hsender
      have hnone : ∀ result, t.sender.phase ≠ .returned (some result) := by
        rcases hphase with hphase | ⟨hphase, _⟩ <;> simp [hphase]
      have hsame := htwin.phase_eq hnone
      obtain ⟨a, ha, rfl⟩ : ∃ a, a = t.sender.base ∧ r = .ack a := by
        have hacks := hs.replies
        rw [hreplies] at hacks
        cases hcount : r'.expected - t.sender.base with
        | zero =>
            rw [hcount] at hacks
            cases hacks
        | succ k =>
            rw [hcount, List.range'_succ, List.map_cons] at hacks
            exact ⟨_, rfl, (List.cons.inj hacks).1⟩
      obtain ⟨hphase, hlt⟩ := hphase.resolve_left fun hfill =>
        Sender.not_fill_of_ack h (hsame.trans hfill)
      have hfields : t.sender.base = s.base ∧ t.sender.next_seq = s.next_seq := by
        obtain ⟨_, _, _, heq⟩ := htwin.same
        exact ⟨by rw [heq], by rw [heq]⟩
      rw [Sender.step_ack (hsame.trans hphase) (by omega) (by omega)] at h
      cases h
      exact ⟨_, Sender.step_ack hphase (by omega) (by omega), rfl, htwin.advance a, Nat.zero_le _,
        fun _ => ⟨rfl, rfl⟩⟩
  | asked m r hkept hphase hheader hblocks hclean hcommands hnone =>
      rw [hnone] at hreplies
      cases hreplies
  | answered m r' hkept hphase hend hblocks hclean hcommands hok =>
      rw [hok] at hreplies
      cases hreplies
      have hsame := htwin.phase_eq (by rw [hphase]; simp)
      rw [Sender.step_ok (hsame.trans hphase)] at h
      cases h
      refine ⟨_, Sender.step_ok hphase, rfl, ?_, le_rfl, by simp [hphase]⟩
      obtain ⟨_, _, _, heq⟩ := htwin.same
      exact ⟨⟨_, _, _, by rw [heq]⟩, Or.inr ⟨⟨_, rfl, rfl⟩, _, rfl⟩, htwin.untried,
        htwin.attempts⟩
  | told m r result hkept hphase hresult hend hblocks hclean hcommands hnone =>
      rw [hnone] at hreplies
      cases hreplies

/-- The header of a frame, whatever payload follows it. -/
theorem Recv.onLine_sentFrame
    {m : AcceptedMeta cfg} (hm : m.Matches job) {k : Nat} (hk : k < job.blocks) (r : Recv) :
    ∃ h : DataHeader, h.length = (job.sentFrame k).payload.length ∧
      r.onLine m (job.sentFrame k).line true = ({ r with phase := .payload h }, []) := by
  have hraw : ∃ h : DataHeader, h.length = (job.rawFrame k).payload.length ∧
      r.onLine m (job.rawFrame k).line true = ({ r with phase := .payload h }, []) :=
    ⟨_, rfl, Recv.onLine_data hm hk⟩
  rw [Job.sentFrame]
  split
  · rcases job.frame_cases k with heq | ⟨packed, hcompression, hle, _, heq⟩
    · rw [heq]
      exact hraw
    · rw [heq]
      exact ⟨_, rfl, Recv.onLine_zdata hm hcompression hk hle⟩
  · exact hraw

/-- What stands before the receiver on its course is something that it can take. -/
theorem Course.takes
    (hs : Course job t) {c : Command} {rest : List Command} (hcommands : t.commands = c :: rest) :
    t.client.Takes c ∧ Legible c.line := by
  cases hs with
  | opening barrier_id reset_token hsender hclient hone =>
      rw [hone] at hcommands
      cases hcommands
      rw [hclient]
      exact ⟨.announced _ _ rfl, (@Picocalc.Written.announcement _ 0).legible⟩
  | greeted barrier_id reset_token m hsender hkept hnone =>
      rw [hnone] at hcommands
      cases hcommands
  | sending m r n hkept hs =>
      have hn := hs.sent_le
      have hframes := hs.commands
      rw [hcommands] at hframes
      cases hcount : n - r.expected with
      | zero =>
          rw [hcount] at hframes
          cases hframes
      | succ k =>
          rw [hcount, List.range'_succ, List.map_cons] at hframes
          obtain ⟨rfl, _⟩ := List.cons.inj hframes
          have hlt : r.expected < job.blocks := by omega
          obtain ⟨h, hlength, hline⟩ := Recv.onLine_sentFrame hkept.agrees hlt r
          rw [hkept.client]
          exact ⟨.frame m r _ h hs.header hline hlength,
            (@Picocalc.Written.frame _ 0 _ _ ((job.sentFrame_isFrameOf _).carries hlt)).legible⟩
  | asked m r hkept hphase hheader hblocks hclean hone =>
      rw [hone] at hcommands
      cases hcommands
      rw [hkept.client]
      exact ⟨.control m r _ hheader (Recv.onLine_done_phase (isWord_crc32_hex _)) rfl,
        (@Picocalc.Written.done _ 0).legible⟩
  | answered m r hkept hphase hend hblocks hclean hnone =>
      rw [hnone] at hcommands
      cases hcommands
  | told m r result hkept hphase hresult hend hblocks hclean hnone =>
      rw [hnone] at hcommands
      cases hcommands

/-- On its course a receiver waits for a line, or is through. -/
theorem Course.client_cases
    (hs : Course job t) :
    t.client = .awaiting true ∨ ∃ m r, t.client = .receiving m r ∧
      (r.phase = .header ∨ r.phase = .commit ∨ r.phase = .returned true) := by
  cases hs with
  | opening barrier_id reset_token hsender hclient => exact Or.inl hclient
  | greeted barrier_id reset_token m hsender hkept =>
      exact Or.inr ⟨m, _, hkept.client, Or.inl rfl⟩
  | sending m r n hkept hs => exact Or.inr ⟨m, r, hkept.client, Or.inl hs.header⟩
  | asked m r hkept hphase hheader => exact Or.inr ⟨m, r, hkept.client, Or.inl hheader⟩
  | answered m r hkept hphase hend => exact Or.inr ⟨m, r, hkept.client, Or.inr hend⟩
  | told m r result hkept hphase hresult hend => exact Or.inr ⟨m, r, hkept.client, Or.inr hend⟩

/-- As long as the sender has not returned, something is on its way or to be written. -/
theorem Course.busy
    (hpair : Paired job.session cfg) (hsize : job.size ≤ Const.MAX_FILE_SIZE)
    (hspace : ∀ space, cfg.free_space = some space → job.size ≤ space) (hs : Course job t) :
    t.sender.phase = .fill ∨ t.replies ≠ [] ∨
      (∃ c rest p, t.commands = c :: rest ∧ t.client.read c = some p) ∨
      (∃ result, t.sender.phase = .returned (some result)) ∧ t.commands = [] ∧
        ∃ m r, t.client = .receiving m r ∧ (r.phase = .commit ∨ r.phase = .returned true) := by
  have hgo := hs.finished_or_step hpair hsize hspace fun _ => none
  have hway : (∀ result, t.sender.phase ≠ .returned (some result)) →
      (∀ m r, t.client = .receiving m r → r.phase ≠ .commit) →
      t.sender.phase = .fill ∨ t.replies ≠ [] ∨
        ∃ c rest p, t.commands = c :: rest ∧ t.client.read c = some p := by
    intro hphase hcommit
    rcases hgo with hfinished | ⟨e, t', he, hstep⟩
    · obtain ⟨result, hreturned, _⟩ := hfinished.result
      exact absurd hreturned (hphase result)
    · rcases Faults.none_cases he with rfl | rfl | rfl | rfl
      · exact Or.inl (Transfer.phase_of_run hstep)
      · exact Or.inr (Or.inl (Transfer.replies_of_reply hstep))
      · rw [Transfer.step] at hstep
        split at hstep
        · cases hstep
        · rename_i c rest hcommands
          rw [Option.map_eq_some_iff] at hstep
          obtain ⟨p, hp, _⟩ := hstep
          exact Or.inr (Or.inr ⟨c, rest, p, hcommands, hp⟩)
      · rcases hs.client_cases with hawaiting | ⟨m, r, hclient, _⟩
        · rw [Transfer.step, hawaiting] at hstep
          cases hstep
        · exact absurd (Transfer.of_commit hclient hstep).1 (hcommit m r hclient)
  have hthree := fun hphase hcommit => (hway hphase hcommit).imp_right fun h =>
    h.imp_right (Or.inl (b := (∃ result, t.sender.phase = .returned (some result)) ∧
      t.commands = [] ∧
        ∃ m r, t.client = .receiving m r ∧ (r.phase = .commit ∨ r.phase = .returned true)))
  cases hs with
  | opening barrier_id reset_token hsender hclient =>
      exact hthree (by rw [hsender]; simp [Sender.start]) (by rw [hclient]; simp)
  | greeted barrier_id reset_token m hsender hkept hcommands hreplies =>
      exact Or.inr (Or.inl (by rw [hreplies]; simp))
  | sending m r n hkept hs =>
      refine hthree ?_ ?_
      · have hsender := hs.sender
        rw [Sender.HasSent] at hsender
        split at hsender
        · obtain ⟨_, _, _, _, hphase | ⟨hphase, _⟩⟩ := hsender <;> simp [hphase]
        · rcases hsender with ⟨hphase, _⟩ | ⟨hphase, _⟩ <;> simp [hphase]
      · rw [hkept.client]
        rintro _ _ heq
        cases heq
        rw [hs.header]
        simp
  | asked m r hkept hphase hheader =>
      refine hthree (by rw [hphase]; simp) ?_
      rw [hkept.client]
      rintro _ _ heq
      cases heq
      rw [hheader]
      simp
  | answered m r hkept hphase hend hblocks hclean hcommands hreplies =>
      exact Or.inr (Or.inl (by rw [hreplies]; simp))
  | told m r result hkept hphase hresult hend hblocks hclean hcommands =>
      exact Or.inr (Or.inr (Or.inr ⟨⟨result, hphase⟩, hcommands, m, r, hkept.client, hend⟩))

end Course

section Follows

variable {cfg : ClientConfig} {job : Job} {w w' : ByteLine cfg} {t : Transfer cfg} {tried lag : Nat}

/-- The line carries what a transfer `t` on its course has on it. -/
structure ByteLine.Follows (job : Job) (tried : Nat) (w : ByteLine cfg) (t : Transfer cfg)
    (lag : Nat) : Prop where
  course : Course job t
  twin : w.sender.Twin tried t.sender
  stands : w.Stands t.client t.commands lag
  replies : w.replies = t.replies

/-- What both do in a step: what the sender writes, and the effects of the receiver. -/
structure ByteLine.Keeps (w w' : ByteLine cfg) (t t' : Transfer cfg) (out : List Command)
    (effects : List Effect) : Prop where
  written : w'.written = w.written ++ out
  writtenToo : t'.written = t.written ++ out
  trace : w'.trace = w.trace ++ effects
  traceToo : t'.trace = t.trace ++ effects
  lost : w'.lost = w.lost
  recoveries : w'.sender.recoveries ≤ w.sender.recoveries

/-- A step along the course: `t` takes it too, or the receiver has taken a header. -/
def ByteLine.FollowsOn (job : Job) (tried : Nat) (w : ByteLine cfg) (t : Transfer cfg) (lag : Nat)
    (w' : ByteLine cfg) : Prop :=
  ∃ t' lag' out effects, w'.Follows job tried t' lag' ∧ w.Keeps w' t t' out effects ∧
    2 * t'.remaining job + lag' < 2 * t.remaining job + lag

namespace ByteLine

/-- The receiver on its course takes nothing from an empty stream. -/
theorem Follows.take_nil
    (h : w.Follows job tried t lag) (hnil : t.commands = []) :
    w.client = t.client ∧ w.client.take w.stream = none := by
  have hs := h.stands
  rw [hnil] at hs
  generalize hclient : t.client = client at hs
  cases hs with
  | atLine _ hstream =>
      refine ⟨rfl, ?_⟩
      rw [hstream, List.flatMap_nil]
      rcases h.course.client_cases with heq | ⟨m, r, heq, hphase | hphase | hphase⟩ <;>
        · rw [← hclient, heq]
          simp [Client.take, Client.takeLine, Link.cutLine, *]

/-- The payload that the receiver waits for is on the stream. -/
theorem Follows.not_starves
    (h : w.Follows job tried t lag) :
    w.client.starves w.stream = false := by
  cases hcommands : t.commands with
  | nil =>
      rw [(h.take_nil hcommands).1]
      rcases h.course.client_cases with heq | ⟨m, r, heq, hphase | hphase | hphase⟩ <;>
        simp [Client.starves, *]
  | cons c rest =>
      have hs := h.stands
      rw [hcommands] at hs
      exact hs.not_starves (h.course.takes hcommands).1

/-- As long as the sender has not returned, no clock runs out. -/
theorem Follows.returned_of_still
    (hpair : Paired job.session cfg) (hsize : job.size ≤ Const.MAX_FILE_SIZE)
    (hspace : ∀ space, cfg.free_space = some space → job.size ≤ space)
    (h : w.Follows job tried t lag) (hstill : w.still = true) :
    (∃ result, w.sender.phase = .returned (some result)) ∧
      ∃ m r, w.client = .receiving m r ∧ (r.phase = .commit ∨ r.phase = .returned true) := by
  simp only [still, Bool.and_eq_true, List.isEmpty_iff, decide_eq_true_eq,
    Option.isNone_iff_eq_none] at hstill
  obtain ⟨⟨hreplies, hphase⟩, htake⟩ := hstill
  rcases h.course.busy hpair hsize hspace with hfill | hway | ⟨c, rest, p, hcommands, hread⟩ |
    ⟨⟨result, hreturned⟩, hcommands, m, r, hclient, hend⟩
  · exact absurd ((h.twin.phase_eq (by rw [hfill]; simp)).trans hfill) hphase
  · exact absurd (h.replies ▸ hreplies) hway
  · have hs := h.stands
    rw [hcommands] at hs
    obtain ⟨htakes, hlegible⟩ := h.course.takes hcommands
    rcases hs.take_cases htakes hlegible with ⟨_, client', htaken, _⟩ | htaken
    · rw [htake] at htaken
      cases htaken
    · rw [htake, hread] at htaken
      cases htaken
  · refine ⟨?_, m, r, (h.take_nil hcommands).1.trans hclient, hend⟩
    rcases h.twin.phase with heq | ⟨⟨result', heq, _⟩, _⟩
    · exact ⟨result, heq.trans hreturned⟩
    · exact ⟨result', heq⟩

/-- The sender writes what it has to write. -/
theorem Follows.run
    (hpair : Paired job.session cfg) (hflow : job.session.flow = true)
    (hsize : job.size ≤ Const.MAX_FILE_SIZE)
    (hspace : ∀ space, cfg.free_space = some space → job.size ≤ space)
    (hretries : tried ≤ job.session.config.max_retries) (h : w.Follows job tried t lag)
    (hstep : w.step job .run = some w') :
    w.FollowsOn job tried t lag w' := by
  rw [step, Option.map_eq_some_iff] at hstep
  obtain ⟨p, hp, rfl⟩ := hstep
  have hfill : w.sender.phase = .fill := by
    by_contra hne
    rw [Sender.step, if_neg hne] at hp
    cases hp
  have hsame := h.twin.phase_eq_left (by rw [hfill]; simp)
  obtain ⟨m, r, n, _, hsending⟩ := h.course.sending_of (Or.inl (hsame ▸ hfill))
  have hsender := hsending.sender
  rw [Sender.HasSent, if_pos hflow] at hsender
  obtain ⟨rfl, _, huntried, _⟩ := hsender
  obtain ⟨q, hq, hout, htwin, hrecoveries⟩ := h.twin.run hflow hretries huntried hp
  have ht : t.step job .run = some (t.sent q) := by rw [Transfer.step, hq]; rfl
  obtain ⟨hcourse, hless⟩ := h.course.move hpair hsize hspace rfl ht
  refine ⟨t.sent q, lag, p.2, [], ⟨hcourse, htwin, ?_, h.replies⟩,
    ⟨rfl, by rw [← hout]; rfl, (List.append_nil _).symm, (List.append_nil _).symm, rfl,
      hrecoveries.le⟩, by omega⟩
  exact h.stands.append rfl (by rw [hout]; rfl)

/-- The sender reads a reply, the oldest on the way. -/
theorem Follows.reply
    (hpair : Paired job.session cfg) (hflow : job.session.flow = true)
    (hsize : job.size ≤ Const.MAX_FILE_SIZE)
    (hspace : ∀ space, cfg.free_space = some space → job.size ≤ space)
    (h : w.Follows job tried t lag) {late : Bool} (hstep : w.step job (.reply late) = some w') :
    w.FollowsOn job tried t lag w' := by
  rw [step] at hstep
  split at hstep
  · cases hstep
  rename_i r replies hreplies
  rw [Option.map_eq_some_iff] at hstep
  obtain ⟨p, hp, rfl⟩ := hstep
  have hreplies' : t.replies = r :: replies := h.replies ▸ hreplies
  obtain ⟨q, hq, hout, htwin, hrecoveries, _⟩ := h.course.reply_twin hflow h.twin hreplies' hp
  have ht : t.step job (.reply false) = some ({ t with replies }.sent q) := by
    rw [Transfer.step, hreplies']
    simp only [hq, Option.map_some]
  obtain ⟨hcourse, hless⟩ := h.course.move hpair hsize hspace rfl ht
  refine ⟨_, lag, p.2, [], ⟨hcourse, htwin, ?_, rfl⟩,
    ⟨rfl, by rw [← hout]; rfl, (List.append_nil _).symm, (List.append_nil _).symm, rfl,
      hrecoveries⟩, by omega⟩
  rw [Transfer.sent, hout]
  exact h.stands.append rfl rfl

/-- The receiver takes a header, which `t` does not see, or a whole command. -/
theorem Follows.read
    (hpair : Paired job.session cfg) (hsize : job.size ≤ Const.MAX_FILE_SIZE)
    (hspace : ∀ space, cfg.free_space = some space → job.size ≤ space)
    (h : w.Follows job tried t lag) (hstep : w.step job .read = some w') :
    w.FollowsOn job tried t lag w' := by
  rw [step, Option.map_eq_some_iff] at hstep
  obtain ⟨q, hq, rfl⟩ := hstep
  cases hcommands : t.commands with
  | nil =>
      rw [(h.take_nil hcommands).2] at hq
      cases hq
  | cons c rest =>
      have hs := h.stands
      rw [hcommands] at hs
      obtain ⟨htakes, hlegible⟩ := h.course.takes hcommands
      rcases hs.take_cases htakes hlegible with ⟨rfl, client', htaken, hwithin⟩ | htaken
      · rw [htaken] at hq
        cases hq
        refine ⟨t, 0, [], [], ⟨h.course, h.twin, ?_, ?_⟩,
          ⟨(List.append_nil _).symm, (List.append_nil _).symm, rfl, (List.append_nil _).symm, rfl,
            le_rfl⟩, by omega⟩
        · rw [hcommands]
          exact hwithin.of_eq rfl rfl
        · rw [received, sends_nil, List.append_nil]
          exact h.replies
      · rw [htaken, Option.map_eq_some_iff] at hq
        obtain ⟨p, hp, rfl⟩ := hq
        have ht : t.step job .command = some ({ t with commands := rest }.received p) := by
          rw [Transfer.step, hcommands]
          simp only [hp, Option.map_some]
        obtain ⟨hcourse, hless⟩ := h.course.move hpair hsize hspace rfl ht
        refine ⟨_, 1, [], p.2, ⟨hcourse, h.twin, .atLine _ rfl, ?_⟩,
          ⟨(List.append_nil _).symm, (List.append_nil _).symm, rfl, rfl, rfl, le_rfl⟩, by omega⟩
        rw [received, h.replies]
        rfl

/-- The receiver renames the file. -/
theorem Follows.commit
    (hpair : Paired job.session cfg) (hsize : job.size ≤ Const.MAX_FILE_SIZE)
    (hspace : ∀ space, cfg.free_space = some space → job.size ≤ space)
    (h : w.Follows job tried t lag) (hstep : w.step job .commit = some w') :
    w.FollowsOn job tried t lag w' := by
  rw [step, Option.map_eq_some_iff] at hstep
  obtain ⟨p, hp, rfl⟩ := hstep
  have hs := h.stands
  generalize hcommands : t.commands = commands at hs
  generalize hclient : t.client = client at hs
  cases hs with
  | atLine _ hstream =>
      have ht : t.step job .commit = some (t.received p) := by
        rw [Transfer.step, hclient, hp]
        rfl
      obtain ⟨hcourse, hless⟩ := h.course.move hpair hsize hspace rfl ht
      refine ⟨_, 1, [], p.2, ⟨hcourse, h.twin, ?_, ?_⟩,
        ⟨(List.append_nil _).symm, (List.append_nil _).symm, rfl, rfl, rfl, le_rfl⟩, by omega⟩
      · rw [Transfer.received, hcommands]
        exact .atLine _ hstream
      · rw [received, h.replies]
        rfl
  | within m r hd c rest hreading hheader hline hstream =>
      rw [hreading] at hp
      cases hp

/-- A step that is not the loss of a byte stays on the course. -/
theorem Follows.move
    (hpair : Paired job.session cfg) (hflow : job.session.flow = true)
    (hsize : job.size ≤ Const.MAX_FILE_SIZE)
    (hspace : ∀ space, cfg.free_space = some space → job.size ≤ space)
    (hretries : tried ≤ job.session.config.max_retries) (h : w.Follows job tried t lag)
    {e : ByteEvent} (he : w.permit e = true) (hlose : ∀ j, e ≠ .lose j)
    (hstep : w.step job e = some w') :
    w.FollowsOn job tried t lag w' := by
  have hstill := h.returned_of_still hpair hsize hspace
  cases e with
  | run => exact h.run hpair hflow hsize hspace hretries hstep
  | lose j => exact absurd rfl (hlose j)
  | timeout =>
      simp only [permit, Bool.and_eq_true] at he
      obtain ⟨⟨result, hreturned⟩, _⟩ := hstill he.1
      rw [step, Sender.step, Sender.onTimeout, hreturned] at hstep
      cases hstep
  | reply late => exact h.reply hpair hflow hsize hspace hstep
  | read => exact h.read hpair hsize hspace hstep
  | rawTimeout =>
      rw [step, if_neg (by rw [h.not_starves]; simp)] at hstep
      cases hstep
  | commit => exact h.commit hpair hsize hspace hstep
  | giveUp =>
      obtain ⟨_, m, r, hclient, hend⟩ := hstill he
      rw [step, hclient, Client.act, Recv.step] at hstep
      rcases hend with hend | hend <;>
        · rw [hend] at hstep
          cases hstep

end ByteLine

end Follows

end Pcutp
