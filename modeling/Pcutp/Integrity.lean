import Pcutp.Genuine

/-!
# End-to-end integrity of a FLOW transfer

Whatever the line loses, repeats, delays, reorders or damages, and whenever the
sender's clock runs out, `.PART` holds the blocks the receiver has counted, and
a transfer that ends well leaves the file under its final name.
-/

namespace Pcutp

variable {cfg : ClientConfig} {job : Job} {s s' : Transfer cfg}

/-- The receiver has written the first `expected` blocks since it last started over. -/
def Holds (job : Job) (s : Transfer cfg) : Prop :=
  ∀ m r, s.client = .receiving m r →
    writtenBytes (sinceRestart s.trace) = job.data.take (r.expected * job.block_size)

theorem writtenBytes_sends
    {effects : List Effect} (h : ∀ e ∈ effects, ∃ reply, e = .send reply) :
    Effect.truncate ∉ effects ∧ writtenBytes effects = [] := by
  constructor
  · intro hmem
    obtain ⟨reply, heq⟩ := h _ hmem
    cases heq
  · simp only [writtenBytes, List.flatMap_eq_nil_iff]
    intro e he
    obtain ⟨reply, rfl⟩ := h e he
    rfl

/-- What a turn writes is the next block, or nothing after a truncation. -/
theorem turn_writes
    {m : AcceptedMeta cfg} {r r' : Recv} {c : Command} {trace effects : List Effect}
    (hturn : Recv.Turn m job r c r' effects)
    (hholds : writtenBytes (sinceRestart trace) = job.data.take (r.expected * job.block_size)) :
    writtenBytes (sinceRestart (trace ++ effects)) =
      job.data.take (r'.expected * job.block_size) := by
  have hsame : ∀ {effects : List Effect}, (∀ e ∈ effects, ∃ reply, e = .send reply) →
      writtenBytes (sinceRestart (trace ++ effects)) =
        job.data.take (r.expected * job.block_size) := by
    intro effects hsends
    obtain ⟨htruncate, hnone⟩ := writtenBytes_sends hsends
    rw [sinceRestart_append htruncate, writtenBytes_append, hnone, List.append_nil, hholds]
  have hempty : ∀ {rest : List Effect}, Effect.truncate ∉ rest → writtenBytes rest = [] →
      writtenBytes (sinceRestart (trace ++ .truncate :: rest)) = [] := by
    intro rest htruncate hnone
    rw [List.append_cons, sinceRestart_append htruncate, sinceRestart_concat, if_pos rfl,
      List.nil_append, hnone]
  cases hturn with
  | rst t =>
      rw [hempty (by simp) rfl]
      simp [Recv.restart]
  | frame seq c hc hkind =>
      cases hkind with
      | nak => exact hsame (by simp)
      | old => exact hsame (by simp)
      | gap hseq =>
          simp only [Recv.onGap]
          split
          · split
            · exact hsame (by simp)
            · rw [hempty (by simp) rfl]
              simp
          · exact hsame (by simp)
      | store hseq =>
          have hone : ∀ rest, Effect.truncate ∉ rest → writtenBytes rest = [] →
              writtenBytes (sinceRestart
                (trace ++ ([.write seq (job.chunk seq), .send (.ack seq)] ++ rest))) =
                job.data.take ((r.expected + 1) * job.block_size) := by
            intro rest htruncate hnone
            rw [sinceRestart_append (by simpa using htruncate), writtenBytes_append,
              writtenBytes_append, hnone, hholds, hseq, ← job.take_append_chunk]
            simp [writtenBytes]
          simp only [Recv.onBlock]
          apply hone
          · split <;> simp
          · split <;> rfl
  | _ => exact hsame (by simp)

/-- Every move keeps the counted blocks in the file. -/
theorem Holds.move
    (hg : Genuine job s) (hs : Holds job s) {e : Event} (h : Move job s e s') :
    Holds job s' := by
  cases h with
  | command m r c commands p hclient hcommands hphase hread hturn =>
      intro m' r' heq
      cases heq
      exact turn_writes hturn (hs m r hclient)
  | accept m commands hclient hcommands hm =>
      intro m' r' heq
      cases heq
      simp [Transfer.received, (hg.awaiting true hclient).2, Recv.startEffects, sinceRestart,
        writtenBytes, Recv.start]
  | refuse c commands exc effects hclient =>
      intro m' r' heq
      cases heq
  | commit m r hclient hphase =>
      intro m' r' heq
      cases heq
      rw [Transfer.received, sinceRestart_append (by simp), writtenBytes_append, hs m r hclient]
      simp [writtenBytes]
  | giveUp m r exc hclient hphase hstep =>
      intro m' r' heq
      cases heq
      rw [Transfer.received, List.append_nil]
      exact hs m r hclient
  | giveUpMeta exc hclient =>
      intro m' r' heq
      cases heq
  | _ => exact hs

/-- Everything that can go wrong on the line, and a clock that may run out at any time. -/
def Faults.any : Faults where
  loss := true
  duplication := true
  reordering := true
  damage := true
  timeouts := true

/-- FLOW end-to-end integrity. -/
theorem flow_integrity
    (job : Job) (cfg : ClientConfig) (hflow : job.session.flow = true)
    (hpair : Paired job.session cfg) (dir : Directory)
    (barrier_id : Nat) (reset_token : Option Line) (s : Transfer cfg)
    (hleads : Transfer.Leads .any job (Transfer.start cfg job barrier_id reset_token) s)
    (m : AcceptedMeta cfg) (r : Recv) (hclient : s.client = .receiving m r) :
    (Effect.replace ∉ s.trace →
      partBytes job.filename.text (applyEffects job.filename.text dir s.trace) =
        some (job.firstBlocks r.expected)) ∧
    (r.phase = .returned true →
      applyEffects job.filename.text dir s.trace job.filename.text = some (.bytes job.data)) := by
  have hboth : Genuine job s ∧ Holds job s := by
    refine Transition.Steps.invariant (fun s => Genuine job s ∧ Holds job s) ?_ hleads
      ⟨genuine_start barrier_id reset_token, fun m r heq => by cases heq⟩
    rintro s e s' ⟨hg, hs⟩ _ hstep
    have hmove := step_move hpair hflow hg hstep
    exact ⟨hg.move hmove, hs.move hg hmove⟩
  obtain ⟨hm, events, hrun⟩ := hboth.1.receiving m r hclient
  have hwritten := hboth.2 m r hclient
  rw [← hm.target]
  constructor
  · intro hnone
    rw [((Recv.stores_run dir hrun).2 hnone).part, hwritten, job.take_eq_firstBlocks]
  · intro hphase
    obtain ⟨⟨hblocks, _, _⟩, _⟩ := (Recv.counts_run hrun).returned hphase
    rw [Recv.final_of_returned dir hrun hphase, hwritten, hblocks, hm.blocks, job.take_blocks]

/-- A file of one byte whose only frame arrives twice. -/
theorem flow_integrity_one_byte :
    ∃ (s : Transfer smallClient) (m : AcceptedMeta smallClient) (r : Recv),
      s.client = .receiving m r ∧ r.phase = .returned true ∧
        applyEffects "A".toList (fun _ => none) s.trace "A".toList = some (.bytes [65]) := by
  let events : List Event :=
    [.command, .reply false, .run, .run, .copyCommand 0, .command, .command, .reply false, .run,
      .command, .commit]
  have hrun : ((Transfer.start smallClient (smallJob [65]) 0 none).exec .any (smallJob [65])
      events).any (fun s => s.client.saved) = true := by
    decide +kernel
  rw [Option.any_eq_true] at hrun
  obtain ⟨s, hexec, hsaved⟩ := hrun
  obtain ⟨m, r, hclient, hphase⟩ := Client.saved_iff.mp hsaved
  exact ⟨s, m, r, hclient, hphase,
    (flow_integrity (smallJob [65]) smallClient rfl small_paired (fun _ => none) 0 none s
      (.of_exec hexec) m r hclient).2 hphase⟩

end Pcutp
