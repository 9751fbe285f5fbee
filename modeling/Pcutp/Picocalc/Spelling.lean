import Pcutp.Integrity
import Pcutp.Picocalc.Sent

/-!
# A receiver that is fed with bytes

In a transfer a command is read in one step; on the line it is a run of bytes.
`Spells` says how far `_receive`, fed with the bytes that have come, is in the
commands that they spell, and every byte is a part of a step of the transfer.
-/

namespace Pcutp.Picocalc

open Machine

section Defs

/-- The bytes of a command. -/
def onWire (c : Command) : Bytes :=
  encodeFrame c.line c.payload

variable {cfg : ClientConfig}

/-- The receiver of a transfer reads, and nothing else happens. -/
structure Reads (job : Job) (t t' : Transfer cfg) (effects : List Pcutp.Effect) : Prop where
  leads : Transfer.Leads .any job t t'
  sender : t'.sender = t.sender
  trace : t'.trace = t.trace ++ effects
  replies : t'.replies = t.replies ++ sends effects
  commands : ∀ c ∈ t'.commands, c ∈ t.commands

/-- Where the receiver of a transfer stands when `_receive` has come to `f`: `queue` waits to be
read, and the bytes of `rest` have not come. -/
inductive Spells (m : AcceptedMeta cfg) (f : Fed) (queue : Bytes) (rest : List Command)
    (t : Transfer cfg) : Prop
  | between (ported : List Command) (hclient : t.client = .receiving m f.r)
      (hphase : f.r.phase = .header) (hcommands : t.commands = ported ++ rest)
      (hbytes : f.part ++ queue = ported.flatMap onWire) (hlf : LF ∉ f.part)
  | within (c : Command) (ported : List Command) {r : Recv} {h : DataHeader}
      (hclient : t.client = .receiving m r) (hheader : r.phase = .header)
      (hline : r.onLine m c.line true = (f.r, [])) (hphase : f.r.phase = .payload h)
      (hlen : c.payload.length = h.length) (hcommands : t.commands = c :: (ported ++ rest))
      (hbytes : f.part ++ queue = c.payload ++ ported.flatMap onWire)
  | ended (ported : List Command) (hclient : t.client = .receiving m f.r) (hover : ¬ f.r.Live)
      (hcommands : t.commands = ported ++ rest)

end Defs

section Reading

variable {cfg : ClientConfig} {job : Job} {m : AcceptedMeta cfg} {t t' t'' : Transfer cfg} {r : Recv}
  {effects effects' : List Pcutp.Effect}

theorem reads_refl (t : Transfer cfg) :
    Reads job t t [] :=
  ⟨.refl, rfl, (List.append_nil _).symm, (List.append_nil _).symm, fun _ hc => hc⟩

theorem Reads.trans
    (h : Reads job t t' effects) (h' : Reads job t' t'' effects') :
    Reads job t t'' (effects ++ effects') where
  leads := h.leads.trans h'.leads
  sender := h'.sender.trans h.sender
  trace := by rw [h'.trace, h.trace, List.append_assoc]
  replies := by rw [h'.replies, h.replies, sends_append, List.append_assoc]
  commands := fun c hc => h.commands c (h'.commands c hc)

theorem reads_command
    {c : Command} {commands : List Command} {p : Recv × List Pcutp.Effect}
    (hclient : t.client = .receiving m r) (hcommands : t.commands = c :: commands)
    (hread : r.read m c = some p) :
    Reads job t ({ t with commands }.received (.receiving m p.1, p.2)) p.2 := by
  have hstep : t.step job .command =
      some ({ t with commands }.received (.receiving m p.1, p.2)) := by
    rw [Transfer.step, hcommands]
    dsimp only
    rw [hclient, Client.read, hread]
    rfl
  refine ⟨.single ⟨.command, rfl, hstep⟩, rfl, rfl, rfl, fun c' hc' => ?_⟩
  rw [hcommands]
  exact List.mem_cons_of_mem _ hc'

theorem reads_act
    {ev : RecvEvent} {e : Event} {p : Recv × List Pcutp.Effect}
    (hclient : t.client = .receiving m r) (hstep : r.step m ev = some p)
    (he : Faults.any.permit e = true)
    (hevent : t.step job e = (t.client.act ev).map t.received) :
    Reads job t (t.received (.receiving m p.1, p.2)) p.2 := by
  have hnext : t.step job e = some (t.received (.receiving m p.1, p.2)) := by
    rw [hevent, hclient, Client.act, hstep]
    rfl
  exact ⟨.single ⟨e, he, hnext⟩, rfl, rfl, rfl, fun _ hc => hc⟩

/-- A command is read whole: its line, and the payload that the line asks for. -/
theorem read_cases
    {c : Command} {p : Recv × List Pcutp.Effect} (hphase : r.phase = .header)
    (hread : r.read m c = some p) :
    (∃ h, (r.onLine m c.line true).1.phase = .payload h ∧ c.payload.length = h.length ∧
      p = (((r.onLine m c.line true).1.onPayload m h c.payload none).1,
        (r.onLine m c.line true).2 ++
          ((r.onLine m c.line true).1.onPayload m h c.payload none).2)) ∨
    (∀ h, (r.onLine m c.line true).1.phase ≠ .payload h) ∧ p = r.onLine m c.line true := by
  have hline : r.step m (.line c.line true) = some (r.onLine m c.line true) := by
    rw [Recv.step, hphase]
  rw [Recv.read, hline] at hread
  dsimp only at hread
  cases hnext : (r.onLine m c.line true).1.phase with
  | payload h =>
      rw [hnext] at hread
      dsimp only at hread
      rw [Recv.step, hnext] at hread
      dsimp only at hread
      split_ifs at hread with hlen
      · cases hread
        exact Or.inl ⟨h, rfl, hlen, rfl⟩
      · cases hread
  | _ =>
      rw [hnext] at hread
      cases hread
      exact Or.inr ⟨fun h => RecvPhase.noConfusion, rfl⟩

/-- A data header is accepted without a word. -/
theorem onLine_silent
    {header : Line} {closes : Bool} (hphase : r.phase = .header) {h : DataHeader}
    (hpayload : (r.onLine m header closes).1.phase = .payload h) :
    (r.onLine m header closes).2 = [] := by
  have hkind : Recv.StepKind m r (r.onLine m header closes).1 (.line header closes)
      (r.onLine m header closes).2 :=
    Recv.onLine_kind hphase rfl
  generalize (r.onLine m header closes).1 = r' at hkind hpayload
  generalize (r.onLine m header closes).2 = effects at hkind
  cases hkind with
  | answer replies hplace hplain =>
      rw [hpayload] at hplain
      exact hplain.elim
  | frame => rfl
  | restart rest hexpected hreceived hrunning hplain =>
      rw [hpayload] at hplain
      exact hplain.elim
  | store payload tail hlt hlen hexpected hreceived hrunning hheader =>
      rw [hpayload] at hheader
      cases hheader
  | torn bytes hplace hraised =>
      rw [hpayload] at hraised
      cases hraised
  | verified header parts hplace hcommit =>
      rw [hpayload] at hcommit
      cases hcommit

/-- After a payload `_receive` waits for the next line, or it has given up. -/
theorem phase_onPayload (r : Recv) (h : DataHeader) (payload : Bytes) :
    (r.onPayload m h payload none).1.phase = .header ∨ ¬ (r.onPayload m h payload none).1.Live := by
  have hdecoded : ∀ (plain : Bytes) (length : Nat),
      (({ r with phase := .header } : Recv).onDecoded m h plain length none).1.phase = .header ∨
        ¬ (({ r with phase := .header } : Recv).onDecoded m h plain length none).1.Live := by
    intro plain length
    rw [Recv.onDecoded.eq_def]
    split_ifs
    · exact Or.inl rfl
    · exact Or.inl rfl
    · exact Or.inl rfl
    · rw [Recv.onGap]
      dsimp only
      split_ifs
      · exact Or.inr not_false
      · exact Or.inl rfl
      · exact Or.inl rfl
    · exact Or.inr not_false
    · exact Or.inl rfl
  rw [Recv.onPayload]
  dsimp only
  split_ifs
  · cases decompress payload h.raw_length with
    | error exc => exact Or.inl rfl
    | ok plain => exact hdecoded plain h.raw_length
  · exact hdecoded payload h.length

/-- A command whose line asks for no payload has none. -/
theorem Written.payload_nil
    {id : Nat} {c : Command} (h : Written job id c) (hm : m.Matches job)
    (hnone : ∀ h, (r.onLine m c.line true).1.phase ≠ .payload h) :
    c.payload = [] := by
  cases h with
  | @frame seq _ hc =>
      rcases hc.form with ⟨payload, _, rfl⟩ | ⟨hcompression, payload, hle, rfl⟩
      · rw [Recv.onLine_data hm hc.lt_blocks] at hnone
        exact absurd rfl (hnone _)
      · rw [Recv.onLine_zdata hm hcompression hc.lt_blocks hle] at hnone
        exact absurd rfl (hnone _)
  | _ => rfl

end Reading

section Feeding

variable {cfg : ClientConfig} {job : Job} {m : AcceptedMeta cfg} {f f' : Fed} {queue : Bytes}
  {rest : List Command} {t : Transfer cfg} {effects : List Pcutp.Effect}

/-- Between two commands, or at the end. -/
theorem spells_next
    {r : Recv} {t' : Transfer cfg} {ported : List Command} (hclient : t'.client = .receiving m r)
    (hphase : r.phase = .header ∨ ¬ r.Live) (hcommands : t'.commands = ported ++ rest) :
    Spells m ⟨r, []⟩ (ported.flatMap onWire) rest t' := by
  rcases hphase with hheader | hover
  · exact .between ported hclient hheader hcommands rfl List.not_mem_nil
  · exact .ended ported hclient hover hcommands

/-- The line feed of a command. -/
theorem spells_line
    {id : Nat} (hg : Genuine job t) (hflow : job.session.flow = true) {c : Command}
    {ported : List Command} (hwritten : Written job id c) (hclient : t.client = .receiving m f.r)
    (hphase : f.r.phase = .header) (hcommands : t.commands = c :: (ported ++ rest)) :
    ∃ t', Reads job t t' (settled m (f.r.onLine m c.line true)).2 ∧
      Spells m ⟨(settled m (f.r.onLine m c.line true)).1, []⟩ (c.payload ++ ported.flatMap onWire)
        rest t' := by
  have hm := (hg.receiving m f.r hclient).1
  have hreceived := hg.received hclient
  obtain ⟨p, hread⟩ := hwritten.readable hm hflow hphase hreceived
  have hreads : Reads job t
      ({ t with commands := ported ++ rest }.received (.receiving m p.1, p.2)) p.2 :=
    reads_command hclient hcommands hread
  rcases read_cases hphase hread with ⟨h, hpayload, hlen, rfl⟩ | ⟨hnone, rfl⟩
  · have hsettled : settled m (f.r.onLine m c.line true) =
        if h.length = 0 then
          (((f.r.onLine m c.line true).1.onPayload m h [] none).1,
            (f.r.onLine m c.line true).2 ++ ((f.r.onLine m c.line true).1.onPayload m h [] none).2)
        else
          f.r.onLine m c.line true := by
      rw [settled, hpayload]
    rw [hsettled]
    by_cases hzero : h.length = 0
    · have hempty : c.payload = [] := List.eq_nil_of_length_eq_zero (hlen.trans hzero)
      rw [hempty] at hreads ⊢
      rw [if_pos hzero]
      exact ⟨_, hreads, spells_next rfl (phase_onPayload _ h []) rfl⟩
    · have hsilent := onLine_silent hphase hpayload
      rw [if_neg hzero, hsilent]
      exact ⟨t, reads_refl t,
        .within c ported hclient hphase (Prod.ext rfl hsilent) hpayload hlen hcommands rfl⟩
  · have hempty : c.payload = [] := hwritten.payload_nil hm hnone
    rw [hempty]
    cases hphase' : (f.r.onLine m c.line true).1.phase with
    | payload h => exact absurd hphase' (hnone h)
    | commit =>
        have hsettled : settled m (f.r.onLine m c.line true) =
            ({ (f.r.onLine m c.line true).1 with phase := .returned true },
              (f.r.onLine m c.line true).2 ++ [.replace, .unlink]) := by
          rw [settled, hphase']
        have hcommit : (f.r.onLine m c.line true).1.step m (.commit true) =
            some ({ (f.r.onLine m c.line true).1 with phase := .returned true },
              [.replace, .unlink]) := by
          rw [Recv.step, hphase']
          rfl
        rw [hsettled]
        exact ⟨_, hreads.trans (reads_act (e := .commit) rfl hcommit rfl rfl),
          spells_next rfl (Or.inr not_false) rfl⟩
    | header =>
        have hsettled : settled m (f.r.onLine m c.line true) = f.r.onLine m c.line true := by
          rw [settled, hphase']
        rw [hsettled]
        exact ⟨_, hreads, spells_next rfl (Or.inl hphase') rfl⟩
    | _ =>
        have hsettled : settled m (f.r.onLine m c.line true) = f.r.onLine m c.line true := by
          rw [settled, hphase']
        have hover : ¬ (f.r.onLine m c.line true).1.Live := by
          rw [Recv.Live, hphase']
          exact not_false
        rw [hsettled]
        exact ⟨_, hreads, spells_next rfl (Or.inr hover) rfl⟩

/-- At a line feed the line of a command is read. -/
theorem spelled_line
    {id : Nat} (hsize : job.size ≤ Const.MAX_FILE_SIZE)
    (hbarrier : (Command.barrier id).line.length ≤ 250)
    (hwritten : ∀ c ∈ t.commands, Written job id c) (hphase : f.r.phase = .header)
    (h : Spells m f (LF :: queue) rest t) :
    ∃ c ported, Written job id c ∧ Sendable c.line ∧ t.client = .receiving m f.r ∧
      t.commands = c :: (ported ++ rest) ∧ f.part = encodeAscii c.line ∧
      queue = c.payload ++ ported.flatMap onWire := by
  cases h with
  | between ported hclient hheader hcommands hbytes hlf =>
      cases ported with
      | nil => exact absurd hbytes (by simp)
      | cons c ported =>
          have hc : Written job id c := hwritten c (hcommands ▸ List.mem_cons_self)
          have hsendable : Sendable c.line := hc.sendable (hc.short hsize hbarrier)
          rw [List.flatMap_cons, onWire, encodeFrame, List.append_assoc, List.cons_append] at hbytes
          obtain ⟨hpart, hqueue⟩ := cut_unique hlf (lf_not_mem_encode hsendable) hbytes
          exact ⟨c, ported, hc, hsendable, hclient, hcommands, hpart, hqueue⟩
  | within c ported hclient hheader hline hpayload =>
      rw [hphase] at hpayload
      cases hpayload
  | ended ported hclient hover hcommands =>
      rw [Recv.Live, hphase] at hover
      exact absurd trivial hover

/-- A byte of a command. -/
theorem spells_byte
    {id : Nat} (hg : Genuine job t) (hflow : job.session.flow = true)
    (hsize : job.size ≤ Const.MAX_FILE_SIZE) (hbarrier : (Command.barrier id).line.length ≤ 250)
    (hwritten : ∀ c ∈ t.commands, Written job id c) {b : UInt8} (h : Spells m f (b :: queue) rest t)
    (hstep : f.step m (.byte b) = some (f', effects)) :
    ∃ t', Reads job t t' effects ∧ Spells m f' queue rest t' := by
  rw [Fed.step] at hstep
  cases h with
  | between ported hclient hphase hcommands hbytes hlf =>
      rw [hphase] at hstep
      dsimp only at hstep
      split_ifs at hstep with hb
      · subst hb
        obtain ⟨c, ported', hc, hsendable, _, hcommands', hpart, rfl⟩ :=
          spelled_line hsize hbarrier hwritten hphase
            (.between ported hclient hphase hcommands hbytes hlf)
        rw [hpart, lineText_encode hsendable] at hstep
        cases hstep
        exact spells_line hg hflow hc hclient hphase hcommands'
      · cases hstep
        refine ⟨t, reads_refl t, .between ported hclient hphase hcommands ?_ ?_⟩
        · rw [List.append_assoc]
          exact hbytes
        · rw [List.mem_append, List.mem_singleton, not_or]
          exact ⟨hlf, Ne.symm hb⟩
  | @within c ported r h hclient hheader hline hphase hlen hcommands hbytes =>
      rw [hphase] at hstep
      dsimp only at hstep
      have hbytes' : (f.part ++ [b]) ++ queue = c.payload ++ ported.flatMap onWire := by
        rw [List.append_assoc]
        exact hbytes
      split_ifs at hstep with hwhole
      · have hlen' : (f.part ++ [b]).length = c.payload.length := by
          rw [List.length_append, List.length_singleton, hwhole, hlen]
        obtain ⟨hpayload, rfl⟩ := List.append_inj hbytes' hlen'
        have hread : r.read m c = some (f.r.onPayload m h c.payload none) := by
          have hpay : f.r.step m (.payload c.payload none) =
              some (f.r.onPayload m h c.payload none) := by
            rw [Recv.step, hphase]
            exact if_pos hlen
          rw [Recv.read, Recv.step, hheader]
          dsimp only
          rw [hline]
          dsimp only
          rw [hphase]
          dsimp only
          rw [hpay]
          rfl
        rw [hpayload] at hstep
        cases hstep
        exact ⟨_, reads_command hclient hcommands hread,
          spells_next rfl (phase_onPayload f.r h c.payload) rfl⟩
      · cases hstep
        exact ⟨t, reads_refl t, .within c ported hclient hheader hline hphase hlen hcommands hbytes'⟩
  | ended ported hclient hover hcommands =>
      rw [Recv.Live] at hover
      split at hstep
      · rename_i hphase
        rw [hphase] at hover
        exact absurd trivial hover
      · rename_i hphase
        rw [hphase] at hover
        exact absurd trivial hover
      · cases hstep

/-- `_receive` gives up between two commands. -/
theorem spells_silence
    (h : Spells m f queue rest t) (hphase : f.r.phase = .header)
    (hstep : f.step m .silence = some (f', effects)) :
    ∃ t', Reads job t t' effects ∧ Spells m f' queue rest t' := by
  rw [Fed.step, hphase] at hstep
  cases hstep
  have htimeout : f.r.step m .timeout =
      some (f.r.raise (TimeoutError_ "timed out waiting for a control line"), []) := by
    rw [Recv.step, hphase]
  have hover : ∀ {exc}, ¬ (f.r.raise exc).Live := not_false
  cases h with
  | between ported hclient hheader hcommands =>
      exact ⟨_, reads_act (e := .giveUp) hclient htimeout rfl rfl,
        .ended ported rfl hover hcommands⟩
  | within c ported hclient hheader hline hpayload =>
      rw [hphase] at hpayload
      cases hpayload
  | ended ported hclient hdead hcommands =>
      rw [Recv.Live, hphase] at hdead
      exact absurd trivial hdead

theorem Reads.genuine
    {t' : Transfer cfg} (hpair : Paired job.session cfg) (hflow : job.session.flow = true)
    (hg : Genuine job t) (h : Reads job t t' effects) :
    Genuine job t' :=
  Transition.Steps.invariant (Genuine job)
    (fun _ _ _ hg _ hstep => hg.move (step_move hpair hflow hg hstep)) h.leads hg

/-- The bytes of a turn, one after the other. -/
theorem spells_bytes
    {id : Nat} (hpair : Paired job.session cfg) (hg : Genuine job t)
    (hflow : job.session.flow = true) (hsize : job.size ≤ Const.MAX_FILE_SIZE)
    (hbarrier : (Command.barrier id).line.length ≤ 250)
    (hwritten : ∀ c ∈ t.commands, Written job id c) {data : Bytes}
    (h : Spells m f (data ++ queue) rest t)
    (hrun : run (Fed.step m) (f, []) (data.map .byte) = some (f', effects)) :
    ∃ t', Reads job t t' effects ∧ Spells m f' queue rest t' := by
  induction data generalizing f t effects with
  | nil =>
      cases hrun
      exact ⟨t, reads_refl t, h⟩
  | cons b data ih =>
      have hcons : (b :: data).map Input.byte = [.byte b] ++ data.map .byte := rfl
      rw [hcons] at hrun
      obtain ⟨f₁, effects₁, effects₂, hfirst, hrest, rfl⟩ := exists_of_run_append hrun
      have hall : Spells m f (b :: (data ++ queue)) rest t := h
      obtain ⟨t₁, hreads, hspells⟩ :=
        spells_byte hg hflow hsize hbarrier hwritten hall (exists_of_run_single hfirst)
      obtain ⟨t₂, hreads', hspells'⟩ := ih (hreads.genuine hpair hflow hg)
        (fun c hc => hwritten c (hreads.commands c hc)) hspells hrest
      exact ⟨t₂, hreads.trans hreads', hspells'⟩

end Feeding

section Ticking

variable {cfg : ClientConfig} {job : Job} {m : AcceptedMeta cfg} {f f₁ f' : Fed}
  {rest : List Command} {t : Transfer cfg} {effects effects₁ : List Pcutp.Effect}
  {nums : Numbers} {st st' : State} {tick : Tick} {out : List Effect}

/-- What a tick of the data loop is in the transfer. -/
structure Ticked (job : Job) (m : AcceptedMeta cfg) (rest : List Command) (t t' : Transfer cfg)
    (f' : Fed) (st' : State) (effects : List Pcutp.Effect) (out : List Effect) : Prop where
  reads : Reads job t t' effects
  agrees : Agrees m f' st'
  spells : Spells m f' st'.queue rest t'
  acts : out.filterMap Effect.act? = effects.filterMap act? ∨
    effects = [] ∧ out = [.send "ERR PROTOCOL".toList, .close]

/-- A tick that reads bytes, and is not at the end of its patience. -/
theorem ticked_bytes
    {id : Nat} (hpair : Paired job.session cfg) (hg : Genuine job t)
    (hflow : job.session.flow = true) (hsize : job.size ≤ Const.MAX_FILE_SIZE)
    (hbarrier : (Command.barrier id).line.length ≤ 250)
    (hwritten : ∀ c ∈ t.commands, Written job id c)
    (hspells : Spells m f (st.queue ++ tick.arrived) rest t)
    (hstep : dataStep nums st tick = some (st', out)) {data : Bytes}
    (hconsumed : consumed nums st tick = data.map .byte)
    (hrun : run (Fed.step m) (f, []) (consumed nums st tick) = some (f', effects))
    (hagrees : Agrees m f' st') (hacts : out.filterMap Effect.act? = effects.filterMap act?) :
    ∃ t', Ticked job m rest t t' f' st' effects out := by
  have hqueue := consumed_step hagrees.not_addressError hstep
  rw [hconsumed, filterMap_byte] at hqueue
  rw [← hqueue] at hspells
  rw [hconsumed] at hrun
  obtain ⟨t', hreads, hspells'⟩ :=
    spells_bytes hpair hg hflow hsize hbarrier hwritten hspells hrun
  exact ⟨t', hreads, hagrees, hspells', Or.inl hacts⟩

/-- A tick that reads bytes of lines and then, perhaps, gives up. -/
theorem ticked_unheard
    {id : Nat} (hpair : Paired job.session cfg) (hg : Genuine job t)
    (hflow : job.session.flow = true) (hsize : job.size ≤ Const.MAX_FILE_SIZE)
    (hbarrier : (Command.barrier id).line.length ≤ 250)
    (hwritten : ∀ c ∈ t.commands, Written job id c)
    (hspells : Spells m f (st.queue ++ tick.arrived) rest t)
    (hstep : dataStep nums st tick = some (st', out)) {data : Bytes} {late : Prop}
    [Decidable late]
    (hconsumed : consumed nums st tick = data.map .byte ++ if late then [.silence] else [])
    (hfirst : run (Fed.step m) (f, []) (data.map .byte) = some (f₁, effects₁))
    (hheader : f₁.r.phase = .header)
    (hrun : run (Fed.step m) (f, []) (consumed nums st tick) = some (f', effects))
    (hagrees : Agrees m f' st') (hacts : out.filterMap Effect.act? = effects.filterMap act?) :
    ∃ t', Ticked job m rest t t' f' st' effects out := by
  by_cases hlate : late
  · rw [if_pos hlate] at hconsumed
    have hqueue := consumed_step hagrees.not_addressError hstep
    have hbytes : (data.map Input.byte ++ [Input.silence]).filterMap Input.byte? = data := by
      rw [List.filterMap_append, filterMap_byte]
      exact List.append_nil data
    rw [hconsumed, hbytes] at hqueue
    rw [← hqueue] at hspells
    rw [hconsumed] at hrun
    obtain ⟨f₂, effects₂, effects₃, hone, hlast, rfl⟩ := exists_of_run_append hrun
    obtain ⟨t₁, hreads, hspells₁⟩ :=
      spells_bytes hpair hg hflow hsize hbarrier hwritten hspells hone
    rw [hfirst] at hone
    cases hone
    have hsilent : ∃ t', Reads job t₁ t' effects₃ ∧ Spells m f' st'.queue rest t' :=
      spells_silence hspells₁ hheader (exists_of_run_single hlast)
    obtain ⟨t', hreads', hspells'⟩ := hsilent
    exact ⟨t', hreads.trans hreads', hagrees, hspells', Or.inl hacts⟩
  · rw [if_neg hlate, List.append_nil] at hconsumed
    exact ticked_bytes hpair hg hflow hsize hbarrier hwritten hspells hstep hconsumed hrun hagrees
      hacts

/-- A tick on a command at which both receivers give up. -/
theorem ticked_refused
    {l : RecvLine} {c : Command} {ported : List Command} {rest' : Bytes}
    (hclient : t.client = .receiving m f.r) (hphase : f.r.phase = .header)
    (hplace : st.place = .line .data l) (hs : l.s = c.line) (halike : Alike m f.r st.g)
    (hqueue : st.queue ++ tick.arrived = 10 :: rest')
    (hcommands : t.commands = c :: (ported ++ rest)) (hrefused : Refused job m f.r c)
    (hstep : step nums st tick = some (st', out)) :
    ∃ f' t', Ticked job m rest t t' f' st' [] out := by
  have hturn : recvTurn nums st.g (st.queue ++ tick.arrived) tick.now Const.RSTTMO l =
      .returned { st.g with lastRx := tick.now } rest' c.line [] := by
    rw [hqueue, recvTurn, if_pos rfl, hs, recvHears_refused nums hrefused]
  rw [step_returned hplace hturn] at hstep
  have halike' : Alike m f.r { st.g with lastRx := tick.now } := { halike with }
  obtain ⟨g', said, hafter, hsaid⟩ := afterData_refused nums halike' tick.now hrefused
  rw [hafter] at hstep
  cases hstep
  obtain ⟨exc, hread⟩ := read_refused hphase hrefused
  refine ⟨⟨f.r.raise exc, []⟩, _, reads_command hclient hcommands hread,
    .raised rfl rfl (Or.inl rfl), .ended ported rfl not_false rfl, ?_⟩
  rcases hsaid with rfl | rfl
  · exact Or.inl rfl
  · exact Or.inr ⟨rfl, rfl⟩

/-- A line feed on which the receiver goes on, or ends the transfer. -/
theorem ticked_lf
    {id : Nat} (hnums : ReadsNumbers nums) (hpair : Paired job.session cfg) (hg : Genuine job t)
    (hflow : job.session.flow = true) (hsize : job.size ≤ Const.MAX_FILE_SIZE)
    (hbarrier : (Command.barrier id).line.length ≤ 250)
    (hwritten : ∀ c ∈ t.commands, Written job id c) {l : RecvLine} (hphase : f.r.phase = .header)
    (hplace : st.place = .line .data l) (hs : l.s = kept (text f.part)) (halike : Alike m f.r st.g)
    {queue : Bytes} (hqueue : st.queue ++ tick.arrived = LF :: queue)
    (hspells : Spells m f (st.queue ++ tick.arrived) rest t)
    (hstep : dataStep nums st tick = some (st', out)) (hnext : step nums st tick = some (st', out)) :
    ∃ f' t' effects, Ticked job m rest t t' f' st' effects out := by
  have hcfg : cfg.flow = true := hpair.flow.trans hflow
  have hspelled : Spells m f (LF :: queue) rest t := hqueue ▸ hspells
  obtain ⟨c, ported, hc, hsendable, hclient, hcommands, hpart, -⟩ :=
    spelled_line hsize hbarrier hwritten hphase hspelled
  have hshort := hc.short hsize hbarrier
  have hls : l.s = c.line := by
    rw [hs, hpart, kept_encode hsendable.ascii hc.noCr hshort]
  rcases hc.spoken_or_refused (hg.receiving m f.r hclient).1 hsize f.r with hspoken | hrefused
  · have hspeaks : f.Speaks m (.byte 10) := fun _ _ =>
      ⟨c.words, hpart, hsendable, hc.noCr, hshort, hspoken⟩
    obtain ⟨f', effects, hrun, hagrees, hacts⟩ :=
      agrees_lf hnums hcfg hphase hplace hs halike hqueue hspeaks hnext
    rcases hspoken with hspoken | ⟨token, htoken, hwords⟩
    · have hheard : recvHears nums l.s = .returned := by
        rw [hls]
        exact recvHears_spoken hspoken
      have hconsumed : consumed nums st tick = [LF].map .byte := consumed_heard hplace hqueue hheard
      obtain ⟨t', hticked⟩ := ticked_bytes hpair hg hflow hsize hbarrier hwritten hspells hstep
        hconsumed hrun hagrees hacts
      exact ⟨f', t', effects, hticked⟩
    · have hline : c.line = join ["AYT?".toList, token] := by
        rw [Command.line, hwords]
      have hnot : ¬ (LF = 10 ∧ recvHears nums l.s = .returned) := by
        rw [hls, hline, recvHears_ayt]
        exact fun h => Heard.noConfusion h.2
      have hconsumed : consumed nums st tick =
          [LF].map .byte ++ if tick.now - l.t0 > 4 * Const.RSTTMO then [.silence] else [] :=
        consumed_unheard hplace hqueue hnot
      have hfed : f.step m (.byte LF) = some (⟨f.r, []⟩, [.send (.here token f.r.expected)]) := by
        rw [Fed.step, hphase]
        dsimp only
        rw [if_pos rfl, hpart, lineText_encode hsendable, hline, settled_ayt hphase htoken]
      obtain ⟨t', hticked⟩ := ticked_unheard hpair hg hflow hsize hbarrier hwritten hspells hstep
        hconsumed (run_single hfed) hphase hrun hagrees hacts
      exact ⟨f', t', effects, hticked⟩
  · obtain ⟨f', t', hticked⟩ :=
      ticked_refused hclient hphase hplace hls halike hqueue hcommands hrefused hnext
    exact ⟨f', t', [], hticked⟩

/-- A tick in the middle of a payload, the rest of which has come. -/
theorem ticked_raw
    {id : Nat} (hpair : Paired job.session cfg) (hg : Genuine job t)
    (hflow : job.session.flow = true) (hsize : job.size ≤ Const.MAX_FILE_SIZE)
    (hbarrier : (Command.barrier id).line.length ≤ 250)
    (hwritten : ∀ c ∈ t.commands, Written job id c) {h : DataHeader} {frame : Frame} {l : RecvRaw}
    (hphase : f.r.phase = .payload h) (hplace : st.place = .raw frame l)
    (hgot : l.got = f.part.length) (hlt : f.part.length < h.length)
    (hbuf : st.g.arrays.buf.bytes.take l.got = f.part) (hframed : Framed m h frame)
    (halike : Alike m f.r st.g) (hspells : Spells m f (st.queue ++ tick.arrived) rest t)
    (hstep : dataStep nums st tick = some (st', out)) (hnext : step nums st tick = some (st', out)) :
    ∃ f' t' effects, Ticked job m rest t t' f' st' effects out := by
  obtain ⟨f', effects, hrun, hagrees, hacts⟩ :=
    agrees_raw (hpair.flow.trans hflow) hphase hplace hgot hlt hbuf hframed halike hnext
  have hcount : frame.ln.toNat = h.length := by
    rw [hframed.ln, Int.toNat_natCast]
  have hqueue : st.queue ++ tick.arrived ≠ [] := by
    intro hnil
    rw [hnil] at hspells
    cases hspells with
    | between ported hclient hheader =>
        rw [hphase] at hheader
        cases hheader
    | within c ported hclient hheader hline hpayload hlen hcommands hbytes =>
        rw [hphase] at hpayload
        cases hpayload
        have hshort := congrArg List.length hbytes
        rw [List.append_nil, List.length_append] at hshort
        omega
    | ended ported hclient hover =>
        rw [Recv.Live, hphase] at hover
        exact absurd trivial hover
  have hconsumed : consumed nums st tick =
      ((st.queue ++ tick.arrived).take (min (frame.ln.toNat - l.got) 255)).map .byte := by
    rw [consumed, hplace]
    dsimp only
    cases hdata : (st.queue ++ tick.arrived).take (min (frame.ln.toNat - l.got) 255) with
    | nil =>
        rcases List.take_eq_nil_iff.mp hdata with hzero | hnil
        · omega
        · exact absurd hnil hqueue
    | cons b data => rfl
  obtain ⟨t', hticked⟩ := ticked_bytes hpair hg hflow hsize hbarrier hwritten hspells hstep hconsumed
    hrun hagrees hacts
  exact ⟨f', t', effects, hticked⟩

/-- A tick of the data loop, while whole commands come in. -/
theorem ticked_step
    {id : Nat} (hnums : ReadsNumbers nums) (hpair : Paired job.session cfg) (hg : Genuine job t)
    (hflow : job.session.flow = true) (hsize : job.size ≤ Const.MAX_FILE_SIZE)
    (hbarrier : (Command.barrier id).line.length ≤ 250)
    (hwritten : ∀ c ∈ t.commands, Written job id c) (hagrees : Agrees m f st)
    (hspells : Spells m f (st.queue ++ tick.arrived) rest t)
    (hstep : dataStep nums st tick = some (st', out)) :
    ∃ f' t' effects, Ticked job m rest t t' f' st' effects out := by
  have hnext := hstep
  rw [dataStep] at hnext
  split_ifs at hnext with hreceiving
  cases hagrees with
  | @waits l hphase hplace hs halike =>
      cases hqueue : st.queue ++ tick.arrived with
      | nil =>
          obtain ⟨f', effects, hrun, hagrees, hacts⟩ :=
            agrees_nothing hphase hplace hs halike hqueue hnext
          have hconsumed : consumed nums st tick = ([] : Bytes).map .byte ++
              if tick.now - st.g.lastRx > st.g.kaWin ∨ tick.now - l.t0 > 4 * Const.RSTTMO ∨
                  tick.now - l.t > Const.RSTTMO then
                [.silence]
              else
                [] := by
            rw [consumed, hplace]
            dsimp only
            rw [hqueue]
            rfl
          obtain ⟨t', hticked⟩ := ticked_unheard hpair hg hflow hsize hbarrier hwritten hspells hstep
            hconsumed rfl hphase hrun hagrees hacts
          exact ⟨f', t', effects, hticked⟩
      | cons b queue =>
          by_cases hb : b = 10
          · subst hb
            exact ticked_lf hnums hpair hg hflow hsize hbarrier hwritten hphase hplace hs halike hqueue
              hspells hstep hnext
          · obtain ⟨f', effects, hrun, hagrees, hacts⟩ :=
              agrees_byte hphase hplace hs halike hqueue hb hnext
            have hconsumed : consumed nums st tick =
                [b].map .byte ++ if tick.now - l.t0 > 4 * Const.RSTTMO then [.silence] else [] :=
              consumed_unheard hplace hqueue fun h => hb h.1
            have hfed : f.step m (.byte b) = some (⟨f.r, f.part ++ [b]⟩, []) := by
              rw [Fed.step, hphase]
              exact if_neg hb
            obtain ⟨t', hticked⟩ := ticked_unheard hpair hg hflow hsize hbarrier hwritten hspells
              hstep hconsumed (run_single hfed) hphase hrun hagrees hacts
            exact ⟨f', t', effects, hticked⟩
  | reads hphase hplace hgot hlt hbuf hframed halike =>
      exact ticked_raw hpair hg hflow hsize hbarrier hwritten hphase hplace hgot hlt hbuf hframed halike
        hspells hstep hnext
  | returned hphase hnot hrunning =>
      rw [hnot] at hreceiving
      cases hreceiving
  | raised hphase hplace hhow =>
      rw [hplace] at hreceiving
      cases hreceiving

end Ticking

end Pcutp.Picocalc
