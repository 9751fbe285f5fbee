import Pcutp.Genuine
import Pcutp.Picocalc.TwoReceivers
import Pcutp.Verdict

/-!
# What the sender writes, as the firmware reads it

The commands of `send_file` are short lines of printed characters, as long as
the tokens of its counter are short.  Most of them are lines that both receivers
understand alike; on the others, a META that comes twice, an ERR or a DONE too
early, both give up.
-/

namespace Pcutp.Picocalc

section Defs

/-- A command as `send_file` writes it, or as the line has damaged it, while the counter of the
tokens stands at `id`. -/
inductive Written (job : Job) (id : Nat) : Command → Prop
  | announcement : Written job id job.announcement
  | frame {seq : Nat} {c : Command} (hc : job.Carries seq c) : Written job id c
  | ayt {t : Nat} (ht : t ≤ id) : Written job id (.ayt t)
  | rst {t : Nat} (ht : t ≤ id) : Written job id (.rst t)
  | barrier {t : Nat} (ht : t ≤ id) : Written job id (.barrier t)
  | done : Written job id (.done job.crc)
  | err (cls : ErrorClass) : Written job id (.err cls.code)

/-- A command at which a receiver gives up. -/
inductive Refused (job : Job) {cfg : ClientConfig} (m : AcceptedMeta cfg) (r : Recv) : Command → Prop
  | announcement : Refused job m r job.announcement
  | early (hshort : r.expected ≠ m.blocks) : Refused job m r (.done job.crc)

/-- Printed characters without the blank. -/
def Graphic (w : Line) : Prop :=
  ∀ c ∈ w, 32 < c.toNat ∧ c.toNat < 127

end Defs

section Characters

theorem graphic_of_check
    {w : Line} (h : (w.all fun c => decide (32 < c.toNat ∧ c.toNat < 127)) = true) :
    Graphic w :=
  fun c hc => of_decide_eq_true (List.all_eq_true.mp h c hc)

theorem graphic_of_subset
    {w digits : Line} (hdigits : Graphic digits) (h : ∀ c ∈ w, c ∈ digits) :
    Graphic w :=
  fun c hc => hdigits c (h c hc)

theorem graphic_dec (n : Nat) :
    Graphic (dec n) := by
  intro c hc
  have hdigit := isDigit_of_mem_dec hc
  have hrange : 48 ≤ c.toNat ∧ c.toNat ≤ 57 := by
    simpa [Char.isDigit, UInt32.le_iff_toNat_le] using hdigit
  omega

theorem graphic_crc (data : Bytes) :
    Graphic (crc32_hex data) :=
  graphic_of_subset (graphic_of_check (by decide)) fun _ hc => mem_hex8 hc

theorem graphic_name (f : SafeName) :
    Graphic f.text := by
  intro c hc
  have hchar := f.chars c hc
  simp only [isNameChar, Char.isAlphanum] at hchar
  delta Char.isAlpha Char.isUpper Char.isLower at hchar
  simp only [Char.isDigit, Bool.or_eq_true, Bool.and_eq_true, decide_eq_true_eq, beq_iff_eq,
    UInt32.le_iff_toNat_le, ge_iff_le] at hchar
  rcases hchar with ((((h | h) | h) | rfl) | rfl) | rfl
  · exact ⟨(by decide : 32 < 65).trans_le h.1, h.2.trans_lt (by decide)⟩
  · exact ⟨(by decide : 32 < 97).trans_le h.1, h.2.trans_lt (by decide)⟩
  · exact ⟨(by decide : 32 < 48).trans_le h.1, h.2.trans_lt (by decide)⟩
  all_goals decide

theorem graphic_code (cls : ErrorClass) :
    Graphic cls.code := by
  cases cls <;> exact graphic_of_check (by decide)

end Characters

section Lines

variable {job : Job} {id : Nat} {c : Command}

theorem Written.mono
    (h : Written job id c) {id' : Nat} (hle : id ≤ id') :
    Written job id' c := by
  cases h with
  | announcement => exact .announcement
  | frame hc => exact .frame hc
  | ayt ht => exact .ayt (ht.trans hle)
  | rst ht => exact .rst (ht.trans hle)
  | barrier ht => exact .barrier (ht.trans hle)
  | done => exact .done
  | err cls => exact .err cls

theorem Written.damage
    (h : Written job id c) {bytes : Bytes} (hframe : c.isFrame = true)
    (hlen : bytes.length = c.payload.length) (hdamage : ¬ (c.withPayload bytes).Intact) :
    Written job id (c.withPayload bytes) := by
  cases h with
  | frame hc => exact .frame (hc.damage hlen hdamage)
  | _ => cases hframe

theorem Written.printable
    (h : Written job id c) :
    c.Printable := by
  cases h with
  | announcement => exact job.announcement_printable
  | frame hc => exact hc.printable
  | done => exact isWord_crc32_hex _
  | err cls => exact Sender.isWord_code cls
  | _ => trivial

theorem Written.graphic
    (h : Written job id c) :
    ∀ w ∈ c.words, Graphic w := by
  have hcrc : ∀ data, Graphic (crc32_hex data) := graphic_crc
  have hdec : ∀ n, Graphic (dec n) := graphic_dec
  cases h with
  | announcement =>
      refine List.forall_mem_cons.mpr ⟨graphic_of_check (by decide), ?_⟩
      simp [hdec, graphic_name, Job.crc, hcrc]
  | frame hc =>
      rcases hc.form with ⟨payload, _, rfl⟩ | ⟨_, payload, _, rfl⟩
      · refine List.forall_mem_cons.mpr ⟨graphic_of_check (by decide), ?_⟩
        simp [hdec, hcrc]
      · refine List.forall_mem_cons.mpr ⟨graphic_of_check (by decide), ?_⟩
        simp [hdec, hcrc]
  | done =>
      refine List.forall_mem_cons.mpr ⟨graphic_of_check (by decide), ?_⟩
      simp [Job.crc, hcrc]
  | err cls =>
      refine List.forall_mem_cons.mpr ⟨graphic_of_check (by decide), ?_⟩
      simp [graphic_code]
  | rst ht =>
      refine List.forall_mem_cons.mpr ⟨graphic_of_check (by decide), ?_⟩
      refine List.forall_mem_cons.mpr ⟨graphic_of_check (by decide), ?_⟩
      simp [hdec]
  | _ =>
      refine List.forall_mem_cons.mpr ⟨graphic_of_check (by decide), ?_⟩
      simp [hdec]

/-- The characters of a line of the sender. -/
theorem Written.printed
    (h : Written job id c) {x : Char} (hx : x ∈ c.line) :
    31 < x.toNat ∧ x.toNat < 127 := by
  rcases Words.mem_unwords hx with rfl | ⟨w, hw, hxw⟩
  · decide
  · have hgraphic := h.graphic w hw x hxw
    omega

theorem isTransparent_words (c : Command) :
    isTransparent c.words = false := by
  cases c <;> rfl

/-- A line of printed characters comes through `recv_line` unchanged. -/
theorem legible_of_printed
    {line : Line} (hprinted : ∀ x ∈ line, 31 < x.toNat ∧ x.toNat < 127)
    (hplain : isTransparent (split line) = false) :
    Legible line := by
  have hhead : ∀ x : Char, x.toNat ≤ 31 → line.head? ≠ some x := by
    intro x hx heq
    have hx' := hprinted x (List.mem_of_mem_head? heq)
    omega
  have hlast : line.getLast? ≠ some '\r' := by
    intro heq
    exact absurd (hprinted _ (List.mem_of_getLast? heq)).1 (by decide)
  exact
    { ascii := fun x hx => (hprinted x hx).2.trans (by decide)
      noLf := fun hmem => absurd (hprinted _ hmem).1 (by decide)
      noNul := hhead _ (by decide)
      noCrBefore := hhead _ (by decide)
      noCrAfter := hlast
      plain := hplain }

theorem sendable_of_printed
    {line : Line} (hprinted : ∀ x ∈ line, 31 < x.toNat ∧ x.toNat < 127)
    (hshort : line.length ≤ 250) (hplain : isTransparent (split line) = false) :
    Sendable line :=
  { legible_of_printed hprinted hplain with short := hshort.trans (by decide) }

theorem Written.legible
    (h : Written job id c) :
    Legible c.line :=
  legible_of_printed (fun _ hx => h.printed hx)
    (by rw [Command.split_line h.printable, isTransparent_words])

theorem Written.sendable
    (h : Written job id c) (hshort : c.line.length ≤ 250) :
    Sendable c.line :=
  sendable_of_printed (fun _ hx => h.printed hx) hshort
    (by rw [Command.split_line h.printable, isTransparent_words])

theorem Written.noCr
    (h : Written job id c) :
    '\r' ∉ c.line :=
  fun hmem => absurd (h.printed hmem).1 (by decide)

theorem length_dec_mono
    {a b : Nat} (h : a ≤ b) :
    (dec a).length ≤ (dec b).length := by
  have hpos : 0 < (dec b).length := List.length_pos_iff.mpr (dec_ne_nil b)
  have hb : b < 10 ^ (dec b).length := (Nat.length_toDigits_le_iff (by decide) hpos).mp le_rfl
  exact length_dec_le hpos (h.trans_lt hb)

/-- As long as a BARRIER is, every line of the sender is short enough for `RecvLine$`. -/
theorem Written.short
    (h : Written job id c) (hsize : job.size ≤ Const.MAX_FILE_SIZE)
    (hbarrier : (Command.barrier id).line.length ≤ 250) :
    c.line.length ≤ 250 := by
  have hcrc : ∀ data, (crc32_hex data).length = 8 := fun data => length_hex8 _
  have hfile : ∀ n ≤ Const.MAX_FILE_SIZE, (dec n).length ≤ 8 := fun n hn =>
    length_dec_le (by decide) (hn.trans_lt (by decide))
  have hblock : ∀ n ≤ 4096, (dec n).length ≤ 4 := fun n hn =>
    length_dec_le (by decide) (hn.trans_lt (by decide))
  have hblocks : job.blocks ≤ Const.MAX_FILE_SIZE :=
    (blockCount_le job.size job.block_size_pos).trans (max_le (by decide) hsize)
  have htoken : ∀ t ≤ id, (dec t).length ≤ 242 := by
    intro t ht
    have hmono := length_dec_mono ht
    simp [Command.line, Command.words, join, Words.unwords] at hbarrier
    omega
  cases h with
  | announcement =>
      have hname := job.filename.short
      have h1 := hfile _ hsize
      have h2 := hblock _ job.block_size_le_max
      have h3 := hfile _ hblocks
      have h4 := hcrc job.data
      simp only [Const.MAX_FILENAME_LEN] at hname
      simp [Job.announcement, Command.line, Command.words, join, Words.unwords, Job.crc, h4]
      omega
  | @frame seq _ hc =>
      have h1 := hfile _ (hc.lt_blocks.le.trans hblocks)
      have hchunk : (job.chunk seq).length ≤ 4096 :=
        (job.length_chunk_le seq).trans job.block_size_le_max
      rcases hc.form with ⟨payload, _, rfl⟩ | ⟨_, payload, hle, rfl⟩
      · have h2 := hblock _ hchunk
        simp [Command.line, Command.words, join, Words.unwords, hcrc]
        omega
      · have h2 := hblock _ hchunk
        have h3 := hblock _ (hle.trans hchunk)
        simp [Command.line, Command.words, join, Words.unwords, hcrc]
        omega
  | ayt ht =>
      have h1 := htoken _ ht
      simp [Command.line, Command.words, join, Words.unwords]
      omega
  | rst ht =>
      have h1 := htoken _ ht
      simp [Command.line, Command.words, join, Words.unwords]
      omega
  | barrier ht =>
      have h1 := htoken _ ht
      simp [Command.line, Command.words, join, Words.unwords]
      omega
  | done =>
      have h1 := hcrc job.data
      simp [Command.line, Command.words, join, Words.unwords, Job.crc, h1]
  | err cls =>
      cases cls <;> decide

end Lines

section Sender

variable {job : Job} {s s' : Sender} {out : List Command}

/-- What a read makes the sender write. -/
theorem written_read
    {r : Option Reply} (h : Sender.ReadKind job s r s' out) :
    ∀ c ∈ out, Written job s'.barrier_id c := by
  have hone : ∀ {c : Command} {id : Nat}, Written job id c → ∀ c' ∈ [c], Written job id c' := by
    intro c id hc c' hc'
    rwa [List.mem_singleton.mp hc']
  have hnil : ∀ {id : Nat}, ∀ c ∈ ([] : List Command), Written job id c :=
    fun c hc => absurd hc List.not_mem_nil
  cases h with
  | failed r s' exc out hphase hphase' hmessage hcode hid hout =>
      rcases hout with rfl | rfl
      · exact hnil
      · rw [hcode]
        exact hone (.err _)
  | askAlive => exact hone (.ayt le_rfl)
  | askRestart => exact hone (.rst le_rfl)
  | askReset => exact hone (.rst le_rfl)
  | askBarrier => exact hone (.barrier le_rfl)
  | gap => exact hone (.barrier le_rfl)
  | restarted => exact hone (.barrier le_rfl)
  | resetDone => exact hone (.barrier le_rfl)
  | unsent => exact hone (.err .protocol)
  | badReset => exact hone (.err .protocol)
  | badResume => exact hone (.err .protocol)
  | _ => exact hnil

/-- What the sender writes without a read. -/
theorem written_fill
    (hframes : ∀ seq c, s.frames seq = some c → job.IsFrameOf seq c)
    (h : Sender.FillKind job s s' out) :
    s'.barrier_id = s.barrier_id ∧ ∀ c ∈ out, Written job s.barrier_id c := by
  cases h with
  | frame frame hframe hblocks hroom hbase =>
      have hof := hframe ▸ isFrameOf_cached hframes
      refine ⟨rfl, fun c hc => ?_⟩
      rw [List.mem_singleton.mp hc]
      exact .frame (hof.carries hblocks)
  | wait => exact ⟨rfl, fun c hc => absurd hc List.not_mem_nil⟩
  | done =>
      refine ⟨rfl, fun c hc => ?_⟩
      rw [List.mem_singleton.mp hc]
      exact .done
  | failed exc hcls hmessage hcode =>
      refine ⟨rfl, fun c hc => ?_⟩
      rw [List.mem_singleton.mp hc, hcode]
      exact .err _

/-- The server takes a file for verified only on the OK of the receiver. -/
theorem verified_of_read
    {r : Reply} (hr : r.Printable) (hflow : job.session.flow = true)
    (hblock : ∀ attempt timeouts, s.phase ≠ .block attempt timeouts) {late : Bool}
    (h : s.step job (.line r.line late) = some (s', out)) {result : TransferResult}
    (hphase : s'.phase = .returned (some result)) (hverified : result.verified = true) :
    r = .ok job.crc := by
  by_cases hfinal : s.phase = .final
  · obtain ⟨-, -, hskips, hanswer⟩ := Sender.final_reply hr hflow hfinal h
    by_cases hskip : s.Skips job r
    · rcases hskips hskip with hstay | ⟨exc, hraised⟩
      · rw [hphase] at hstay
        cases hstay
      · rw [hphase] at hraised
        cases hraised
    · obtain ⟨result', hresult, hiff⟩ := hanswer hskip
      obtain rfl : result = result' := by
        rw [hphase] at hresult
        cases hresult
        rfl
      exact hiff.mp hverified
  · have hkind := Sender.reply_kind hr hblock h
    cases hkind with
    | wait r phase hwait =>
        obtain rfl : phase = .returned (some result) := hphase
        generalize s.phase = p at hwait
        cases hwait
    | failed r s' exc out hbusy hraised =>
        rw [hphase] at hraised
        cases hraised
    | ended r phase hended => exact absurd hended hfinal
    | _ => cases hphase

end Sender

section Receivers

variable {job : Job} {cfg : ClientConfig} {m : AcceptedMeta cfg} {r : Recv} {id : Nat} {c : Command}

/-- Both receivers understand a line of the sender, or give up on it. -/
theorem Written.spoken_or_refused
    (h : Written job id c) (hm : m.Matches job) (hsize : job.size ≤ Const.MAX_FILE_SIZE) (r : Recv) :
    (Spoken m r c.words ∨
      ∃ token, isdecimal token = true ∧ c.words = ["AYT?".toList, token]) ∨ Refused job m r c := by
  have hfile : Const.MAX_FILE_SIZE < 2 ^ 53 := by decide
  cases h with
  | announcement => exact Or.inr .announcement
  | err cls => exact Or.inl (Or.inl (.err (Sender.isWord_code cls)))
  | ayt ht => exact Or.inl (Or.inr ⟨_, isdecimal_dec _, rfl⟩)
  | rst ht => exact Or.inl (Or.inl (.rst (isdecimal_dec _)))
  | barrier ht => exact Or.inl (Or.inl (.barrier (isdecimal_dec _)))
  | done =>
      by_cases hall : r.expected = m.blocks
      · have hhex : (parse_hex job.crc).isSome = true := by
          rw [Job.crc, crc32_hex, parse_hex_to_hex]
        exact Or.inl (Or.inl (.done hhex hall))
      · exact Or.inr (.early hall)
  | @frame seq _ hc =>
      have hblocks : job.blocks ≤ Const.MAX_FILE_SIZE :=
        (blockCount_le job.size job.block_size_pos).trans (max_le (by decide) hsize)
      have hseq := hc.lt_blocks
      have hchunk := job.length_chunk_le seq
      have hmax := job.block_size_le_max
      have hlt : ∀ n ≤ (job.chunk seq).length, int (dec n) < 2 ^ 53 := by
        intro n hn
        rw [int_dec]
        omega
      have hn : int (dec seq) < 2 ^ 53 := by
        rw [int_dec]
        omega
      rcases hc.form with ⟨payload, _, rfl⟩ | ⟨_, payload, hle, rfl⟩
      · exact Or.inl (Or.inl
          (.data (isdecimal_dec _) (isdecimal_dec _) (isWord_crc32_hex _) hn (hlt _ le_rfl)))
      · refine Or.inl (Or.inl (.zdata (isdecimal_dec _) (isdecimal_dec _) (isdecimal_dec _)
          (isWord_crc32_hex _) hn (hlt _ hle) ?_))
        rw [int_dec, hm.blocksize]
        exact hchunk

/-- `_receive` gives up without a word. -/
theorem read_refused
    (hphase : r.phase = .header) (h : Refused job m r c) :
    ∃ exc, r.read m c = some (r.raise exc, []) := by
  cases h with
  | announcement =>
      exact ⟨_, Recv.read_stray hphase job.announcement_printable (Or.inl ⟨_, _, _, _, _, rfl⟩)⟩
  | early hshort =>
      have hcrc : IsWord job.crc := isWord_crc32_hex _
      exact ⟨_, (Recv.read_done hphase hcrc).trans (congrArg some (if_pos hshort))⟩

/-- `_receive` reads every command of the sender. -/
theorem Written.readable
    (h : Written job id c) (hm : m.Matches job) (hflow : job.session.flow = true)
    (hphase : r.phase = .header) (hreceived : r.received = min (r.expected * m.blocksize) m.size) :
    ∃ p, r.read m c = some p := by
  cases h with
  | announcement =>
      have hrefused : Refused job m r job.announcement := .announcement
      obtain ⟨exc, hread⟩ := read_refused hphase hrefused
      exact ⟨_, hread⟩
  | frame hc =>
      obtain ⟨r', effects, hread, -⟩ := Recv.read_frame hm hphase hreceived hc
      exact ⟨_, hread⟩
  | ayt ht => exact ⟨_, Recv.read_ayt hphase _⟩
  | rst ht => exact ⟨_, Recv.read_rst hphase _⟩
  | barrier ht => exact ⟨_, Recv.read_barrier hphase (hm.flow.trans hflow) _⟩
  | done => exact ⟨_, Recv.read_done hphase (isWord_crc32_hex _)⟩
  | err cls =>
      obtain ⟨exc, -, hread⟩ := Recv.read_err hphase (Sender.isWord_code cls)
      exact ⟨_, hread⟩

/-- `PCUTP.BAS` gives up as well, after ERR PROTOCOL where DONE came too early. -/
theorem afterData_refused
    (nums : Numbers) {g : Globals} (halike : Alike m r g) (now : Nat) (h : Refused job m r c) :
    ∃ g' out, afterData nums g now c.line = stop g' .ended out ∧
      (out = [.close] ∨ out = [.send "ERR PROTOCOL".toList, .close]) := by
  cases h with
  | announcement =>
      have hblank : ∀ w ∈ job.announcement.words, ' ' ∉ w := fun w hw =>
        no_blank_of_isWord (Command.isWord_of_mem_words job.announcement_printable w hw)
      have hfive : 5 < 9 := by decide
      obtain ⟨parts, g', -, -, hafter⟩ := afterData_words nums g now hblank hfive rfl
        (Command.line_ne_close job.announcement_printable)
      have hother : "META".toList ≠ "RST".toList ∧ "META".toList ≠ "DONE".toList ∧
          "META".toList ≠ "BARRIER".toList := by
        decide
      have hdata : (g'.zipOn && decide ("META".toList = "ZDATA".toList)) = false ∧
          "META".toList ≠ "DATA".toList := by
        simp
      refine ⟨g', [.close], hafter.trans ?_, Or.inl rfl⟩
      rw [if_neg fun h => hother.1 h.1, if_neg hother.2.1, if_neg fun h => hother.2.2 h.2,
        if_pos hdata]
  | early hshort =>
      have hcrc : (Command.done job.crc).Printable := isWord_crc32_hex _
      have hblank : ∀ w ∈ (Command.done job.crc).words, ' ' ∉ w := fun w hw =>
        no_blank_of_isWord (Command.isWord_of_mem_words hcrc w hw)
      have hone : 1 < 9 := by decide
      obtain ⟨parts, g', -, rfl, hafter⟩ := afterData_words nums g now hblank hone rfl
        (Command.line_ne_close hcrc)
      have hother : "DONE".toList ≠ "RST".toList := by decide
      have hblocks : g.seq ≠ g.blocks := by
        rw [halike.seq, halike.blocks]
        exact fun heq => hshort (Int.ofNat.inj heq)
      refine ⟨{ g with parts }, _, hafter.trans ?_, Or.inr rfl⟩
      rw [if_neg fun h => hother h.1, if_pos rfl, if_pos hblocks]
      rfl

theorem recvHears_refused
    (nums : Numbers) (h : Refused job m r c) :
    recvHears nums c.line = .returned := by
  cases h with
  | announcement => exact recvHears_returned rfl rfl rfl rfl rfl rfl rfl rfl
  | early hshort => exact recvHears_returned rfl rfl rfl rfl rfl rfl rfl rfl

end Receivers

end Pcutp.Picocalc
