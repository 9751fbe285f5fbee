import Pcutp.Picocalc.Call

/-!
# What a PicoCalc overhears while it dials

The lines of a server that waits for HRU are followed on the PicoCalc's side as
characters, from the line that has begun on.  `adjacent` says which characters
may follow each other there.  `RecvLine$` can begin anywhere in such a line,
after a timeout or because the line is too long; but no line that the readers
answer is made of adjacent characters, and no `WHO? 0`.
-/

namespace Pcutp.Picocalc

open HandleHello (ohruLine normalLine tailWords)

section Text

/-- Characters that follow each other in the lines of a server that waits for HRU.  Two
characters of each line that the readers answer do not. -/
def adjacent (a b : Char) : Bool :=
  a.toNat < 128 && a != '\r' && !(a == '0' && b == '\n') &&
    !([('P', 'I'), ('P', 'O'), ('A', 'Y'), ('A', 'R'), ('R', 'M'), ('B', 'E')].contains (a, b))

/-- All neighbours in a text are adjacent. -/
abbrev Plain (text : Line) : Prop :=
  text.IsChain fun a b => adjacent a b = true

theorem adjacent_of_not_mem
    {a : Char} (ha : a.toNat < 128) (hmem : a ∉ ['\r', '0', 'P', 'A', 'R', 'B']) (b : Char) :
    adjacent a b = true := by
  simp only [List.mem_cons, List.not_mem_nil, or_false, not_or] at hmem
  simp [adjacent, ha, hmem]

theorem ascii_of_adjacent
    {a b : Char} (h : adjacent a b = true) :
    a.toNat < 128 := by
  simp only [adjacent, Bool.and_eq_true, decide_eq_true_eq] at h
  exact h.1.1.1

theorem adjacent_digit
    {a b : Char} (ha : a.isDigit = true) (hb : b ≠ '\n') :
    adjacent a b = true := by
  have hrange : 48 ≤ a.toNat ∧ a.toNat ≤ 57 := by
    simpa [Char.isDigit, UInt32.le_iff_toNat_le] using ha
  have hne : ∀ x : Char, 57 < x.toNat ∨ x.toNat < 48 → a ≠ x := by
    rintro x hx rfl
    omega
  simp [adjacent, hb, hne '\r' (by decide), hne 'P' (by decide), hne 'A' (by decide),
    hne 'R' (by decide), hne 'B' (by decide)]
  omega

theorem plain_cons
    {a : Char} {text : Line} (ha : ∀ b, adjacent a b = true) (h : Plain text) :
    Plain (a :: text) := by
  cases text with
  | nil => exact .singleton a
  | cons b text => exact List.isChain_cons_cons.mpr ⟨ha b, h⟩

theorem plain_digits
    {w : Line} (hw : ∀ c ∈ w, c.isDigit = true) {b : Char} (hb : b ≠ '\n') :
    Plain (w ++ [b]) := by
  induction w with
  | nil => exact .singleton b
  | cons a w ih =>
      have hrest := ih fun c hc => hw c (List.mem_cons_of_mem _ hc)
      have ha := hw a List.mem_cons_self
      cases w with
      | nil => exact List.isChain_cons_cons.mpr ⟨adjacent_digit ha hb, hrest⟩
      | cons a' w =>
          have ha' : a' ≠ '\n' := by
            rintro rfl
            exact absurd (hw '\n' (List.mem_cons_of_mem _ List.mem_cons_self)) (by decide)
          exact List.isChain_cons_cons.mpr ⟨adjacent_digit ha ha', hrest⟩

/-- A capability with a word after it. -/
theorem plain_capability
    {key : String} (hkey : Plain (key.toList ++ ['='])) (n : Nat) :
    Plain (capability key n ++ [' ']) := by
  rw [capability, List.append_assoc, List.cons_append]
  exact List.isChain_split.mpr ⟨hkey, plain_cons (adjacent_of_not_mem (by decide) (by decide))
    (plain_digits (fun c hc => isDigit_of_mem_dec hc) (by decide))⟩

theorem plain_join
    {ws : List Line} {w : Line} (hws : ∀ v ∈ ws, Plain (v ++ [' '])) (hw : Plain (w ++ ['\n'])) :
    Plain (join (ws ++ [w]) ++ ['\n']) := by
  induction ws with
  | nil => exact hw
  | cons v ws ih =>
      have hrest := ih fun v hv => hws v (List.mem_cons_of_mem _ hv)
      have hjoin : join (v :: ws ++ [w]) = v ++ ' ' :: join (ws ++ [w]) := by
        cases ws <;> rfl
      rw [hjoin, List.append_assoc, List.cons_append]
      exact List.isChain_split.mpr ⟨hws v List.mem_cons_self,
        plain_cons (adjacent_of_not_mem (by decide) (by decide)) hrest⟩

/-- Both proposals begin with fixed words, and end with IDENTITY=1. -/
theorem plain_proposal
    (baud : Nat) {session : Session} (hidentity : session.identity = true) (ws : List Line)
    (hws : ∀ w ∈ ws, Plain (w ++ [' '])) :
    Plain (join (ws ++ tailWords baud session) ++ ['\n']) := by
  rw [tailWords, if_pos hidentity, ← List.append_assoc]
  refine plain_join (fun w hw => ?_) (by decide)
  rcases List.mem_append.mp hw with hw | hw
  · exact hws w hw
  · rcases List.mem_append.mp hw with hw | hw
    · rcases List.mem_pair.mp hw with rfl | rfl
      · exact plain_capability (by decide) _
      · exact plain_capability (by decide) _
    · split_ifs at hw
      · rcases List.mem_append.mp hw with hw | hw
        · rcases List.mem_pair.mp hw with rfl | rfl
          · exact plain_capability (by decide) _
          · exact plain_capability (by decide) _
        · rw [List.mem_singleton.mp hw]
          exact plain_capability (by decide) _
      · rcases List.mem_append.mp hw with hw | hw
        · rcases List.mem_pair.mp hw with rfl | rfl
          · exact plain_capability (by decide) _
          · exact plain_capability (by decide) _
        · cases hw
      · cases hw

theorem plain_normalLine
    (baud : Nat) {session : Session} (hidentity : session.identity = true) :
    Plain (normalLine (tailWords baud session) ++ ['\n']) :=
  plain_proposal baud hidentity ["HELLO".toList, Const.PROTOCOL_VERSION, "HRU?".toList] (by decide)

theorem plain_ohruLine
    (baud : Nat) {session : Session} (hidentity : session.identity = true) :
    Plain (ohruLine (tailWords baud session) ++ ['\n']) :=
  plain_proposal baud hidentity ["OHRU".toList, Const.PROTOCOL_VERSION] (by decide)

/-- No line that the readers answer or drop is plain. -/
theorem recvHears_of_plain
    (nums : Numbers) {u : Line} (h : Plain (u ++ ['\n'])) :
    recvHears nums u = .returned := by
  have hbegins : ∀ start : String, ¬ Plain (start.toList) → begins start u = false := by
    intro start hstart
    refine Bool.eq_false_iff.mpr fun hprefix => hstart ?_
    exact h.infix ((List.isPrefixOf_iff_prefix.mp hprefix).isInfix.trans
      (List.prefix_append u ['\n']).isInfix)
  have hkeepAlive : keepAlive? nums u = none := by
    rw [keepAlive?, hbegins "PING " (by decide), hbegins "AYT? " (by decide),
      hbegins "AYT-OK " (by decide), hbegins "RMB? " (by decide), hbegins "BEACON U " (by decide),
      hbegins "MARK U " (by decide)]
    simp
  rw [recvHears, hkeepAlive, hbegins "PONG " (by decide), hbegins "RMB-ACK " (by decide)]
  simp

theorem ne_whoLine_of_plain
    {u : Line} (h : Plain (u ++ ['\n'])) :
    u ≠ whoLine := by
  rintro rfl
  exact absurd h (by decide)

end Text

section Stream

/-- The characters of a line that has begun, and of the bytes after it. -/
def unread (s : Line) (queue : Bytes) : Line :=
  s ++ queue.map Chr

/-- What is on the line while the PicoCalc dials. -/
structure Foreign (text : Line) : Prop where
  plain : Plain text
  ends : text = [] ∨ text.getLast? = some '\n'

theorem Foreign.suffix
    {text rest : Line} (h : Foreign text) (hrest : rest <:+ text) :
    Foreign rest := by
  refine ⟨h.plain.suffix hrest, ?_⟩
  obtain ⟨front, rfl⟩ := hrest
  by_cases hnil : rest = []
  · exact Or.inl hnil
  · refine Or.inr ?_
    have hends := h.ends.resolve_left fun hall => hnil (List.append_eq_nil_iff.mp hall).2
    rwa [List.getLast?_append_of_ne_nil _ hnil] at hends

theorem Foreign.append
    {text line : Line} (h : Foreign text) (hline : Plain (line ++ ['\n'])) :
    Foreign (text ++ (line ++ ['\n'])) := by
  refine ⟨List.isChain_append.mpr ⟨h.plain, hline, fun a ha b _ => ?_⟩, Or.inr ?_⟩
  · have hlast : a = '\n' := by
      rcases h.ends with rfl | hends
      · cases ha
      · exact Option.some.inj (ha.symm.trans hends)
    exact hlast ▸ adjacent_of_not_mem (by decide) (by decide) b
  · rw [← List.append_assoc, List.getLast?_concat]

/-- A plain line goes over the line as it is. -/
theorem map_frame
    {line : Line} (h : Plain (line ++ ['\n'])) :
    (encodeFrame line []).map Chr = line ++ ['\n'] := by
  have hascii : ∀ c ∈ line, Chr (UInt8.ofNat c.toNat) = c := by
    intro c hc
    obtain ⟨front, back, rfl⟩ := List.append_of_mem hc
    have hsplit : Plain (c :: (back ++ ['\n'])) := by
      rw [List.append_assoc, List.cons_append] at h
      exact (List.isChain_split.mp h).2
    have hlt : c.toNat < 128 := by
      cases back with
      | nil => exact ascii_of_adjacent (List.isChain_cons_cons.mp hsplit).1
      | cons b back => exact ascii_of_adjacent (List.isChain_cons_cons.mp hsplit).1
    rw [Chr, toNat_encodeChar hlt, Char.ofNat_toNat]
  rw [encodeFrame, List.map_append, encodeAscii, List.map_map]
  refine congrArg₂ (· ++ ·) ((List.map_congr_left hascii).trans (List.map_id _)) rfl

theorem foreign_wire
    {text : Line} (h : Foreign text) {lines : List Line}
    (hlines : ∀ line ∈ lines, Plain (line ++ ['\n'])) :
    Foreign (text ++ (wireBytes lines).map Chr) := by
  induction lines generalizing text with
  | nil =>
      rw [wireBytes, List.flatMap_nil, List.map_nil, List.append_nil]
      exact h
  | cons line lines ih =>
      have hline := hlines line List.mem_cons_self
      have hrest := ih (h.append hline) fun line hline => hlines line (List.mem_cons_of_mem _ hline)
      rw [wireBytes, List.flatMap_cons, List.map_append, map_frame hline, ← List.append_assoc]
      exact hrest

/-- A byte that does not end the line joins it. -/
theorem unread_keep
    {s : Line} {b : UInt8} {queue : Bytes} (h : Plain (unread s (b :: queue)))
    (hends : Chr b = '\r' → queue ≠ []) :
    unread (keep s (Chr b)) queue <:+ unread s (b :: queue) := by
  have hcr : Chr b ≠ '\r' := by
    intro hcr
    have hsplit : Plain (Chr b :: queue.map Chr) := (List.isChain_split.mp h).2
    cases queue with
    | nil => exact hends hcr rfl
    | cons b' queue =>
        have hadjacent := (List.isChain_cons_cons.mp hsplit).1
        rw [hcr] at hadjacent
        exact absurd hadjacent (by simp [adjacent])
  rw [keep, if_neg hcr]
  split_ifs
  · rw [unread, unread, List.append_assoc]
    exact List.suffix_refl _
  · exact ⟨s ++ [Chr b], by rw [unread, unread, List.append_assoc]; rfl⟩

/-- The line that a line feed ends. -/
theorem plain_of_unread
    {s : Line} {queue : Bytes} (h : Plain (unread s (10 :: queue))) :
    Plain (s ++ ['\n']) :=
  (List.isChain_split.mp h).1

end Stream

end Pcutp.Picocalc
