import Mathlib.Data.List.Forall2
import Pcutp.Picocalc.Reader

/-!
# Whole lines and what is left of long ones

Both line readers keep at most 250 characters.  The character after them clears
the buffer, and the line goes on in the empty buffer: of a line of `n`
characters the readers keep the last `n % 251`.  What is kept of a line that is
too long is then treated as a line of its own, unless it is one that the reader
drops.
-/

namespace Pcutp.Picocalc

section Defs

variable (nums : Numbers)

/-- The text of a line: carriage returns do not count. -/
def text (raw : Bytes) : Line :=
  (raw.map Chr).filter (· ≠ '\r')

/-- The lines of a stream that end in it. -/
def rawLines (stream : Bytes) : List Bytes :=
  (stream.splitOn 10).dropLast

/-- The characters after the last one that cleared the buffer. -/
def kept (t : Line) : Line :=
  t.drop (251 * (t.length / 251))

/-- `RecvLine$` called again and again while bytes come, each with the time it is read: what it
made of every line.  `none` when a call ran out of time. -/
def recvLog (tmo : Nat) : Globals → RecvLine → List (Nat × UInt8) → Option (List (Line × Heard))
  | _, _, [] => some []
  | g, l, (now, b) :: bytes =>
      if now - l.t0 > 4 * tmo then
        none
      else
        let log := if b = 10 then [(l.s, recvHears nums l.s)] else []
        match recvTurn nums g [b] now tmo l with
        | .again g _ l _ => (recvLog tmo g l bytes).map (log ++ ·)
        | .returned g _ _ _ =>
            (recvLog tmo g { s := [], t := now, t0 := now } bytes).map (log ++ ·)
        | .lost _ _ => none

/-- `InputAlive$` in the same way, with the keys that are hit; `none` when one was Enter, which
drops the line that is being read. -/
def inputLog : Globals → InputAlive → List (Nat × Option Char × UInt8) →
    Option (List (Line × Heard))
  | _, _, [] => some []
  | g, l, (now, key, b) :: bytes =>
      if key = some '\r' then
        none
      else
        let log := if b = 10 then [(l.u, inputHears nums l.u)] else []
        match inputTurn nums g [b] now key l with
        | .again g _ l _ => (inputLog g l bytes).map (log ++ ·)
        | .returned g _ _ _ => (inputLog g { u := [], txt := [] } bytes).map (log ++ ·)
        | .lost _ _ => none

/-- The two readers. -/
inductive Reader
  | recvLine
  | inputAlive
  deriving DecidableEq

def Reader.hears : Reader → Line → Heard
  | .recvLine => recvHears nums
  | .inputAlive => inputHears nums

/-- What a reader made of the lines of a stream. -/
inductive Reader.Logs (stream : Bytes) : Reader → List (Line × Heard) → Prop
  | recvLine (tmo : Nat) (g : Globals) (t0 : Nat) (bytes : List (Nat × UInt8))
      {log : List (Line × Heard)} (hstream : bytes.map (·.2) = stream)
      (hlog : recvLog nums tmo g { s := [], t := t0, t0 } bytes = some log) :
      Reader.Logs stream .recvLine log
  | inputAlive (g : Globals) (txt : Line) (bytes : List (Nat × Option Char × UInt8))
      {log : List (Line × Heard)} (hstream : bytes.map (·.2.2) = stream)
      (hlog : inputLog nums g { u := [], txt } bytes = some log) :
      Reader.Logs stream .inputAlive log

/-- What a reader returns or serves is the text of a whole line, and a line that is too long is
dropped as a whole. -/
def WholeLines (reader : Reader) (stream : Bytes) : Prop :=
  ∀ log, reader.Logs nums stream log →
    List.Forall₂ (fun raw entry => entry.2 ≠ .dropped →
      entry.1 = text raw ∧ (text raw).length ≤ 250) (rawLines stream) log

end Defs

section Keep

theorem length_kept (t : Line) :
    (kept t).length = t.length % 251 := by
  rw [kept, List.length_drop]
  omega

theorem kept_of_short
    {t : Line} (h : t.length ≤ 250) :
    kept t = t := by
  rw [kept, Nat.div_eq_of_lt (by omega), Nat.mul_zero, List.drop_zero]

/-- A reader keeps the last characters of what it has read. -/
theorem keep_kept
    (t : Line) {ch : Char} (hch : ch ≠ '\r') :
    keep (kept t) ch = kept (t ++ [ch]) := by
  have hlength := length_kept t
  have hlen : (t ++ [ch]).length = t.length + 1 := by
    simp
  rw [keep, if_neg hch]
  split_ifs with hroom
  · have hdiv : (t.length + 1) / 251 = t.length / 251 := by omega
    rw [kept, kept, hlen, hdiv, List.drop_append_of_le_length (by omega)]
  · refine (List.length_eq_zero_iff.mp ?_).symm
    rw [length_kept, hlen]
    omega

theorem keep_text
    (raw : Bytes) (b : UInt8) :
    keep (kept (text raw)) (Chr b) = kept (text (raw ++ [b])) := by
  have htext : text (raw ++ [b]) = text raw ++ if Chr b = '\r' then [] else [Chr b] := by
    rw [text, text, List.map_append, List.filter_append]
    by_cases hb : Chr b = '\r' <;> simp [hb]
  rw [htext]
  split_ifs with hb
  · rw [List.append_nil, keep, if_pos hb]
  · exact keep_kept _ hb

/-- What stands in the buffer at each line feed. -/
def completed : Line → Bytes → List Line
  | _, [] => []
  | s, b :: stream => if b = 10 then s :: completed [] stream else completed (keep s (Chr b)) stream

theorem rawLines_of_free
    {raw : Bytes} (h : 10 ∉ raw) :
    rawLines raw = [] := by
  rw [rawLines, List.splitOn_eq_singleton h]
  rfl

theorem rawLines_cons
    {raw : Bytes} (h : 10 ∉ raw) (stream : Bytes) :
    rawLines (raw ++ 10 :: stream) = raw :: rawLines stream := by
  rw [rawLines, List.splitOn_append_cons_self, List.splitOn_eq_singleton h, List.singleton_append,
    List.dropLast_cons_of_ne_nil (List.splitOn_ne_nil _ _), rawLines]

/-- What is in the buffer at a line feed is what was kept of the line. -/
theorem completed_kept
    {raw : Bytes} (hraw : 10 ∉ raw) (stream : Bytes) :
    completed (kept (text raw)) stream =
      (rawLines (raw ++ stream)).map fun raw => kept (text raw) := by
  induction stream generalizing raw with
  | nil =>
      rw [List.append_nil, rawLines_of_free hraw]
      rfl
  | cons b stream ih =>
      rw [completed]
      split_ifs with hb
      · subst hb
        rw [rawLines_cons hraw, List.map_cons]
        exact congrArg _ (ih List.not_mem_nil)
      · have hraw' : 10 ∉ raw ++ [b] := by
          rw [List.mem_append, List.mem_singleton]
          rintro (hmem | rfl)
          · exact hraw hmem
          · exact hb rfl
        rw [keep_text, ih hraw', List.append_assoc, List.singleton_append]

end Keep

section Logs

variable (nums : Numbers)

theorem serve_lastRx (g : Globals) (s : Line) (line : KeepAlive) :
    (serve nums g s line).1.lastRx = g.lastRx := by
  obtain ⟨bit, hserve⟩ := serve_frame nums g s line
  rw [hserve]

/-- A byte that comes in time leaves the call with what the byte makes of the line. -/
theorem recvTurn_byte
    {g : Globals} {b : UInt8} {now tmo : Nat} {l : RecvLine} (htime : ¬ now - l.t0 > 4 * tmo) :
    (∃ g' out, recvTurn nums g [b] now tmo l =
        .again g' [] { s := if b = 10 then [] else keep l.s (Chr b), t := now, t0 := l.t0 } out) ∨
      b = 10 ∧ ∃ g' out, recvTurn nums g [b] now tmo l = .returned g' [] l.s out := by
  -- The byte has just been read, so that no clock has run out.
  have hclock : ∀ (g' : Globals) (s : Line) (out : List Effect), g'.lastRx = now →
      recvClock g' [] now tmo { l with s, t := now } out =
        .again g' [] { s, t := now, t0 := l.t0 } out := by
    intro g' s out hrx
    rw [recvClock, hrx, Nat.sub_self, if_neg (Nat.not_lt_zero _), if_neg htime,
      if_neg (Nat.not_lt_zero _)]
  rw [recvTurn]
  split_ifs with hb
  · cases hheard : recvHears nums l.s with
    | served line => exact Or.inl ⟨_, _, hclock _ _ _ (serve_lastRx nums _ _ _)⟩
    | dropped => exact Or.inl ⟨_, _, hclock _ _ _ rfl⟩
    | returned => exact Or.inr ⟨hb, _, _, rfl⟩
  · exact Or.inl ⟨_, _, hclock _ _ _ rfl⟩

/-- What `RecvLine$` makes of the lines is said of the buffer at each line feed. -/
theorem recvLog_eq
    {tmo : Nat} {g : Globals} {l : RecvLine} {bytes : List (Nat × UInt8)}
    {log : List (Line × Heard)} (h : recvLog nums tmo g l bytes = some log) :
    log = (completed l.s (bytes.map (·.2))).map fun s => (s, recvHears nums s) := by
  induction bytes generalizing g l log with
  | nil =>
      cases h
      rfl
  | cons p bytes ih =>
      obtain ⟨now, b⟩ := p
      rw [recvLog] at h
      by_cases htime : now - l.t0 > 4 * tmo
      · rw [if_pos htime] at h
        cases h
      · rw [if_neg htime] at h
        rw [List.map_cons, completed]
        rcases recvTurn_byte nums (g := g) (b := b) htime with
          ⟨g', out, hturn⟩ | ⟨hb, g', out, hturn⟩
        · rw [hturn] at h
          obtain ⟨rest, hrest, rfl⟩ := Option.map_eq_some_iff.mp h
          rw [ih hrest]
          split_ifs <;> rfl
        · rw [hturn] at h
          obtain ⟨rest, hrest, rfl⟩ := Option.map_eq_some_iff.mp h
          rw [ih hrest, if_pos hb, if_pos hb]
          rfl

/-- Bytes that come all at once come in time. -/
theorem exists_recvLog (g : Globals) (l : RecvLine) (hl : l.t0 = 0) (stream : Bytes) :
    ∃ log, recvLog nums 0 g l (stream.map fun b => (0, b)) = some log := by
  induction stream generalizing g l with
  | nil => exact ⟨[], rfl⟩
  | cons b stream ih =>
      have htime : ¬ 0 - l.t0 > 4 * 0 := by omega
      rw [List.map_cons, recvLog, if_neg htime]
      rcases recvTurn_byte nums (g := g) (b := b) htime with ⟨g', out, hturn⟩ | ⟨hb, g', out, hturn⟩
      · obtain ⟨log, hlog⟩ :=
          ih g' { s := if b = 10 then [] else keep l.s (Chr b), t := 0, t0 := l.t0 } hl
        rw [hturn]
        exact ⟨_, congrArg (Option.map _) hlog⟩
      · obtain ⟨log, hlog⟩ := ih g' { s := [], t := 0, t0 := 0 } rfl
        rw [hturn]
        exact ⟨_, congrArg (Option.map _) hlog⟩

/-- A byte leaves `InputAlive$` with what the byte makes of the line, whatever key is hit but
Enter. -/
theorem inputTurn_byte
    (g : Globals) (b : UInt8) (now : Nat) {key : Option Char} (l : InputAlive)
    (hkey : key ≠ some '\r') :
    (∃ g' txt out, inputTurn nums g [b] now key l =
        .again g' [] { u := if b = 10 then [] else keep l.u (Chr b), txt } out) ∨
      b = 10 ∧ ∃ g' out, inputTurn nums g [b] now key l = .returned g' [] [] out := by
  have hkeys : ∀ (g' : Globals) (u : Line) (out : List Effect), g'.lastRx = now →
      ∃ g'' txt out', inputKeys g' [] now key { l with u } out = .again g'' [] { u, txt } out' := by
    intro g' u out hrx
    have hbeacon : (beacon g' now).1.lastRx = now := by
      rw [beacon]
      split_ifs
      · exact hrx
      · exact hrx
    have hclock : ¬ now - (beacon g' now).1.lastRx > (beacon g' now).1.kaWin := by
      rw [hbeacon, Nat.sub_self]
      exact Nat.not_lt_zero _
    cases key with
    | none => exact ⟨_, _, _, if_neg hclock⟩
    | some ch =>
        have hch : ch ≠ '\r' := fun h => hkey (congrArg some h)
        dsimp only [inputKeys]
        rw [if_neg hch]
        split_ifs
        · exact ⟨_, _, _, rfl⟩
        · exact ⟨_, _, _, rfl⟩
        · exact ⟨_, _, _, rfl⟩
  rw [inputTurn]
  split_ifs with hb
  · cases hheard : inputHears nums l.u with
    | served line =>
        have hrx := serve_lastRx nums { g with lastRx := now } l.u line
        obtain ⟨g'', txt, out', h⟩ :=
          hkeys _ [] (serve nums { g with lastRx := now } l.u line).2 hrx
        exact Or.inl ⟨g'', txt, out', h⟩
    | dropped =>
        obtain ⟨g'', txt, out', h⟩ := hkeys { g with lastRx := now } [] [] rfl
        exact Or.inl ⟨g'', txt, out', h⟩
    | returned => exact Or.inr ⟨hb, _, _, rfl⟩
  · obtain ⟨g'', txt, out', h⟩ := hkeys { g with lastRx := now } (keep l.u (Chr b)) [] rfl
    exact Or.inl ⟨g'', txt, out', h⟩

theorem inputLog_eq
    {g : Globals} {l : InputAlive} {bytes : List (Nat × Option Char × UInt8)}
    {log : List (Line × Heard)} (h : inputLog nums g l bytes = some log) :
    log = (completed l.u (bytes.map (·.2.2))).map fun u => (u, inputHears nums u) := by
  induction bytes generalizing g l log with
  | nil =>
      cases h
      rfl
  | cons p bytes ih =>
      obtain ⟨now, key, b⟩ := p
      rw [inputLog] at h
      by_cases hkey : key = some '\r'
      · rw [if_pos hkey] at h
        cases h
      · rw [if_neg hkey] at h
        rw [List.map_cons, completed]
        rcases inputTurn_byte nums g b now l hkey with
          ⟨g', txt, out, hturn⟩ | ⟨hb, g', out, hturn⟩
        · rw [hturn] at h
          obtain ⟨rest, hrest, rfl⟩ := Option.map_eq_some_iff.mp h
          rw [ih hrest]
          split_ifs <;> rfl
        · rw [hturn] at h
          obtain ⟨rest, hrest, rfl⟩ := Option.map_eq_some_iff.mp h
          rw [ih hrest, if_pos hb, if_pos hb]
          rfl

theorem exists_inputLog (g : Globals) (l : InputAlive) (stream : Bytes) :
    ∃ log, inputLog nums g l (stream.map fun b => (0, none, b)) = some log := by
  induction stream generalizing g l with
  | nil => exact ⟨[], rfl⟩
  | cons b stream ih =>
      have hkey : (none : Option Char) ≠ some '\r' := (Option.some_ne_none _).symm
      rw [List.map_cons, inputLog, if_neg hkey]
      rcases inputTurn_byte nums g b 0 l hkey with
        ⟨g', txt, out, hturn⟩ | ⟨hb, g', out, hturn⟩
      · obtain ⟨log, hlog⟩ := ih g' { u := if b = 10 then [] else keep l.u (Chr b), txt }
        rw [hturn]
        exact ⟨_, congrArg (Option.map _) hlog⟩
      · obtain ⟨log, hlog⟩ := ih g' { u := [], txt := [] }
        rw [hturn]
        exact ⟨_, congrArg (Option.map _) hlog⟩

end Logs

section Result

variable (nums : Numbers)

/-- A reader makes of every line what it makes of the characters it kept of it. -/
theorem logs_iff (reader : Reader) (stream : Bytes) (log : List (Line × Heard)) :
    reader.Logs nums stream log ↔
      log = (rawLines stream).map fun raw =>
        (kept (text raw), reader.hears nums (kept (text raw))) := by
  have hkept : completed [] stream = (rawLines stream).map fun raw => kept (text raw) :=
    completed_kept List.not_mem_nil stream
  have hone : ∀ log', reader.Logs nums stream log' →
      log' = (rawLines stream).map fun raw =>
        (kept (text raw), reader.hears nums (kept (text raw))) := by
    rintro log' (⟨tmo, g, t0, bytes, rfl, hlog⟩ | ⟨g, txt, bytes, rfl, hlog⟩)
    · rw [recvLog_eq nums hlog, hkept, List.map_map]
      rfl
    · rw [inputLog_eq nums hlog, hkept, List.map_map]
      rfl
  constructor
  · exact hone log
  · rintro rfl
    cases reader with
    | recvLine =>
        obtain ⟨log, hlog⟩ := exists_recvLog nums (.start 0) { s := [], t := 0, t0 := 0 } rfl stream
        have hbytes : (stream.map fun b => (0, b)).map (·.2) = stream := by
          rw [List.map_map]
          exact List.map_id stream
        have hlogs : Reader.Logs nums stream .recvLine log := .recvLine 0 _ 0 _ hbytes hlog
        rwa [← hone log hlogs]
    | inputAlive =>
        obtain ⟨log, hlog⟩ := exists_inputLog nums (.start 0) { u := [], txt := [] } stream
        have hbytes : (stream.map fun b => (0, (none : Option Char), b)).map (·.2.2) = stream := by
          rw [List.map_map]
          exact List.map_id stream
        have hlogs : Reader.Logs nums stream .inputAlive log := .inputAlive _ [] _ hbytes hlog
        rwa [← hone log hlogs]

/-- What is kept of a line that is too long is dropped, if the readers keep to whole lines. -/
theorem dropped_of_wholeLines
    {reader : Reader} {stream : Bytes} (h : WholeLines nums reader stream) {raw : Bytes}
    (hraw : raw ∈ rawLines stream) (hlong : 250 < (text raw).length) :
    reader.hears nums (kept (text raw)) = .dropped := by
  have hall := h _ ((logs_iff nums reader stream _).mpr rfl)
  rw [List.forall₂_map_right_iff, List.forall₂_same] at hall
  by_contra hheard
  exact absurd (hall raw hraw hheard).2 (Nat.not_le.mpr hlong)

/-- The readers keep to whole lines exactly when what is kept of every line that is too long is
a line that they drop. -/
theorem wholeLines_iff (reader : Reader) (stream : Bytes) :
    WholeLines nums reader stream ↔
      ∀ raw ∈ rawLines stream, 250 < (text raw).length →
        reader.hears nums (kept (text raw)) = .dropped := by
  constructor
  · exact fun h raw hraw hlong => dropped_of_wholeLines nums h hraw hlong
  · intro h log hlog
    rw [(logs_iff nums reader stream log).mp hlog, List.forall₂_map_right_iff, List.forall₂_same]
    intro raw hraw hheard
    have hshort : (text raw).length ≤ 250 := Nat.not_lt.mp fun hlong => hheard (h raw hraw hlong)
    exact ⟨kept_of_short hshort, hshort⟩

/-- The end of a line of 254 characters is taken for a line of three. -/
theorem not_wholeLines_err :
    ¬ WholeLines integers .recvLine (List.replicate 251 88 ++ [69, 82, 82] ++ [10]) := by
  intro h
  have hfree : 10 ∉ List.replicate 251 88 ++ [(69 : UInt8), 82, 82] := by
    decide +kernel
  have hraw : List.replicate 251 88 ++ [(69 : UInt8), 82, 82] ∈
      rawLines (List.replicate 251 88 ++ [69, 82, 82] ++ [10]) := by
    rw [rawLines_cons hfree]
    exact List.mem_cons_self
  have hdropped := dropped_of_wholeLines integers h hraw (by decide +kernel)
  have hreturned : recvHears integers
      (kept (text (List.replicate 251 88 ++ [69, 82, 82]))) = .returned := by
    decide +kernel
  cases hreturned.symm.trans hdropped

end Result

end Pcutp.Picocalc
