import Pcutp.Crc
import Pcutp.Errors

/-!
# Lines on the wire

`Command` lists what the sender writes during a transfer and `Reply` what the
receiver writes, one constructor for each f-string of the source.  `line` is the
text that goes on the wire and `words` what `split` makes of it at the other
end.  A data frame also carries its raw payload.
-/

namespace Pcutp

/-- The `i`-th word of a split line. -/
def word (parts : List Line) (i : Nat) : Line :=
  parts.getD i []

@[simp] theorem word_zero (w : Line) (ws : List Line) :
    word (w :: ws) 0 = w := by
  rfl

@[simp] theorem word_succ (w : Line) (ws : List Line) (i : Nat) :
    word (w :: ws) (i + 1) = word ws i := by
  rfl

/-- What the sender writes: a control line, and the payload of a data frame. -/
inductive Command
  | fetching
  | fileMeta (filename : Line) (size blocksize blocks : Nat) (crc : Line)
  | data (seq length : Nat) (crc : Line) (payload : Bytes)
  | zdata (seq length raw_length : Nat) (crc : Line) (payload : Bytes)
  | ayt (token : Nat)
  | rst (token : Nat)
  | barrier (token : Nat)
  | done (crc : Line)
  | rmbAck (bit : Line)
  | err (report : Line)
  deriving DecidableEq

namespace Command

/-- The words of the control line. -/
def words : Command → List Line
  | fetching => ["FETCHING".toList]
  | fileMeta filename size blocksize blocks crc =>
      ["META".toList, filename, dec size, dec blocksize, dec blocks, crc]
  | data seq length crc _ => ["DATA".toList, dec seq, dec length, crc]
  | zdata seq length raw_length crc _ =>
      ["ZDATA".toList, dec seq, dec length, dec raw_length, crc]
  | ayt token => ["AYT?".toList, dec token]
  | rst token => ["RST".toList, "0".toList, dec token]
  | barrier token => ["BARRIER".toList, dec token]
  | done crc => ["DONE".toList, crc]
  | rmbAck bit => ["RMB-ACK".toList, bit]
  | err report => ["ERR".toList, report]

/-- The control line, without its LF. -/
def line (c : Command) : Line :=
  join c.words

/-- The raw bytes after the control line. -/
def payload : Command → Bytes
  | data _ _ _ payload => payload
  | zdata _ _ _ _ payload => payload
  | _ => []

/-- Whether the command is a data frame. -/
def isFrame : Command → Bool
  | data .. => true
  | zdata .. => true
  | _ => false

/-- Whether the command is a `ZDATA` frame. -/
def isPacked : Command → Bool
  | zdata .. => true
  | _ => false

/-- The sequence number of a data frame. -/
def seq? : Command → Option Nat
  | data seq .. => some seq
  | zdata seq .. => some seq
  | _ => none

/-- Bytes on the wire: the line, its LF and the payload. -/
def wireLength (c : Command) : Nat :=
  c.line.length + 1 + c.payload.length

/-- The same frame with other payload bytes. -/
def withPayload : Command → Bytes → Command
  | data seq length crc _, payload => data seq length crc payload
  | zdata seq length raw_length crc _, payload => zdata seq length raw_length crc payload
  | c, _ => c

/-- The text fields of a command are proper words, as printing produces them. -/
def Printable : Command → Prop
  | fileMeta filename _ _ _ crc => IsWord filename ∧ IsWord crc
  | data _ _ crc _ => IsWord crc
  | zdata _ _ _ crc _ => IsWord crc
  | done crc => IsWord crc
  | rmbAck bit => IsWord bit
  | err report => IsWord report
  | _ => True

theorem isWord_of_mem_words
    {c : Command} (hc : c.Printable) :
    ∀ w ∈ c.words, IsWord w := by
  have hzero : IsWord "0".toList := isWord_of_check (by decide)
  cases c <;>
    refine List.forall_mem_cons.mpr ⟨isWord_of_check (by decide), ?_⟩ <;>
    simp_all [Printable, isWord_dec]

/-- The receiver splits a command line into the words it was printed from. -/
theorem split_line
    {c : Command} (hc : c.Printable) :
    split c.line = c.words :=
  split_join (isWord_of_mem_words hc)

/-- No command prints the line that closes a direction. -/
theorem line_ne_close
    {c : Command} (hc : c.Printable) :
    c.line ≠ "CLOSE".toList := by
  intro heq
  have hwords := split_line hc
  rw [heq] at hwords
  cases c <;> cases hwords

end Command

/-- What the receiver writes. -/
inductive Reply
  | ready
  | ack (n : Nat)
  | nak (expected : Nat) (why : Line)
  | drop (expected : Nat) (why : Line)
  | here (token : Line) (expected : Nat)
  | rstAck (token : Line)
  | rst
  | resume (token : Line) (expected : Nat)
  | bye
  | ok (crc : Line)
  | failCrc (crc : Line)
  | err (code : Line)
  deriving DecidableEq

namespace Reply

/-- The words of the reply line. -/
def words : Reply → List Line
  | ready => ["READY".toList]
  | ack n => ["ACK".toList, dec n]
  | nak expected why => ["NAK".toList, dec expected, why]
  | drop expected why => ["DROP".toList, dec expected, why]
  | here token expected => ["HERE".toList, token, dec expected]
  | rstAck token => ["RST-ACK".toList, token, "0".toList]
  | rst => ["RST".toList, "0".toList]
  | resume token expected => ["RESUME".toList, token, dec expected]
  | bye => ["BYE".toList]
  | ok crc => ["OK".toList, crc]
  | failCrc crc => ["FAIL".toList, "FILECRC".toList, crc]
  | err code => ["ERR".toList, code]

/-- The reply line, without its LF. -/
def line (r : Reply) : Line :=
  join r.words

/-- The text fields of a reply are proper words, as printing produces them. -/
def Printable : Reply → Prop
  | nak _ why => IsWord why
  | drop _ why => IsWord why
  | here token _ => IsWord token
  | rstAck token => IsWord token
  | resume token _ => IsWord token
  | ok crc => IsWord crc
  | failCrc crc => IsWord crc
  | err code => IsWord code
  | _ => True

theorem isWord_of_mem_words
    {r : Reply} (hr : r.Printable) :
    ∀ w ∈ r.words, IsWord w := by
  have hzero : IsWord "0".toList := isWord_of_check (by decide)
  have hcrc : IsWord "FILECRC".toList := isWord_of_check (by decide)
  cases r <;>
    refine List.forall_mem_cons.mpr ⟨isWord_of_check (by decide), ?_⟩ <;>
    simp_all [Printable, isWord_dec]

/-- The sender splits a reply line into the words it was printed from. -/
theorem split_line
    {r : Reply} (hr : r.Printable) :
    split r.line = r.words :=
  split_join (isWord_of_mem_words hr)

end Reply

end Pcutp
