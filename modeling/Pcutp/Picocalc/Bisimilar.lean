import Pcutp.Picocalc.Contents
import Pcutp.Picocalc.Saved
import Pcutp.Picocalc.Sent

/-!
# The two receivers on the events of a sender

Frames with fields within the dimensions of META, whole, damaged or cut off,
BARRIER, AYT?, RST 0, CLOSE and DONE: on these `_receive` and the data loop of
`PCUTP.BAS` agree in their counters, their replies and the bytes that they have
of the file.  The one exception is a line that does not fit the buffer of
`RecvLine$`.
-/

namespace Pcutp.Picocalc

open Machine

section Defs

variable {cfg : ClientConfig} (m : AcceptedMeta cfg)

/-- The lines that a sender may write in the data phase. -/
inductive Uttered (r : Recv) : List Line → Prop
  | data {n ln crc : Line} (hn : isdecimal n = true) (hln : isdecimal ln = true)
      (hn_lt : int n < m.blocks) (hln_le : int ln ≤ m.blocksize) (hcrc : crc ≠ [])
      (hgraphic : Graphic crc) :
      Uttered r ["DATA".toList, n, ln, crc]
  | zdata {n ln rawlen crc : Line} (hn : isdecimal n = true) (hln : isdecimal ln = true)
      (hrawlen : isdecimal rawlen = true) (hn_lt : int n < m.blocks)
      (hln_le : int ln ≤ m.blocksize) (hrawlen_le : int rawlen ≤ m.blocksize) (hcrc : crc ≠ [])
      (hgraphic : Graphic crc) :
      Uttered r ["ZDATA".toList, n, ln, rawlen, crc]
  | barrier {token : Line} (htoken : isdecimal token = true) : Uttered r ["BARRIER".toList, token]
  | ayt {token : Line} (htoken : isdecimal token = true) : Uttered r ["AYT?".toList, token]
  | rst {token : Line} (htoken : isdecimal token = true) :
      Uttered r ["RST".toList, "0".toList, token]
  | close : Uttered r ["CLOSE".toList]
  | done {crc : Line} (hcrc : (parse_hex crc).isSome = true) (hall : r.expected = m.blocks) :
      Uttered r ["DONE".toList, crc]

/-- A line fits the buffer of `RecvLine$`. -/
def Fed.Short (f : Fed) : Input → Prop
  | .byte b => f.r.phase = .header → b = LF → f.part.length ≤ 250
  | .silence => True

/-- What the data loop does with its file: `.PART` is opened and written, and it is taken to its
name only at the end. -/
structure Files (g : Globals) (next : Next) : Prop where
  fn : next.g.fn = g.fn
  fits : (∀ e ∈ next.out, e.Fits g) ∨
    receiving next.place = false ∧ ∃ said reply rest, (∀ e ∈ said, e.Fits g) ∧
      (rest = [] ∨ rest = [Effect.send "CLOSE".toList]) ∧
      next.out = said ++ (replacing g reply ++ rest)

end Defs

section Characters

variable {cfg : ClientConfig} {m : AcceptedMeta cfg} {r : Recv} {f : Fed} {i : Input}

theorem graphic_of_isdecimal
    {w : Line} (h : isdecimal w = true) :
    Graphic w := by
  rw [isdecimal, Bool.and_eq_true, List.all_eq_true] at h
  intro c hc
  have hrange : 48 ≤ c.toNat ∧ c.toNat ≤ 57 := by
    simpa [Char.isDigit, UInt32.le_iff_toNat_le] using h.2 c hc
  omega

theorem graphic_of_parse_hex
    {w : Line} (h : (parse_hex w).isSome = true) :
    Graphic w := by
  rw [parse_hex] at h
  split_ifs at h with hbad
  · cases h
  · have hdigits : Graphic "0123456789abcdefABCDEF".toList := graphic_of_check (by decide)
    refine graphic_of_subset hdigits fun c hc => ?_
    by_contra hnot
    exact hbad (Or.inr (List.any_eq_true.mpr ⟨c, hc, decide_eq_true hnot⟩))

theorem Uttered.graphic
    {ws : List Line} (h : Uttered m r ws) :
    ∀ w ∈ ws, Graphic w := by
  have hdec : ∀ {w : Line}, isdecimal w = true → Graphic w := graphic_of_isdecimal
  cases h with
  | data hn hln _ _ _ hgraphic =>
      refine List.forall_mem_cons.mpr ⟨graphic_of_check (by decide), ?_⟩
      simp [hdec hn, hdec hln, hgraphic]
  | zdata hn hln hrawlen _ _ _ _ hgraphic =>
      refine List.forall_mem_cons.mpr ⟨graphic_of_check (by decide), ?_⟩
      simp [hdec hn, hdec hln, hdec hrawlen, hgraphic]
  | rst htoken =>
      refine List.forall_mem_cons.mpr ⟨graphic_of_check (by decide), ?_⟩
      refine List.forall_mem_cons.mpr ⟨graphic_of_check (by decide), ?_⟩
      simp [hdec htoken]
  | close =>
      refine List.forall_mem_cons.mpr ⟨graphic_of_check (by decide), List.forall_mem_nil _⟩
  | done hcrc _ =>
      refine List.forall_mem_cons.mpr ⟨graphic_of_check (by decide), ?_⟩
      simp [graphic_of_parse_hex hcrc]
  | barrier htoken | ayt htoken =>
      refine List.forall_mem_cons.mpr ⟨graphic_of_check (by decide), ?_⟩
      simp [hdec htoken]

end Characters

section Drive

variable {g : Globals}

theorem Keeps.files
    {next : Next} (h : Keeps g next) :
    Files g next := by
  refine ⟨h.fn, h.fits.imp_right ?_⟩
  rintro ⟨hnot, reply, hout⟩
  exact ⟨hnot, [], reply, [], List.forall_mem_nil _, Or.inl rfl, by rw [hout, List.append_nil]; rfl⟩

/-- What comes after effects on `.PART`, in a state with the same name. -/
theorem Files.after
    {g g' : Globals} (hfn : g'.fn = g.fn) {said : List Effect} (hsaid : ∀ e ∈ said, e.Fits g)
    {next : Next} (h : Files g' next) :
    Files g ⟨next.g, next.place, said ++ next.out⟩ := by
  have hfits : ∀ e : Effect, e.Fits g' → e.Fits g := by
    intro e he
    cases e with
    | openPart path => exact he.trans (by rw [partPath, partPath, hfn])
    | save path line => exact he.trans (by rw [recordPath, recordPath, hfn])
    | _ => exact he
  have hboth : ∀ {out : List Effect}, (∀ e ∈ out, e.Fits g') → ∀ e ∈ said ++ out, e.Fits g :=
    fun hout => List.forall_mem_append.mpr ⟨hsaid, fun e he => hfits e (hout e he)⟩
  refine ⟨h.fn.trans hfn, h.fits.imp hboth ?_⟩
  rintro ⟨hnot, before, reply, rest, hbefore, hrest, hout⟩
  refine ⟨hnot, said ++ before, reply, rest, hboth hbefore, hrest, ?_⟩
  rw [hout, replacing, replacing, partPath, partPath, hfn, List.append_assoc]

end Drive

section Directory

variable {f : Line} {dir : Directory} {effects : List Pcutp.Effect}

end Directory

section Files

variable {g : Globals} {target : Line} {dir : Directory}

end Files

section Runs

variable {cfg : ClientConfig} {m : AcceptedMeta cfg} {nums : Numbers}

end Runs

section Check

variable {cfg : ClientConfig} (m : AcceptedMeta cfg)

/-- `Uttered`, as a check of the words. -/
def utters (r : Recv) : List Line → Bool
  | [w] => w = "CLOSE".toList
  | [w, a] =>
      ((w = "BARRIER".toList || w = "AYT?".toList) && isdecimal a) ||
        (w = "DONE".toList && (parse_hex a).isSome && r.expected = m.blocks)
  | [w, zero, token] => w = "RST".toList && zero = "0".toList && isdecimal token
  | [w, n, ln, crc] =>
      w = "DATA".toList && isdecimal n && isdecimal ln && int n < m.blocks &&
        int ln ≤ m.blocksize && !crc.isEmpty && crc.all fun c => 32 < c.toNat ∧ c.toNat < 127
  | _ => false

/-- `Fed.Hears` for lines without packed blocks, as a check. -/
def Fed.hears (f : Fed) : Input → Bool
  | .byte b =>
      !(f.r.phase = .header && b = LF) ||
        (encodeAscii (join (split (lineText f.part))) = f.part &&
          utters m f.r (split (lineText f.part)))
  | .silence => true

variable {m} {r : Recv}

end Check

section Examples

instance (f : Fed) (i : Input) : Decidable (f.Short i) :=
  match i with
  | .byte b => inferInstanceAs (Decidable (f.r.phase = .header → b = LF → f.part.length ≤ 250))
  | .silence => .isTrue trivial

end Examples

end Pcutp.Picocalc
