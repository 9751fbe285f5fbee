import Mathlib.Logic.Function.Basic
import Pcutp.Picocalc.Between
import Pcutp.Picocalc.Turns

/-!
# The files of the PicoCalc

`PCUTP.BAS` collects a file in `.PART`, open as file number 2, and notes the
state of the transfer in `.PCUTP`.  The firmware stops a program that opens a
file number twice, that writes to one which is not open, or that renames a file
onto another.  Here its effects act on a drive, and what every piece of the
program does there is said beside what it needs: while a transfer runs,
`.PART` holds the bytes that were counted, and `running` is their checksum.
-/

namespace Pcutp.Picocalc

section Disk

/-- What a file holds: the bytes of a download, or a line of `SaveRmb`. -/
inductive Contents
  | data (bytes : Bytes)
  | record (line : Line)

/-- The entry of a path on a FAT drive, where the case of a letter says nothing. -/
def entry (path : Line) : Line :=
  path.map Char.toUpper

/-- Drive B: by its entries, and the entry on which file number 2 is open. -/
structure Disk where
  files : Line → Option Contents
  open2 : Option Line

/-- What an effect does to the drive; `none` is an error of the firmware. -/
def Effect.apply (d : Disk) : Effect → Option Disk
  | .send _ => some d
  | .show _ => some d
  | .openPart path =>
      if d.open2 = none then
        some ⟨Function.update d.files (entry path) (some (.data [])), some (entry path)⟩
      else
        none
  | .write data =>
      match d.open2 with
      | none => none
      | some path =>
          match d.files path with
          | some (.data bytes) =>
              some { d with files := Function.update d.files path (some (.data (bytes ++ data))) }
          | _ => none
  | .close => if d.open2 = none then none else some { d with open2 := none }
  | .save path line =>
      if d.open2 = some (entry path) then none
      else some { d with files := Function.update d.files (entry path) (some (.record line)) }
  | .kill path =>
      if d.open2 = some (entry path) then none
      else some { d with files := Function.update d.files (entry path) none }
  | .rename old new =>
      match d.files (entry old), d.files (entry new) with
      | some contents, none =>
          if d.open2 = some (entry old) then none
          else
            some
              { d with
                files :=
                  Function.update (Function.update d.files (entry old) none) (entry new)
                    (some contents) }
      | _, _ => none

/-- The drive after some effects. -/
def Disk.after (d : Disk) : List Effect → Option Disk
  | [] => some d
  | e :: out => (e.apply d).bind fun d' => d'.after out

theorem Disk.after_cons
    {d d₁ d₂ : Disk} {e : Effect} {out : List Effect} (he : e.apply d = some d₁)
    (hout : d₁.after out = some d₂) :
    d.after (e :: out) = some d₂ := by
  rw [after, he]
  exact hout

theorem Disk.after_append (d : Disk) (xs ys : List Effect) :
    d.after (xs ++ ys) = (d.after xs).bind fun d' => d'.after ys := by
  induction xs generalizing d with
  | nil => rfl
  | cons e xs ih =>
      rw [List.cons_append, after, after]
      cases e.apply d with
      | none => rfl
      | some d' => exact ih d'

theorem Disk.exists_of_after_append
    {d d₂ : Disk} {xs ys : List Effect} (h : d.after (xs ++ ys) = some d₂) :
    ∃ d₁, d.after xs = some d₁ ∧ d₁.after ys = some d₂ :=
  Option.bind_eq_some_iff.mp ((Disk.after_append d xs ys).symm.trans h)

/-- Talking leaves the drive as it is. -/
theorem Disk.after_talks
    {out : List Effect} (h : talks out = true) (d : Disk) :
    d.after out = some d := by
  induction out with
  | nil => rfl
  | cons e out ih =>
      rw [talks, List.all_cons, Bool.and_eq_true] at h
      have hrest : d.after out = some d := ih h.2
      cases e with
      | send line => exact hrest
      | «show» line => exact hrest
      | _ => cases h.1

theorem confirms_of_talks
    {out : List Effect} (h : talks out = true) :
    confirms out = false := by
  induction out with
  | nil => rfl
  | cons e out ih =>
      rw [talks, List.all_cons, Bool.and_eq_true] at h
      have hrest : confirms out = false := ih h.2
      rw [confirms, List.any_cons, Bool.or_eq_false_iff]
      refine ⟨?_, hrest⟩
      cases e with
      | send line => exact (Bool.not_eq_true' _).mp h.1
      | _ => rfl

/-- The drive has a property before every effect of a list, and after the last. -/
def Disk.Cuts (P : Disk → Prop) (d : Disk) : List Effect → Prop
  | [] => P d
  | e :: out => P d ∧ ∃ d', e.apply d = some d' ∧ d'.Cuts P out

theorem Disk.Cuts.head
    {P : Disk → Prop} {d : Disk} {out : List Effect} (h : d.Cuts P out) :
    P d := by
  cases out with
  | nil => exact h
  | cons e out => exact h.1

theorem Disk.Cuts.append
    {P : Disk → Prop} {d d' : Disk} {xs ys : List Effect} (h : d.Cuts P xs)
    (hxs : d.after xs = some d') (hys : d'.Cuts P ys) :
    d.Cuts P (xs ++ ys) := by
  induction xs generalizing d with
  | nil =>
      cases hxs
      exact hys
  | cons e xs ih =>
      obtain ⟨hd, d₁, he, hrest⟩ := h
      rw [Disk.after, he] at hxs
      exact ⟨hd, d₁, he, ih hrest hxs⟩

theorem Disk.Cuts.of_talks
    {P : Disk → Prop} {d : Disk} (hd : P d) {out : List Effect} (h : talks out = true) :
    d.Cuts P out := by
  induction out with
  | nil => exact hd
  | cons e out ih =>
      rw [talks, List.all_cons, Bool.and_eq_true] at h
      have hrest : d.Cuts P out := ih h.2
      cases e with
      | send line => exact ⟨hd, d, rfl, hrest⟩
      | «show» line => exact ⟨hd, d, rfl, hrest⟩
      | _ => cases h.1

theorem Disk.Cuts.mono
    {P Q : Disk → Prop} (hPQ : ∀ d, P d → Q d) {d : Disk} {out : List Effect} (h : d.Cuts P out) :
    d.Cuts Q out := by
  induction out generalizing d with
  | nil => exact hPQ d h
  | cons e out ih =>
      obtain ⟨hd, d', he, hrest⟩ := h
      exact ⟨hPQ d hd, d', he, ih hrest⟩

/-- After any number of the effects the drive has the property. -/
theorem Disk.Cuts.take
    {P : Disk → Prop} {d : Disk} {out : List Effect} (h : d.Cuts P out) (n : Nat) :
    ∃ d', d.after (out.take n) = some d' ∧ P d' := by
  induction out generalizing d n with
  | nil =>
      rw [List.take_nil]
      exact ⟨d, rfl, h⟩
  | cons e out ih =>
      obtain ⟨hd, d₁, he, hrest⟩ := h
      cases n with
      | zero => exact ⟨d, rfl, hd⟩
      | succ n =>
          obtain ⟨d', hafter, hd'⟩ := ih hrest n
          exact ⟨d', Disk.after_cons he hafter, hd'⟩

/-- The paths an effect is about. -/
def Effect.paths : Effect → List Line
  | .openPart path => [path]
  | .save path _ => [path]
  | .kill path => [path]
  | .rename old new => [old, new]
  | _ => []

theorem Disk.after_trans
    {d d₁ d₂ : Disk} {xs ys : List Effect} (hxs : d.after xs = some d₁)
    (hys : d₁.after ys = some d₂) :
    d.after (xs ++ ys) = some d₂ := by
  rw [after_append, hxs]
  exact hys

end Disk

section Defs

/-- `.PART` is open, and holds the bytes that the variables count. -/
structure Filed (g : Globals) (d : Disk) : Prop where
  blksz_pos : 1 ≤ g.blksz
  blksz_le : g.blksz ≤ g.maxblk
  rcvd_le : g.rcvd ≤ g.size
  isOpen : d.open2 = some (entry (partPath g))
  part : ∃ bytes, d.files (entry (partPath g)) = some (.data bytes) ∧ g.rcvd = bytes.length ∧
    g.running = (crc32 bytes 0).setWidth 64

theorem Filed.congr
    {g g' : Globals} {d : Disk} (h : Filed g d) (hfn : g'.fn = g.fn) (hblksz : g'.blksz = g.blksz)
    (hmaxblk : g'.maxblk = g.maxblk) (hsize : g'.size = g.size) (hrcvd : g'.rcvd = g.rcvd)
    (hrunning : g'.running = g.running) :
    Filed g' d := by
  obtain ⟨hpos, hle, hrcvd_le, hopen, hpart⟩ := h
  rw [partPath, ← hfn] at hopen hpart
  rw [← hrcvd, ← hrunning] at hpart
  rw [← hblksz] at hpos hle
  rw [← hmaxblk] at hle
  rw [← hrcvd, ← hsize] at hrcvd_le
  exact ⟨hpos, hle, hrcvd_le, hopen, hpart⟩

/-- The file in which `SaveRmb` notes the state of a transfer. -/
def recordPath (g : Globals) : Line :=
  dest g.fn ++ ".PCUTP".toList

/-- The line that `SaveRmb` leaves there. -/
def recordLine (g : Globals) (state : RmbState) : Line :=
  join [state.text, g.fn, Str g.size, Str g.blksz, Str g.blocks, Str g.seq, Str g.rcvd,
    Hex8 g.fcrc, Hex8 g.running]

/-- The variables of an earlier block of the same transfer, not eight blocks back. -/
structure Behind (g g₀ : Globals) : Prop where
  fn : g₀.fn = g.fn
  size : g₀.size = g.size
  blksz : g₀.blksz = g.blksz
  blocks : g₀.blocks = g.blocks
  fcrc : g₀.fcrc = g.fcrc
  seq_ge : 8 * (g.seq / 8) ≤ g₀.seq
  seq_le : g₀.seq ≤ g.seq

/-- `.PART` is open, and what `.PCUTP` says is true of its first bytes. -/
structure Noted (g : Globals) (d : Disk) : Prop extends Filed g d where
  noted : ∃ g₀ state bytes rest, Behind g g₀ ∧
    d.files (entry (recordPath g)) = some (.record (recordLine g₀ state)) ∧
    d.files (entry (partPath g)) = some (.data (bytes ++ rest)) ∧
    g₀.rcvd = bytes.length ∧ g₀.running = (crc32 bytes 0).setWidth 64

theorem Noted.congr
    {g g' : Globals} {d : Disk} (h : Noted g d) (hfn : g'.fn = g.fn) (hblksz : g'.blksz = g.blksz)
    (hmaxblk : g'.maxblk = g.maxblk) (hsize : g'.size = g.size) (hrcvd : g'.rcvd = g.rcvd)
    (hrunning : g'.running = g.running) (hblocks : g'.blocks = g.blocks) (hseq : g'.seq = g.seq)
    (hfcrc : g'.fcrc = g.fcrc) :
    Noted g' d := by
  refine ⟨h.toFiled.congr hfn hblksz hmaxblk hsize hrcvd hrunning, ?_⟩
  obtain ⟨g₀, state, bytes, rest, hbehind, hrecord, hpart, htrue⟩ := h.noted
  have hbehind' : Behind g' g₀ :=
    ⟨hbehind.fn.trans hfn.symm, hbehind.size.trans hsize.symm, hbehind.blksz.trans hblksz.symm,
      hbehind.blocks.trans hblocks.symm, hbehind.fcrc.trans hfcrc.symm, hseq ▸ hbehind.seq_ge,
      hseq ▸ hbehind.seq_le⟩
  rw [recordPath, ← hfn] at hrecord
  rw [partPath, ← hfn] at hpart
  exact ⟨g₀, state, bytes, rest, hbehind', hrecord, hpart, htrue⟩

/-- A block within the limits of META. -/
structure Bounded (g : Globals) (frame : Frame) : Prop where
  ln_nonneg : 0 ≤ frame.ln
  ln_le : frame.ln ≤ g.blksz
  rawlen_nonneg : 0 ≤ frame.rawlen
  rawlen_le : frame.rawlen ≤ g.blksz

/-- The program in its data loop, where `.PART` is open. -/
def receiving : Place → Bool
  | .line .data _ => true
  | .raw _ _ => true
  | _ => false

/-- The drive and the variables as a place needs them. -/
def Placed (g : Globals) (d : Disk) : Place → Prop
  | .line .answer _ => ValidName g.fn = true ∧ d.open2 = none
  | .line .fetched _ => ValidName g.fn = true ∧ d.open2 = none
  | .line .data _ => ValidName g.fn = true ∧ Noted g d
  | .raw frame l =>
      ValidName g.fn = true ∧ Noted g d ∧ Bounded g frame ∧ l.got ≤ frame.ln.toNat
  | .stopped how => how ≠ .addressError
  | _ => d.open2 = none

/-- One of the three files of a download. -/
def Own (g : Globals) (path : Line) : Prop :=
  ValidName g.fn = true ∧
    (path = dest g.fn ∨ path = partPath g ∨ path = recordPath g)

/-- The file stands under its name, with the size and the checksum of META. -/
def Verified (g : Globals) (d : Disk) : Prop :=
  ∃ bytes, d.files (entry (dest g.fn)) = some (.data bytes) ∧ (bytes.length : Int) = g.size ∧
    (crc32 bytes 0).setWidth 64 = g.fcrc ∧ d.files (entry (partPath g)) = none

/-- Bytes with the size and the checksum of META stand under the name, or in `.PART`. -/
def Saved (g : Globals) (d : Disk) : Prop :=
  ∃ bytes, (bytes.length : Int) = g.size ∧ (crc32 bytes 0).setWidth 64 = g.fcrc ∧
    (d.files (entry (dest g.fn)) = some (.data bytes) ∨
      d.files (entry (partPath g)) = some (.data bytes))

/-- What a piece of the program does on a drive, and where that leaves it. -/
structure Does (d : Disk) (next : Next) (d' : Disk) : Prop where
  after : d.after next.out = some d'
  maxblk : next.g.maxblk ≤ Const.BLKMAX
  placed : Placed next.g d' next.place
  own : ∀ e ∈ next.out, ∀ path ∈ e.paths, Own next.g path
  verified : confirms next.out = true → Verified next.g d' ∧ d.Cuts (Saved next.g) next.out

end Defs

section Leaves

variable {d : Disk} {g : Globals}

theorem talks_send
    {line : Line} (h : begins "OK " line = false) :
    talks [.send line] = true := by
  have htalks : talks [.send line] = (!begins "OK " line && true) := rfl
  rw [htalks, h]
  rfl

theorem confirms_append (xs ys : List Effect) :
    confirms (xs ++ ys) = (confirms xs || confirms ys) :=
  List.any_append

theorem paths_of_talks
    {out : List Effect} (h : talks out = true) {e : Effect} (he : e ∈ out) :
    e.paths = [] := by
  have hone := List.all_eq_true.mp h e he
  cases e with
  | send line => rfl
  | «show» line => rfl
  | _ => cases hone

/-- A piece that only talks leaves the drive alone. -/
theorem does_talk
    {next : Next} (htalks : talks next.out = true) (hmaxblk : next.g.maxblk ≤ Const.BLKMAX)
    (hplaced : Placed next.g d next.place) :
    ∃ d', Does d next d' := by
  refine ⟨d, Disk.after_talks htalks d, hmaxblk, hplaced, fun e he path hpath => ?_, fun h => ?_⟩
  · rw [paths_of_talks htalks he] at hpath
    cases hpath
  · rw [confirms_of_talks htalks] at h
    cases h

theorem entry_append (xs ys : Line) :
    entry (xs ++ ys) = entry xs ++ entry ys :=
  List.map_append

theorem partPath_ne_record (g : Globals) :
    entry (partPath g) ≠ entry (recordPath g) := by
  rw [partPath, recordPath, entry_append, entry_append, ne_eq, List.append_cancel_left_eq]
  decide

theorem partPath_ne_dest (g : Globals) :
    entry (partPath g) ≠ entry (dest g.fn) := by
  rw [partPath, entry_append, ne_eq, List.append_right_eq_self]
  decide

/-- `Open ... For Output As #2`. -/
theorem apply_openPart
    (hclosed : d.open2 = none) (hpos : 1 ≤ g.blksz) (hle : g.blksz ≤ g.maxblk)
    (hsize : 0 ≤ g.size) (hrcvd : g.rcvd = 0) (hrunning : g.running = 0) :
    ∃ d', (Effect.openPart (partPath g)).apply d = some d' ∧ Filed g d' := by
  refine ⟨_, if_pos hclosed, hpos, hle, ?_, rfl, [], ?_, ?_⟩
  · rw [hrcvd]
    exact hsize
  · exact Function.update_self ..
  · rw [hrcvd, hrunning, crc32_nil]
    exact ⟨rfl, rfl⟩

/-- `SaveRmb` leaves `.PART` alone. -/
theorem after_saveRmb
    (h : Filed g d) (state : RmbState) :
    ∃ d', d.after (SaveRmb g state) = some d' ∧ Noted g d' := by
  have hpath : ¬ d.open2 = some (entry (recordPath g)) := by
    rw [h.isOpen]
    exact fun heq => partPath_ne_record g (Option.some.inj heq)
  obtain ⟨bytes, hbytes, hcount⟩ := h.part
  have hkept : Function.update d.files (entry (recordPath g)) (some (.record (recordLine g state)))
      (entry (partPath g)) = some (.data bytes) :=
    (Function.update_of_ne (partPath_ne_record g) _ _).trans hbytes
  refine ⟨_, Disk.after_cons (if_neg hpath) rfl,
    ⟨h.blksz_pos, h.blksz_le, h.rcvd_le, h.isOpen, bytes, hkept, hcount⟩,
    g, state, bytes, [], ⟨rfl, rfl, rfl, rfl, rfl, by omega, le_rfl⟩, Function.update_self .., ?_,
    hcount⟩
  rw [List.append_nil]
  exact hkept

theorem own_saveRmb
    (hname : ValidName g.fn = true) {state : RmbState} {e : Effect} (he : e ∈ SaveRmb g state)
    {path : Line} (hpath : path ∈ e.paths) :
    Own g path := by
  rw [List.mem_singleton.mp he] at hpath
  exact ⟨hname, Or.inr (Or.inr (List.mem_singleton.mp hpath))⟩

theorem confirms_saveRmb (g : Globals) (state : RmbState) :
    confirms (SaveRmb g state) = false :=
  rfl

theorem apply_write
    {path : Line} {bytes : Bytes} (hopen : d.open2 = some path)
    (hfile : d.files path = some (.data bytes)) (data : Bytes) :
    (Effect.write data).apply d =
      some { d with files := Function.update d.files path (some (.data (bytes ++ data))) } := by
  rw [Effect.apply, hopen]
  dsimp only
  rw [hfile]

theorem apply_kill
    (hopen : d.open2 = none) (path : Line) :
    (Effect.kill path).apply d =
      some { d with files := Function.update d.files (entry path) none } :=
  if_neg fun h => Option.some_ne_none (entry path) (h.symm.trans hopen)

theorem apply_rename
    {old new : Line} {contents : Contents} (hold : d.files (entry old) = some contents)
    (hnew : d.files (entry new) = none) (hopen : d.open2 = none) :
    (Effect.rename old new).apply d =
      some
        { d with
          files :=
            Function.update (Function.update d.files (entry old) none) (entry new)
              (some contents) } := by
  rw [Effect.apply, hold, hnew]
  exact if_neg fun h => Option.some_ne_none (entry old) (h.symm.trans hopen)

/-- `Close`, the reply, `Kill`, `Rename`, `Kill`. -/
def replacing (g : Globals) (reply : Line) : List Effect :=
  [.close, .send reply, .kill (dest g.fn), .rename (partPath g) (dest g.fn),
    .kill (dest g.fn ++ ".PCUTP".toList)]

/-- The partial file becomes the file, and its bytes are on the drive all the while. -/
theorem after_replacing
    (hisOpen : d.open2 = some (entry (partPath g))) {bytes : Bytes}
    (hbytes : d.files (entry (partPath g)) = some (.data bytes)) (reply : Line) :
    ∃ d', d.after (replacing g reply) = some d' ∧ d'.open2 = none ∧
      d'.files (entry (dest g.fn)) = some (.data bytes) ∧ d'.files (entry (partPath g)) = none ∧
      d.Cuts (fun d => d.files (entry (dest g.fn)) = some (.data bytes) ∨
        d.files (entry (partPath g)) = some (.data bytes)) (replacing g reply) := by
  have hopen : ¬ d.open2 = none := by
    rw [hisOpen]
    exact Option.some_ne_none _
  have hrecord : entry (dest g.fn) ≠ entry (recordPath g) := by
    rw [recordPath, entry_append, ne_eq, List.self_eq_append_right]
    decide
  -- The drive after `Kill DEST$ + fn$`.
  have hold : Function.update d.files (entry (dest g.fn)) none (entry (partPath g)) =
      some (.data bytes) :=
    (Function.update_of_ne (partPath_ne_dest g) _ _).trans hbytes
  have hnew : Function.update d.files (entry (dest g.fn)) none (entry (dest g.fn)) = none :=
    Function.update_self ..
  -- The drive after `Rename`, and after the last `Kill`.
  have hrenamed : Function.update (Function.update (Function.update d.files (entry (dest g.fn)) none)
      (entry (partPath g)) none) (entry (dest g.fn)) (some (.data bytes)) (entry (dest g.fn)) =
      some (.data bytes) :=
    Function.update_self ..
  have hsaved : Function.update (Function.update (Function.update
      (Function.update d.files (entry (dest g.fn)) none) (entry (partPath g)) none)
      (entry (dest g.fn)) (some (.data bytes))) (entry (recordPath g)) none (entry (dest g.fn)) =
      some (.data bytes) :=
    (Function.update_of_ne hrecord _ _).trans hrenamed
  refine ⟨_, Disk.after_cons (if_neg hopen) (Disk.after_cons rfl (Disk.after_cons
    (apply_kill rfl _) (Disk.after_cons (apply_rename hold hnew rfl) (Disk.after_cons
      (apply_kill rfl _) rfl)))), rfl, hsaved, ?_, ?_⟩
  · refine (Function.update_of_ne (partPath_ne_record g) _ _).trans ?_
    exact (Function.update_of_ne (partPath_ne_dest g) _ _).trans (Function.update_self ..)
  · exact ⟨Or.inr hbytes, _, if_neg hopen, Or.inr hbytes, _, rfl, Or.inr hbytes, _,
      apply_kill rfl _, Or.inr hold, _, apply_rename hold hnew rfl, Or.inl hrenamed, _,
      apply_kill rfl _, Or.inl hsaved⟩

theorem own_replace
    (hname : ValidName g.fn = true) {reply : Line} {e : Effect}
    (he : e ∈ replacing g reply)
    {path : Line} (hpath : path ∈ e.paths) :
    Own g path := by
  simp only [replacing, List.mem_cons, List.not_mem_nil, or_false] at he
  rcases he with rfl | rfl | rfl | rfl | rfl
  · cases hpath
  · cases hpath
  · exact ⟨hname, Or.inl (List.mem_singleton.mp hpath)⟩
  · rcases List.mem_pair.mp hpath with rfl | rfl
    · exact ⟨hname, Or.inr (Or.inl rfl)⟩
    · exact ⟨hname, Or.inl rfl⟩
  · exact ⟨hname, Or.inr (Or.inr (List.mem_singleton.mp hpath))⟩

/-- `.PART` is opened again, and the transfer starts over. -/
theorem does_reopen
    (hname : ValidName g.fn = true) (hmaxblk : g.maxblk ≤ Const.BLKMAX) (h : Noted g d)
    (resets : Int) (now : Nat) {reply : Line} (hreply : begins "OK " reply = false) :
    ∃ d', Does d
      (recvLine (restarted g resets) now .data
        ([.close, .openPart (partPath (restarted g resets))] ++
          SaveRmb (restarted g resets) (restarted g resets).rmbState ++ [.send reply])) d' := by
  have hsize : 0 ≤ g.size := by
    obtain ⟨bytes, _, hrcvd, _⟩ := h.part
    have := h.rcvd_le
    omega
  have hopen : ¬ d.open2 = none := by
    rw [h.isOpen]
    exact (Option.some_ne_none _)
  obtain ⟨d₁, hopened, hfiled₁⟩ :=
    apply_openPart (d := { d with open2 := none }) (g := restarted g resets) rfl h.blksz_pos
      h.blksz_le hsize rfl rfl
  obtain ⟨d₂, hsaved, hfiled₂⟩ := after_saveRmb hfiled₁ (restarted g resets).rmbState
  have htalks := talks_send hreply
  refine ⟨d₂, ?_, hmaxblk, ⟨hname, hfiled₂⟩, fun e he path hpath => ?_, fun hconfirms => ?_⟩
  · refine Disk.after_trans (Disk.after_trans ?_ hsaved) (Disk.after_talks htalks d₂)
    exact Disk.after_cons (if_neg hopen) (Disk.after_cons hopened rfl)
  · rcases List.mem_append.mp he with he | he
    · rcases List.mem_append.mp he with he | he
      · rcases List.mem_pair.mp he with rfl | rfl
        · cases hpath
        · exact ⟨hname, Or.inr (Or.inl (List.mem_singleton.mp hpath))⟩
      · exact own_saveRmb (g := restarted g resets) hname he hpath
    · rw [paths_of_talks htalks he] at hpath
      cases hpath
  · have hnone : confirms ([.close, .openPart (partPath (restarted g resets))] ++
        SaveRmb (restarted g resets) (restarted g resets).rmbState ++ [.send reply]) = false := by
      rw [confirms_append, confirms_append, confirms_of_talks htalks]
      rfl
    exact absurd (hnone.symm.trans hconfirms) Bool.false_ne_true

end Leaves

section Closing

variable {d : Disk} {g : Globals} (now : Nat)

theorem does_linger
    {out : List Effect} (htalks : talks out = true) (hmaxblk : g.maxblk ≤ Const.BLKMAX)
    (hclosed : d.open2 = none) :
    ∃ d', Does d (Linger g now out) d' :=
  does_talk htalks hmaxblk hclosed

theorem does_awaitClose
    {out : List Effect} (htalks : talks out = true) (hmaxblk : g.maxblk ≤ Const.BLKMAX)
    (hclosed : d.open2 = none) :
    ∃ d', Does d (awaitClose g now out) d' := by
  rw [awaitClose]
  split_ifs
  · exact does_linger now htalks hmaxblk hclosed
  · exact does_talk htalks hmaxblk hclosed

theorem does_afterBye
    (hmaxblk : g.maxblk ≤ Const.BLKMAX) (hclosed : d.open2 = none) (k : Nat) (s : Line) :
    ∃ d', Does d (afterBye g now k s) d' := by
  dsimp only [afterBye]
  split_ifs
  · exact does_awaitClose now rfl hmaxblk hclosed
  · exact does_talk rfl hmaxblk hclosed
  · exact does_talk rfl hmaxblk hclosed
  · exact does_awaitClose (g := { g with peerDone := true }) now rfl hmaxblk hclosed
  · exact does_awaitClose now rfl hmaxblk hclosed

theorem does_afterClose
    (hmaxblk : g.maxblk ≤ Const.BLKMAX) (hclosed : d.open2 = none) (t0 : Nat) (s : Line) :
    ∃ d', Does d (afterClose g now t0 s) d' := by
  rw [afterClose]
  split_ifs
  · exact does_linger now rfl hmaxblk hclosed
  · exact does_linger now rfl hmaxblk hclosed
  · exact does_talk rfl hmaxblk hclosed
  · exact does_linger now rfl hmaxblk hclosed

theorem does_afterLinger
    (hmaxblk : g.maxblk ≤ Const.BLKMAX) (hclosed : d.open2 = none) (t0 : Nat) (s : Line) :
    ∃ d', Does d (afterLinger g now t0 s) d' := by
  dsimp only [afterLinger]
  split_ifs
  · exact does_talk rfl hmaxblk hclosed
  · exact does_talk rfl hmaxblk hclosed
  · exact does_talk rfl hmaxblk Stop.noConfusion
  · exact does_talk rfl hmaxblk Stop.noConfusion

end Closing

section Dialing

variable (nums : Numbers) {d : Disk} {g : Globals} (now : Nat)

/-- A proposal is only taken with a block that fits into `buf%()`. -/
theorem readFields_maxblk
    {g g' : Globals} {fields : List Line} (h : readFields nums g fields = some g')
    (hmaxblk : g.maxblk ≤ Const.BLKMAX) :
    g'.maxblk ≤ Const.BLKMAX := by
  induction fields generalizing g with
  | nil =>
      cases h
      exact hmaxblk
  | cons field fields ih =>
      rw [readFields, Option.ite_none_left_eq_some] at h
      obtain ⟨hlimit, hrest⟩ := h
      refine ih hrest ?_
      by_cases hfield : begins "MAXBLK=" field = true
      · exact not_lt.mp fun hlt => hlimit ⟨hfield, Or.inr hlt⟩
      · exact (if_neg hfield).trans_le hmaxblk

theorem does_confirm
    (hmaxblk : g.maxblk ≤ Const.BLKMAX) (hclosed : d.open2 = none) (s : Line) :
    ∃ d', Does d (confirm g now s) d' := by
  rw [confirm]
  split_ifs
  · exact does_talk rfl hmaxblk Stop.noConfusion
  · exact does_talk rfl hmaxblk Stop.noConfusion
  · exact does_talk rfl hmaxblk hclosed
  · exact does_talk rfl hmaxblk hclosed

theorem does_acceptProposal
    (hclosed : d.open2 = none) (answerAt : Nat) (s : Line) :
    ∃ d', Does d (acceptProposal nums g now answerAt s) d' := by
  dsimp only [acceptProposal]
  split
  · exact does_talk rfl le_rfl Stop.noConfusion
  · rename_i g' hfields
    have hmaxblk' := readFields_maxblk nums hfields le_rfl
    split_ifs
    · exact does_confirm now hmaxblk' hclosed s
    · exact does_confirm (g := { g' with winsz := 1 }) now hmaxblk' hclosed s

theorem does_answered
    (hmaxblk : g.maxblk ≤ Const.BLKMAX) (hclosed : d.open2 = none) (s : Line) :
    ∃ d', Does d (answered nums g now s) d' := by
  rw [answered]
  split_ifs
  · exact does_talk rfl hmaxblk Stop.noConfusion
  · cases Split s g.parts with
    | none => exact does_talk rfl hmaxblk Stop.noConfusion
    | some parts =>
        dsimp only
        split_ifs
        · exact does_acceptProposal nums (g := { g with parts }) now hclosed 3 s
        · exact does_acceptProposal nums (g := { g with parts }) now hclosed 2 s
        · exact does_talk rfl hmaxblk Stop.noConfusion
  · exact does_talk rfl hmaxblk Stop.noConfusion

theorem talks_hello (helloTry : Nat) :
    talks [.send (helloLine helloTry)] = true := by
  refine talks_send ?_
  rw [helloLine]
  split_ifs
  · rfl
  · rfl

theorem does_afterDial
    (hmaxblk : g.maxblk ≤ Const.BLKMAX) (hclosed : d.open2 = none) (helloTry : Nat) (s : Line) :
    ∃ d', Does d (afterDial nums g now helloTry s) d' := by
  rw [afterDial]
  split_ifs
  · exact does_answered nums now hmaxblk hclosed s
  · exact does_talk (talks_hello _) hmaxblk hclosed
  · exact does_answered nums now hmaxblk hclosed s

theorem does_afterWho
    (hmaxblk : g.maxblk ≤ Const.BLKMAX) (hclosed : d.open2 = none) (s : Line) :
    ∃ d', Does d (afterWho g s) d' := by
  rw [afterWho, connect]
  split_ifs
  · exact does_talk rfl hmaxblk hclosed
  · exact does_talk rfl hmaxblk hclosed

end Dialing

section Prompts

variable {d : Disk} {g : Globals} (now : Nat)

theorem does_afterUrl
    (hmaxblk : g.maxblk ≤ Const.BLKMAX) (hclosed : d.open2 = none) (url : Line) :
    ∃ d', Does d (afterUrl g now url) d' := by
  rw [afterUrl]
  split_ifs
  · exact does_talk rfl hmaxblk hclosed
  · exact does_talk rfl hmaxblk hclosed
  · exact does_talk rfl hmaxblk hclosed

theorem does_afterFilename
    (hmaxblk : g.maxblk ≤ Const.BLKMAX) (hclosed : d.open2 = none) (url name : Line) :
    ∃ d', Does d (afterFilename g now url name) d' := by
  dsimp only [afterFilename]
  split_ifs with _ hname
  · exact does_talk rfl hmaxblk hclosed
  · exact does_talk rfl hmaxblk ⟨hname, hclosed⟩
  · exact does_talk rfl hmaxblk hclosed

end Prompts

section Fetching

variable (nums : Numbers) {d : Disk} {g : Globals} (now : Nat)

theorem does_receive
    (hname : ValidName g.fn = true) (hmaxblk : g.maxblk ≤ Const.BLKMAX) (hclosed : d.open2 = none)
    (hpos : 1 ≤ g.blksz) (hle : g.blksz ≤ g.maxblk) (hsize : 0 ≤ g.size) :
    ∃ d', Does d (receive g now) d' := by
  dsimp only [receive]
  generalize hg' : { g with
    kaWin := Const.RSTTMO, running := 0, seq := 0, rcvd := 0, drops := 0, resets := 0
    rmbState := .active } = g'
  have hfn : g'.fn = g.fn := by rw [← hg']
  obtain ⟨d₁, hopened, hfiled₁⟩ : ∃ d₁, (Effect.openPart (partPath g')).apply d = some d₁ ∧
      Filed g' d₁ := by
    subst hg'
    exact apply_openPart hclosed hpos hle hsize rfl rfl
  obtain ⟨d₂, hsaved, hfiled₂⟩ := after_saveRmb hfiled₁ .active
  have hname' : ValidName g'.fn = true := hfn ▸ hname
  have hmaxblk' : g'.maxblk ≤ Const.BLKMAX := by rwa [← hg']
  refine ⟨d₂, ?_, hmaxblk', ⟨hname', hfiled₂⟩, fun e he path hpath => ?_, fun hconfirms => ?_⟩
  · exact Disk.after_trans (Disk.after_cons hopened (Disk.after_cons rfl rfl)) hsaved
  · rcases List.mem_append.mp he with he | he
    · rcases List.mem_pair.mp he with rfl | rfl
      · exact ⟨hname', Or.inr (Or.inl (List.mem_singleton.mp hpath))⟩
      · cases hpath
    · exact own_saveRmb hname' he hpath
  · cases hconfirms

theorem does_afterMeta
    (hname : ValidName g.fn = true) (hmaxblk : g.maxblk ≤ Const.BLKMAX) (hclosed : d.open2 = none)
    (s : Line) :
    ∃ d', Does d (afterMeta nums g now s) d' := by
  unfold afterMeta
  cases Split s g.parts with
  | none => exact does_talk rfl hmaxblk Stop.noConfusion
  | some parts =>
      dsimp only
      split_ifs with _ hbad
      · exact does_talk rfl hmaxblk Stop.noConfusion
      · exact does_talk rfl hmaxblk Stop.noConfusion
      · exact does_talk rfl hmaxblk Stop.noConfusion
      · simp only [not_or, not_lt] at hbad
        obtain ⟨hpos, hle, hsize, _⟩ := hbad
        exact does_receive now hname hmaxblk hclosed hpos hle hsize

theorem does_afterAnswer
    (hname : ValidName g.fn = true) (hmaxblk : g.maxblk ≤ Const.BLKMAX) (hclosed : d.open2 = none)
    (s : Line) :
    ∃ d', Does d (afterAnswer nums g now s) d' := by
  rw [afterAnswer]
  split_ifs
  · exact does_talk rfl hmaxblk hclosed
  · exact does_talk rfl hmaxblk ⟨hname, hclosed⟩
  · exact does_afterMeta nums now hname hmaxblk hclosed s

theorem does_afterFetched
    (hname : ValidName g.fn = true) (hmaxblk : g.maxblk ≤ Const.BLKMAX) (hclosed : d.open2 = none)
    (s : Line) :
    ∃ d', Does d (afterFetched nums g now s) d' := by
  dsimp only [afterFetched]
  split_ifs
  · exact does_talk rfl hmaxblk hclosed
  · exact does_afterMeta nums (g := { g with kaWin := Const.KATMO }) now hname hmaxblk hclosed s

end Fetching

section Transfer

variable (nums : Numbers) {d : Disk} {g : Globals} (now : Nat)

/-- A reply, and the next line of the transfer. -/
theorem does_reply
    (g' : Globals) (hname : ValidName g'.fn = true) (hmaxblk : g'.maxblk ≤ Const.BLKMAX)
    (h : Noted g' d) {reply : Line} (hreply : begins "OK " reply = false) :
    ∃ d', Does d (recvLine g' now .data [.send reply]) d' :=
  does_talk (talks_send hreply) hmaxblk ⟨hname, h⟩

/-- A last line, if any, and `Close #2: End`. -/
theorem does_close
    (hmaxblk : g.maxblk ≤ Const.BLKMAX) (h : Noted g d) (g' : Globals) (out : List Effect)
    (hg' : g'.maxblk = g.maxblk) (htalks : talks out = true) :
    ∃ d', Does d (stop g' .ended (out ++ [.close])) d' := by
  have hopen : ¬ d.open2 = none := by
    rw [h.isOpen]
    exact Option.some_ne_none _
  refine ⟨{ d with open2 := none }, ?_, le_of_eq_of_le hg' hmaxblk, Stop.noConfusion,
    fun e he path hpath => ?_, fun hconfirms => ?_⟩
  · exact Disk.after_trans (Disk.after_talks htalks d) (Disk.after_cons (if_neg hopen) rfl)
  · rcases List.mem_append.mp he with he | he
    · rw [paths_of_talks htalks he] at hpath
      cases hpath
    · rw [List.mem_singleton.mp he] at hpath
      cases hpath
  · have hnone : confirms (out ++ [.close]) = false := by
      rw [confirms_append, confirms_of_talks htalks]
      rfl
    exact absurd (hnone.symm.trans hconfirms) Bool.false_ne_true

theorem does_protocolError
    (hmaxblk : g.maxblk ≤ Const.BLKMAX) (h : Noted g d) :
    ∃ d', Does d (protocolError g) d' :=
  does_close hmaxblk h g [.send "ERR PROTOCOL".toList] rfl rfl

/-- The verdict, when it is OK, is about the bytes of `.PART`. -/
theorem does_finalCrc
    (hname : ValidName g.fn = true) (hmaxblk : g.maxblk ≤ Const.BLKMAX) (h : Noted g d) :
    ∃ d', Does d (finalCrc nums g now) d' := by
  have hopen : ¬ d.open2 = none := by
    rw [h.isOpen]
    exact Option.some_ne_none _
  dsimp only [finalCrc]
  split_ifs with hmismatch
  · refine ⟨{ d with open2 := none }, ?_, hmaxblk, rfl, fun e he path hpath => ?_, fun h => ?_⟩
    · exact Disk.after_cons (if_neg hopen) rfl
    · rcases List.mem_pair.mp he with rfl | rfl
      · cases hpath
      · cases hpath
    · cases h
  all_goals
    simp only [not_or, not_not] at hmismatch
    obtain ⟨hfcrc, _, hsize⟩ := hmismatch
    obtain ⟨bytes, hbytes, hrcvd, hrunning⟩ := h.part
    obtain ⟨d', hafter, hclosed, hfile, hpart, hkept⟩ := after_replacing h.isOpen hbytes
      ("OK ".toList ++ Hex8 g.running)
    have hverified : (bytes.length : Int) = g.size ∧ (crc32 bytes 0).setWidth 64 = g.fcrc :=
      ⟨hrcvd.symm.trans hsize, hrunning.symm.trans hfcrc⟩
    have hcuts := Disk.Cuts.mono (Q := Saved g)
      (fun d hd => ⟨bytes, hverified.1, hverified.2, hd⟩) hkept
  · refine ⟨d', Disk.after_trans hafter rfl, hmaxblk, hclosed, fun e he path hpath => ?_,
      fun _ => ?_⟩
    · rcases List.mem_append.mp he with he | he
      · exact own_replace hname he hpath
      · rw [List.mem_singleton.mp he] at hpath
        cases hpath
    · refine ⟨⟨bytes, hfile, hverified.1, hverified.2, hpart⟩, hcuts.append hafter ?_⟩
      exact Disk.Cuts.of_talks ⟨bytes, hverified.1, hverified.2, Or.inl hfile⟩ rfl
  · refine ⟨d', hafter, hmaxblk, hclosed, fun e he path hpath => ?_, fun _ => ?_⟩
    · exact own_replace hname he hpath
    · exact ⟨⟨bytes, hfile, hverified.1, hverified.2, hpart⟩, hcuts⟩

/-- The variables after a block of `ln` bytes. -/
def counted (g : Globals) (ln : Int) (running : BitVec 64) : Globals :=
  { g with running, seq := g.seq + 1, drops := 0, rcvd := g.rcvd + ln }

theorem commit_of_ne
    {ln : Int} (h : ln ≠ min g.blksz (g.size - g.rcvd)) (n : Int) (running : BitVec 64) :
    commit g now n ln running = protocolError g := by
  have hwchunk : ln ≠ if g.blksz < g.size - g.rcvd then g.blksz else g.size - g.rcvd := by
    rw [← min_def_lt]
    exact h
  exact if_pos hwchunk

/-- Inside `buf%()` the copies give the bytes of the block. -/
theorem writeLoop_eq
    (buf : Memory.Area 4096) {ln : Nat} (hln : ln ≤ 4096) (wpos : Nat) :
    writeLoop buf ln wpos = some ((buf.bytes.take ln).drop wpos) := by
  generalize hn : ln - wpos = n
  induction n using Nat.strong_induction_on generalizing wpos with
  | _ n ih =>
      rw [writeLoop]
      split
      · generalize hwchunk : (if ln - wpos > 255 then 255 else ln - wpos) = wchunk
        have hpos : 0 < wchunk ∧ wpos + wchunk ≤ ln := by
          rw [← hwchunk]
          split <;> omega
        obtain ⟨ws, hread, hsplit⟩ := buf.exists_read hpos.2 hln
        have hrest := ih (ln - (wpos + wchunk)) (by omega) _ rfl
        dsimp only
        rw [hread]
        dsimp only
        rw [hrest, hsplit]
        rfl
      · rw [List.drop_eq_nil_of_le (by rw [List.length_take]; omega)]

theorem writeBlock_eq
    (buf : Memory.Area 4096) {ln : Nat} (hln : ln ≤ 4096) :
    writeLoop buf ln 0 = some (buf.bytes.take ln) :=
  writeLoop_eq buf hln 0

theorem commit_of_none
    {ln : Int} (h : ln = min g.blksz (g.size - g.rcvd))
    (hleft : writeLoop g.arrays.buf ln.toNat 0 = none) (n : Int) (running : BitVec 64) :
    commit g now n ln running = stop g .addressError [] := by
  have hwchunk : ¬ ln ≠ if g.blksz < g.size - g.rcvd then g.blksz else g.size - g.rcvd := by
    rw [← min_def_lt]
    exact not_not.mpr h
  dsimp only [commit]
  rw [if_neg hwchunk, hleft]

theorem commit_of_eq
    {ln : Int} (h : ln = min g.blksz (g.size - g.rcvd)) {data : Bytes}
    (hdata : writeLoop g.arrays.buf ln.toNat 0 = some data) (n : Int) (running : BitVec 64) :
    ∃ state saved,
      commit g now n ln running =
        recvLine { counted g ln running with rmbState := state } now .data
          ([.write data, .send ("ACK ".toList ++ Str n)] ++ saved) ∧
      (saved = [] ∧ (g.seq + 1) % 8 ≠ 0 ∨
        saved = SaveRmb { counted g ln running with rmbState := state } state) := by
  have hwchunk : ¬ ln ≠ if g.blksz < g.size - g.rcvd then g.blksz else g.size - g.rcvd := by
    rw [← min_def_lt]
    exact not_not.mpr h
  by_cases hsaves : (g.seq + 1) % 8 = 0 ∨ g.rcvd + ln = g.size
  · refine ⟨.active, SaveRmb { counted g ln running with rmbState := .active } .active, ?_,
      Or.inr rfl⟩
    dsimp only [commit]
    rw [if_neg hwchunk, hdata]
    dsimp only
    rw [if_pos hsaves, if_pos hsaves]
    rfl
  · refine ⟨g.rmbState, [], ?_, Or.inl ⟨rfl, fun hseq => hsaves (Or.inl hseq)⟩⟩
    dsimp only [commit]
    rw [if_neg hwchunk, hdata]
    dsimp only
    rw [if_neg hsaves, if_neg hsaves]
    rfl

/-- `Print #2`: the note stays true of the first bytes. -/
theorem after_write
    (h : Noted g d) {bytes : Bytes} (hbytes : d.files (entry (partPath g)) = some (.data bytes))
    {ln : Int} {data : Bytes} (hcount : (bytes ++ data).length = bytes.length + ln.toNat)
    (hrcvd : g.rcvd = bytes.length) (hln : 0 ≤ ln) (hlength : ln = min g.blksz (g.size - g.rcvd))
    {running : BitVec 64} (hrunning : running = (crc32 (bytes ++ data) 0).setWidth 64)
    (state : RmbState) :
    ∃ d', (Effect.write data).apply d = some d' ∧
      Filed { counted g ln running with rmbState := state } d' ∧
      ((g.seq + 1) % 8 ≠ 0 → Noted { counted g ln running with rmbState := state } d') := by
  have hpart : Function.update d.files (entry (partPath g)) (some (.data (bytes ++ data)))
      (entry (partPath g)) = some (.data (bytes ++ data)) :=
    Function.update_self ..
  have hfiled : Filed { counted g ln running with rmbState := state }
      { d with
        files := Function.update d.files (entry (partPath g)) (some (.data (bytes ++ data))) } := by
    refine ⟨h.blksz_pos, h.blksz_le, ?_, h.isOpen, bytes ++ data, hpart, ?_, hrunning⟩
    · change g.rcvd + ln ≤ g.size
      omega
    · change g.rcvd + ln = _
      rw [hcount]
      omega
  refine ⟨_, apply_write h.isOpen hbytes data, hfiled, fun hseq => ⟨hfiled, ?_⟩⟩
  obtain ⟨g₀, noted, first, rest, hbehind, hrecord, hfirst, htrue⟩ := h.noted
  obtain rfl : bytes = first ++ rest := by
    rw [hbytes] at hfirst
    exact Contents.data.inj (Option.some.inj hfirst)
  have hseq_ge := hbehind.seq_ge
  have hseq_le := hbehind.seq_le
  refine ⟨g₀, noted, first, rest ++ data, ⟨hbehind.fn, hbehind.size, hbehind.blksz,
    hbehind.blocks, hbehind.fcrc, ?_, ?_⟩, ?_, ?_, htrue⟩
  · change 8 * ((g.seq + 1) / 8) ≤ g₀.seq
    omega
  · change g₀.seq ≤ g.seq + 1
    omega
  · exact (Function.update_of_ne (partPath_ne_record g).symm _ _).trans hrecord
  · rw [← List.append_assoc]
    exact hpart

/-- The bytes of a block in its place go into the file. -/
theorem does_commit
    (hname : ValidName g.fn = true) (hmaxblk : g.maxblk ≤ Const.BLKMAX) {bytes : Bytes}
    (h : Noted g d) (hbytes : d.files (entry (partPath g)) = some (.data bytes))
    (hrcvd : g.rcvd = bytes.length) (n : Int) {ln : Int} (hln : 0 ≤ ln)
    {running : BitVec 64}
    (hrunning : running =
      (crc32 (bytes ++ g.arrays.buf.bytes.take ln.toNat) 0).setWidth 64) :
    ∃ d', Does d (commit g now n ln running) d' := by
  by_cases hlength : ln = min g.blksz (g.size - g.rcvd)
  · have hle : ln.toNat ≤ 4096 := by
      have hblksz := h.blksz_le
      rw [Const.BLKMAX] at hmaxblk
      omega
    have hdata := writeBlock_eq g.arrays.buf hle
    obtain ⟨state, saved, hcommit, hsaved⟩ := commit_of_eq now hlength hdata n running
    rw [hcommit]
    generalize hg' : { counted g ln running with rmbState := state } = g' at hsaved ⊢
    have hname' : ValidName g'.fn = true := by rwa [← hg']
    have hmaxblk' : g'.maxblk ≤ Const.BLKMAX := by rwa [← hg']
    have hcount : (bytes ++ g.arrays.buf.bytes.take ln.toNat).length =
        bytes.length + ln.toNat := by
      have hbuf := g.arrays.buf.length_eq
      rw [List.length_append, List.length_take]
      omega
    obtain ⟨d₁, hwritten, hfiled₁, hnoted₁⟩ : ∃ d₁,
        (Effect.write (g.arrays.buf.bytes.take ln.toNat)).apply d = some d₁ ∧ Filed g' d₁ ∧
        ((g.seq + 1) % 8 ≠ 0 → Noted g' d₁) := by
      subst hg'
      exact after_write h hbytes hcount hrcvd hln hlength hrunning state
    obtain ⟨d₂, hafter, hfiled₂⟩ : ∃ d₂, d₁.after saved = some d₂ ∧ Noted g' d₂ := by
      rcases hsaved with ⟨rfl, hseq⟩ | rfl
      · exact ⟨d₁, rfl, hnoted₁ hseq⟩
      · exact after_saveRmb hfiled₁ state
    refine ⟨d₂, ?_, hmaxblk', ⟨hname', hfiled₂⟩, fun e he path hpath => ?_, fun hconfirms => ?_⟩
    · exact Disk.after_trans (Disk.after_cons hwritten (Disk.after_cons rfl rfl)) hafter
    · rcases List.mem_append.mp he with he | he
      · rcases List.mem_pair.mp he with rfl | rfl
        · cases hpath
        · cases hpath
      · rcases hsaved with ⟨rfl, -⟩ | rfl
        · cases he
        · exact own_saveRmb hname' he hpath
    · have hnone : confirms saved = false := by
        rcases hsaved with ⟨rfl, -⟩ | rfl
        · rfl
        · exact confirms_saveRmb g' state
      have hconfirms' : confirms saved = true := hconfirms
      exact absurd (hnone.symm.trans hconfirms') Bool.false_ne_true
  · rw [commit_of_ne now hlength]
    exact does_protocolError hmaxblk h

theorem does_outOfPlace
    (hname : ValidName g.fn = true) (hmaxblk : g.maxblk ≤ Const.BLKMAX) (h : Noted g d)
    (n : Int) :
    ∃ d', Does d (outOfPlace g now n) d' := by
  dsimp only [outOfPlace]
  split_ifs
  · exact does_close hmaxblk h { g with drops := g.drops + 1, resets := g.resets + 1 }
      [.send "ERR RETRY".toList] rfl rfl
  · exact does_reopen hname hmaxblk h _ now rfl
  · exact does_reply now { g with drops := g.drops + 1 } hname hmaxblk
      (h.congr rfl rfl rfl rfl rfl rfl rfl rfl rfl) rfl

theorem does_checkBlock
    (hname : ValidName g.fn = true) (hmaxblk : g.maxblk ≤ Const.BLKMAX) (h : Noted g d)
    (frame : Frame) {ln : Int} (hln : 0 ≤ ln) (hle : ln ≤ g.blksz) :
    ∃ d', Does d (checkBlock g now frame ln) d' := by
  obtain ⟨bytes, hbytes, hrcvd, hrunning⟩ := h.part
  have hcount : ln.toNat ≤ 4096 := by
    have hblksz := h.blksz_le
    rw [Const.BLKMAX] at hmaxblk
    omega
  have hcrc := crcBoth_eq g.arrays.buf hcount 0 (crc32 bytes 0)
  rw [← hrunning, ← crc32_append] at hcrc
  unfold checkBlock
  rw [show CrcBoth g.arrays.buf 0 g.running ln.toNat = _ from hcrc]
  dsimp only
  split_ifs
  · exact does_reply now _ hname hmaxblk h rfl
  · exact does_reply now _ hname hmaxblk h rfl
  · exact does_reply now _ hname hmaxblk h rfl
  · exact does_outOfPlace now hname hmaxblk h frame.n
  · exact does_commit now hname hmaxblk h hbytes hrcvd frame.n hln rfl

theorem does_afterRaw
    (hname : ValidName g.fn = true) (hmaxblk : g.maxblk ≤ Const.BLKMAX) (h : Noted g d)
    {frame : Frame} (hframe : Bounded g frame) :
    ∃ d', Does d (afterRaw g now frame) d' := by
  unfold afterRaw
  split_ifs with hzipped
  · have hlimit : g.blksz ≤ 4096 := le_trans h.blksz_le hmaxblk
    have hln := hframe.ln_le
    have hrawlen := hframe.rawlen_le
    have hpacked : frame.ln.toNat ≤ 4096 := by omega
    have hplain : frame.rawlen.toNat ≤ 4096 := by omega
    obtain ⟨result, after, hrun, -⟩ := unpacked_decompress hpacked hplain g.arrays
    rw [hrun]
    have hfiled : Noted { g with arrays := after } d := h.congr rfl rfl rfl rfl rfl rfl rfl rfl rfl
    cases result with
    | false => exact does_reply now { g with arrays := after } hname hmaxblk hfiled rfl
    | true =>
        exact does_checkBlock (g := { g with arrays := after }) now hname hmaxblk hfiled frame
          hframe.rawlen_nonneg hframe.rawlen_le
  · exact does_checkBlock now hname hmaxblk h frame hframe.ln_nonneg hframe.ln_le

theorem does_afterFrame
    (hname : ValidName g.fn = true) (hmaxblk : g.maxblk ≤ Const.BLKMAX) (h : Noted g d)
    (frame : Frame) :
    ∃ d', Does d (afterFrame g now frame) d' := by
  rw [afterFrame]
  split_ifs with hframe hrawlen
  · exact does_protocolError hmaxblk h
  · exact does_protocolError hmaxblk h
  all_goals
    simp only [not_or, not_lt] at hframe hrawlen
    have hbounded : Bounded g frame := ⟨hframe.1, hframe.2.1, hrawlen.1, hrawlen.2⟩
  · exact does_afterRaw now hname hmaxblk h hbounded
  · exact does_talk rfl hmaxblk ⟨hname, h, hbounded, Nat.zero_le _⟩

theorem does_afterData
    (hname : ValidName g.fn = true) (hmaxblk : g.maxblk ≤ Const.BLKMAX) (h : Noted g d)
    (s : Line) :
    ∃ d', Does d (afterData nums g now s) d' := by
  unfold afterData
  split_ifs
  · exact does_close hmaxblk h g [] rfl rfl
  · exact does_reply now { g with peerDone := true } hname hmaxblk
      (h.congr rfl rfl rfl rfl rfl rfl rfl rfl rfl) rfl
  · cases Split s g.parts with
    | none => exact does_talk rfl hmaxblk Stop.noConfusion
    | some parts =>
        have hfiled : Noted { g with parts } d := h.congr rfl rfl rfl rfl rfl rfl rfl rfl rfl
        dsimp only
        split_ifs
        · exact does_reopen (g := { g with parts }) hname hmaxblk hfiled 0 now rfl
        · exact does_protocolError (g := { g with parts }) hmaxblk hfiled
        · exact does_finalCrc nums (g := { g with parts }) now hname hmaxblk hfiled
        · exact does_reply now { g with parts } hname hmaxblk hfiled rfl
        · exact does_close hmaxblk h { g with parts } [] rfl rfl
        · exact does_afterFrame (g := { g with parts }) now hname hmaxblk hfiled _

end Transfer

section Steps

variable (nums : Numbers) {d : Disk} {g : Globals} (now : Nat)

theorem does_afterPrompt
    (hmaxblk : g.maxblk ≤ Const.BLKMAX) (hclosed : d.open2 = none) (txt : Line) (p : Prompt) :
    ∃ d', Does d (afterPrompt g now txt p) d' := by
  cases p with
  | url => exact does_afterUrl now hmaxblk hclosed txt
  | filename url => exact does_afterFilename now hmaxblk hclosed url txt

theorem does_afterLine
    (hmaxblk : g.maxblk ≤ Const.BLKMAX) {wait : Wait} {l : RecvLine}
    (hplaced : Placed g d (.line wait l)) (s : Line) :
    ∃ d', Does d (afterLine nums g now s wait) d' := by
  cases wait with
  | dial helloTry => exact does_afterDial nums now hmaxblk hplaced helloTry s
  | who => exact does_afterWho hmaxblk hplaced s
  | answer => exact does_afterAnswer nums now hplaced.1 hmaxblk hplaced.2 s
  | fetched => exact does_afterFetched nums now hplaced.1 hmaxblk hplaced.2 s
  | data => exact does_afterData nums now hplaced.1 hmaxblk hplaced.2 s
  | bye k => exact does_afterBye now hmaxblk hplaced k s
  | close t0 => exact does_afterClose now hmaxblk hplaced t0 s
  | linger t0 => exact does_afterLinger now hmaxblk hplaced t0 s

/-- `Print #1, "DROP"; seq; "RAW"`. -/
theorem does_rawTimedOut
    (hname : ValidName g.fn = true) (hmaxblk : g.maxblk ≤ Const.BLKMAX) (h : Noted g d) :
    ∃ d', Does d (rawTimedOut g now) d' :=
  does_reply now _ hname hmaxblk h rfl

theorem Noted.aside
    {g' : Globals} (haside : Aside g g') (h : Noted g d) :
    Noted g' d := by
  rw [Aside] at haside
  rw [haside]
  exact h.congr rfl rfl rfl rfl rfl rfl rfl rfl rfl

theorem Placed.aside
    {g' : Globals} (haside : Aside g g') {place : Place} (h : Placed g d place) :
    Placed g' d place := by
  have hfiled : Noted g d → Noted g' d := Noted.aside haside
  have hfn : g'.fn = g.fn := haside.fn
  have hblksz : g'.blksz = g.blksz := haside.blksz
  cases place with
  | line wait l =>
      cases wait with
      | answer => exact ⟨hfn ▸ h.1, h.2⟩
      | fetched => exact ⟨hfn ▸ h.1, h.2⟩
      | data => exact ⟨hfn ▸ h.1, hfiled h.2⟩
      | _ => exact h
  | prompt p l => exact h
  | raw frame l =>
      obtain ⟨hname, hopen, hbounded, hgot⟩ := h
      exact ⟨hfn ▸ hname, hfiled hopen, ⟨hbounded.1, hblksz ▸ hbounded.2, hbounded.3,
        hblksz ▸ hbounded.4⟩, hgot⟩
  | stopped how => exact h

theorem Placed.line
    {wait : Wait} {l : RecvLine} (h : Placed g d (.line wait l)) (l' : RecvLine) :
    Placed g d (.line wait l') := by
  cases wait with
  | _ => exact h

/-- What a turn says before a piece runs changes nothing about the drive. -/
theorem Does.after_talk
    {out : List Effect} (htalks : talks out = true) {next : Next} {d' : Disk}
    (h : Does d next d') (queue : Bytes) :
    Does d ⟨(next.state queue).g, (next.state queue).place, out ++ next.out⟩ d' := by
  refine ⟨Disk.after_trans (Disk.after_talks htalks d) h.after, h.maxblk, h.placed,
    fun e he path hpath => ?_, fun hconfirms => ?_⟩
  · rcases List.mem_append.mp he with he | he
    · rw [paths_of_talks htalks he] at hpath
      cases hpath
    · exact h.own e he path hpath
  · rw [confirms_append, confirms_of_talks htalks] at hconfirms
    obtain ⟨hverified, hcuts⟩ := h.verified hconfirms
    have hsaid := Disk.Cuts.of_talks (P := Saved next.g) hcuts.head htalks
    exact ⟨hverified, hsaid.append (Disk.after_talks htalks d) hcuts⟩

/-- A turn of a loop that goes on, or is lost. -/
theorem does_idle
    (hmaxblk : g.maxblk ≤ Const.BLKMAX) {g' : Globals} {out : List Effect} (h : Idles g g' out)
    {place : Place} (hplaced : Placed g d place) :
    ∃ d', Does d ⟨g', place, out⟩ d' :=
  does_talk h.talks (le_of_eq_of_le h.aside.maxblk hmaxblk) (hplaced.aside h.aside)

/-- A turn of a loop, and what follows it. -/
theorem does_step
    {st st' : State} {tick : Tick} {out : List Effect} (hmaxblk : st.g.maxblk ≤ Const.BLKMAX)
    (hplaced : Placed st.g d st.place) (hstep : step nums st tick = some (st', out)) :
    ∃ d', Does d ⟨st'.g, st'.place, out⟩ d' := by
  obtain ⟨g, place, queue⟩ := st
  dsimp only at hmaxblk hplaced
  cases place with
  | stopped how => cases hstep
  | line wait l =>
      dsimp only [step] at hstep
      have hidles := recvTurn_idles nums g (queue ++ tick.arrived) tick.now wait.tmo l
      cases hround : recvTurn nums g (queue ++ tick.arrived) tick.now wait.tmo l with
      | again g' queue' l' out' =>
          rw [hround] at hidles hstep
          cases hstep
          exact does_idle hmaxblk hidles (hplaced.line l')
      | returned g' queue' s out' =>
          rw [hround] at hidles hstep
          cases hstep
          have hmaxblk' : g'.maxblk ≤ Const.BLKMAX := le_of_eq_of_le hidles.aside.maxblk hmaxblk
          obtain ⟨d', hdoes⟩ := does_afterLine nums tick.now hmaxblk'
            (Placed.aside hidles.aside hplaced) s
          exact ⟨d', hdoes.after_talk hidles.talks queue'⟩
      | lost g' out' =>
          rw [hround] at hidles hstep
          cases hstep
          exact does_talk hidles.talks (le_of_eq_of_le hidles.aside.maxblk hmaxblk)
            Stop.noConfusion
  | prompt p l =>
      dsimp only [step] at hstep
      have hidles := inputTurn_idles nums g (queue ++ tick.arrived) tick.now tick.key l
      cases hround : inputTurn nums g (queue ++ tick.arrived) tick.now tick.key l with
      | again g' queue' l' out' =>
          rw [hround] at hidles hstep
          cases hstep
          exact does_idle hmaxblk hidles (d := d) (show Placed g d (.prompt p l') from hplaced)
      | returned g' queue' txt out' =>
          rw [hround] at hidles hstep
          cases hstep
          obtain ⟨hheard, -⟩ := hidles
          have hmaxblk' : g'.maxblk ≤ Const.BLKMAX := le_of_eq_of_le hheard.aside.maxblk hmaxblk
          obtain ⟨d', hdoes⟩ := does_afterPrompt tick.now hmaxblk' hplaced txt p
          exact ⟨d', hdoes.after_talk hheard.talks queue'⟩
      | lost g' out' =>
          rw [hround] at hidles hstep
          cases hstep
          exact does_talk hidles.talks (le_of_eq_of_le hidles.aside.maxblk hmaxblk)
            Stop.noConfusion
  | raw frame l =>
      dsimp only [step] at hstep
      obtain ⟨hname, hfiled, hbounded, hgot⟩ := hplaced
      have hcount : frame.ln.toNat ≤ 4096 := by
        have hln := hbounded.ln_le
        have hblksz := hfiled.blksz_le
        rw [Const.BLKMAX] at hmaxblk
        omega
      obtain ⟨round, hround, hidles, hagain⟩ := rawTurn_idles g (queue ++ tick.arrived) tick.now
        hcount Const.DATTMO hgot
      rw [hround] at hstep
      cases round with
      | again g' queue' l' out' =>
          cases hstep
          exact does_idle hmaxblk hidles (d := d) (show Placed g d (.raw frame l') from
            ⟨hname, hfiled, hbounded, hagain _ _ _ _ rfl⟩)
      | returned g' queue' ok out' =>
          cases hstep
          have hmaxblk' : g'.maxblk ≤ Const.BLKMAX := le_of_eq_of_le hidles.aside.maxblk hmaxblk
          have hplaced : Placed g d (.raw frame l) := ⟨hname, hfiled, hbounded, hgot⟩
          obtain ⟨hname', hfiled', hbounded', -⟩ := Placed.aside hidles.aside hplaced
          cases ok with
          | false =>
              obtain ⟨d', hdoes⟩ := does_rawTimedOut tick.now hname' hmaxblk' hfiled'
              exact ⟨d', hdoes.after_talk hidles.talks queue'⟩
          | true =>
              obtain ⟨d', hdoes⟩ := does_afterRaw tick.now hname' hmaxblk' hfiled' hbounded'
              exact ⟨d', hdoes.after_talk hidles.talks queue'⟩
      | lost g' out' =>
          cases hstep
          exact does_talk hidles.talks (le_of_eq_of_le hidles.aside.maxblk hmaxblk)
            Stop.noConfusion

end Steps

end Pcutp.Picocalc
