import Pcutp.Lib.Machine
import Pcutp.Picocalc.Disk

/-!
# What a session leaves on the drive

The program runs beside a drive, on which its effects act.  The drive never
refuses one of them, number 2 is open in the data loop and nowhere else, only
the three files of a download are touched, an interrupted download can be
judged by its note, and a file that was confirmed is there, even when the power
goes before the old copy has been replaced.
-/

namespace Pcutp.Picocalc

open Machine

section Invariant

variable (nums : Numbers) (now : Nat)

/-- The program fits the drive. -/
structure OnDrive (st : State) (d : Disk) : Prop where
  maxblk : st.g.maxblk ≤ Const.BLKMAX
  placed : Placed st.g d st.place

theorem onDrive_start
    {d : Disk} (hclosed : d.open2 = none) :
    OnDrive (start now).1 d := by
  have hmaxblk : (0 : Int) ≤ Const.BLKMAX := by decide
  exact ⟨hmaxblk, hclosed⟩

theorem onDrive_step
    {st st' : State} {d : Disk} {tick : Tick} {out : List Effect} (h : OnDrive st d)
    (hstep : step nums st tick = some (st', out)) :
    ∃ d', Does d ⟨st'.g, st'.place, out⟩ d' ∧ OnDrive st' d' := by
  obtain ⟨d', hdoes⟩ := does_step nums h.maxblk h.placed hstep
  exact ⟨d', hdoes, hdoes.maxblk, hdoes.placed⟩

/-- What every step does on a drive, whatever the run before. -/
theorem always_does
    {P : State × Disk → Tick → State × Disk → List Effect → Prop}
    (hP : ∀ st tick st' d d' out, Does d ⟨st'.g, st'.place, out⟩ d' → P (st, d) tick (st', d') out)
    {d : Disk} (hclosed : d.open2 = none) (ticks : List Tick) :
    Always (alongside (step nums) Disk.after) P ((start now).1, d) ticks := by
  refine always_alongside OnDrive (fun st d tick st' d' out h hstep hafter => ?_)
    (onDrive_start now hclosed) ticks
  obtain ⟨d'', hdoes, hdrive⟩ := onDrive_step nums h hstep
  obtain rfl : d' = d'' := Option.some.inj (hafter.symm.trans hdoes.after)
  exact ⟨hP st tick st' d d' out hdoes, hdrive⟩

/-- Where file number 2 is, by the place of the program. -/
theorem Placed.open2
    {g : Globals} {d : Disk} {place : Place} (h : Placed g d place)
    (hrunning : ∀ how, place ≠ .stopped how) :
    d.open2 = if receiving place = true then some (entry (partPath g)) else none := by
  cases place with
  | line wait l =>
      cases wait with
      | answer => exact h.2
      | fetched => exact h.2
      | data => exact h.2.isOpen
      | _ => exact h
  | prompt p l => exact h
  | raw frame l => exact h.2.1.isOpen
  | stopped how => exact absurd rfl (hrunning how)

theorem Placed.noted
    {g : Globals} {d : Disk} {place : Place} (h : Placed g d place)
    (hreceiving : receiving place = true) :
    Noted g d := by
  cases place with
  | line wait l =>
      cases wait with
      | data => exact h.2
      | _ => cases hreceiving
  | prompt p l => cases hreceiving
  | raw frame l => exact h.2.1
  | stopped how => cases hreceiving

end Invariant

section Result

variable (nums : Numbers) (now : Nat)

/-- No session makes the program read or write memory outside `buf%()` and `unpack%()`. -/
theorem never_addressError
    (ticks : List Tick) :
    Always (step nums) (fun _ _ st' _ => st'.place ≠ .stopped .addressError) (start now).1 ticks := by
  refine always_of_step (fun st => ∃ d, OnDrive st d) (fun st tick st' out h hstep => ?_) ticks
    ⟨⟨fun _ => none, none⟩, onDrive_start now rfl⟩
  obtain ⟨d, hdrive⟩ := h
  obtain ⟨d', hdoes, hdrive'⟩ := onDrive_step nums hdrive hstep
  refine ⟨fun hplace => ?_, d', hdrive'⟩
  have hplaced := hdrive'.placed
  rw [hplace] at hplaced
  exact hplaced rfl

/-- A session of one byte, and its file. -/
def savedSession : List Tick :=
  bytesIn 0 "HELLO PCUTP/2 HRU? MAXBLK=4096" ++ keysIn 0 "http://a" ++ keysIn 0 "f" ++
    bytesIn 0 "META f 1 1 1 D3D99E8B" ++ bytesIn 0 "DATA 0 1 D3D99E8B" ++
    [{ now := 0, arrived := [65], key := none }] ++ bytesIn 0 "DONE D3D99E8B"

/-- A drive with nothing on it. -/
def emptyDisk : Disk where
  files := fun _ => none
  open2 := none

/-- That session up to the header of the block, and the byte of the block. -/
def blockAsked : List Tick :=
  bytesIn 0 "HELLO PCUTP/2 HRU? MAXBLK=4096" ++ keysIn 0 "http://a" ++ keysIn 0 "f" ++
    bytesIn 0 "META f 1 1 1 D3D99E8B" ++ bytesIn 0 "DATA 0 1 D3D99E8B"

def blockByte : Tick :=
  { now := 0, arrived := [65], key := none }

/-- The program beside the drive, from its start. -/
abbrev beside : State × Disk → Tick → Option ((State × Disk) × List Effect) :=
  alongside (step integers) Disk.after

def startBeside : (State × Disk) × List Effect :=
  (((start 0).1, emptyDisk), (start 0).2)

/-- The data loop has taken one byte. -/
def holdsOne (p : State × Disk) (_ : List Effect) : Bool :=
  receiving p.1.place && p.1.g.rcvd == 1

theorem stored_running :
    ((run beside startBeside blockAsked).bind fun m => beside m.1 blockByte).any (fun m =>
      holdsOne m.1 m.2) = true := by
  decide +kernel

theorem saved_running :
    ((run beside startBeside savedSession.dropLast).bind fun m =>
      beside m.1 { now := 0, arrived := [10], key := none }).any (fun m => confirms m.2) =
      true := by
  decide +kernel

/-- The firmware never stops the program for what it does on the drive. -/
theorem drive_never_refuses
    {d : Disk} (hclosed : d.open2 = none) (ticks : List Tick) :
    (run (alongside (step nums) Disk.after) (((start now).1, d), (start now).2) ticks).map
        (fun m => (m.1.1, m.2)) =
      run (step nums) (start now) ticks := by
  refine run_alongside OnDrive (fun st d tick st' out h hstep => ?_) (onDrive_start now hclosed)
    (start now).2 ticks
  obtain ⟨d', hdoes, hdrive⟩ := onDrive_step nums h hstep
  exact ⟨d', hdoes.after, hdrive⟩

theorem drive_never_refuses_savedSession :
    ((run (alongside (step integers) Disk.after) (((start 0).1, emptyDisk), (start 0).2)
        savedSession).map fun m => (m.1.1, m.2)) =
      run (step integers) (start 0) savedSession ∧
    ((run (step integers) (start 0) savedSession).any fun m => confirms m.2) = true :=
  ⟨drive_never_refuses integers 0 rfl savedSession, by decide +kernel⟩

/-- Number 2 is `.PART` in the data loop and is closed everywhere else, and nothing but the three
files of the download is opened, written, killed or renamed. -/
theorem touches_own_files
    {d : Disk} (hclosed : d.open2 = none) (ticks : List Tick) :
    Always (alongside (step nums) Disk.after)
      (fun _ _ p out =>
        ((∀ how, p.1.place ≠ .stopped how) →
          p.2.open2 =
            if receiving p.1.place = true then some (entry (partPath p.1.g)) else none) ∧
        ∀ e ∈ out, ∀ path ∈ e.paths, Own p.1.g path)
      ((start now).1, d) ticks :=
  always_does nums now (fun _ _ _ _ _ _ hdoes => ⟨hdoes.placed.open2, hdoes.own⟩) hclosed ticks

/-- The bytes of the block have come, and `.PART` is open. -/
theorem touches_own_files_savedSession :
    ∃ p p' out, run beside startBeside blockAsked = some p ∧
      beside p.1 blockByte = some (p', out) ∧ receiving p'.1.place = true ∧
        p'.2.open2 = some (entry (partPath p'.1.g)) := by
  obtain ⟨p, p', out, hrun, hstep, hboth⟩ := exists_of_run_any stored_running
  rw [holdsOne, Bool.and_eq_true, beq_iff_eq] at hboth
  obtain ⟨hplace, _⟩ := hboth
  have halways := touches_own_files integers 0 (d := emptyDisk) rfl (blockAsked ++ [blockByte])
  have hopen := (always_last halways hrun hstep).1 fun how hstopped => by
    rw [hstopped] at hplace
    cases hplace
  rw [if_pos hplace] at hopen
  exact ⟨p, p', out, hrun, hstep, hplace, hopen⟩

/-- In the data loop `.PART` holds the bytes that are counted and the checksum is theirs, and what
`.PCUTP` says is true of the first bytes of `.PART`, not eight blocks back. -/
theorem partial_file_noted
    {d : Disk} (hclosed : d.open2 = none) (ticks : List Tick) :
    Always (alongside (step nums) Disk.after)
      (fun _ _ p _ => receiving p.1.place = true → Noted p.1.g p.2) ((start now).1, d) ticks :=
  always_does nums now (fun _ _ _ _ _ _ hdoes => hdoes.placed.noted) hclosed ticks

theorem partial_file_noted_savedSession :
    ∃ p p' out, run beside startBeside blockAsked = some p ∧
      beside p.1 blockByte = some (p', out) ∧ receiving p'.1.place = true ∧ p'.1.g.rcvd = 1 ∧
        Noted p'.1.g p'.2 := by
  obtain ⟨p, p', out, hrun, hstep, hboth⟩ := exists_of_run_any stored_running
  rw [holdsOne, Bool.and_eq_true, beq_iff_eq] at hboth
  obtain ⟨hplace, hrcvd⟩ := hboth
  have halways := partial_file_noted integers 0 (d := emptyDisk) rfl (blockAsked ++ [blockByte])
  exact ⟨p, p', out, hrun, hstep, hplace, hrcvd, always_last halways hrun hstep hplace⟩

/-- When OK goes out the file stands under its name with the size and the checksum of META, and
however many effects of that step the power left, a copy of these bytes was on the drive. -/
theorem confirmed_file_saved
    {d : Disk} (hclosed : d.open2 = none) (ticks : List Tick) :
    Always (alongside (step nums) Disk.after)
      (fun p _ p' out => confirms out = true →
        Verified p'.1.g p'.2 ∧
          ∀ n, ∃ cut, p.2.after (out.take n) = some cut ∧ Saved p'.1.g cut)
      ((start now).1, d) ticks := by
  refine always_does nums now (fun st tick st' d d' out hdoes hconfirms => ?_) hclosed ticks
  obtain ⟨hverified, hcuts⟩ := hdoes.verified hconfirms
  exact ⟨hverified, hcuts.take⟩

/-- The last byte of DONE is read, and OK goes out. -/
theorem confirmed_file_saved_savedSession :
    ∃ p p' out, run beside startBeside savedSession.dropLast = some p ∧
      beside p.1 { now := 0, arrived := [10], key := none } = some (p', out) ∧
        confirms out = true ∧ Verified p'.1.g p'.2 ∧
          ∀ n, ∃ cut, p.1.2.after (out.take n) = some cut ∧ Saved p'.1.g cut := by
  obtain ⟨p, p', out, hrun, hstep, hconfirms⟩ := exists_of_run_any
    (p := fun _ out => confirms out) saved_running
  have halways := confirmed_file_saved integers 0 (d := emptyDisk) rfl
    (savedSession.dropLast ++ [{ now := 0, arrived := [10], key := none }])
  exact ⟨p, p', out, hrun, hstep, hconfirms, always_last halways hrun hstep hconfirms⟩

end Result

end Pcutp.Picocalc
