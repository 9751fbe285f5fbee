import Pcutp.Genuine

/-!
# Which files a download touches

A run of `_receive` for a file `f` works on four names: `f` itself, its `.PART`,
its `.PCUTP` record and the temporary file of that record.  This module states
that frame condition for every way the run can stop, a file operation that
raises in the middle of its work included.

The three side names are built by adding a suffix, and `sanitize_filename`
accepts names that end in these suffixes.  So another download can own one of
them, and the frame condition of `f` protects a file `g` exactly when `g` is not
a side name of `f`.
-/

namespace Pcutp

/-- The files `_receive` keeps beside the one it is asked for. -/
def sideNames (filename : Line) : List Line :=
  [partName filename, checkpointName filename, temporaryName filename]

/-- A name that `sanitize_filename` returns. -/
def Accepted (f : Line) : Prop :=
  ∃ name, sanitize_filename name = .ok f

/-- What is left of an effect that raised: a file that was not opened, truncated, renamed or
removed, a piece of a write, or a temporary record that was never put in place. -/
inductive Effect.Torn (filename : Line) (dir : Directory) : Effect → Directory → Prop
  | untouched (e : Effect) : Torn filename dir e dir
  | write (seq : Nat) (payload bytes : Bytes) :
      Torn filename dir (.write seq payload) (Effect.apply filename dir (.write seq bytes))
  | rmb (record : Record) (content : Option Content) :
      Torn filename dir (.rmb record) (Function.update dir (temporaryName filename) content)

/-- `_receive` for a META: the events it reads and what it does, when it does not refuse. -/
def receive (cfg : ClientConfig) (fields : Meta) (events : List RecvEvent) :
    Option (Option Recv × List Effect) :=
  match acceptMeta cfg fields with
  | .error (reply, _) => if events = [] then some (none, [.send reply]) else none
  | .ok m => (Recv.run m events).map fun p => (some p.1, p.2)

/-- The directories in which a run of `_receive` for `f` can end, or be found. -/
inductive Receives (f : Line) (dir : Directory) : Directory → Prop
  | ran {cfg : ClientConfig} {fields : Meta} {events : List RecvEvent} {r : Option Recv}
      {trace : List Effect} :
      sanitize_filename fields.filename = .ok f →
      receive cfg fields events = some (r, trace) →
      Receives f dir (applyEffects f dir trace)
  | tore {cfg : ClientConfig} {fields : Meta} {events : List RecvEvent} {r : Option Recv}
      {before after : List Effect} {e : Effect} {dir' : Directory} :
      sanitize_filename fields.filename = .ok f →
      receive cfg fields events = some (r, before ++ e :: after) →
      Effect.Torn f (applyEffects f dir before) e dir' →
      Receives f dir dir'

/-- A run of `_receive` for `f` from one directory to another that returned `ok=True`. -/
def Downloads (f : Line) (dir dir' : Directory) : Prop :=
  ∃ (cfg : ClientConfig) (fields : Meta) (events : List RecvEvent) (r : Recv)
    (trace : List Effect),
    sanitize_filename fields.filename = .ok f ∧
      receive cfg fields events = some (some r, trace) ∧ r.phase = .returned true ∧
      dir' = applyEffects f dir trace

/-- `g` is as an earlier transfer left it. -/
def Completed (g : Line) (dir : Directory) : Prop :=
  ∃ before after, Downloads g before after ∧ dir g = after g

/-- The checks at the head of `_receive` accept what was accepted. -/
theorem acceptMeta_toMeta
    {cfg : ClientConfig} (m : AcceptedMeta cfg) :
    acceptMeta cfg m.toMeta = .ok m := by
  unfold acceptMeta
  split
  · rename_i herr
    rw [m.target_eq] at herr
    cases herr
  · rename_i target htarget
    obtain rfl : m.target = target := by
      rw [m.target_eq] at htarget
      exact Except.ok.inj htarget
    rw [dif_pos m.crc_ok, dif_pos ⟨m.block_ok, m.size_ok, m.blocks_eq⟩, dif_pos m.fits]

section Frame

variable {f g : Line} {dir : Directory}

/-- An effect keeps every file but its own and the side files. -/
theorem apply_frame
    (hfile : g ≠ f) (hside : g ∉ sideNames f) (e : Effect) :
    e.apply f dir g = dir g := by
  simp only [sideNames, List.mem_cons, List.not_mem_nil, or_false, not_or] at hside
  obtain ⟨hpart, hcheckpoint, htemporary⟩ := hside
  cases e with
  | send => rfl
  | openPart => exact Function.update_of_ne hpart _ _
  | write => exact Function.update_of_ne hpart _ _
  | truncate => exact Function.update_of_ne hpart _ _
  | rmb =>
      rw [Effect.apply, Function.update_of_ne hcheckpoint, Function.update_of_ne htemporary]
  | replace => rw [Effect.apply, Function.update_of_ne hpart, Function.update_of_ne hfile]
  | unlink => exact Function.update_of_ne hcheckpoint _ _

theorem applyEffects_frame
    (hfile : g ≠ f) (hside : g ∉ sideNames f) (effects : List Effect) :
    applyEffects f dir effects g = dir g := by
  induction effects using List.reverseRecOn with
  | nil => rfl
  | append_singleton effects e ih =>
      rw [applyEffects_concat, apply_frame hfile hside, ih]

theorem torn_frame
    (hfile : g ≠ f) (hside : g ∉ sideNames f)
    {e : Effect} {dir' : Directory} (htorn : Effect.Torn f dir e dir') :
    dir' g = dir g := by
  cases htorn with
  | untouched => rfl
  | write => exact apply_frame hfile hside _
  | rmb =>
      refine Function.update_of_ne (fun heq => hside ?_) _ _
      rw [heq]
      simp [sideNames]

/-- The frame condition of `_receive`, for every way it can stop. -/
theorem receives_frame
    (hfile : g ≠ f) (hside : g ∉ sideNames f)
    {dir' : Directory} (h : Receives f dir dir') :
    dir' g = dir g := by
  cases h with
  | ran => exact applyEffects_frame hfile hside _
  | tore _ _ htorn => rw [torn_frame hfile hside htorn, applyEffects_frame hfile hside]

end Frame

section Side

variable {f : Line} {dir : Directory}

theorem temporaryName_ne_checkpointName (f : Line) :
    temporaryName f ≠ checkpointName f := by
  intro h
  have := congrArg List.length h
  simp [temporaryName] at this

/-- The temporary record is gone once a record was written. -/
theorem temporary_absent
    {effects : List Effect} (hrmb : ∃ record, Effect.rmb record ∈ effects) :
    applyEffects f dir effects (temporaryName f) = none := by
  induction effects using List.reverseRecOn with
  | nil => simp at hrmb
  | append_singleton effects e ih =>
      rw [applyEffects_concat]
      by_cases he : ∃ record, e = .rmb record
      · obtain ⟨record, rfl⟩ := he
        rw [Effect.apply, Function.update_of_ne (temporaryName_ne_checkpointName f),
          Function.update_self]
      · have hbefore : applyEffects f dir effects (temporaryName f) = none := by
          refine ih ?_
          obtain ⟨record, hmem⟩ := hrmb
          rcases List.mem_append.mp hmem with hmem | hmem
          · exact ⟨record, hmem⟩
          · exact absurd ⟨record, (List.mem_singleton.mp hmem).symm⟩ he
        have hpart := (partName_ne_temporaryName f).symm
        cases e with
        | send => exact hbefore
        | openPart => rw [Effect.apply, Function.update_of_ne hpart, hbefore]
        | write => rw [Effect.apply, Function.update_of_ne hpart, hbefore]
        | truncate => rw [Effect.apply, Function.update_of_ne hpart, hbefore]
        | rmb record => exact absurd ⟨record, rfl⟩ he
        | replace =>
            rw [Effect.apply, Function.update_of_ne hpart,
              Function.update_of_ne (temporaryName_ne f), hbefore]
        | unlink =>
            rw [Effect.apply, Function.update_of_ne (temporaryName_ne_checkpointName f), hbefore]

/-- A run that ended well has renamed `.PART` and removed the record last. -/
theorem Recv.returned_effects
    {cfg : ClientConfig} {m : AcceptedMeta cfg} {events : List RecvEvent} {r : Recv}
    {trace : List Effect}
    (hrun : Recv.run m events = some (r, trace)) (hphase : r.phase = .returned true) :
    ∃ before, trace = before ++ [.replace, .unlink] := by
  obtain ⟨_, front, rfl, _⟩ := (Recv.counts_run hrun).returned hphase
  obtain ⟨s, out, s', out', _, hstep, heq⟩ := Machine.run_concat hrun
  cases heq
  simp only [Recv.step] at hstep
  split at hstep
  · simp only [if_true, Option.some.injEq, Prod.mk.injEq] at hstep
    exact ⟨out, by rw [hstep.2]⟩
  · cases hstep

/-- What every run does first is in its trace. -/
theorem Recv.startEffects_mem
    {cfg : ClientConfig} {m : AcceptedMeta cfg} {events : List RecvEvent} {r : Recv}
    {trace : List Effect}
    (hrun : Recv.run m events = some (r, trace)) :
    ∀ e ∈ Recv.startEffects m, e ∈ trace := by
  refine Machine.run_induction (fun _ _ trace => ∀ e ∈ Recv.startEffects m, e ∈ trace)
    (fun _ h => h) ?_ hrun
  intro _ _ trace _ _ effects h _ e he
  exact List.mem_append_left _ (h e he)

/-- The run of an accepted META. -/
theorem receive_run
    {cfg : ClientConfig} {fields : Meta} {events : List RecvEvent} {r : Recv}
    {trace : List Effect}
    (h : receive cfg fields events = some (some r, trace)) :
    ∃ m : AcceptedMeta cfg, m.toMeta = fields ∧ Recv.run m events = some (r, trace) := by
  unfold receive at h
  split at h
  · split at h <;> cases h
  · rename_i m haccept
    obtain ⟨p, hp, heq⟩ := Option.map_eq_some_iff.mp h
    cases heq
    exact ⟨m, acceptMeta_meta haccept, hp⟩

/-- A download that ended well leaves none of its side files. -/
theorem side_absent
    {dir' : Directory} (h : Downloads f dir dir')
    {g : Line} (hg : g ∈ sideNames f) :
    dir' g = none := by
  obtain ⟨cfg, fields, events, r, trace, hname, hreceive, hphase, rfl⟩ := h
  obtain ⟨m, _, hrun⟩ := receive_run hreceive
  obtain ⟨before, rfl⟩ := Recv.returned_effects hrun hphase
  simp only [sideNames, List.mem_cons, List.not_mem_nil, or_false] at hg
  rcases hg with rfl | rfl | rfl
  · rw [List.append_cons, applyEffects_concat, applyEffects_concat]
    calc
      Effect.unlink.apply f (Effect.replace.apply f (applyEffects f dir before)) (partName f) =
          Effect.replace.apply f (applyEffects f dir before) (partName f) :=
        Function.update_of_ne (partName_ne_checkpointName f) _ _
      _ = none := Function.update_self ..
  · rw [List.append_cons, applyEffects_concat, Effect.apply, Function.update_self]
  · have hrmb := Recv.startEffects_mem hrun (.rmb (Recv.record m "ACTIVE" Recv.start))
      (by simp [Recv.startEffects])
    exact temporary_absent ⟨_, hrmb⟩

end Side

section Empty

/-- The receiver of the examples below. -/
def plainClient : ClientConfig where
  max_block_size := 1
  free_space := none
  flow := false
  compression := false

/-- The META of an empty file. -/
def emptyFile (name : Line) : Meta where
  filename := name
  size := 0
  blocksize := 1
  blocks := 1
  crc32 := "00000000".toList

/-- The transfer of an empty file. -/
def emptyEvents : List RecvEvent :=
  [.line "DATA 0 0 00000000".toList true, .payload [] none,
    .line "DONE 00000000".toList true, .commit true]

/-- The header of its only frame. -/
def emptyHeader : DataHeader where
  seq := 0
  length := 0
  raw_length := 0
  want := "00000000".toList
  packed := false

/-- The META of an empty file is accepted under every name that is. -/
def emptyMeta
    {name f : Line}
    (h : sanitize_filename name = .ok f) :
    AcceptedMeta plainClient where
  toMeta := emptyFile name
  target := f
  target_eq := h
  crc_ok := (by decide +kernel : (parse_hex "00000000".toList).isSome = true)
  block_ok := (by decide : 1 ≤ 1 ∧ 1 ≤ 1)
  size_ok := Nat.zero_le _
  blocks_eq := (by decide : 1 = blockCount 0 1)
  fits := fun _ hspace => by cases hspace

section

variable {name f : Line} {h : sanitize_filename name = .ok f}

/-- The header of the only frame is accepted. -/
theorem step_header
    {r : Recv} (hphase : r.phase = .header) :
    r.step (emptyMeta h) (.line "DATA 0 0 00000000".toList true) =
      some ({ r with phase := .payload emptyHeader }, []) := by
  have hwords : split "DATA 0 0 00000000".toList =
      ["DATA".toList, "0".toList, "0".toList, "00000000".toList] := by
    decide +kernel
  have hline : r.onLine (emptyMeta h) "DATA 0 0 00000000".toList true =
      r.onData (emptyMeta h) ["DATA".toList, "0".toList, "0".toList, "00000000".toList] := by
    rw [Recv.onLine, hwords]
    rfl
  rw [Recv.step, hphase, hline]
  rfl

/-- The empty payload is the only block. -/
theorem step_payload :
    ∃ effects, ({ Recv.start with phase := .payload emptyHeader } : Recv).step (emptyMeta h)
        (.payload [] none) = some ({ Recv.start with expected := 1 }, effects) := by
  have hcrc : crc32_hex [] = "00000000".toList := by
    decide +kernel
  have hblock : ({ Recv.start with phase := .payload emptyHeader } : Recv).onPayload
      (emptyMeta h) emptyHeader [] none = Recv.start.onBlock (emptyMeta h) 0 [] := by
    change Recv.start.onDecoded (emptyMeta h) emptyHeader [] 0 none = _
    rw [Recv.onDecoded, if_neg (fun hne => hne hcrc)]
    rfl
  refine ⟨(Recv.start.onBlock (emptyMeta h) 0 []).2, ?_⟩
  rw [Recv.step]
  change some (Recv.onPayload _ _ _ _ _) = _
  rw [hblock]
  rfl

/-- DONE is accepted. -/
theorem step_done :
    ({ Recv.start with expected := 1 } : Recv).step (emptyMeta h)
        (.line "DONE 00000000".toList true) =
      some ({ Recv.start with expected := 1, phase := .commit },
        [.send (.ok "00000000".toList)]) := by
  have hwords : split "DONE 00000000".toList = ["DONE".toList, "00000000".toList] := by
    decide +kernel
  have hcrc : upper "00000000".toList = "00000000".toList := by
    decide +kernel
  have hzero : to_hex 0 = "00000000".toList := by
    decide +kernel
  have hfinish : ({ Recv.start with expected := 1 } : Recv).finish (emptyMeta h)
        ["DONE".toList, "00000000".toList] true =
      ({ Recv.start with expected := 1, phase := .commit },
        [.send (.ok "00000000".toList)]) := by
    rw [Recv.finish, if_neg (by decide), if_neg (by decide)]
    refine (if_neg ?_).trans ?_
    · rintro (hdiffers | hdiffers | hdiffers)
      · exact hdiffers (hzero.trans hcrc.symm)
      · exact hdiffers hzero
      · exact hdiffers rfl
    · exact congrArg (fun crc => (({ Recv.start with expected := 1, phase := .commit } : Recv),
        [Effect.send (.ok crc)])) hzero
  have hline : ({ Recv.start with expected := 1 } : Recv).onLine (emptyMeta h)
        "DONE 00000000".toList true =
      ({ Recv.start with expected := 1 } : Recv).finish (emptyMeta h)
        ["DONE".toList, "00000000".toList] true := by
    rw [Recv.onLine, hwords]
    rfl
  rw [← hfinish, ← hline]
  rfl

end

/-- Its transfer ends well. -/
theorem run_empty
    {name f : Line}
    (h : sanitize_filename name = .ok f) :
    ∃ r trace, Recv.run (emptyMeta h) emptyEvents = some (r, trace) ∧
      r.phase = .returned true := by
  obtain ⟨stored, hstored⟩ := step_payload (h := h)
  have hheader := step_header (h := h) (r := Recv.start) rfl
  rw [Recv.run, emptyEvents, Machine.run, hheader]
  simp only [Machine.run, hstored, step_done]
  exact ⟨_, _, rfl, rfl⟩

/-- Every accepted name can be downloaded, into every directory. -/
theorem downloads_empty
    {f : Line} (hf : Accepted f) (dir : Directory) :
    ∃ dir', Downloads f dir dir' := by
  obtain ⟨name, h⟩ := hf
  obtain ⟨r, trace, hrun, hphase⟩ := run_empty h
  have hreceive : receive plainClient (emptyFile name) emptyEvents = some (some r, trace) := by
    rw [receive, show acceptMeta plainClient (emptyFile name) = _ from
      acceptMeta_toMeta (emptyMeta h)]
    exact congrArg (Option.map _) hrun
  exact ⟨_, plainClient, emptyFile name, emptyEvents, r, trace, h, hreceive, hphase, rfl⟩

end Empty

/-- A download that ended well is one of the ways `_receive` can end. -/
theorem Downloads.receives
    {f : Line} {dir dir' : Directory} (h : Downloads f dir dir') :
    Receives f dir dir' := by
  obtain ⟨cfg, fields, events, r, trace, hname, hreceive, _, rfl⟩ := h
  exact .ran hname hreceive

/-- What a download left under its name. -/
theorem Downloads.file
    {f : Line} {dir dir' : Directory} (h : Downloads f dir dir') :
    ∃ bytes, dir' f = some (.bytes bytes) := by
  obtain ⟨cfg, fields, events, r, trace, hname, hreceive, hphase, rfl⟩ := h
  obtain ⟨m, hm, hrun⟩ := receive_run hreceive
  have htarget : m.target = f := by
    have := m.target_eq
    rw [hm, hname] at this
    exact (Except.ok.inj this).symm
  exact ⟨_, htarget ▸ Recv.final_of_returned dir hrun hphase⟩

/-- A download touches no completed file but its own, exactly when that file is none of its
side files. -/
theorem download_touches_own_iff
    (f g : Line) (hf : Accepted f) (hg : Accepted g) (hne : g ≠ f) :
    (∀ dir dir', Completed g dir → Receives f dir dir' → dir' g = dir g) ↔
      g ∉ sideNames f := by
  constructor
  · intro hkept hside
    obtain ⟨dir, hdir⟩ := downloads_empty hg (fun _ => none)
    obtain ⟨dir', hdir'⟩ := downloads_empty hf dir
    obtain ⟨bytes, hbytes⟩ := hdir.file
    have hsame := hkept dir dir' ⟨_, _, hdir, rfl⟩ hdir'.receives
    rw [hbytes, side_absent hdir' hside] at hsame
    cases hsame
  · intro hside dir dir' _ hreceives
    exact receives_frame hne hside hreceives

/-- For two names that share no side file. -/
theorem download_touches_own_plain :
    "B".toList ∉ sideNames "A".toList ∧
      ∀ dir dir', Completed "B".toList dir → Receives "A".toList dir dir' →
        dir' "B".toList = dir "B".toList := by
  have hside : "B".toList ∉ sideNames "A".toList := by
    decide
  have ha : Accepted "A".toList := ⟨"A".toList, by decide +kernel⟩
  have hb : Accepted "B".toList := ⟨"B".toList, by decide +kernel⟩
  exact ⟨hside, (download_touches_own_iff "A".toList "B".toList ha hb (by decide)).mpr hside⟩

/-- The download of `A` removes the completed file `A.PART`. -/
theorem download_removes_other :
    ∃ dir dir', Accepted "A".toList ∧ Accepted "A.PART".toList ∧
      Completed "A.PART".toList dir ∧ Downloads "A".toList dir dir' ∧
      dir "A.PART".toList ≠ none ∧ dir' "A.PART".toList = none := by
  have ha : Accepted "A".toList := ⟨"A".toList, by decide +kernel⟩
  have hb : Accepted "A.PART".toList := ⟨"A.PART".toList, by decide +kernel⟩
  obtain ⟨dir, hdir⟩ := downloads_empty hb (fun _ => none)
  obtain ⟨dir', hdir'⟩ := downloads_empty ha dir
  obtain ⟨bytes, hbytes⟩ := hdir.file
  refine ⟨dir, dir', ha, hb, ⟨_, _, hdir, rfl⟩, hdir', by rw [hbytes]; simp, ?_⟩
  exact side_absent hdir' (by decide)

end Pcutp
