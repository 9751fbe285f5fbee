import Mathlib.Data.List.Dedup
import Mathlib.Tactic.SplitIfs
import Pcutp.Compression
import Pcutp.Lines
import Pcutp.Names

/-!
# Negotiation and the plan of a transfer

The capability words of a greeting (`options`), what `_handle_hello` settles
from them (`Session`), and what `send_file` fixes before it writes the META
line (`Job`): the block size, the number of blocks, the checksum and whether
blocks are compressed.

Two comparisons of the source are made on floating-point estimates of times.
They are the fields of `Estimates`; nothing below depends on what they answer.
-/

namespace Pcutp

namespace Const

def MAX_WINDOW : Nat := 2
def FRAME_OVERHEAD : Nat := 64
def MAX_CAPABILITY : Nat := 1048576

end Const

/-- The comparisons of estimated times at one line rate. -/
structure Estimates where
  /-- `saved_seconds > decode_seconds * 1.5`, for a raw length, a packed length and a
  number of matches. -/
  saves : Nat → Nat → Nat → Bool
  /-- Whether `choose_block` ranks the first candidate strictly below the second, for a
  file size. -/
  cheaper : Nat → Nat → Nat → Bool

section Capabilities

/-- The keys that `options` knows. -/
inductive Capability
  | FLOW
  | MAXBLK
  | WINDOW
  | RXBUF
  | LZ4
  | IDENTITY
  deriving DecidableEq

/-- The capability a key names. -/
def Capability.ofKey (key : Line) : Option Capability :=
  if key = "FLOW".toList then some .FLOW
  else if key = "MAXBLK".toList then some .MAXBLK
  else if key = "WINDOW".toList then some .WINDOW
  else if key = "RXBUF".toList then some .RXBUF
  else if key = "LZ4".toList then some .LZ4
  else if key = "IDENTITY".toList then some .IDENTITY
  else none

/-- The dictionary that `options` returns. -/
abbrev Capabilities := Capability → Option Nat

/-- `token.partition("=")`; no value stands for a missing separator. -/
def partition (token : Line) : Line × Option Line :=
  let key := token.takeWhile (· != '=')
  match token.dropWhile (· != '=') with
  | [] => (key, none)
  | _ :: value => (key, some value)

/-- The loop of `options`. -/
def optionsFrom (values : Capabilities) : List Line → Except PcutpError Capabilities
  | [] => .ok values
  | token :: tokens =>
      match Capability.ofKey (partition token).1 with
      | none => optionsFrom values tokens
      | some c =>
          match (partition token).2 with
          | none => .error (ProtocolError "invalid capability")
          | some value =>
              if isdecimal value = false ∨ (values c).isSome = true then
                .error (ProtocolError "invalid capability")
              else if 1 ≤ int value ∧ int value ≤ Const.MAX_CAPABILITY then
                optionsFrom (Function.update values c (some (int value))) tokens
              else
                .error (ProtocolError "capability out of range")

/-- `options(tokens)`. -/
def options (tokens : List Line) : Except PcutpError Capabilities :=
  optionsFrom (fun _ => none) tokens

theorem optionsFrom_pos
    {values : Capabilities} {tokens : List Line} {result : Capabilities}
    (hvalues : ∀ c n, values c = some n → 1 ≤ n)
    (h : optionsFrom values tokens = .ok result) :
    ∀ c n, result c = some n → 1 ≤ n := by
  induction tokens generalizing values with
  | nil =>
      cases h
      exact hvalues
  | cons token tokens ih =>
      rw [optionsFrom] at h
      split at h
      · exact ih hvalues h
      · rename_i c _
        split at h
        · cases h
        · rename_i value
          split_ifs at h with _ hrange
          refine ih ?_ h
          intro c' n hn
          by_cases hc : c' = c
          · subst hc
            rw [Function.update_self] at hn
            cases hn
            exact hrange.1
          · rw [Function.update_of_ne hc] at hn
            exact hvalues c' n hn

/-- Accepted capabilities are positive. -/
theorem options_pos
    {tokens : List Line} {result : Capabilities}
    (h : options tokens = .ok result) :
    ∀ c n, result c = some n → 1 ≤ n :=
  optionsFrom_pos (fun _ _ hn => by cases hn) h

end Capabilities

/-- The attributes of `PcutpServer` that outlive a session, with the checks of its
constructor. -/
structure ServerConfig where
  auto_block : Bool
  block_limit : Nat
  window_limit : Nat
  compression_enabled : Bool
  max_retries : Nat
  probe_retries : Nat
  estimates : Estimates
  block_ok : 1 ≤ block_limit ∧ block_limit ≤ Const.MAX_BLOCK_SIZE
  window_ok : 1 ≤ window_limit ∧ window_limit ≤ Const.MAX_WINDOW

/-- One byte is a block size. -/
theorem oneByte_ok :
    1 ≤ 1 ∧ 1 ≤ Const.MAX_BLOCK_SIZE :=
  ⟨le_rfl, by decide⟩

/-- Two blocks are the widest window. -/
theorem widestWindow_ok :
    1 ≤ 2 ∧ 2 ≤ Const.MAX_WINDOW :=
  ⟨by decide, le_rfl⟩

/-- `PcutpServer.__init__`; `none` where it raises `ValueError`. -/
def PcutpServer (block_size : Option Nat) (window_size : Nat) (compression : Bool)
    (max_retries probe_retries : Nat) (estimates : Estimates) : Option ServerConfig :=
  let size := block_size.getD Const.MAX_BLOCK_SIZE
  if h : 1 ≤ size ∧ 1 ≤ window_size ∧ window_size ≤ Const.MAX_WINDOW then
    some
      { auto_block := block_size.isNone
        block_limit := min size Const.MAX_BLOCK_SIZE
        window_limit := window_size
        compression_enabled := compression
        max_retries
        probe_retries
        estimates
        block_ok := ⟨Nat.le_min.mpr ⟨h.1, by decide⟩, Nat.min_le_right _ _⟩
        window_ok := h.2 }
  else
    none

/-- What a greeting left behind on the server. -/
structure Session where
  config : ServerConfig
  negotiated_block_limit : Nat
  window_size : Nat
  flow : Bool
  compression : Bool
  identity : Bool
  block_ok : 1 ≤ negotiated_block_limit ∧ negotiated_block_limit ≤ Const.MAX_BLOCK_SIZE
  window_ok : 1 ≤ window_size ∧ window_size ≤ Const.MAX_WINDOW
  compression_flow : compression = true → flow = true
  window_flow : flow = false → window_size = 1

section Negotiate

variable (config : ServerConfig) (capabilities : Capabilities)

/-- `min(self.block_limit, capabilities.get("MAXBLK", self.block_limit))`. -/
def negotiatedBlock : Nat :=
  min config.block_limit ((capabilities .MAXBLK).getD config.block_limit)

/-- How many frames fit in the announced buffer. -/
def bufferCapacity : Nat :=
  (capabilities .RXBUF).getD 0 / (negotiatedBlock config capabilities + Const.FRAME_OVERHEAD)

/-- `min(self.window_limit, capabilities.get("WINDOW", 1), capacity)`. -/
def negotiatedWindow : Nat :=
  min config.window_limit
    (min ((capabilities .WINDOW).getD 1) (bufferCapacity config capabilities))

theorem negotiatedBlock_ok
    (hpos : ∀ c n, capabilities c = some n → 1 ≤ n) :
    1 ≤ negotiatedBlock config capabilities ∧
      negotiatedBlock config capabilities ≤ Const.MAX_BLOCK_SIZE := by
  have hmax : 1 ≤ (capabilities .MAXBLK).getD config.block_limit := by
    cases h : capabilities .MAXBLK with
    | none => exact config.block_ok.1
    | some n => exact hpos _ n h
  exact ⟨Nat.le_min.mpr ⟨config.block_ok.1, hmax⟩,
    (Nat.min_le_left _ _).trans config.block_ok.2⟩

theorem negotiatedWindow_ok
    (hpos : ∀ c n, capabilities c = some n → 1 ≤ n)
    (hcapacity : 1 ≤ bufferCapacity config capabilities) :
    1 ≤ negotiatedWindow config capabilities ∧
      negotiatedWindow config capabilities ≤ Const.MAX_WINDOW := by
  have hwindow : 1 ≤ (capabilities .WINDOW).getD 1 := by
    cases h : capabilities .WINDOW with
    | none => exact Nat.le_refl _
    | some n => exact hpos _ n h
  exact ⟨Nat.le_min.mpr ⟨config.window_ok.1, Nat.le_min.mpr ⟨hwindow, hcapacity⟩⟩,
    (Nat.min_le_left _ _).trans config.window_ok.2⟩

/-- A full window fits in the announced buffer. -/
theorem negotiatedWindow_fits :
    negotiatedWindow config capabilities *
        (negotiatedBlock config capabilities + Const.FRAME_OVERHEAD) ≤
      (capabilities .RXBUF).getD 0 := by
  have hle : negotiatedWindow config capabilities ≤ bufferCapacity config capabilities :=
    (Nat.min_le_right _ _).trans (Nat.min_le_right _ _)
  exact (Nat.mul_le_mul_right _ hle).trans (Nat.div_mul_le_self _ _)

end Negotiate

/-- A session without FLOW has one block in flight. -/
theorem plainWindow_ok :
    1 ≤ 1 ∧ 1 ≤ Const.MAX_WINDOW :=
  ⟨le_rfl, by decide⟩

theorem plainCompression_flow (h : false = true) :
    false = true :=
  h

theorem plainWindow_flow (_ : false = false) :
    1 = 1 :=
  rfl

/-- What `_handle_hello` settles from the capability words of a greeting, and the
capabilities it read. -/
def negotiate (config : ServerConfig) (tokens : List Line) :
    Except PcutpError (Session × Capabilities) :=
  match h : options tokens with
  | .error exc => .error exc
  | .ok capabilities =>
      have hpos := options_pos h
      let identity := decide (capabilities .IDENTITY = some 1)
      if hflow : capabilities .FLOW = some 1 then
        if hcapacity : 1 ≤ bufferCapacity config capabilities then
          .ok
            ({ config
               negotiated_block_limit := negotiatedBlock config capabilities
               window_size := negotiatedWindow config capabilities
               flow := true
               compression := config.compression_enabled && decide (capabilities .LZ4 = some 1)
               identity
               block_ok := negotiatedBlock_ok config capabilities hpos
               window_ok := negotiatedWindow_ok config capabilities hpos hcapacity
               compression_flow := fun _ => rfl
               window_flow := fun h => by cases h }, capabilities)
        else
          .error (ProtocolError "receiver buffer cannot hold one frame")
      else
        .ok
          ({ config
             negotiated_block_limit := negotiatedBlock config capabilities
             window_size := 1
             flow := false
             compression := false
             identity
             block_ok := negotiatedBlock_ok config capabilities hpos
             window_ok := plainWindow_ok
             compression_flow := plainCompression_flow
             window_flow := plainWindow_flow }, capabilities)

/-- The session's window fits in the buffer the receiver announced. -/
theorem negotiate_fits
    {config : ServerConfig} {tokens : List Line} {session : Session}
    {capabilities : Capabilities}
    (h : negotiate config tokens = .ok (session, capabilities))
    (hflow : session.flow = true) :
    options tokens = .ok capabilities ∧
      session.window_size * (session.negotiated_block_limit + Const.FRAME_OVERHEAD) ≤
        (capabilities .RXBUF).getD 0 := by
  rw [negotiate] at h
  split at h
  · cases h
  · rename_i values hopts
    dsimp only at h
    split at h
    · split at h
      · cases h
        exact ⟨hopts, negotiatedWindow_fits _ _⟩
      · cases h
    · cases h
      cases hflow

section Plan

/-- The block sizes `choose_block` ranks, in increasing order. -/
def blockCandidates (limit : Nat) : List Nat :=
  (([256, 512, 1024, 2048, 4096, limit].filter (· ≤ limit)).dedup).mergeSort

/-- `choose_block(size, limit, window, baud)`: the first cheapest candidate. -/
def choose_block (estimates : Estimates) (size limit window : Nat) : Nat :=
  if window = 1 then
    limit
  else
    match blockCandidates limit with
    | [] => limit
    | n :: ns => ns.foldl (fun best n => if estimates.cheaper size n best then n else best) n

theorem mem_blockCandidates
    {limit n : Nat} (h : n ∈ blockCandidates limit) :
    n ≤ limit ∧ (n = limit ∨ 256 ≤ n) := by
  simp only [blockCandidates, List.mem_mergeSort, List.mem_dedup, List.mem_filter,
    decide_eq_true_eq, List.mem_cons, List.not_mem_nil, or_false] at h
  omega

theorem foldl_pick_mem
    {α : Type} (pick : α → α → Bool) (ns : List α) (n : α) :
    ns.foldl (fun best x => if pick x best then x else best) n ∈ n :: ns := by
  induction ns generalizing n with
  | nil =>
      exact List.mem_cons_self
  | cons x ns ih =>
      rw [List.foldl_cons]
      have hmem := ih (if pick x n then x else n)
      rcases List.mem_cons.mp hmem with heq | hmem
      · rw [heq]
        split
        · exact List.mem_cons_of_mem _ List.mem_cons_self
        · exact List.mem_cons_self
      · exact List.mem_cons_of_mem _ (List.mem_cons_of_mem _ hmem)

/-- Whatever the estimates say, the chosen block lies within the limit. -/
theorem choose_block_ok
    (estimates : Estimates) (size window : Nat) {limit : Nat} (hlimit : 1 ≤ limit) :
    1 ≤ choose_block estimates size limit window ∧
      choose_block estimates size limit window ≤ limit := by
  rw [choose_block]
  split
  · exact ⟨hlimit, Nat.le_refl _⟩
  · split
    · exact ⟨hlimit, Nat.le_refl _⟩
    · rename_i n ns hcandidates
      have hmem := foldl_pick_mem (estimates.cheaper size) ns n
      rw [← hcandidates] at hmem
      have hn := mem_blockCandidates hmem
      exact ⟨by omega, hn.1⟩

/-- `{0, max(0, size // 2 - length // 2), max(0, size - length)}`. -/
def sampleStarts (size length : Nat) : List Nat :=
  [0, size / 2 - length / 2, size - length]

variable (session : Session) (data : Bytes)

/-- `self._use_compression` after the first sampling. -/
def usesCompression : Bool :=
  let sample := min 1024 session.negotiated_block_limit
  session.compression &&
    (sampleStarts data.length sample).any fun s => (compress (slice data s (s + sample))).2 != 0

/-- `self.block_size` for this file. -/
def transferBlock : Nat :=
  let limit := session.negotiated_block_limit
  let estimates := session.config.estimates
  if session.config.auto_block then
    if usesCompression session data = true ∧
        (sampleStarts data.length limit).any (fun s =>
          (worthwhile estimates.saves (slice data s (s + limit))).isSome) = true then
      limit
    else
      choose_block estimates data.length limit session.window_size
  else
    limit

theorem transferBlock_ok :
    1 ≤ transferBlock session data ∧
      transferBlock session data ≤ session.negotiated_block_limit := by
  simp only [transferBlock]
  split
  · split
    · exact ⟨session.block_ok.1, Nat.le_refl _⟩
    · exact choose_block_ok _ _ _ session.block_ok.1
  · exact ⟨session.block_ok.1, Nat.le_refl _⟩

end Plan

/-- `max(1, -(-size // blocksize))`. -/
def blockCount (size blocksize : Nat) : Nat :=
  max 1 ((size + blocksize - 1) / blocksize)

/-- A transfer as `send_file` has fixed it when it writes META. -/
structure Job where
  session : Session
  filename : SafeName
  data : Bytes

namespace Job

variable (job : Job)

def block_size : Nat :=
  transferBlock job.session job.data

def size : Nat :=
  job.data.length

def blocks : Nat :=
  blockCount job.size job.block_size

def crc : Line :=
  crc32_hex job.data

/-- `data[seq * self.block_size : (seq + 1) * self.block_size]`. -/
def chunk (seq : Nat) : Bytes :=
  slice job.data (seq * job.block_size) ((seq + 1) * job.block_size)

theorem block_size_pos :
    1 ≤ job.block_size :=
  (transferBlock_ok _ _).1

theorem block_size_le :
    job.block_size ≤ job.session.negotiated_block_limit :=
  (transferBlock_ok _ _).2

/-- The `DATA` frame of a block. -/
def rawFrame (seq : Nat) : Command :=
  .data seq (job.chunk seq).length (crc32_hex (job.chunk seq)) (job.chunk seq)

/-- The frame of a block in a FLOW transfer: `ZDATA` when compression pays. -/
def frame (seq : Nat) : Command :=
  let chunk := job.chunk seq
  match
    if usesCompression job.session job.data = true then
      worthwhile job.session.config.estimates.saves chunk
    else none with
  | some packed => .zdata seq packed.length chunk.length (crc32_hex chunk) packed
  | none => job.rawFrame seq

end Job

end Pcutp
