import Mathlib.Data.List.Basic

/-!
# Byte areas of a fixed size

A program that copies bytes between fixed areas of memory.  An access outside
an area, or a copy inside one area whose source and destination overlap, has no
result; a program is free of such accesses when it has one.
-/

namespace Memory

/-- A byte area of a fixed size. -/
structure Area (size : Nat) where
  bytes : List UInt8
  length_eq : bytes.length = size

namespace Area

variable {size : Nat}

/-- The area that starts with these bytes and is zero after them. -/
def ofBytes (bytes : List UInt8) (h : bytes.length ≤ size) : Area size where
  bytes := bytes ++ List.replicate (size - bytes.length) 0
  length_eq := by
    rw [List.length_append, List.length_replicate]
    omega

theorem take_ofBytes
    (bytes : List UInt8) (h : bytes.length ≤ size) :
    (ofBytes bytes h).bytes.take bytes.length = bytes :=
  List.take_left

/-- The byte at an index. -/
def peek (a : Area size) (i : Nat) : Option UInt8 :=
  a.bytes[i]?

/-- `count` bytes from `src` on. -/
def read (a : Area size) (src count : Nat) : Option (List UInt8) :=
  if src + count ≤ size then some ((a.bytes.drop src).take count) else none

/-- A copy inside the first `count` bytes takes the next of them. -/
theorem exists_read
    (a : Area size) {off length count : Nat} (hlength : off + length ≤ count)
    (hcount : count ≤ size) :
    ∃ s, a.read off length = some s ∧
      (a.bytes.take count).drop off = s ++ (a.bytes.take count).drop (off + length) := by
  refine ⟨(a.bytes.drop off).take length, if_pos (Nat.le_trans hlength hcount), ?_⟩
  rw [← List.take_append_drop length ((a.bytes.take count).drop off), List.drop_drop,
    List.drop_take, List.take_take, Nat.min_eq_left (by omega)]

/-- The area with `data` from `dst` on. -/
def write (a : Area size) (dst : Nat) (data : List UInt8) : Option (Area size) :=
  if h : dst + data.length ≤ size then
    some
      { bytes := a.bytes.take dst ++ data ++ a.bytes.drop (dst + data.length)
        length_eq := by
          have := a.length_eq
          simp only [List.length_append, List.length_take, List.length_drop]
          omega }
  else
    none

/-- Up to the end of what was written, the area is what it was and then the data. -/
theorem exists_write
    (a : Area size) (dst : Nat) (data : List UInt8) (h : dst + data.length ≤ size) :
    ∃ a', a.write dst data = some a' ∧
      a'.bytes.take (dst + data.length) = a.bytes.take dst ++ data := by
  refine ⟨_, dif_pos h, ?_⟩
  have hlen : (a.bytes.take dst ++ data).length = dst + data.length := by
    have := a.length_eq
    rw [List.length_append, List.length_take]
    omega
  exact List.take_left' hlen

theorem peek_eq
    (a : Area size) {i : Nat} (hi : i < a.bytes.length) :
    a.peek i = some a.bytes[i] :=
  List.getElem?_eq_getElem hi

end Area

variable {m n : Nat}

/-- Copy `count` bytes from one area to another. -/
def copy (source : Area m) (src : Nat) (target : Area n) (dst count : Nat) : Option (Area n) :=
  (source.read src count).bind (target.write dst)

/-- Copy `count` bytes inside an area, from a range apart from the one they go to. -/
def Area.move (a : Area n) (src dst count : Nat) : Option (Area n) :=
  if src + count ≤ dst ∨ dst + count ≤ src then copy a src a dst count else none

/-- A copy inside both areas has a result: the target with the range replaced. -/
theorem exists_copy
    (source : Area m) (target : Area n) (src dst count : Nat)
    (hsrc : src + count ≤ m) (hdst : dst + count ≤ n) :
    ∃ target', copy source src target dst count = some target' ∧
      target'.bytes = target.bytes.take dst ++ (source.bytes.drop src).take count ++
        target.bytes.drop (dst + count) := by
  have hlen : ((source.bytes.drop src).take count).length = count := by
    rw [List.length_take, List.length_drop, source.length_eq]
    omega
  have hwrite : dst + ((source.bytes.drop src).take count).length ≤ n := by
    rw [hlen]
    exact hdst
  rw [copy, Area.read, if_pos hsrc, Option.bind_some, Area.write, dif_pos hwrite]
  exact ⟨_, rfl, by simp only [hlen]⟩

/-- Up to the end of the range, the target is what it was and then the copied bytes. -/
theorem take_of_copy
    {source : Area m} {target : Area n} {src dst count : Nat} {target' : List UInt8}
    (hsrc : src + count ≤ m) (hdst : dst + count ≤ n)
    (h : target' = target.bytes.take dst ++ (source.bytes.drop src).take count ++
      target.bytes.drop (dst + count)) :
    target'.take (dst + count) = target.bytes.take dst ++ (source.bytes.drop src).take count := by
  have hlen : (target.bytes.take dst ++ (source.bytes.drop src).take count).length =
      dst + count := by
    rw [List.length_append, List.length_take, List.length_take, List.length_drop,
      source.length_eq, target.length_eq]
    omega
  rw [h, ← hlen, List.take_left]

/-- A move to a later range appends bytes that are already there. -/
theorem Area.exists_move
    (a : Area n) (src dst count : Nat)
    (hbefore : src + count ≤ dst) (hdst : dst + count ≤ n) :
    ∃ a', a.move src dst count = some a' ∧
      a'.bytes.take (dst + count) =
        a.bytes.take dst ++ ((a.bytes.take dst).drop src).take count := by
  obtain ⟨a', hcopy, hbytes⟩ := exists_copy a a src dst count (by omega) hdst
  refine ⟨a', by rw [Area.move, if_pos (Or.inl hbefore), hcopy], ?_⟩
  rw [take_of_copy (show src + count ≤ n by omega) hdst hbytes, List.drop_take, List.take_take,
    Nat.min_eq_left (by omega)]

end Memory
