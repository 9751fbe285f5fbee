import Mathlib.Data.List.Basic
import Mathlib.Logic.Function.Iterate

/-!
# Reflected check registers

A cyclic redundancy check feeds a message into a shift register.  The register
shifts towards its most significant bit, or, reflected, towards its least
significant one.  The two run side by side: the reverse of the one register is
the other, with the polynomial and the message bytes reversed as well.
-/

namespace Reflect

variable {w : Nat}

/-- One bit of a register that shifts towards its least significant bit. -/
def shiftLow (poly c : BitVec w) : BitVec w :=
  if c.getLsbD 0 then (c >>> 1) ^^^ poly else c >>> 1

/-- One bit of a register that shifts towards its most significant bit. -/
def shiftHigh (poly c : BitVec w) : BitVec w :=
  if c.msb then (c <<< 1) ^^^ poly else c <<< 1

/-- One byte, its lowest bit first. -/
def byteLow (poly c : BitVec w) (b : UInt8) : BitVec w :=
  (shiftLow poly)^[8] (c ^^^ b.toBitVec.setWidth w)

/-- One byte, its lowest bit first, that is the reversed byte at the top of the register. -/
def byteHigh (poly c : BitVec w) (b : UInt8) : BitVec w :=
  (shiftHigh poly)^[8] (c ^^^ (b.toBitVec.reverse.setWidth w <<< (w - 8)))

theorem reverse_xor (x y : BitVec w) :
    (x ^^^ y).reverse = x.reverse ^^^ y.reverse := by
  apply BitVec.eq_of_getLsbD_eq
  intro i hi
  simp only [BitVec.getLsbD_reverse, BitVec.getLsbD_xor, BitVec.getMsbD_xor]

theorem reverse_shiftLeft_one (x : BitVec w) :
    (x <<< 1).reverse = x.reverse >>> 1 := by
  apply BitVec.eq_of_getLsbD_eq
  intro i hi
  rw [BitVec.getLsbD_reverse, BitVec.getLsbD_ushiftRight, BitVec.getLsbD_reverse,
    BitVec.getMsbD_shiftLeft, Nat.add_comm]

theorem reverse_shiftHigh (poly c : BitVec w) :
    (shiftHigh poly c).reverse = shiftLow poly.reverse c.reverse := by
  have hbit : c.reverse.getLsbD 0 = c.msb := by
    rw [BitVec.getLsbD_reverse, BitVec.msb]
  rw [shiftHigh, shiftLow, hbit]
  split
  · rw [reverse_xor, reverse_shiftLeft_one]
  · rw [reverse_shiftLeft_one]

theorem reverse_iterate_shiftHigh (poly c : BitVec w) (n : Nat) :
    ((shiftHigh poly)^[n] c).reverse = (shiftLow poly.reverse)^[n] c.reverse := by
  induction n generalizing c with
  | zero => rfl
  | succ n ih =>
      rw [Function.iterate_succ_apply, Function.iterate_succ_apply, ih, reverse_shiftHigh]

/-- The reversed byte at the top of a register is the byte at the bottom of its reverse. -/
theorem reverse_byte (hw : 8 ≤ w) (b : BitVec 8) :
    (b.reverse.setWidth w <<< (w - 8)).reverse = b.setWidth w := by
  apply BitVec.eq_of_getLsbD_eq
  intro i hi
  rw [BitVec.getLsbD_reverse, BitVec.getMsbD_eq_getLsbD, BitVec.getLsbD_shiftLeft,
    BitVec.getLsbD_setWidth, BitVec.getLsbD_setWidth, BitVec.getLsbD_reverse,
    BitVec.getMsbD_eq_getLsbD]
  by_cases hbyte : i < 8
  · have hidx : 8 - 1 - (w - 1 - i - (w - 8)) = i := by omega
    simp only [hidx, hi, decide_true, Bool.true_and, show w - 1 - i < w by omega,
      show ¬ w - 1 - i < w - 8 by omega, decide_false, Bool.not_false,
      show w - 1 - i - (w - 8) < 8 by omega, show w - 1 - i - (w - 8) < w by omega]
  · rw [b.getLsbD_of_ge i (by omega)]
    simp [show w - 1 - i < w - 8 by omega]

theorem reverse_byteHigh (hw : 8 ≤ w) (poly c : BitVec w) (b : UInt8) :
    (byteHigh poly c b).reverse = byteLow poly.reverse c.reverse b := by
  rw [byteHigh, byteLow, reverse_iterate_shiftHigh, reverse_xor, reverse_byte hw]

/-- The two registers are each other's reverse after any message. -/
theorem reverse_foldl_byteHigh (hw : 8 ≤ w) (poly c : BitVec w) (data : List UInt8) :
    (data.foldl (byteHigh poly) c).reverse = data.foldl (byteLow poly.reverse) c.reverse := by
  induction data generalizing c with
  | nil => rfl
  | cons b data ih => rw [List.foldl_cons, List.foldl_cons, ih, reverse_byteHigh hw]

end Reflect
