import Peripherals.Fault

/-! # Words and checked arithmetic

Registers and addresses are 32-bit words, pin numbers and transmitted data are
bytes. Arithmetic that a driver does on them is checked: a result that does not
fit the width is a fault, never a wrapped value. -/

namespace Peripherals

/-- A register value or an address. -/
abbrev Word := BitVec 32

/-- A unit of transmitted data, also the width of pin numbers and field positions. -/
abbrev Byte := BitVec 8

/-- The word whose low `width` bits are set; from 32 on, every bit. -/
def fieldMask (width : Byte) : Word :=
  BitVec.allOnes 32 >>> (32 - width.toNat)

theorem getLsbD_fieldMask (width : Byte) (i : Nat) :
    (fieldMask width).getLsbD i = (decide (i < 32) && decide (i < width.toNat)) := by
  simp only [fieldMask, BitVec.getLsbD_ushiftRight, BitVec.getLsbD_allOnes]
  by_cases h : i < 32 <;> by_cases h' : i < width.toNat <;> simp [h, h'] <;> omega

namespace Checked

variable {w : Nat}

/-- The sum, if it fits the width. -/
def add (a b : BitVec w) : Except Fault (BitVec w) :=
  if a.uaddOverflow b then .error .addOverflow else .ok (a + b)

/-- The difference, if it is not negative. -/
def sub (a b : BitVec w) : Except Fault (BitVec w) :=
  if a.usubOverflow b then .error .subOverflow else .ok (a - b)

/-- The product, if it fits the width. -/
def mul (a b : BitVec w) : Except Fault (BitVec w) :=
  if a.umulOverflow b then .error .mulOverflow else .ok (a * b)

/-- The quotient rounded down, if the divisor is not zero. -/
def div (a b : BitVec w) : Except Fault (BitVec w) :=
  if b = 0 then .error .divisionByZero else .ok (a / b)

/-- The left shift, if the amount is below the width. Bits shifted out are dropped. -/
def shiftLeft (a : BitVec w) (amount : Byte) : Except Fault (BitVec w) :=
  if amount.toNat < w then .ok (a <<< amount.toNat) else .error .shiftLeftOverflow

/-- The right shift, if the amount is below the width. -/
def shiftRight (a : BitVec w) (amount : Byte) : Except Fault (BitVec w) :=
  if amount.toNat < w then .ok (a >>> amount.toNat) else .error .shiftRightOverflow

theorem add_eq_ok {a b : BitVec w} (h : a.uaddOverflow b = false) : add a b = .ok (a + b) := by
  rw [add, h]
  rfl

theorem sub_eq_ok {a b : BitVec w} (h : a.usubOverflow b = false) : sub a b = .ok (a - b) := by
  rw [sub, h]
  rfl

theorem mul_eq_ok {a b : BitVec w} (h : a.umulOverflow b = false) : mul a b = .ok (a * b) := by
  rw [mul, h]
  rfl

theorem div_eq_ok {a b : BitVec w} (h : b ≠ 0) : div a b = .ok (a / b) :=
  if_neg h

theorem shiftLeft_eq_ok {a : BitVec w} {amount : Byte} (h : amount.toNat < w) :
    shiftLeft a amount = .ok (a <<< amount.toNat) :=
  if_pos h

theorem shiftRight_eq_ok {a : BitVec w} {amount : Byte} (h : amount.toNat < w) :
    shiftRight a amount = .ok (a >>> amount.toNat) :=
  if_pos h

end Checked

end Peripherals
