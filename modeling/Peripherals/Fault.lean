/-! # Faults

Everything that can stop an operation before its end: arithmetic that leaves its
width, a place outside a buffer, an argument a driver refuses, a wait that uses
up its ticks, and an address that no target answers. -/

namespace Peripherals

/-- Why an operation stopped before its end. -/
inductive Fault
  | addOverflow
  | subOverflow
  | mulOverflow
  | shiftLeftOverflow
  | shiftRightOverflow
  | divisionByZero
  | digitOutOfRange
  | pinOutOfRange
  | transferTooLong
  | outOfTicks
  | unmapped
  deriving DecidableEq

/-- The text reported for a fault. -/
def Fault.message : Fault → String
  | .addOverflow => "attempt to add with overflow"
  | .subOverflow => "attempt to subtract with overflow"
  | .mulOverflow => "attempt to multiply with overflow"
  | .shiftLeftOverflow => "attempt to shift left with overflow"
  | .shiftRightOverflow => "attempt to shift right with overflow"
  | .divisionByZero => "attempt to divide by zero"
  | .digitOutOfRange => "index out of bounds: the len is 10 but the index is 10"
  | .pinOutOfRange => "GPIO pin number out of range"
  | .transferTooLong => "DMA transfer length exceeds CNDTR"
  | .outOfTicks => "fuel exhausted"
  | .unmapped => "unmapped or unaligned address"

/-- A computation without state runs in any state and leaves it alone. -/
instance {σ : Type} : MonadLift (Except Fault) (EStateM Fault σ) where
  monadLift
    | .ok value => pure value
    | .error fault => throw fault

end Peripherals
