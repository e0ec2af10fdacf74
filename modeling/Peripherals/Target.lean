import Peripherals.Word

/-! # Targets

What a driver needs from the hardware it runs on: loads and stores of registers,
an address under which a bus master reaches a buffer, and two instructions.
Anything with these operations is a target, whatever happens behind them. -/

namespace Peripherals

/-- Bytes in memory that a transfer reads, with the address where they were placed. -/
structure Buffer where
  home : Word
  bytes : Array Byte

/-- Hardware that answers register accesses and executes instructions. -/
class Target (δ : Type) where
  /-- Whether a register access at the address is answered at all. -/
  accepts : δ → Word → Bool
  /-- The stored value at an address, without side effects. -/
  peek : δ → Word → Word
  /-- Load a register. -/
  load : Word → EStateM Fault δ Word
  /-- Store a value into a register. -/
  store : Word → Word → EStateM Fault δ Unit
  /-- Choose a home for a new buffer of a length. -/
  place : Nat → EStateM Fault δ Word
  /-- The address under which a bus master reads the buffer. -/
  share : Buffer → EStateM Fault δ Word
  /-- Execute one instruction without effect. -/
  nop : EStateM Fault δ Unit
  /-- Stop for the debugger. -/
  breakpoint : EStateM Fault δ Unit

end Peripherals
