import Peripherals.Registers
import Peripherals.Target

/-! # Plain memory as a target

Pages of memory at the addresses of the blocks, with nothing behind them: a load
gives what was last stored, and instructions have no effect. Addresses outside
the pages, or not at a multiple of four, are not answered. A buffer is placed
where it stays, and its home is the address that a bus master uses. -/

namespace Peripherals

/-- Memory pages, and where the next buffer is placed. -/
structure FlatMemory where
  cells : Registers
  nextHome : Word

namespace FlatMemory

/-- Memory full of zeros, with no buffer placed. -/
def zeroed : FlatMemory := ⟨.zero, 0x20000000⟩

/-- The pages, each by its first address and the first one behind it. -/
def pages : List (Word × Word) :=
  [(0x40000000, 0x40030000), (0x42020000, 0x42030000), (0x44020000, 0x44030000)]

/-- Whether an address lies in a page and at a multiple of four. -/
def mapped (address : Word) : Bool :=
  address % 4 == 0 && pages.any fun page => page.1 ≤ address && address < page.2

/-- Place a buffer, leaving a gap behind it. -/
def place (length : Nat) : EStateM Fault FlatMemory Word := fun ⟨cells, home⟩ =>
  .ok home ⟨cells, (home + BitVec.ofNat 32 length + 0x13) &&& ~~~3⟩

instance : Target FlatMemory where
  accepts _ address := mapped address
  peek memory address := memory.cells.get address
  load address := do
    let memory ← get
    pure (memory.cells.get address)
  store address value := modify fun ⟨cells, home⟩ => ⟨cells.set address value, home⟩
  place := place
  share buffer := pure buffer.home
  nop := pure ()
  breakpoint := pure ()

end FlatMemory

end Peripherals
