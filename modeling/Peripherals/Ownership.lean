/-! # Ownership of the hardware

The hardware is handed out once: the first request gets it, and later ones get
nothing. -/

namespace Peripherals

/-- Whether the hardware has been handed out. -/
structure Ownership where
  taken : Bool
  deriving DecidableEq

namespace Ownership

/-- Nobody holds the hardware. -/
def free : Ownership := ⟨false⟩

/-- Ask for the hardware: whether it is granted, and who holds it then. -/
def take (ownership : Ownership) : Bool × Ownership :=
  (!ownership.taken, ⟨true⟩)

theorem take_take (ownership : Ownership) : (ownership.take.2).take.1 = false := rfl

end Ownership

end Peripherals
