import Peripherals.Port

/-! # Wiring

What is connected to the pins from outside: levels that drive a pin, and wires
that carry the output of one pin to another. A pin has at most one driven level,
the last one given to it; of several wires into a pin the first one counts. -/

namespace Peripherals

/-- The levels and wires applied to the pins from outside. -/
structure Wiring where
  drives : List (PinId × Level)
  wires : List (PinId × PinId)

namespace Wiring

/-- Nothing connected. -/
def none : Wiring := ⟨[], []⟩

/-- The level that drives a pin, if one does. -/
def driven? (wiring : Wiring) (pin : PinId) : Option Level :=
  (wiring.drives.find? (·.1 = pin)).map (·.2)

/-- Drive a pin to a level. -/
def drive (wiring : Wiring) (pin : PinId) (level : Level) : Wiring :=
  { wiring with drives := (pin, level) :: wiring.drives.filter (·.1 != pin) }

/-- Stop driving a pin. -/
def release (wiring : Wiring) (pin : PinId) : Wiring :=
  { wiring with drives := wiring.drives.filter (·.1 != pin) }

/-- Wire the output of one pin to the input of another. -/
def connect (wiring : Wiring) (output input : PinId) : Wiring :=
  { wiring with wires := wiring.wires ++ [(output, input)] }

/-- The pin whose output is wired to a pin, if there is one. -/
def source? (wiring : Wiring) (input : PinId) : Option PinId :=
  (wiring.wires.find? (·.2 = input)).map (·.1)

theorem source?_connect (wiring : Wiring) (output input other : PinId) :
    (wiring.connect output input).source? other =
      (wiring.source? other).or (if input = other then some output else Option.none) := by
  rw [connect, source?, source?, List.find?_append]
  cases hf : wiring.wires.find? (·.2 = other) <;> by_cases h : input = other <;> simp [h]

end Wiring

end Peripherals
