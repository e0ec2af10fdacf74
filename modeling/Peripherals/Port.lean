import Peripherals.Word

/-! # Ports, pins and levels

The nine GPIO ports of the chip, the name of a pin as a port and a number, and
the two levels a pin can have. -/

namespace Peripherals

/-- A GPIO port. -/
inductive Port
  | a | b | c | d | e | f | g | h | i
  deriving DecidableEq

namespace Port

/-- Position of the port, also its clock enable bit. -/
def index : Port → Nat
  | .a => 0 | .b => 1 | .c => 2 | .d => 3 | .e => 4 | .f => 5 | .g => 6 | .h => 7 | .i => 8

/-- All ports, in order. -/
def all : List Port := [.a, .b, .c, .d, .e, .f, .g, .h, .i]

/-- The port at a position, if there is one. -/
def ofIndex? (n : Nat) : Option Port :=
  all[n]?

/-- The letter that names the port. -/
def letter : Port → String
  | .a => "A" | .b => "B" | .c => "C" | .d => "D" | .e => "E"
  | .f => "F" | .g => "G" | .h => "H" | .i => "I"

theorem index_lt (p : Port) : p.index < 9 := by
  cases p <;> decide

theorem ofIndex?_index (p : Port) : ofIndex? p.index = some p := by
  cases p <;> rfl

theorem index_get_all : ∀ k : Fin all.length, (all.get k).index = k := by
  decide

theorem ofIndex?_eq_some_iff {n : Nat} {p : Port} : ofIndex? n = some p ↔ n = p.index := by
  constructor
  · intro h
    obtain ⟨hn, rfl⟩ := List.getElem?_eq_some_iff.mp h
    exact (index_get_all ⟨n, hn⟩).symm
  · rintro rfl
    exact ofIndex?_index p

theorem ofIndex?_eq_none_iff {n : Nat} : ofIndex? n = none ↔ 9 ≤ n :=
  List.getElem?_eq_none_iff

end Port

/-- A pin of a port. Numbers from 16 on name no pin, but a handle can hold them. -/
structure PinId where
  port : Port
  number : Byte
  deriving DecidableEq

/-- The level of a pin. -/
inductive Level
  | low
  | high
  deriving DecidableEq

namespace Level

/-- High for `true`. -/
def ofBool : Bool → Level
  | true => .high
  | false => .low

/-- The level as a data bit: one for high. -/
def bit : Level → Word
  | .high => 1
  | .low => 0

/-- Whether the level is high. -/
def isHigh (level : Level) : Bool :=
  level = .high

theorem isHigh_ofBool (b : Bool) : (ofBool b).isHigh = b := by
  cases b <;> rfl

end Level

end Peripherals
