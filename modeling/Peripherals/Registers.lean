import Peripherals.WordMap

/-! # Register contents

The contents of a 32-bit address space in which every register starts at zero.
Only values other than zero are stored, so two contents that agree at every
address are equal. -/

namespace Peripherals

/-- The value of every register, zero where nothing else was stored. -/
structure Registers where
  cells : WordMap
  nonzero : ∀ address, cells.find? address ≠ some 0

namespace Registers

/-- All registers zero. -/
def zero : Registers where
  cells := .empty
  nonzero := by simp

/-- The value at an address. -/
def get (registers : Registers) (address : Word) : Word :=
  (registers.cells.find? address).getD 0

/-- The registers with the value at one address replaced. -/
def set (registers : Registers) (address value : Word) : Registers :=
  if h : value = 0 then
    { cells := registers.cells.erase address
      nonzero := fun other => by
        rw [WordMap.find?_erase]
        split
        · simp
        · exact registers.nonzero other }
  else
    { cells := registers.cells.insert address value
      nonzero := fun other => by
        rw [WordMap.find?_insert]
        split
        · simpa using h
        · exact registers.nonzero other }

@[simp] theorem get_zero (address : Word) : zero.get address = 0 := by
  simp [get, zero]

theorem get_set (registers : Registers) (address value other : Word) :
    (registers.set address value).get other =
      if address = other then value else registers.get other := by
  by_cases h : value = 0
  · rw [set, dif_pos h, get, WordMap.find?_erase, h]
    split <;> rfl
  · rw [set, dif_neg h, get, WordMap.find?_insert]
    split <;> rfl

@[simp] theorem get_set_self (registers : Registers) (address value : Word) :
    (registers.set address value).get address = value := by
  simp [get_set]

theorem get_set_of_ne (registers : Registers) {address other : Word} (value : Word)
    (h : address ≠ other) : (registers.set address value).get other = registers.get other := by
  simp [get_set, h]

@[ext] theorem ext {r s : Registers} (h : ∀ address, r.get address = s.get address) : r = s := by
  obtain ⟨cells, nonzero⟩ := r
  obtain ⟨others, nonzero'⟩ := s
  have same : cells = others := by
    ext1 address
    have value := h address
    have left := nonzero address
    have right := nonzero' address
    simp only [get] at value
    cases hl : cells.find? address <;> cases hr : others.find? address <;> simp_all
  subst same
  rfl

end Registers

end Peripherals
