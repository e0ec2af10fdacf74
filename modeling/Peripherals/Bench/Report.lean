import Peripherals.Bench.Perform

/-! # Reports

What a step shows of itself: its answer or failure, the ticks it used, the
accesses it made, and the watched registers that it left with another value than
the step before. Every step gets a fresh supply of ticks, which has a ceiling
whatever the script asks for, and an empty log. -/

namespace Peripherals.Bench

/-- Word addresses from a base, up to a last offset. -/
def wordsFrom (base : Word) (last : Nat) : List Word :=
  (List.range (last / 4 + 1)).map fun n => base + BitVec.ofNat 32 (4 * n)

/-- The watched registers, in ascending order. -/
def watched : List Word :=
  wordsFrom Usart3.base 0x28 ++ wordsFrom Dma1.base 0x90 ++
    Port.all.flatMap (fun port => wordsFrom port.base 0x28) ++
    [Rcc.ahb1enr, Rcc.ahb2enr, Rcc.apb1lenr, Rcc.ccipr1]

/-- The most ticks that a step can have. -/
def tickCeiling : Nat := 200000

/-- The ticks that each step of a script has: as many as the script asks for, up to the
ceiling, or twenty thousand if it does not ask. -/
def tickSupply (asked : Option Nat) : Nat :=
  min (asked.getD 20000) tickCeiling

theorem tickSupply_le (asked : Option Nat) : tickSupply asked ≤ tickCeiling :=
  Nat.min_le_right _ _

/-- What a step shows of itself. -/
structure Report where
  result : Except Failure Answer
  ticks : Nat
  /-- Addresses with their new values. -/
  changes : List (Word × Word)
  log : Array Access

/-- A script between two steps, with the watched values after the last one. -/
structure Progress (δ : Type) where
  held : Held δ Handles
  seen : List Word

/-- A script that has not begun, on a target whose registers are zero. -/
def Progress.start {δ : Type} (device : δ) : Progress δ :=
  ⟨⟨⟨device, 0, #[]⟩, .none⟩, watched.map fun _ => 0⟩

/-- The watched values that differ from those seen before. -/
def changesSince (seen values : List Word) : List (Word × Word) :=
  ((watched.zip values).zip seen).filterMap fun (cell, old) =>
    if cell.2 = old then none else some cell

/-- Report on a finished step. -/
def Progress.close {δ : Type} [Target δ] (limit : Nat) (seen : List Word)
    (result : Except Failure Answer) : Held δ Handles → Report × Progress δ
  | ⟨⟨device, ticks, log⟩, handles⟩ =>
    let values := watched.map (Target.peek device)
    (⟨result, limit - ticks, changesSince seen values, log⟩,
      ⟨⟨⟨device, 0, #[]⟩, handles⟩, values⟩)

/-- Perform a step with a supply of ticks, and report on it. -/
def Progress.advance {δ : Type} [Target δ] (limit : Nat) (action : BenchM δ Answer) :
    Progress δ → Report × Progress δ
  | ⟨⟨⟨device, _, _⟩, handles⟩, seen⟩ =>
    match action.run ⟨⟨device, limit, #[]⟩, handles⟩ with
    | .ok answer held => close limit seen (.ok answer) held
    | .error failure held => close limit seen (.error failure) held

end Peripherals.Bench
