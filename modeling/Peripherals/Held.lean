import Peripherals.Bus

/-! # Handles

A handle is what a driver remembers between its operations. An operation that
changes its handle runs on the handle and the session together, so a fault in
the middle keeps the changes made to both. -/

namespace Peripherals

/-- A session together with a handle. -/
structure Held (δ η : Type) where
  session : Session δ
  handle : η

/-- A computation on a target that can also change a handle. -/
abbrev HeldM (δ η : Type) := EStateM Fault (Held δ η)

namespace Held

variable {δ η ζ α : Type}

/-- Run an operation of the bus, which leaves the handle alone. -/
def onBus (action : BusM δ α) : HeldM δ η α := fun ⟨session, handle⟩ =>
  match action.run session with
  | .ok value session => .ok value ⟨session, handle⟩
  | .error fault session => .error fault ⟨session, handle⟩

/-- The handle. -/
def current : HeldM δ η η := fun held => .ok held.handle held

/-- Change the handle. -/
def change (f : η → η) : HeldM δ η Unit := fun ⟨session, handle⟩ =>
  .ok () ⟨session, f handle⟩

/-- Run an operation on a handle that is part of a larger one. -/
def part (get : η → ζ) (set : ζ → η → η) (action : HeldM δ ζ α) : HeldM δ η α :=
  fun ⟨session, handle⟩ =>
    match action.run ⟨session, get handle⟩ with
    | .ok value ⟨session, inner⟩ => .ok value ⟨session, set inner handle⟩
    | .error fault ⟨session, inner⟩ => .error fault ⟨session, set inner handle⟩

/-- Run rounds until one returns `true`, with the bound that the ticks left give. -/
def untilTrue (round : HeldM δ η Bool) : HeldM δ η Unit := fun held =>
  (Peripherals.untilTrue (held.session.ticks + 1) round).run held

end Held

end Peripherals
