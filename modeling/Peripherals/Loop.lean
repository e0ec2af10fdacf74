import Peripherals.Fault

/-! # Bounded loops

Two loops over computations that keep their state when they fail: one runs a
fixed number of times, the other until a round reports that it is done. The
second has a bound on its rounds, which its callers take from the ticks left, so
a wait without end stops where its ticks do. -/

namespace Peripherals

variable {σ : Type}

/-- Run an action `n` times, stopping at the first fault. -/
def times (n : Nat) (action : EStateM Fault σ Unit) : EStateM Fault σ Unit :=
  match n with
  | 0 => pure ()
  | n + 1 => do
    action
    times n action

/-- Run rounds until one returns `true`, at most `bound` of them. -/
def untilTrue (bound : Nat) (round : EStateM Fault σ Bool) : EStateM Fault σ Unit :=
  match bound with
  | 0 => throw .outOfTicks
  | bound + 1 => do
    if ← round then
      pure ()
    else
      untilTrue bound round

end Peripherals
