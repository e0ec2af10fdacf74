import Mathlib.Tactic.Ring
import Peripherals.Proofs.DelayCycles

/-! # Delays against the clock

A delay rounds its clock down to whole cycles per microsecond, and a length in
nanoseconds up to whole microseconds. What it lasts is the rounded length at the
rounded clock: at a clock of whole megahertz never less than was asked, and at
any other clock less, unless rounding the length up makes up for it. -/

namespace Peripherals.Delay

open Bus Chip

namespace Request

variable {core cycles : Nat}

/-- How many of a request's unit make up a second. -/
def perSecond : Request → Nat
  | .micros _ => 1000000
  | .millis _ => 1000
  | .nanos _ => 1000000000

/-- The length that is asked for, in the request's unit. -/
def amount : Request → Nat
  | .micros n | .millis n | .nanos n => n.toNat

/-- The length in whole microseconds that is let pass, in the request's unit. -/
def rounded : Request → Nat
  | .micros n | .millis n => n.toNat
  | .nanos n => (n.toNat + 999) / 1000 * 1000

/-- A number of cycles of a core clock in Hz lasts at least as long as was asked. -/
def LastsFor (request : Request) (core cycles : Nat) : Prop :=
  request.amount * core ≤ cycles * request.perSecond

theorem amount_le_rounded (request : Request) : request.amount ≤ request.rounded := by
  cases request with
  | micros n | millis n => exact Nat.le_refl _
  | nanos n =>
    simp only [amount, rounded]
    omega

/-- The cycles of a delay last its rounded length at a clock of whole cycles per microsecond. -/
theorem cycles_mul_perSecond (request : Request) (speed : Nat) :
    request.cycles speed * request.perSecond = request.rounded * (speed * 1000000) := by
  cases request with
  | micros n => exact Nat.mul_assoc _ _ _
  | millis n =>
    simp only [cycles, perSecond, rounded]
    ring
  | nanos n =>
    simp only [cycles, perSecond, rounded]
    ring

/-- A delay is long enough if what rounding its length up adds makes up for what rounding its clock
down takes away. -/
theorem lastsFor_iff (request : Request) (core : Nat) :
    request.LastsFor core (request.cycles (core / 1000000)) ↔
      request.amount * (core % 1000000) ≤
        (request.rounded - request.amount) * (core / 1000000 * 1000000) := by
  have longer : request.rounded = request.amount + (request.rounded - request.amount) :=
    (Nat.add_sub_cancel' request.amount_le_rounded).symm
  have whole : core = core / 1000000 * 1000000 + core % 1000000 := by omega
  have asked : request.amount * core =
      request.amount * (core / 1000000 * 1000000) + request.amount * (core % 1000000) := by
    rw [← Nat.mul_add, ← whole]
  have lasts : request.rounded * (core / 1000000 * 1000000) =
      request.amount * (core / 1000000 * 1000000) +
        (request.rounded - request.amount) * (core / 1000000 * 1000000) := by
    rw [← Nat.add_mul, ← longer]
  rw [LastsFor, cycles_mul_perSecond, asked, lasts]
  exact Nat.add_le_add_iff_left

/-- Where nothing is rounded up, only a clock of whole megahertz is long enough. -/
theorem lastsFor_iff_of_exact {request : Request} (exact : request.rounded = request.amount)
    (core : Nat) :
    request.LastsFor core (request.cycles (core / 1000000)) ↔
      request.amount = 0 ∨ core % 1000000 = 0 := by
  rw [lastsFor_iff, exact, Nat.sub_self, Nat.zero_mul, Nat.le_zero, Nat.mul_eq_zero]

end Request

/-- On every target a delay is a number of `nop`s, and at rest the chip returns from it after as
many. At a clock of whole megahertz they last at least as long as was asked, with one `nop` for each
cycle. At any other clock they do exactly if what rounding the length up adds makes up for what
rounding the clock down takes away, and so never for a length in whole microseconds. -/
theorem lasts_long_enough_iff (core : Word) (request : Request) :
    ∃ nops,
      (∀ {δ : Type} [Target δ], request.perform (atClock core) spin =
        (times nops Bus.nop : BusM δ Unit)) ∧
      (∀ first : Chip, first.Quiet → ∀ log,
        ReturnsInTime (fun ticks => (request.perform (atClock core) spin).run ⟨first, ticks, log⟩)
          fun _ session => session.device.nops = first.nops + nops) ∧
      (core.toNat % 1000000 = 0 → request.LastsFor core.toNat nops) ∧
      (request.LastsFor core.toNat nops ↔
        request.amount * (core.toNat % 1000000) ≤
          (request.rounded - request.amount) * (core.toNat / 1000000 * 1000000)) ∧
      (request.rounded = request.amount →
        (request.LastsFor core.toNat nops ↔
          request.amount = 0 ∨ core.toNat % 1000000 = 0)) := by
  have onBus {δ : Type} [Target δ] : request.perform (atClock core) spin =
      (times (request.cycles (core.toNat / 1000000)) Bus.nop : BusM δ Unit) := by
    rw [← speed_atClock]
    exact request.perform_passes spin_passes (atClock core)
  refine ⟨request.cycles (core.toNat / 1000000), onBus, ?_, ?_, request.lastsFor_iff core.toNat,
    fun exact => Request.lastsFor_iff_of_exact exact core.toNat⟩
  · intro first quiet log
    rw [onBus]
    refine ((nops_take quiet _).settles.returnsInTime rfl log).mono ?_
    rintro _ session reached
    rw [reached]
    rfl
  · intro whole
    rw [Request.lastsFor_iff, whole, Nat.mul_zero]
    exact Nat.zero_le _

/-- At the clock after reset, two microseconds are long enough. -/
theorem lasts_long_enough_iff_at_reset :
    Chip.reset.Quiet ∧ ClockTree.internalOscillator.toNat % 1000000 = 0 ∧
    ∃ nops,
      ReturnsInTime (fun ticks =>
        (Request.perform atReset spin (.micros 2)).run ⟨Chip.reset, ticks, #[]⟩)
          (fun _ session => session.device.nops = nops) ∧
      2 * 64000000 ≤ nops * 1000000 := by
  have quiet : Chip.reset.Quiet := .of_inactive (by decide)
  obtain ⟨nops, -, atRest, enough, -, -⟩ :=
    lasts_long_enough_iff ClockTree.internalOscillator (.micros 2)
  refine ⟨quiet, by decide, nops, ?_, enough (by decide)⟩
  refine (atRest Chip.reset quiet #[]).mono fun _ session counted => ?_
  rw [counted]
  exact Nat.zero_add nops

/-- Two microseconds at 1.5 MHz are three cycles, but the delay makes two `nop`s. -/
theorem falls_short_of_two_micros :
    (∃ after, (Request.perform (atClock 1500000) spin (.micros 2)).run ⟨Chip.reset, 2, #[]⟩ =
      .ok () after ∧ after.device.nops = 2) ∧
    ¬ Request.LastsFor (.micros 2) 1500000 2 := by
  refine ⟨⟨_, rfl, rfl⟩, ?_⟩
  rw [Request.LastsFor]
  decide

end Peripherals.Delay
