import Peripherals.Proofs.LineFeed
import Peripherals.Proofs.RestingCalls

/-! # Printed numbers

While no channel is active, a number that is printed in decimal comes out whole,
however slow the transmitter is: neither the digit buffer nor a width stops it on
the way. What came out is the one canonical form of the number, so that the
output tells the number. -/

namespace Peripherals

open Bus Chip

namespace Serial

variable {first : Chip}

/-- A number printed from a state with the transmitter on and no channel active comes out as its
canonical decimal digits, behind what was sent before. Printing returns in time, nothing but a lack
of ticks stops it, and two numbers print alike only if they are equal. -/
theorem sendDecimal_prints (on : first.TransmitterOn)
    (inactive : ∀ c, (first.latch c).active = false) (log : Array Access) (n : Word) :
    (∃ digits, Text.Canonical n digits ∧
      ReturnsInTime (fun ticks => (sendDecimal n).run ⟨first, ticks, log⟩)
        fun _ session => session.device.transmitted = first.transmitted ++ digits) ∧
    (∀ ticks fault session, (sendDecimal n).run ⟨first, ticks, log⟩ = .error fault session →
      fault = .outOfTicks) ∧
    ∀ m ticks ticks' after after', (sendDecimal n).run ⟨first, ticks, log⟩ = .ok () after →
      (sendDecimal m).run ⟨first, ticks', log⟩ = .ok () after' →
      (after.device.transmitted = after'.device.transmitted ↔ n = m) := by
  have runs (n : Word) := send_runs on (.of_inactive inactive) log (Text.decimal n)
  have inTime (n : Word) : ReturnsInTime (fun ticks => (sendDecimal n).run ⟨first, ticks, log⟩)
      fun _ session => session.device.transmitted = first.transmitted ++ Text.decimal n := by
    rw [sendDecimal_eq]
    exact (runs n).returnsInTime fun ticks => ⟨ticks, rfl⟩
  refine ⟨⟨Text.decimal n, Text.decimal_canonical n, inTime n⟩, ?_, ?_⟩
  · intro ticks fault session faulted
    have stopped := runs n ⟨first, ticks, log⟩ ⟨ticks, rfl⟩
    rw [← sendDecimal_eq, faulted] at stopped
    exact stopped.2.1
  · intro m ticks ticks' after after' ended ended'
    rw [(inTime n).holds ticks () after ended, (inTime m).holds ticks' () after' ended',
      List.append_cancel_left_eq]
    exact ⟨Text.decimal_injective, congrArg Text.decimal⟩

/-- The largest number and zero, printed on a chip that was just set up. -/
theorem sendDecimal_prints_extremes :
    Chip.broughtUp.TransmitterOn ∧ (∀ c, (Chip.broughtUp.latch c).active = false) ∧
    ReturnsInTime (fun ticks => (sendDecimal 0xFFFFFFFF).run ⟨Chip.broughtUp, ticks, #[]⟩)
      (fun _ session => session.device.transmitted = Text.bytes "4294967295") ∧
    ReturnsInTime (fun ticks => (sendDecimal 0).run ⟨Chip.broughtUp, ticks, #[]⟩)
      fun _ session => session.device.transmitted = Text.bytes "0" := by
  have on := broughtUp_ready.toLineOn.transmitterOn
  have inactive (c : Channel) : (Chip.broughtUp.latch c).active = false := (broughtUp_idle c).2
  have silent : Chip.broughtUp.transmitted = [] := by decide +kernel
  obtain ⟨⟨largest, canonical, prints⟩, -⟩ := sendDecimal_prints on inactive #[] 0xFFFFFFFF
  obtain ⟨⟨zero, canonical', prints'⟩, -⟩ := sendDecimal_prints on inactive #[] 0
  rw [silent, Text.canonical_iff.mp canonical] at prints
  rw [silent, Text.canonical_iff.mp canonical'] at prints'
  have digits : Text.decimal 0xFFFFFFFF = Text.bytes "4294967295" := by decide +kernel
  have digits' : Text.decimal 0 = Text.bytes "0" := by decide +kernel
  rw [digits] at prints
  rw [digits'] at prints'
  exact ⟨on, inactive, prints, prints'⟩

end Serial

end Peripherals
