import Mathlib.Tactic.Ring
import Peripherals.Proofs.Outcomes
import Peripherals.Timing.BaudRate

/-! # Rounding a divisor

The divisor for a baud rate is rounded by adding half the rate before dividing.
It is the nearest one for every clock and rate, and the rate that it gives
misses the one asked for by no more than the divisor's own error, spread over
its periods, and one for the second division. A divisor of which the rate is at
least twice as large is found again from that rate. -/

namespace Peripherals.BaudRate

/-! ## Divisors as natural numbers -/

/-- How far a number of periods of a rate is from a clock. -/
def deviation (clock rate divisor : Nat) : Nat :=
  ((divisor * rate : Int) - clock).natAbs

/-- No other divisor comes closer to the clock. -/
def Nearest (clock rate divisor : Nat) : Prop :=
  ∀ other, deviation clock rate divisor ≤ deviation clock rate other

/-- The quotient of a clock and a rate, with halves rounded up. -/
def rounded (clock rate : Nat) : Nat :=
  (clock + rate / 2) / rate

section Rounded

variable {clock rate divisor : Nat}

theorem rounded_mul_le (clock rate : Nat) : rounded clock rate * rate ≤ clock + rate / 2 :=
  Nat.div_mul_le_self _ _

theorem lt_rounded_mul_add (clock : Nat) (positive : 0 < rate) :
    clock + rate / 2 < rounded clock rate * rate + rate :=
  Nat.lt_div_mul_add positive

/-- The deviation is at most half the rate. -/
theorem two_mul_deviation_rounded (clock : Nat) (positive : 0 < rate) :
    2 * deviation clock rate (rounded clock rate) ≤ rate := by
  have below := rounded_mul_le clock rate
  have above := lt_rounded_mul_add clock positive
  rw [deviation, ← Int.natCast_mul]
  omega

/-- Every other divisor is off by at least the half that the rounded one does not reach. -/
theorem nearest_rounded (positive : 0 < rate) : Nearest clock rate (rounded clock rate) := by
  intro other
  have close := two_mul_deviation_rounded clock positive
  rw [deviation, ← Int.natCast_mul] at close ⊢
  rw [deviation, ← Int.natCast_mul]
  obtain less | rfl | more := Nat.lt_trichotomy other (rounded clock rate)
  · have apart : (other + 1) * rate ≤ rounded clock rate * rate := Nat.mul_le_mul_right rate less
    rw [Nat.succ_mul] at apart
    omega
  · exact Nat.le_refl _
  · have apart : (rounded clock rate + 1) * rate ≤ other * rate := Nat.mul_le_mul_right rate more
    rw [Nat.succ_mul] at apart
    omega

theorem rounded_eq_zero_iff (positive : 0 < rate) :
    rounded clock rate = 0 ↔ clock < rate - rate / 2 := by
  rw [rounded, Nat.div_eq_zero_iff_lt positive]
  omega

/-- The rate that the divisor gives is off by at most the divisor's deviation, spread over its
periods, and one. -/
theorem rounded_rate_close (positive : 0 < rate) (some_period : 0 < rounded clock rate) :
    2 * rounded clock rate * (((clock / rounded clock rate : Nat) : Int) - rate).natAbs ≤
      rate + 2 * rounded clock rate := by
  have close := two_mul_deviation_rounded clock positive
  rw [deviation, ← Int.natCast_mul] at close
  generalize rounded clock rate = divisor at *
  have below : clock / divisor * divisor ≤ clock := Nat.div_mul_le_self _ _
  have above : clock < clock / divisor * divisor + divisor := Nat.lt_div_mul_add some_period
  generalize clock / divisor = given at *
  have spread : divisor * ((given : Int) - rate).natAbs =
      (((given * divisor : Nat) : Int) - (divisor * rate : Nat)).natAbs := by
    calc divisor * ((given : Int) - rate).natAbs
        = ((divisor : Int) * (given - rate)).natAbs := by rw [Int.natAbs_mul, Int.natAbs_natCast]
      _ = (((given * divisor : Nat) : Int) - (divisor * rate : Nat)).natAbs := by
        congr 1
        push_cast
        ring
  rw [Nat.mul_assoc, spread]
  omega

/-- A divisor is found again from a rate that is at least twice as large. -/
theorem rounded_div (positive : 0 < divisor) (small : 2 * divisor ≤ clock / divisor) :
    rounded clock (clock / divisor) = divisor := by
  have below : clock / divisor * divisor ≤ clock := Nat.div_mul_le_self _ _
  have above : clock < clock / divisor * divisor + divisor := Nat.lt_div_mul_add positive
  generalize clock / divisor = rate at *
  rw [Nat.mul_comm] at below above
  apply Nat.div_eq_of_lt_le
  · omega
  · rw [Nat.succ_mul]
    omega

end Rounded

/-! ## Divisors as words -/

section Words

variable {clock rate divisor : Word}

theorem toNat_half (rate : Word) : (rate / 2).toNat = rate.toNat / 2 :=
  BitVec.toNat_udiv

theorem divisorFor_of_overflow (large : 0x100000000 ≤ clock.toNat + rate.toNat / 2) :
    divisorFor clock rate = .error .addOverflow := by
  have overflows : clock.uaddOverflow (rate / 2) = true := by
    rw [BitVec.uaddOverflow, toNat_half, decide_eq_true_eq]
    exact large
  rw [divisorFor, Checked.add, if_pos overflows]
  rfl

/-- Half of no rate is nothing, so that the sum fits and the division faults. -/
theorem divisorFor_zero (clock : Word) : divisorFor clock 0 = .error .divisionByZero := by
  have fits : clock.uaddOverflow (0 / 2) = false := by
    rw [BitVec.uaddOverflow, decide_eq_false_iff_not, Nat.not_le]
    exact clock.isLt
  rw [divisorFor, Checked.add_eq_ok fits]
  rfl

theorem divisorFor_of_fits (positive : rate ≠ 0)
    (fits : clock.toNat + rate.toNat / 2 < 0x100000000) :
    ∃ divisor, divisorFor clock rate = .ok divisor ∧
      divisor.toNat = rounded clock.toNat rate.toNat := by
  have sum : Checked.add clock (rate / 2) = .ok (clock + rate / 2) :=
    Checked.add_eq_ok_iff.mpr ⟨by rwa [toNat_half], rfl⟩
  refine ⟨(clock + rate / 2) / rate, ?_, ?_⟩
  · rw [divisorFor, sum]
    exact Checked.div_eq_ok positive
  · rw [BitVec.toNat_udiv, BitVec.toNat_add, toNat_half, Nat.mod_eq_of_lt fits, rounded]

theorem ofDivisor_of_ne_zero (clock : Word) (positive : divisor ≠ 0) :
    ∃ rate, ofDivisor clock divisor = .ok rate ∧ rate.toNat = clock.toNat / divisor.toNat :=
  ⟨clock / divisor, Checked.div_eq_ok positive, BitVec.toNat_udiv⟩

theorem divisorFor_eq_error_iff {fault : Fault} :
    divisorFor clock rate = .error fault ↔
      (fault = .divisionByZero ∧ rate = 0) ∨
        (fault = .addOverflow ∧ 0x100000000 ≤ clock.toNat + rate.toNat / 2) := by
  constructor
  · intro faulted
    by_cases large : 0x100000000 ≤ clock.toNat + rate.toNat / 2
    · rw [divisorFor_of_overflow large] at faulted
      exact .inr ⟨(Except.error.inj faulted).symm, large⟩
    · by_cases zero : rate = 0
      · rw [zero, divisorFor_zero] at faulted
        exact .inl ⟨(Except.error.inj faulted).symm, zero⟩
      · obtain ⟨divisor, returned, -⟩ := divisorFor_of_fits zero (Nat.not_le.mp large)
        rw [returned] at faulted
        cases faulted
  · rintro (⟨rfl, rfl⟩ | ⟨rfl, large⟩)
    · exact divisorFor_zero clock
    · exact divisorFor_of_overflow large

end Words

/-- The divisor for a rate faults exactly if the rate is zero or the sum before the division does
not fit a word. Otherwise it is the nearest divisor, is zero exactly for a rate of more than twice
the clock, and gives a rate that is off by no more than its deviation and one. A divisor of which
the rate is at least twice as large is found again from that rate. -/
theorem divisorFor_nearest (clock : Word) :
    (∀ rate fault, divisorFor clock rate = .error fault ↔
      (fault = .divisionByZero ∧ rate = 0) ∨
        (fault = .addOverflow ∧ 0x100000000 ≤ clock.toNat + rate.toNat / 2)) ∧
    (∀ rate : Word, rate ≠ 0 → clock.toNat + rate.toNat / 2 < 0x100000000 →
      ∃ divisor, divisorFor clock rate = .ok divisor ∧
        Nearest clock.toNat rate.toNat divisor.toNat ∧
        2 * deviation clock.toNat rate.toNat divisor.toNat ≤ rate.toNat ∧
        (divisor = 0 ↔ clock.toNat < rate.toNat - rate.toNat / 2) ∧
        (1 ≤ divisor.toNat → ∃ given, ofDivisor clock divisor = .ok given ∧
          2 * divisor.toNat * ((given.toNat : Int) - rate.toNat).natAbs ≤
            rate.toNat + 2 * divisor.toNat)) ∧
    (∀ divisor : Word, 1 ≤ divisor.toNat → 2 * divisor.toNat ≤ clock.toNat / divisor.toNat →
      ∃ given, ofDivisor clock divisor = .ok given ∧
        (clock.toNat + given.toNat / 2 < 0x100000000 →
          divisorFor clock given = .ok divisor)) := by
  have nonzero {word : Word} : word ≠ 0 ↔ 0 < word.toNat := by bv_omega
  refine ⟨fun _ _ => divisorFor_eq_error_iff, ?_, ?_⟩
  · intro rate positive fits
    obtain ⟨divisor, returned, value⟩ := divisorFor_of_fits positive fits
    rw [nonzero] at positive
    refine ⟨divisor, returned, ?_, ?_, ?_, ?_⟩
    · rw [value]
      exact nearest_rounded positive
    · rw [value]
      exact two_mul_deviation_rounded _ positive
    · rw [← rounded_eq_zero_iff positive, ← value]
      bv_omega
    · intro some_period
      obtain ⟨given, gives, quotient⟩ := ofDivisor_of_ne_zero clock (nonzero.mpr some_period)
      refine ⟨given, gives, ?_⟩
      rw [quotient, value]
      exact rounded_rate_close positive (value ▸ some_period)
  · intro divisor positive small
    obtain ⟨given, gives, quotient⟩ := ofDivisor_of_ne_zero clock (nonzero.mpr positive)
    refine ⟨given, gives, fun fits => ?_⟩
    have running : given ≠ 0 := nonzero.mpr (by omega)
    obtain ⟨found, returned, value⟩ := divisorFor_of_fits running fits
    rw [quotient, rounded_div positive small] at value
    rw [returned, BitVec.eq_of_toNat_eq value]

/-- The divisor for a console at the clock after reset gives 115107 Hz, and is found again from
that. -/
theorem divisorFor_nearest_at_console :
    (console ≠ 0 ∧ kernelClock.toNat + console.toNat / 2 < 0x100000000 ∧
      Nearest 64000000 115200 556) ∧
    (2 * 556 ≤ kernelClock.toNat / 556 ∧ ofDivisor kernelClock consoleDivisor = .ok 115107 ∧
      divisorFor kernelClock 115107 = .ok consoleDivisor) := by
  obtain ⟨-, nearest, again⟩ := divisorFor_nearest kernelClock
  constructor
  · refine ⟨by decide, by decide, ?_⟩
    obtain ⟨divisor, returned, closest, -⟩ := nearest console (by decide) (by decide)
    obtain rfl := Except.ok.inj (divisorFor_console.symm.trans returned)
    exact closest
  · obtain ⟨given, gives, found⟩ := again consoleDivisor (by decide) (by decide)
    have rate : ofDivisor kernelClock consoleDivisor = .ok 115107 := rfl
    obtain rfl := Except.ok.inj (rate.symm.trans gives)
    exact ⟨by decide, rate, found (by decide)⟩

end Peripherals.BaudRate
