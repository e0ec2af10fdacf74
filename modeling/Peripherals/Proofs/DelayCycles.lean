import Mathlib.Algebra.Group.Nat.Defs
import Peripherals.Proofs.RestingCalls
import Peripherals.Timing.Delay

/-! # Delays in cycles

A delay takes its full chunks and then the rest, as a loop does that takes what
fits from what is left. No chunk overflows when it is turned into cycles, and
none is lost, so that a delay is exactly the product of its length and the speed
in cycles, whatever passes them and however large the product is. -/

namespace Peripherals

namespace Delay

variable {σ : Type} {delay : Delay} {n : Word}

/-! ## The loop over the chunks -/

theorem chunk_pos (delay : Delay) : 0 < delay.chunk.toNat := by
  rw [chunk, BitVec.toNat_udiv, BitVec.toNat_allOnes]
  split
  · decide
  · next moves =>
    have positive : 0 < delay.cyclesPerMicro.toNat := by bv_omega
    exact Nat.div_pos (by omega) positive

/-- A chunk fits a word when it is turned into cycles. -/
theorem chunk_fits (delay : Delay) :
    delay.chunk.toNat * delay.cyclesPerMicro.toNat < 2 ^ 32 := by
  rw [chunk, BitVec.toNat_udiv, BitVec.toNat_allOnes]
  split
  · next still =>
    rw [still]
    decide
  · exact Nat.lt_of_le_of_lt (Nat.div_mul_le_self _ _) (by decide)

/-- How much of a delay is taken at once. -/
def portion (delay : Delay) (n : Word) : Word :=
  if delay.chunk ≤ n then delay.chunk else n

theorem portion_le (delay : Delay) (n : Word) : (delay.portion n).toNat ≤ n.toNat := by
  rw [portion]
  split
  · assumption
  · exact Nat.le_refl _

theorem portion_pos (delay : Delay) (some_left : n ≠ 0) : 0 < (delay.portion n).toNat := by
  rw [portion]
  split
  · exact delay.chunk_pos
  · bv_omega

theorem portion_fits (delay : Delay) (n : Word) :
    (delay.portion n).toNat * delay.cyclesPerMicro.toNat < 2 ^ 32 := by
  have small : (delay.portion n).toNat ≤ delay.chunk.toNat := by
    rw [portion]
    split
    · exact Nat.le_refl _
    · bv_omega
  exact Nat.lt_of_le_of_lt (Nat.mul_le_mul_right _ small) delay.chunk_fits

theorem chunks_zero (delay : Delay) : delay.chunks 0 = [] := by
  rw [chunks]
  simp

/-- The chunks are the portions that a loop takes until nothing is left. -/
theorem chunks_eq_cons (delay : Delay) (some_left : n ≠ 0) :
    delay.chunks n = delay.portion n :: delay.chunks (n - delay.portion n) := by
  have positive := delay.chunk_pos
  by_cases full : delay.chunk ≤ n
  · have less : (n - delay.chunk).toNat = n.toNat - delay.chunk.toNat :=
      BitVec.toNat_sub_of_le full
    have quotient : (n / delay.chunk).toNat = ((n - delay.chunk) / delay.chunk).toNat + 1 := by
      rw [BitVec.toNat_udiv, BitVec.toNat_udiv, less, Nat.div_eq_sub_div positive full]
    have rest : n % delay.chunk = (n - delay.chunk) % delay.chunk := by
      apply BitVec.eq_of_toNat_eq
      rw [BitVec.toNat_umod, BitVec.toNat_umod, less, Nat.mod_eq_sub_mod full]
    rw [portion, if_pos full, chunks, chunks, quotient, rest, List.replicate_succ]
    rfl
  · have below : n.toNat < delay.chunk.toNat := by bv_omega
    have none_full : (n / delay.chunk).toNat = 0 := by
      rw [BitVec.toNat_udiv, Nat.div_eq_of_lt below]
    have all_left : n % delay.chunk = n := by
      apply BitVec.eq_of_toNat_eq
      rw [BitVec.toNat_umod, Nat.mod_eq_of_lt below]
    have nothing_left : delay.chunks (n - n) = [] := by
      rw [BitVec.sub_self]
      exact delay.chunks_zero
    rw [portion, if_neg full, nothing_left, chunks, none_full, all_left, if_neg some_left]
    rfl

/-! ## Cycles -/

/-- What passes some cycles at once passes them one after the other. -/
structure Passes (spin : Word → EStateM Fault σ Unit) (pass : Nat → EStateM Fault σ Unit) :
    Prop where
  spin : ∀ cycles, spin cycles = pass cycles.toNat
  none : pass 0 = pure ()
  more : ∀ m n, (do pass m; pass n) = pass (m + n)

theorem times_add (action : EStateM Fault σ Unit) (m n : Nat) :
    (do times m action; times n action) = times (m + n) action := by
  induction m with
  | zero => rw [times, pure_bind, Nat.zero_add]
  | succ m ih => rw [times, bind_assoc, ih, Nat.succ_add, times]

theorem spin_passes {δ : Type} [Target δ] :
    Passes (spin : Word → BusM δ Unit) fun n => times n Bus.nop where
  spin _ := rfl
  none := rfl
  more := times_add Bus.nop

theorem tally_passes : Passes tally fun n => modify (· + n) where
  spin _ := rfl
  none := rfl
  more m n := by
    funext count
    change EStateM.Result.ok () (count + m + n) = .ok () (count + (m + n))
    rw [Nat.add_assoc]

section Passes

variable {spin : Word → EStateM Fault σ Unit} {pass : Nat → EStateM Fault σ Unit}
  (passes : Passes spin pass)

include passes

/-- A delay takes a portion of what is left, as long as something is left. -/
theorem micros_next (some_left : n ≠ 0) :
    delay.micros spin n = (do
      pass ((delay.portion n).toNat * delay.cyclesPerMicro.toNat)
      delay.micros spin (n - delay.portion n)) := by
  have fits := delay.portion_fits n
  have product : (delay.portion n * delay.cyclesPerMicro).toNat =
      (delay.portion n).toNat * delay.cyclesPerMicro.toNat := by
    rw [BitVec.toNat_mul, Nat.mod_eq_of_lt fits]
  have within : (delay.portion n).umulOverflow delay.cyclesPerMicro = false := by
    rw [BitVec.umulOverflow, decide_eq_false_iff_not]
    omega
  rw [micros, chunks_eq_cons delay some_left, List.forM_cons, Checked.mul_eq_ok within, ← product,
    ← passes.spin]
  rfl

theorem micros_passes (delay : Delay) (n : Word) :
    delay.micros spin n = pass (n.toNat * delay.cyclesPerMicro.toNat) := by
  -- Induction on what is left: every portion is a part of it.
  induction left : n.toNat using Nat.strongRecOn generalizing n with
  | ind amount ih =>
    by_cases done : n = 0
    · have zero : amount = 0 := by rw [← left, done]; rfl
      rw [zero, Nat.zero_mul, passes.none, done, micros, chunks_zero]
      rfl
    · have some_taken := portion_pos delay done
      have part := delay.portion_le n
      have rest : (n - delay.portion n).toNat = n.toNat - (delay.portion n).toNat :=
        BitVec.toNat_sub_of_le part
      rw [micros_next passes done, ih _ (by omega) _ rest, passes.more, ← Nat.add_mul]
      congr 2
      omega

theorem millis_passes (delay : Delay) (n : Word) :
    delay.millis spin n = pass (1000 * n.toNat * delay.cyclesPerMicro.toNat) := by
  have each : delay.micros spin 1000 = pass (1000 * delay.cyclesPerMicro.toNat) :=
    micros_passes passes delay 1000
  have repeated (count : Nat) :
      times count (delay.micros spin 1000) = pass (1000 * count * delay.cyclesPerMicro.toNat) := by
    induction count with
    | zero => rw [Nat.mul_zero, Nat.zero_mul, passes.none, times]
    | succ count ih =>
      rw [times, each]
      rw [each] at ih
      rw [ih, passes.more, ← Nat.add_mul, Nat.mul_succ, Nat.add_comm 1000]
  exact repeated n.toNat

theorem nanos_passes (delay : Delay) (n : Word) :
    delay.nanos spin n = pass ((n.toNat + 999) / 1000 * delay.cyclesPerMicro.toNat) := by
  have quotient : (n / 1000).toNat = n.toNat / 1000 := BitVec.toNat_udiv
  have rest : (n % 1000).toNat = n.toNat % 1000 := BitVec.toNat_umod
  have small := n.isLt
  have roundedUp : (n / 1000 + if n % 1000 = 0 then 0 else 1 : Word).toNat =
      (n.toNat + 999) / 1000 := by
    rw [BitVec.toNat_add, quotient]
    split
    · next whole =>
      have no_rest : n.toNat % 1000 = 0 := rest.symm.trans (congrArg BitVec.toNat whole)
      change (n.toNat / 1000 + 0) % 2 ^ 32 = _
      omega
    · next broken =>
      have some_rest : n.toNat % 1000 ≠ 0 := fun none =>
        broken (BitVec.eq_of_toNat_eq (rest.trans none))
      change (n.toNat / 1000 + 1) % 2 ^ 32 = _
      omega
  rw [nanos, micros_passes passes, roundedUp]

end Passes

/-! ## Delays at rest -/

open Bus Chip

/-- At rest, a `nop` takes a tick and is counted. -/
theorem nops_take {base : Chip} (quiet : base.Quiet) (n : Nat) :
    Takes n (· = base) (times n Bus.nop : BusM Chip Unit)
      (fun _ chip => chip = (base.idled n).timed (base.busy - n) base.written)
      fun k chip => chip = (base.idled k).timed (base.busy - k) base.written := by
  have each (j : Nat) :
      Takes 1 (· = (base.idled j).timed (base.busy - j) base.written) (Bus.nop : BusM Chip Unit)
        (fun _ chip => chip = (base.idled (j + 1)).timed (base.busy - (j + 1)) base.written)
        fun _ chip => chip = (base.idled j).timed (base.busy - j) base.written := by
    rintro ⟨chip, ticks, log⟩ rfl
    cases ticks with
    | zero => exact ⟨rfl, rfl, Nat.one_pos, rfl⟩
    | succ ticks =>
      have passed : (Target.nop : EStateM Fault Chip Unit).run
          ((base.idled j).timed (base.busy - j) base.written) =
            .ok () ((base.idled (j + 1)).timed (base.busy - (j + 1)) base.written) :=
        (quiet.idled (j + 1)).tick (base.busy - j) base.written
      have ran : (Bus.nop : BusM Chip Unit).run
          ⟨(base.idled j).timed (base.busy - j) base.written, ticks + 1, log⟩ =
            .ok () ⟨(base.idled (j + 1)).timed (base.busy - (j + 1)) base.written, ticks,
              log.push .nop⟩ := by
        change (onDevice Target.nop : BusM Chip Unit).run
          ⟨(base.idled j).timed (base.busy - j) base.written, ticks, log.push .nop⟩ = _
        rw [run_onDevice, passed]
      rw [ran]
      exact ⟨rfl, rfl⟩
  have all := Takes.times (J := fun j chip =>
    chip = (base.idled j).timed (base.busy - j) base.written) each n 0
  rw [Nat.zero_add] at all
  exact all.weaken (fun _ _ same => same) fun k chip same => by rwa [Nat.zero_add] at same

/-- A delay that is asked for in one of three units. -/
inductive Request
  | micros (n : Word)
  | millis (n : Word)
  | nanos (n : Word)

namespace Request

/-- Let the delay pass. -/
def perform (delay : Delay) (spin : Word → EStateM Fault σ Unit) : Request → EStateM Fault σ Unit
  | .micros n => delay.micros spin n
  | .millis n => delay.millis spin n
  | .nanos n => delay.nanos spin n

/-- Ask a source for the delay. -/
def askOf (source : DelaySource σ) : Request → EStateM Fault σ Unit
  | .micros n => source.micros n
  | .millis n => source.millis n
  | .nanos n => source.nanos n

/-- How many cycles a delay lasts at a speed in cycles per microsecond. Nanoseconds are rounded up
to whole microseconds. -/
def cycles (speed : Nat) : Request → Nat
  | .micros n => n.toNat * speed
  | .millis n => 1000 * n.toNat * speed
  | .nanos n => (n.toNat + 999) / 1000 * speed

theorem perform_passes {spin : Word → EStateM Fault σ Unit} {pass : Nat → EStateM Fault σ Unit}
    (passes : Passes spin pass) (delay : Delay) (request : Request) :
    request.perform delay spin = pass (request.cycles delay.cyclesPerMicro.toNat) := by
  cases request with
  | micros n => exact micros_passes passes delay n
  | millis n => exact millis_passes passes delay n
  | nanos n => exact nanos_passes passes delay n

end Request

theorem speed_atClock (core : Word) : (atClock core).cyclesPerMicro.toNat = core.toNat / 1000000 :=
  BitVec.toNat_udiv

/-- On every target a delay is a number of `nop`s, the product of its length and the whole cycles
per microsecond, in integers of any size, and nothing in it overflows. So at rest it returns after
as many ticks, and a tally counts as many cycles. It is the same as what drivers get that ask a
source for it. Delays after each other add up, and a millisecond is a thousand microseconds. -/
theorem lasts_exactly (core : Word) (request : Request) :
    (∀ {δ : Type} [Target δ], request.perform (atClock core) spin =
      (times (request.cycles (core.toNat / 1000000)) Bus.nop : BusM δ Unit)) ∧
    (∀ {σ : Type} (spin : Word → EStateM Fault σ Unit),
      request.askOf ((atClock core).source spin) = request.perform (atClock core) spin) ∧
    (∀ first : Chip, first.Quiet → ∀ ticks log, request.cycles (core.toNat / 1000000) ≤ ticks →
      ∃ after, (request.perform (atClock core) spin).run ⟨first, ticks, log⟩ = .ok () after ∧
        after.ticks + request.cycles (core.toNat / 1000000) = ticks ∧
        after.device.nops = first.nops + request.cycles (core.toNat / 1000000)) ∧
    (∀ count, (request.perform (atClock core) tally).run count =
      .ok () (count + request.cycles (core.toNat / 1000000))) ∧
    (∀ {δ : Type} [Target δ] (a b : Word), a.toNat + b.toNat < 2 ^ 32 →
      (do
        (atClock core).micros spin a
        (atClock core).micros spin b : BusM δ Unit) = (atClock core).micros spin (a + b)) ∧
    ∀ {δ : Type} [Target δ] (m : Word), 1000 * m.toNat < 2 ^ 32 →
      ((atClock core).millis spin m : BusM δ Unit) = (atClock core).micros spin (1000 * m) := by
  have onBus {δ : Type} [Target δ] (request : Request) : request.perform (atClock core) spin =
      (times (request.cycles (core.toNat / 1000000)) Bus.nop : BusM δ Unit) := by
    rw [← speed_atClock]
    exact request.perform_passes spin_passes (atClock core)
  refine ⟨onBus request, ?_, ?_, ?_, ?_, ?_⟩
  · intro σ spin
    cases request <;> rfl
  · intro first quiet ticks log enough
    obtain ⟨_, after, returned, reached, left⟩ :=
      (nops_take quiet _).returns ⟨first, ticks, log⟩ rfl enough
    refine ⟨after, ?_, left, ?_⟩
    · rw [onBus]
      exact returned
    · rw [reached]
      rfl
  · intro count
    rw [request.perform_passes tally_passes, speed_atClock]
    rfl
  · intro δ _ a b fits
    have total : (a + b).toNat = a.toNat + b.toNat := by
      rw [BitVec.toNat_add, Nat.mod_eq_of_lt fits]
    rw [micros_passes spin_passes, micros_passes spin_passes, micros_passes spin_passes, total,
      Nat.add_mul]
    exact times_add Bus.nop _ _
  · intro δ _ m fits
    have total : (1000 * m).toNat = 1000 * m.toNat := by
      rw [BitVec.toNat_mul]
      exact Nat.mod_eq_of_lt fits
    rw [micros_passes spin_passes, millis_passes spin_passes, total]

/-- The longest delay in microseconds at 64 MHz has more cycles than fit a word. -/
theorem lasts_exactly_beyond_a_word :
    Chip.reset.Quiet ∧
    (∀ count, (Request.perform atReset tally (.micros 0xFFFFFFFF)).run count =
      .ok () (count + 274877906880)) ∧
    (∃ after, (Request.perform atReset spin (.nanos 1001)).run ⟨Chip.reset, 200, #[]⟩ =
        .ok () after ∧
      after.ticks + 128 = 200 ∧ after.device.nops = 128) ∧
    (1999 : Word).toNat + (1 : Word).toNat < 2 ^ 32 ∧ 1000 * (2 : Word).toNat < 2 ^ 32 ∧
    (do
      atReset.micros spin 1999
      atReset.micros spin 1 : BusM Chip Unit) = atReset.millis spin 2 := by
  have quiet : Chip.reset.Quiet := .of_inactive (by decide)
  obtain ⟨-, -, -, counted, adds, thousands⟩ :=
    lasts_exactly ClockTree.internalOscillator (.micros 0xFFFFFFFF)
  obtain ⟨-, -, atRest, -, -, -⟩ := lasts_exactly ClockTree.internalOscillator (.nanos 1001)
  refine ⟨quiet, counted, ?_, by decide, by decide, ?_⟩
  · exact atRest Chip.reset quiet 200 #[] (by decide)
  · exact (adds 1999 1 (by decide)).trans (thousands 2 (by decide)).symm

end Delay

end Peripherals
