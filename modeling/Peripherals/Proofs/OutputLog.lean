import Peripherals.Proofs.PartEffects
import Peripherals.Proofs.RestingCalls

/-! # The log of the outputs

What was observed of a pin is the history of its output bit: the levels
alternate, starting with high, and the last one is the level that the output
register holds. Whatever reaches that register, be it a store of a program or of
a channel, goes through one operation that observes every changed bit, and none
of its values has a bit above the sixteen pins. -/

namespace Peripherals

/-- The level that an event shows of a pin, if it is one of this pin's. -/
def Event.levelOf? (pin : PinId) : Event → Option Level
  | .levelChanged other level => if other = pin then some level else none
  | .transmitted _ | .breakpoint => none

/-! ## Alternating levels -/

/-- Levels that alternate, the first one high. -/
def Alternate (levels : List Level) : Prop :=
  ∀ (i : Nat) (inside : i < levels.length), levels[i] = if i % 2 = 0 then .high else .low

/-- The last of some levels, low if there is none. -/
def lastLevel (levels : List Level) : Level :=
  levels.getLast?.getD .low

@[simp] theorem lastLevel_concat (levels : List Level) (level : Level) :
    lastLevel (levels ++ [level]) = level := by
  simp [lastLevel]

namespace Alternate

variable {levels : List Level} {level : Level}

theorem nil : Alternate [] :=
  fun _ inside => (Nat.not_lt_zero _ inside).elim

/-- How many levels there are tells which one is the last. -/
theorem lastLevel_isHigh (alternate : Alternate levels) :
    (lastLevel levels).isHigh = decide (levels.length % 2 = 1) := by
  obtain rfl | ⟨earlier, last, rfl⟩ := List.eq_nil_or_concat levels
  · rfl
  · rw [List.concat_eq_append] at alternate ⊢
    have place : earlier.length < (earlier ++ [last]).length := by simp
    have last_eq := alternate earlier.length place
    rw [List.getElem_concat_length rfl] at last_eq
    rw [lastLevel_concat, last_eq, List.length_append, List.length_singleton]
    by_cases even : earlier.length % 2 = 0
    · have odd : (earlier.length + 1) % 2 = 1 := by omega
      simp [even, odd, Level.isHigh]
    · have odd : (earlier.length + 1) % 2 ≠ 1 := by omega
      simp [even, odd, Level.isHigh]

/-- Alternating levels alternate with one more, if it differs from the last. -/
theorem concat (alternate : Alternate levels) (turned : level.isHigh ≠ (lastLevel levels).isHigh) :
    Alternate (levels ++ [level]) := by
  have next : level = if levels.length % 2 = 0 then .high else .low := by
    rw [alternate.lastLevel_isHigh] at turned
    by_cases even : levels.length % 2 = 0
    · have low : ¬levels.length % 2 = 1 := by omega
      cases level <;> simp_all [Level.isHigh]
    · have high : levels.length % 2 = 1 := by omega
      cases level <;> simp_all [Level.isHigh]
  intro i inside
  rw [List.length_append, List.length_singleton] at inside
  by_cases earlier : i < levels.length
  · rw [List.getElem_append_left earlier]
    exact alternate i earlier
  · obtain rfl : i = levels.length := by omega
    rw [List.getElem_concat_length rfl, next]

end Alternate

namespace Chip

variable {chip after : Chip} {pin : PinId} {port : Port} {address value : Word}

/-- The levels to which a pin was seen to change, the oldest first. -/
def levels (chip : Chip) (pin : PinId) : List Level :=
  chip.events.toList.filterMap (Event.levelOf? pin)

theorem levels_observe (chip : Chip) (events : List Event) (pin : PinId) :
    (chip.observe events).levels pin =
      chip.levels pin ++ events.filterMap (Event.levelOf? pin) := by
  simp [levels, observe]

/-- The log of every pin ends in the level that its output register holds. -/
structure Replays (chip : Chip) : Prop where
  alternate : ∀ pin : PinId, pin.number.toNat < 16 → Alternate (chip.levels pin)
  output : ∀ pin : PinId, pin.number.toNat < 16 →
    chip.outputBit pin = (lastLevel (chip.levels pin)).isHigh
  upper : ∀ port : Port, (chip.peek (port.base + Gpio.odr)).toNat < 0x10000

/-! ## Giving the outputs a value -/

theorem pin_eq_iff {n : Nat} (small : n < 16) :
    (⟨port, BitVec.ofNat 8 n⟩ : PinId) = pin ↔ n = pin.number.toNat ∧ pin.port = port := by
  have number : BitVec.ofNat 8 n = pin.number ↔ n = pin.number.toNat := by
    constructor
    · intro same
      rw [← same, BitVec.toNat_ofNat]
      omega
    · rintro rfl
      simp
  obtain ⟨home, place⟩ := pin
  rw [PinId.mk.injEq, number, and_comm, @eq_comm Port]

/-- A new value of a port's outputs is observed at the pins whose level changes. -/
theorem levels_setOutput (valid : pin.number.toNat < 16) (chip : Chip) (port : Port)
    (value : Word) :
    (chip.setOutput port value).levels pin = chip.levels pin ++
      if pin.port = port ∧ value.getLsbD pin.number.toNat ≠ chip.outputBit pin then
        [Level.ofBool (value.getLsbD pin.number.toNat)]
      else [] := by
  rw [setOutput]
  change (chip.observe _).levels pin = _
  rw [levels_observe, List.filterMap_filterMap]
  congr 1
  have found : ((List.range 16).filterMap fun n =>
      (if (chip.peek (port.base + Gpio.odr) ^^^ value).getLsbD n then
        some (Event.levelChanged ⟨port, BitVec.ofNat 8 n⟩ (Level.ofBool (value.getLsbD n)))
      else none).bind (Event.levelOf? pin)) =
      (if pin.port = port ∧ value.getLsbD pin.number.toNat ≠ chip.outputBit pin then
        some (Level.ofBool (value.getLsbD pin.number.toNat)) else none).toList := by
    apply filterMap_range_single valid
    intro n small
    have bit : ((chip.peek (port.base + Gpio.odr) ^^^ value).getLsbD n = true) ↔
        value.getLsbD n ≠ (chip.peek (port.base + Gpio.odr)).getLsbD n := by
      rw [BitVec.getLsbD_xor]
      cases (chip.peek (port.base + Gpio.odr)).getLsbD n <;> cases value.getLsbD n <;> simp
    by_cases shown : n = pin.number.toNat ∧ pin.port = port
    · obtain ⟨rfl, rfl⟩ := shown
      simp only [bit, outputBit, if_true, true_and]
      split
      · simp [Event.levelOf?]
      · rfl
    · have nothing : (if n = pin.number.toNat then
          if pin.port = port ∧ value.getLsbD pin.number.toNat ≠ chip.outputBit pin then
            some (Level.ofBool (value.getLsbD pin.number.toNat)) else none
          else none) = none := by
        split_ifs with here there
        · exact (shown ⟨here, there.1⟩).elim
        · rfl
        · rfl
      rw [nothing]
      split
      · exact if_neg fun same => shown ((pin_eq_iff small).mp same)
      · rfl
  refine found.trans ?_
  split <;> rfl

/-- Giving the outputs of a port a value of sixteen bits keeps the log in step with them. -/
theorem Replays.setOutput (replays : chip.Replays) (port : Port) (small : value.toNat < 0x10000) :
    (chip.setOutput port value).Replays where
  alternate pin valid := by
    rw [levels_setOutput valid]
    split
    · next changed =>
      apply (replays.alternate pin valid).concat
      rw [Level.isHigh_ofBool, ← replays.output pin valid]
      exact changed.2
    · rw [List.append_nil]
      exact replays.alternate pin valid
  output pin valid := by
    rw [levels_setOutput valid, outputBit, peek_setOutput]
    have register : port.base + Gpio.odr = pin.port.base + Gpio.odr ↔ pin.port = port := by
      constructor
      · intro same
        have decoded := decode_output port
        rw [same, decode_output] at decoded
        exact (Block.gpio.inj decoded).1
      · rintro rfl
        rfl
    by_cases own : pin.port = port
    · rw [if_pos (register.mpr own)]
      split
      · rw [lastLevel_concat, Level.isHigh_ofBool]
      · next kept =>
        rw [List.append_nil, ← replays.output pin valid]
        by_contra changed
        exact kept ⟨own, changed⟩
    · rw [if_neg (mt register.mp own), if_neg fun h => own h.1, List.append_nil]
      exact replays.output pin valid
  upper other := by
    rw [peek_setOutput]
    split
    · exact small
    · exact replays.upper other

/-! ## Stores -/

/-- All outputs are the same, and nothing was observed of them. -/
structure SameOutputs (chip after : Chip) : Prop where
  register : ∀ port : Port, after.peek (port.base + Gpio.odr) = chip.peek (port.base + Gpio.odr)
  levels : ∀ pin, after.levels pin = chip.levels pin

theorem SameOutputs.replays (same : SameOutputs chip after) (replays : chip.Replays) :
    after.Replays where
  alternate pin valid := by
    rw [same.levels]
    exact replays.alternate pin valid
  output pin valid := by
    rw [same.levels, outputBit, same.register]
    exact replays.output pin valid
  upper port := by
    rw [same.register]
    exact replays.upper port

/-- A chip that differs in what surrounds its registers has the same outputs. -/
theorem SameOutputs.of_eq (registers : after.registers = chip.registers)
    (events : after.events = chip.events) : SameOutputs chip after where
  register port := by rw [peek, registers, peek]
  levels pin := by rw [Chip.levels, events, Chip.levels]

theorem Replays.of_eq (replays : chip.Replays) (registers : after.registers = chip.registers)
    (events : after.events = chip.events) : after.Replays :=
  (SameOutputs.of_eq registers events).replays replays

theorem SameOutputs.poke (other : ∀ port : Port, address ≠ port.base + Gpio.odr) (value : Word) :
    SameOutputs chip (chip.poke address value) where
  register port := by rw [peek_poke, if_neg (other port)]
  levels _ := rfl

theorem SameOutputs.storeControl (c : Channel) (value : Word) :
    SameOutputs chip (chip.storeControl c value) where
  register port := by
    rw [peek_storeControl, if_neg (Dma1.register_ne_output c Dma1.ccr_inside port)]
  levels pin := by rw [Chip.levels, events_storeControl, Chip.levels]

theorem levels_transmit (chip : Chip) (byte : Byte) (pin : PinId) :
    (chip.transmit byte).levels pin = chip.levels pin := by
  simp [levels, transmit, Event.levelOf?]

/-- A store outside of all ports leaves the outputs alone. -/
theorem StoreEffect.sameOutputs (effect : StoreEffect chip address value after)
    (outside : ∀ port offset, Block.decode address ≠ .gpio port offset) :
    SameOutputs chip after := by
  cases effect with
  | lost => exact .of_eq rfl rfl
  | output port offset _ place inside =>
    exact (outside port offset (Block.decode_eq_gpio_iff.mpr ⟨place, inside⟩)).elim
  | sent => exact ⟨fun _ => rfl, levels_transmit _ _⟩
  | cleared =>
    refine .poke (fun port same => ?_) _
    have decoded := decode_output port
    rw [← same, decode_flags] at decoded
    cases decoded
  | control c => exact .storeControl c value
  | replaced plain => exact .poke plain.not_output value

/-- Each of the three registers that reach a port's outputs gives them a value of sixteen bits. -/
theorem Replays.storeGpio (replays : chip.Replays) (port : Port) {offset : Word}
    (inside : offset.toNat < 0x400) (value : Word) :
    (chip.storeGpio port offset value).Replays := by
  have before := replays.upper port
  have low : (value &&& 0xFFFF).toNat < 0x10000 := by
    rw [BitVec.toNat_and]
    exact Nat.and_lt_two_pow (n := 16) _ (by decide)
  have kept (mask : Word) : (chip.peek (port.base + Gpio.odr) &&& mask).toNat < 0x10000 := by
    rw [BitVec.toNat_and]
    exact Nat.lt_of_le_of_lt Nat.and_le_left before
  simp only [Chip.storeGpio]
  split
  · apply replays.setOutput
    rw [BitVec.toNat_or]
    exact Nat.or_lt_two_pow (n := 16) (kept _) low
  split
  · exact replays.setOutput port (kept _)
  split
  · exact replays.setOutput port low
  next notOutput =>
  split
  · exact replays
  · apply (SameOutputs.poke (fun other same => notOutput ?_) value).replays replays
    have decoded := decode_output other
    rw [← same, Block.decode_eq_gpio_iff.mpr ⟨rfl, inside⟩] at decoded
    exact (Block.gpio.inj decoded).2

/-- Every store keeps the log in step with the outputs. -/
theorem Replays.store (replays : chip.Replays) (address value : Word) :
    (chip.store address value).Replays := by
  have effect := store_effect chip address value
  cases decoded : Block.decode address with
  | gpio port offset =>
    simp only [Chip.store, decoded]
    split
    · exact replays.storeGpio port (Block.decode_eq_gpio_iff.mp decoded).2 value
    · exact replays
  | usart3 | dma1 | other =>
    apply (effect.sameOutputs ?_).replays replays
    intro port offset gpio
    cases decoded.symm.trans gpio

/-! ## Runs -/

theorem Booked.sameOutputs {c : Channel} (books : Booked c chip after) :
    SameOutputs chip after where
  register port := by
    apply books.peek
    · intro same
      have decoded := decode_output port
      rw [same, decode_flags] at decoded
      cases decoded
    · exact fun field small same => Dma1.register_ne_output c small port same.symm
  levels pin := by rw [levels, books.events, levels]

theorem SameOutputs.breakpoint (chip : Chip) : SameOutputs chip chip.breakpoint where
  register _ := rfl
  levels pin := by
    change (chip.observe [.breakpoint]).levels pin = _
    rw [levels_observe]
    exact List.append_nil _

/-- A turn of a channel keeps the log in step, wherever the channel is aimed. -/
theorem Replays.turn (replays : chip.Replays) (c : Channel) :
    (Part.after chip (.turn c)).Replays := by
  have effect := turn_effect c chip
  rw [Part.after]
  generalize stateAfter (serveChannel c) chip = after at effect ⊢
  cases effect with
  | rest => exact replays
  | failed books => exact books.sameOutputs.replays replays
  | carried byte _ _ _ books => exact books.sameOutputs.replays (replays.store _ _)

/-- An action that takes no time keeps the log in step, unless it clears the log. -/
theorem Replays.instant (replays : chip.Replays) {action : Action}
    (instant : action.instant = true) (kept : action ≠ .clearEvents) :
    (Part.after chip (.whole action)).Replays := by
  cases action with
  | read | nop => cases instant
  | write address value =>
    have noted : { chip with written := chip.written.insert address value }.Replays :=
      replays.of_eq rfl rfl
    exact noted.store address value
  | breakpoint => exact (SameOutputs.breakpoint chip).replays replays
  | share bytes =>
    obtain ⟨regions, next, shared⟩ := stateAfter_share chip bytes
    rw [Part.after, shared]
    exact replays.of_eq rfl rfl
  | clearEvents => exact (kept rfl).elim
  | drive | release | connect | pushReceived | setLatency => exact replays.of_eq rfl rfl

/-- Time and loads keep the log in step. -/
theorem Replays.lasting : Recorded.Lasting fun r => r.chip.Replays where
  countDown _ replays := replays.of_eq rfl rfl
  countNop _ replays := replays.of_eq rfl rfl
  load r address replays := by
    obtain ⟨rest, loaded⟩ := stateAfter_load r.chip address
    change (stateAfter (load address) r.chip).Replays
    rw [loaded]
    exact replays.of_eq rfl rfl
  turn _ _ c _ _ _ replays := replays.turn c

/-- Every action keeps the log in step, also one that faults, unless it clears the log. -/
theorem Replays.perform (replays : chip.Replays) {action : Action} (kept : action ≠ .clearEvents) :
    (stateAfter action.perform chip).Replays := by
  have recorded : (stateAfter (Recorded.act action) ⟨chip, []⟩).chip.Replays :=
    Recorded.act_upholds Replays.lasting (fun instant r replays => replays.instant instant kept)
      ⟨chip, []⟩ replays
  rwa [(Recorded.act_projects action).stateAfter] at recorded

theorem replays_reset : Chip.reset.Replays where
  alternate _ _ := .nil
  output pin _ := by
    have zero : Chip.reset.peek (pin.port.base + Gpio.odr) = 0 := Registers.get_zero _
    rw [outputBit, zero]
    exact BitVec.getLsbD_zero
  upper port := by
    have zero : Chip.reset.peek (port.base + Gpio.odr) = 0 := Registers.get_zero _
    rw [zero]
    decide

/-- Unless the log is cleared, it replays to the output registers: the levels observed of every
pin alternate, starting with high, the last one is the pin's output bit, and no port's output
register has a bit above its sixteen pins. -/
theorem Reachable.outputs_replay (reachable : Reachable (· ≠ .clearEvents) chip) :
    chip.Replays := by
  induction reachable with
  | reset => exact replays_reset
  | perform action _ kept returned replays =>
    have reached := replays.perform kept
    rwa [stateAfter_of_ok returned] at reached

/-- The chip after the first pin of port B was set and reset. -/
def blinked : Chip :=
  ((reset.write Rcc.ahb2enr (Rcc.portEnable .b)).write (Port.b.base + Gpio.bsrr) 0x1).write
    (Port.b.base + Gpio.brr) 0xFFFF0001

theorem Reachable.outputs_replay_after_blink :
    Reachable (· ≠ .clearEvents) blinked ∧ blinked.levels ⟨.b, 0⟩ = [.high, .low] ∧
      blinked.Replays := by
  have reachable : Reachable (· ≠ .clearEvents) blinked :=
    ((Reachable.reset.write _ _ nofun).write _ _ nofun).write _ _ nofun
  exact ⟨reachable, by decide +kernel, reachable.outputs_replay⟩

end Chip

end Peripherals
