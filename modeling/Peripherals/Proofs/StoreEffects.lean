import Peripherals.Chip.Device
import Peripherals.Proofs.AddressDecoding

/-! # What a store can do

A store ends in one of six ways: it is lost, it drives a port's outputs, it puts
a byte on the line, it clears DMA flags, it gives a channel a new control value,
or it replaces the value at its address and nothing else. What later proofs need
of a store follows from these six cases. -/

namespace Peripherals

/-- The byte that an event put on the line, if it put one there. -/
def Event.byte? : Event → Option Byte
  | .transmitted byte => some byte
  | .levelChanged _ _ | .breakpoint => none

namespace Chip

/-- Addresses whose stores replace one value: no output, data, flag or control register, and no
register of an enabled channel. -/
structure Plain (chip : Chip) (address : Word) : Prop where
  not_output : ∀ port : Port, address ≠ port.base + Gpio.odr
  not_data : address ≠ Usart3.base + Usart3.tdr
  not_flags : address ≠ Dma1.base + Dma1.isr
  not_control : ∀ c, address ≠ Dma1.register c Dma1.ccr
  unlocked : ∀ c offset, offset.toNat < 0x14 → address = Dma1.register c offset →
    chip.channelEnabled c = false

/-- The ways in which a store can end. -/
inductive StoreEffect (chip : Chip) (address value : Word) : Chip → Prop
  | lost : StoreEffect chip address value chip
  | output (port : Port) (offset level : Word) (place : address = port.base + offset)
      (inside : offset.toNat < 0x400) : StoreEffect chip address value (chip.setOutput port level)
  | sent (place : address = Usart3.base + Usart3.tdr)
      (on : chip.usartHas (Usart3.enable ||| Usart3.transmitterEnable) = true) :
      StoreEffect chip address value (chip.transmit (value.setWidth 8))
  | cleared (place : address = Dma1.base + Dma1.ifcr) :
      StoreEffect chip address value
        (chip.poke (Dma1.base + Dma1.isr) (chip.peek (Dma1.base + Dma1.isr) &&& ~~~value))
  | control (c : Channel) (place : address = Dma1.register c Dma1.ccr) :
      StoreEffect chip address value (chip.storeControl c value)
  | replaced (plain : chip.Plain address) :
      StoreEffect chip address value (chip.poke address value)

variable {chip after : Chip} {address value : Word}

theorem decode_output (port : Port) :
    Block.decode (port.base + Gpio.odr) = .gpio port Gpio.odr :=
  Block.decode_eq_gpio_iff.mpr ⟨rfl, by decide⟩

theorem decode_data : Block.decode (Usart3.base + Usart3.tdr) = .usart3 Usart3.tdr := rfl

theorem decode_flags : Block.decode (Dma1.base + Dma1.isr) = .dma1 Dma1.isr := rfl

/-- Outside of DMA1, an address is plain if it is neither an output nor the data register. -/
theorem plain_of_decode (notDma : ∀ offset, Block.decode address ≠ .dma1 offset)
    (notOutput : ∀ port, Block.decode address ≠ .gpio port Gpio.odr)
    (notData : Block.decode address ≠ .usart3 Usart3.tdr) : chip.Plain address where
  not_output port h := notOutput port (h ▸ decode_output port)
  not_data h := notData (h ▸ decode_data)
  not_flags h := notDma _ (h ▸ decode_flags)
  not_control c h := notDma _ (h ▸ Dma1.decode_register c Dma1.ccr_inside)
  unlocked c _ small h := (notDma _ (h ▸ Dma1.decode_register c small)).elim

theorem storeGpio_effect {port : Port} {offset : Word}
    (h : Block.decode address = .gpio port offset) :
    StoreEffect chip address value (chip.storeGpio port offset value) := by
  obtain ⟨place, inside⟩ := Block.decode_eq_gpio_iff.mp h
  rw [storeGpio]
  split
  · exact .output port offset _ place inside
  split
  · exact .output port offset _ place inside
  split
  · exact .output port offset _ place inside
  split
  · exact .lost
  · next notOutput _ =>
    rw [← place]
    refine .replaced (plain_of_decode ?_ ?_ ?_) <;> simp [h, notOutput]

theorem storeUsart_effect {offset : Word} (h : Block.decode address = .usart3 offset) :
    StoreEffect chip address value (chip.storeUsart offset value) := by
  obtain ⟨place, -⟩ := Block.decode_eq_usart3_iff.mp h
  rw [storeUsart]
  split
  · next data =>
    subst data
    split
    · next on => exact .sent place on
    · exact .lost
  split
  · exact .lost
  · next notData _ =>
    rw [← place]
    refine .replaced (plain_of_decode ?_ ?_ ?_) <;> simp [h, notData]

/-- In DMA1, an address is plain if it is no flag register, and no register of a channel that
is enabled or controls one. -/
theorem plain_of_decode_dma1 {offset : Word} (h : Block.decode address = .dma1 offset)
    (notFlags : offset ≠ Dma1.isr)
    (channel : ∀ c field, Dma1.channelAt? offset = some (c, field) →
      field ≠ Dma1.ccr ∧ chip.channelEnabled c = false) : chip.Plain address where
  not_output port same := by
    rw [same, decode_output] at h
    cases h
  not_data same := by
    rw [same, decode_data] at h
    cases h
  not_flags same := by
    rw [same, decode_flags] at h
    exact notFlags (Block.dma1.inj h).symm
  not_control c same := by
    rw [same, Dma1.decode_register c Dma1.ccr_inside] at h
    obtain rfl := Block.dma1.inj h
    exact (channel c _ (Dma1.channelAt?_register c Dma1.ccr_inside)).1 rfl
  unlocked c field small same := by
    rw [same, Dma1.decode_register c small] at h
    obtain rfl := Block.dma1.inj h
    exact (channel c _ (Dma1.channelAt?_register c small)).2

theorem storeDma_effect {offset : Word} (h : Block.decode address = .dma1 offset) :
    StoreEffect chip address value (chip.storeDma offset value) := by
  obtain ⟨place, -⟩ := Block.decode_eq_dma1_iff.mp h
  rw [storeDma]
  split
  · exact .lost
  next notFlags =>
  split
  · next clear => exact .cleared (clear ▸ place)
  split
  · next c field found =>
    obtain ⟨same, small⟩ := Dma1.channelAt?_eq_some_iff.mp found
    split
    · next control => exact .control c (by rw [place, same, control])
    split
    · exact .lost
    · next notControl unlocked =>
      rw [← place]
      refine .replaced (plain_of_decode_dma1 h notFlags fun d other found' => ?_)
      obtain ⟨rfl, rfl⟩ := Prod.mk.inj (Option.some.inj (found.symm.trans found'))
      exact ⟨notControl, by simpa using unlocked⟩
  · next found =>
    rw [← place]
    refine .replaced (plain_of_decode_dma1 h notFlags fun d other found' => ?_)
    rw [found] at found'
    cases found'

/-- Every store ends in one of the six ways. -/
theorem store_effect (chip : Chip) (address value : Word) :
    StoreEffect chip address value (chip.store address value) := by
  rw [store]
  split
  · split
    · next h => exact storeGpio_effect h
    · next h => exact storeUsart_effect h
    · next h => exact storeDma_effect h
    · next h => exact .replaced (plain_of_decode (by simp [h]) (by simp [h]) (by simp [h]))
  · exact .lost

/-! ## Registers -/

theorem peek_setOutput (chip : Chip) (port : Port) (value other : Word) :
    (chip.setOutput port value).peek other =
      if port.base + Gpio.odr = other then value else chip.peek other :=
  peek_poke _ _ _ _

theorem peek_storeControl (chip : Chip) (c : Channel) (value other : Word) :
    (chip.storeControl c value).peek other =
      if Dma1.register c Dma1.ccr = other then value else chip.peek other := by
  simp only [storeControl]
  split
  · rw [peek_setLatch, peek_poke]
  split
  · rw [peek_poke]
  · rw [peek_setLatch, peek_poke]

/-- The DMA flags change only through their clear register, and are only ever cleared. -/
theorem StoreEffect.flags (effect : StoreEffect chip address value after) :
    after.peek (Dma1.base + Dma1.isr) = chip.peek (Dma1.base + Dma1.isr) ∨
      address = Dma1.base + Dma1.ifcr ∧
        after.peek (Dma1.base + Dma1.isr) = chip.peek (Dma1.base + Dma1.isr) &&& ~~~value := by
  cases effect with
  | lost => exact .inl rfl
  | output port =>
    left
    rw [peek_setOutput, if_neg]
    intro same
    have decoded := decode_output port
    rw [same, decode_flags] at decoded
    cases decoded
  | sent => exact .inl rfl
  | cleared place =>
    right
    refine ⟨place, ?_⟩
    rw [peek_poke, if_pos rfl]
  | control c =>
    left
    rw [peek_storeControl, if_neg (Dma1.register_ne_flags c Dma1.ccr_inside)]
  | replaced plain =>
    left
    rw [peek_poke, if_neg plain.not_flags]

theorem StoreEffect.flags_of_ne (effect : StoreEffect chip address value after)
    (ne : address ≠ Dma1.base + Dma1.ifcr) :
    after.peek (Dma1.base + Dma1.isr) = chip.peek (Dma1.base + Dma1.isr) :=
  effect.flags.resolve_right fun cleared => ne cleared.1

/-! ## Hidden state -/

theorem latch_storeControl_of_ne {c d : Channel} (h : d ≠ c) :
    (chip.storeControl d value).latch c = chip.latch c := by
  simp only [storeControl]
  split
  · rw [latch_setLatch, if_neg h]
    rfl
  split
  · rfl
  · rw [latch_setLatch, if_neg h]
    rfl

theorem StoreEffect.regions_eq (effect : StoreEffect chip address value after) :
    after.regions = chip.regions ∧ after.nextRegion = chip.nextRegion := by
  cases effect with
  | lost | output | sent | cleared | replaced => exact ⟨rfl, rfl⟩
  | control =>
    rw [storeControl]
    split
    · exact ⟨rfl, rfl⟩
    split <;> exact ⟨rfl, rfl⟩

/-! ## The line -/

theorem transmitted_eq (chip : Chip) :
    chip.transmitted = chip.events.toList.filterMap Event.byte? := by
  rw [transmitted]
  congr 1
  funext event
  cases event <;> rfl

theorem transmitted_observe (chip : Chip) (events : List Event) :
    (chip.observe events).transmitted = chip.transmitted ++ events.filterMap Event.byte? := by
  simp [transmitted_eq, observe]

/-- Bytes on the line are the bytes of what is observed of them. -/
theorem filterMap_byte?_map (bytes : List Byte) :
    (bytes.map Event.transmitted).filterMap Event.byte? = bytes := by
  rw [List.filterMap_map]
  exact List.filterMap_some

theorem transmitted_transmit (chip : Chip) (byte : Byte) :
    (chip.transmit byte).transmitted = chip.transmitted ++ [byte] := by
  simp [transmitted_eq, transmit, Event.byte?]

theorem transmitted_setOutput (chip : Chip) (port : Port) (value : Word) :
    (chip.setOutput port value).transmitted = chip.transmitted := by
  change (chip.observe _).transmitted = _
  have quiet (levels : List Event) (h : ∀ event ∈ levels, event.byte? = none) :
      levels.filterMap Event.byte? = [] := List.filterMap_eq_nil_iff.mpr h
  rw [transmitted_observe, quiet, List.append_nil]
  intro event member
  obtain ⟨n, -, changed⟩ := List.mem_filterMap.mp member
  split at changed
  · obtain rfl := Option.some.inj changed
    rfl
  · cases changed

theorem events_storeControl (chip : Chip) (c : Channel) (value : Word) :
    (chip.storeControl c value).events = chip.events := by
  rw [storeControl]
  split
  · rfl
  split <;> rfl

/-- Only a store into the data register puts a byte on the line. -/
theorem StoreEffect.transmitted_of_ne (effect : StoreEffect chip address value after)
    (ne : address ≠ Usart3.base + Usart3.tdr) : after.transmitted = chip.transmitted := by
  cases effect with
  | lost | cleared | replaced => rfl
  | output => exact transmitted_setOutput _ _ _
  | sent place => exact (ne place).elim
  | control c => rw [transmitted_eq, events_storeControl, transmitted_eq]

end Chip

end Peripherals
