import Peripherals.Proofs.OutputLog

/-! # Blocks behind a clock gate

A port, USART3 and DMA1 each have a bit in a clock enable register. While the
bit is clear, a store into the block is lost, a load gives zero and changes
nothing, and the block's engine stands still. A store elsewhere and the turn of
a channel leave the block as it is, so nothing short of its enable register
wakes it. -/

namespace Peripherals

open Chip

/-- A block that has a clock gate. -/
inductive Gated
  | gpio (port : Port)
  | serial
  | dma

/-- Where a channel stores an item in its turn, if it moves one. -/
def Chip.itemTarget? (chip : Chip) (c : Channel) : Option Word :=
  if (chip.latch c).active ∧ chip.canMove c ∧
      (chip.memoryByte? (chip.latch c).memory).isSome then
    some (chip.latch c).target
  else none

theorem Chip.itemTarget?_eq_some {chip : Chip} {c : Channel} {byte : Byte}
    (active : (chip.latch c).active = true) (able : chip.canMove c = true)
    (mapped : chip.memoryByte? (chip.latch c).memory = some byte) :
    chip.itemTarget? c = some (chip.latch c).target :=
  if_pos ⟨active, able, by rw [mapped]; rfl⟩

namespace Gated

/-- The register with the block's clock enable bit. -/
def register : Gated → Word
  | .gpio _ => Rcc.ahb2enr
  | .serial => Rcc.apb1lenr
  | .dma => Rcc.ahb1enr

/-- The block's clock enable bit. -/
def mask : Gated → Word
  | .gpio port => Rcc.portEnable port
  | .serial => Rcc.usart3Enable
  | .dma => Rcc.dma1Enable

/-- An address lies in the block. -/
def Holds (gated : Gated) (address : Word) : Prop :=
  match gated, Block.decode address with
  | .gpio port, .gpio other _ => other = port
  | .serial, .usart3 _ => True
  | .dma, .dma1 _ => True
  | _, _ => False

/-- The block's clock enable bit is clear. -/
def Off (gated : Gated) (chip : Chip) : Prop :=
  chip.peek gated.register &&& gated.mask = 0

variable {gated : Gated} {chip middle after : Chip} {c : Channel} {address value : Word}

theorem clocked_of_holds (holds : gated.Holds address) :
    chip.clocked (Block.decode address) = true ↔ ¬gated.Off chip := by
  rw [Off, ← ne_eq, ← bne_iff_ne]
  cases gated <;> cases decoded : Block.decode address <;>
    simp_all [Holds, register, mask, clocked]

theorem decode_register (gated : Gated) : Block.decode gated.register = .other := by
  have ahb1 : Block.decode Rcc.ahb1enr = .other := rfl
  have ahb2 : Block.decode Rcc.ahb2enr = .other := rfl
  have apb1 : Block.decode Rcc.apb1lenr = .other := rfl
  cases gated with
  | gpio => exact ahb2
  | serial => exact apb1
  | dma => exact ahb1

/-- The enable register lies in no block that has a clock gate. -/
theorem not_holds_register (gated other : Gated) : ¬gated.Holds other.register := by
  cases gated <;> simp [Holds, decode_register]

/-- Addresses of the block differ from all others. -/
theorem ne_of_holds (holds : gated.Holds address) {elsewhere : Word}
    (outside : ¬gated.Holds elsewhere) : elsewhere ≠ address := by
  rintro rfl
  exact outside holds

theorem holds_output {port : Port} {offset : Word} (inside : offset.toNat < 0x400)
    (holds : gated.Holds (port.base + Gpio.odr)) : gated.Holds (port.base + offset) := by
  have decoded := Block.decode_eq_gpio_iff.mpr
    (⟨rfl, inside⟩ : port.base + offset = _ ∧ _)
  cases gated <;> simp_all [Holds, decode_output]

theorem holds_flags (holds : gated.Holds (Dma1.base + Dma1.isr)) : gated = .dma := by
  cases gated <;> simp_all [Holds, decode_flags]

theorem dma_holds_register (c : Channel) {offset : Word} (small : offset.toNat < 0x14) :
    Gated.dma.Holds (Dma1.register c offset) := by
  simp [Holds, Dma1.decode_register c small]

/-! ## What keeps a block as it is -/

/-- What a block shows beside its registers: the levels observed of a port's pins, the bytes sent
and those that wait to be received, or what the channels work with. -/
def Still (gated : Gated) (chip after : Chip) : Prop :=
  match gated with
  | .gpio port => ∀ pin : PinId, pin.port = port → pin.number.toNat < 16 →
    after.levels pin = chip.levels pin
  | .serial => after.transmitted = chip.transmitted ∧ after.received = chip.received
  | .dma => ∀ c, after.latch c = chip.latch c

theorem Still.of_eq (channels : after.channels = chip.channels)
    (events : after.events = chip.events) (received : after.received = chip.received) :
    gated.Still chip after := by
  cases gated with
  | gpio => exact fun pin _ _ => by rw [levels, events, levels]
  | serial => exact ⟨by rw [transmitted_eq, events, transmitted_eq], received⟩
  | dma => exact fun c => by rw [latch, channels, latch]

/-- A block and its enable register are the same in both chips. -/
structure Kept (gated : Gated) (chip after : Chip) : Prop where
  gate : after.peek gated.register = chip.peek gated.register
  registers : ∀ address, gated.Holds address → after.peek address = chip.peek address
  still : gated.Still chip after

namespace Kept

theorem refl (gated : Gated) (chip : Chip) : gated.Kept chip chip where
  gate := rfl
  registers _ _ := rfl
  still := by cases gated <;> simp [Still]

theorem trans (first : gated.Kept chip middle) (second : gated.Kept middle after) :
    gated.Kept chip after where
  gate := second.gate.trans first.gate
  registers address holds := (second.registers address holds).trans (first.registers address holds)
  still := by
    have before := first.still
    have later := second.still
    cases gated <;> simp_all [Still]

theorem off (kept : gated.Kept chip after) (off : gated.Off chip) : gated.Off after := by
  rwa [Off, kept.gate]

/-- What surrounds the registers, the latches, the queue and the log may change. -/
theorem of_eq (registers : after.registers = chip.registers)
    (channels : after.channels = chip.channels) (events : after.events = chip.events)
    (received : after.received = chip.received) : gated.Kept chip after where
  gate := by rw [peek, registers, peek]
  registers address _ := by rw [peek, registers, peek]
  still := .of_eq channels events received

end Kept

/-- A store changes its own register, an output of its own port, or the flags. -/
theorem peek_of_store (effect : StoreEffect chip address value after) {other : Word}
    (notOwn : address ≠ other)
    (notOutput : ∀ (port : Port) (offset : Word), address = port.base + offset →
      offset.toNat < 0x400 → port.base + Gpio.odr ≠ other)
    (notFlags : address = Dma1.base + Dma1.ifcr → Dma1.base + Dma1.isr ≠ other) :
    after.peek other = chip.peek other := by
  cases effect with
  | lost | sent => rfl
  | output port offset level place inside =>
    rw [peek_setOutput, if_neg (notOutput port offset place inside)]
  | cleared place => rw [peek_poke, if_neg (notFlags place)]
  | control c place => rw [peek_storeControl, if_neg (place ▸ notOwn)]
  | replaced => rw [peek_poke, if_neg notOwn]

/-- A new control value changes registers and a latch. -/
theorem storeControl_eq (chip : Chip) (c : Channel) (value : Word) : ∃ registers channels,
    chip.storeControl c value = { chip with registers := registers, channels := channels } := by
  rw [storeControl]
  split
  · exact ⟨_, _, rfl⟩
  split
  · exact ⟨_, chip.channels, rfl⟩
  · exact ⟨_, _, rfl⟩

theorem still_of_store (effect : StoreEffect chip address value after)
    (outside : ¬gated.Holds address) : gated.Still chip after := by
  cases effect with
  | lost | cleared | replaced => exact Still.of_eq rfl rfl rfl
  | output port offset level place inside =>
    cases gated with
    | gpio own =>
      have decoded := Block.decode_eq_gpio_iff.mpr ⟨place, inside⟩
      intro pin home valid
      rw [levels_setOutput valid, if_neg, List.append_nil]
      rintro ⟨there, -⟩
      apply outside
      simp only [Holds, decoded]
      exact there.symm.trans home
    | serial => exact ⟨transmitted_setOutput _ _ _, rfl⟩
    | dma => exact fun _ => rfl
  | sent place =>
    cases gated with
    | gpio => exact fun pin _ _ => levels_transmit _ _ pin
    | serial => exact (outside (place ▸ trivial)).elim
    | dma => exact fun _ => rfl
  | control c place =>
    obtain ⟨registers, channels, same⟩ := storeControl_eq chip c value
    cases gated with
    | gpio => exact fun pin _ _ => by rw [same]; rfl
    | serial => exact ⟨by rw [same]; rfl, by rw [same]⟩
    | dma => exact (outside (place ▸ dma_holds_register c Dma1.ccr_inside)).elim

/-- A store outside of a block, and not to its enable register, leaves the block as it is. -/
theorem kept_of_store (effect : StoreEffect chip address value after)
    (outside : ¬gated.Holds address) (spares : address ≠ gated.register) :
    gated.Kept chip after where
  gate := by
    have decoded := gated.decode_register
    apply peek_of_store effect spares
    · intro port offset _ _ same
      rw [← same, decode_output] at decoded
      cases decoded
    · intro _ same
      rw [← same, decode_flags] at decoded
      cases decoded
  registers other holds := by
    apply peek_of_store effect (ne_of_holds holds outside)
    · rintro port offset rfl inside rfl
      exact outside (holds_output inside holds)
    · rintro rfl rfl
      obtain rfl := holds_flags holds
      exact outside trivial
  still := still_of_store effect outside

/-- Outside of USART3 a load changes nothing. -/
theorem stateAfter_load_elsewhere (chip : Chip) (outside : ¬Gated.serial.Holds address) :
    stateAfter (load address) chip = chip := by
  rw [stateAfter]
  cases decoded : Block.decode address with
  | usart3 offset => exact (outside (by simp [Holds, decoded])).elim
  | gpio port offset =>
    simp only [load, EStateM.run, decoded]
    split_ifs
    · cases chip.inputData port <;> rfl
    · rfl
    · rfl
  | dma1 | other =>
    simp only [load, EStateM.run, decoded]
    split_ifs <;> rfl

/-! ## The gate closed -/

section Off

variable (off : gated.Off chip)

include off

theorem not_clocked (holds : gated.Holds address) :
    ¬chip.clocked (Block.decode address) = true :=
  fun clocked => (clocked_of_holds holds).mp clocked off

/-- A load from the block gives zero and changes nothing. -/
theorem load_off (holds : gated.Holds address) : (load address).run chip = .ok 0 chip := by
  simp only [load, EStateM.run, if_neg (not_clocked off holds)]

/-- A store into the block is lost. -/
theorem store_off (holds : gated.Holds address) (value : Word) :
    chip.store address value = chip := by
  simp only [store, if_neg (not_clocked off holds)]

theorem kept_of_store_off (spares : address ≠ gated.register) (value : Word) :
    gated.Kept chip (chip.store address value) := by
  by_cases holds : gated.Holds address
  · rw [store_off off holds]
    exact .refl gated chip
  · exact kept_of_store (store_effect chip address value) holds spares

theorem kept_of_write (spares : address ≠ gated.register) (value : Word) :
    gated.Kept chip (chip.write address value) := by
  have noted : gated.Kept chip { chip with written := chip.written.insert address value } :=
    .of_eq rfl rfl rfl rfl
  exact noted.trans (kept_of_store_off (noted.off off) spares value)

/-- A load leaves the block as it is, also where the block is USART3 and bytes wait there. -/
theorem kept_of_load (address : Word) : gated.Kept chip (stateAfter (load address) chip) := by
  obtain ⟨rest, loaded⟩ := stateAfter_load chip address
  cases gated with
  | gpio | dma =>
    rw [loaded]
    exact ⟨rfl, fun _ _ => rfl, by simp [Still, levels, latch]⟩
  | serial =>
    by_cases holds : Gated.serial.Holds address
    · rw [stateAfter, load_off off holds]
      exact .refl _ chip
    · rw [stateAfter_load_elsewhere chip holds]
      exact .refl _ chip

end Off

/-- Beside its store, a channel's turn leaves every block but DMA1 as it is. -/
theorem kept_of_books (other : gated ≠ .dma) (books : Booked c chip after) :
    gated.Kept chip after := by
  have elsewhere (address : Word) (notDma : ∀ offset, Block.decode address ≠ .dma1 offset) :
      after.peek address = chip.peek address := by
    apply books.peek
    · rintro rfl
      exact notDma _ decode_flags
    · rintro field small rfl
      exact notDma _ (Dma1.decode_register c small)
  constructor
  · apply elsewhere
    rw [decode_register]
    exact fun _ => nofun
  · intro address holds
    apply elsewhere
    intro offset decoded
    cases gated <;> simp_all [Holds]
  · cases gated with
    | gpio => exact fun pin _ _ => by rw [levels, books.events, levels]
    | serial => exact ⟨books.transmitted, books.received⟩
    | dma => exact (other rfl).elim

/-- A channel's turn leaves every block but DMA1 as it is while the block has no clock, if it does
not store into the block's enable register. -/
theorem kept_of_turn (off : gated.Off chip) (other : gated ≠ .dma)
    (spares : chip.itemTarget? c ≠ some gated.register) :
    gated.Kept chip (stateAfter (serveChannel c) chip) := by
  have effect := turn_effect c chip
  generalize stateAfter (serveChannel c) chip = after at effect ⊢
  cases effect with
  | rest => exact .refl gated chip
  | failed books => exact kept_of_books other books
  | carried byte active able mapped books =>
    have target : (chip.latch c).target ≠ gated.register := by
      intro same
      exact spares ((itemTarget?_eq_some active able mapped).trans (congrArg some same))
    exact (kept_of_store_off off target _).trans (kept_of_books other books)

/-! ## The gate opened -/

/-- A load of the address gives what is stored there. -/
def Shown (address : Word) : Prop :=
  match Block.decode address with
  | .gpio _ offset => offset ≠ Gpio.idr
  | .usart3 offset => offset ≠ Usart3.isr ∧ offset ≠ Usart3.rdr
  | .dma1 _ | .other => True

theorem load_shown (on : ¬gated.Off chip) (holds : gated.Holds address) (shown : Shown address) :
    (load address).run chip = .ok (chip.peek address) chip := by
  have clock := (clocked_of_holds holds).mpr on
  simp only [load, EStateM.run, if_pos clock]
  rw [Shown] at shown
  split
  · next decoded =>
    rw [decoded] at shown
    rw [if_neg shown]
  · next decoded =>
    rw [decoded] at shown
    rw [if_neg shown.1, if_neg shown.2]
  · rfl

theorem peek_write_register (gated : Gated) (chip : Chip) (value other : Word) :
    (chip.write gated.register value).peek other =
      if gated.register = other then value else chip.peek other := by
  have written : chip.write gated.register value =
      { chip with written := chip.written.insert gated.register value }.poke
        gated.register value := by
    simp only [write, store, decode_register, clocked, if_true]
  rw [written, peek_poke]
  rfl

/-- A write to its enable register changes no register of a block. -/
theorem peek_write_held (holds : gated.Holds address) (chip : Chip) (value : Word) :
    (chip.write gated.register value).peek address = chip.peek address := by
  rw [peek_write_register, if_neg (ne_of_holds holds (gated.not_holds_register gated))]

/-- A block shows its registers as they were: to a look, to a load, and to a read whose tick
leaves the register and the clock alone. -/
structure Restored (gated : Gated) (before chip : Chip) : Prop where
  peek : ∀ address, gated.Holds address → chip.peek address = before.peek address
  load : ∀ address, gated.Holds address → Shown address →
    (Chip.load address).run chip = .ok (before.peek address) chip
  read : ∀ address ticked, gated.Holds address → Shown address →
    tick.run chip = .ok () ticked → ticked.peek address = chip.peek address →
      ¬gated.Off ticked →
        (Target.load address : EStateM Fault Chip Word).run chip =
          .ok (before.peek address) ticked

theorem restored_of_write {before : Chip}
    (same : ∀ address, gated.Holds address → chip.peek address = before.peek address)
    (enables : value &&& gated.mask ≠ 0) :
    gated.Restored before (chip.write gated.register value) := by
  have on : ¬gated.Off (chip.write gated.register value) := by
    rw [Off, peek_write_register, if_pos rfl]
    exact enables
  have shows (address : Word) (holds : gated.Holds address) :
      (chip.write gated.register value).peek address = before.peek address :=
    (peek_write_held holds chip value).trans (same address holds)
  constructor
  · exact shows
  · intro address holds shown
    rw [load_shown on holds shown, shows address holds]
  · intro address ticked holds shown passed kept clock
    have loads := load_shown clock holds shown
    rw [kept, shows address holds] at loads
    exact run_seq_eq_ok_iff.mpr ⟨ticked, passed, loads⟩

end Gated

/-- Outside of ports and DMA1, a channel's turn changes only its target. -/
theorem Chip.peek_turn {chip : Chip} {c : Channel} {address : Word}
    (notDma : ∀ offset, Block.decode address ≠ .dma1 offset)
    (notPort : ∀ port offset, Block.decode address ≠ .gpio port offset)
    (spares : chip.itemTarget? c ≠ some address) :
    (stateAfter (serveChannel c) chip).peek address = chip.peek address := by
  have kept {middle after : Chip} (books : Booked c middle after) :
      after.peek address = middle.peek address := by
    apply books.peek
    · rintro rfl
      exact notDma _ decode_flags
    · rintro field small rfl
      exact notDma _ (Dma1.decode_register c small)
  have effect := turn_effect c chip
  generalize stateAfter (serveChannel c) chip = after at effect ⊢
  cases effect with
  | rest => rfl
  | failed books => exact kept books
  | carried byte active able mapped books =>
    refine (kept books).trans (Gated.peek_of_store (store_effect _ _ _) ?_ ?_ ?_)
    · rintro rfl
      exact spares (itemTarget?_eq_some active able mapped)
    · rintro port _ - - rfl
      exact notPort port _ (decode_output port)
    · rintro - rfl
      exact notDma _ decode_flags

end Peripherals
