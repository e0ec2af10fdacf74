import Peripherals.Driver.Serial
import Peripherals.Proofs.ChannelFrame
import Peripherals.Proofs.Reachability

/-! # The line

The line works while USART3 and DMA1 are clocked and the transmitter is on, and
it asks channels for bytes while DMA requests are enabled. Most of what happens
to the chip disturbs neither the line nor the channels, their flags or the
memory that they read. -/

namespace Peripherals.Chip

variable {chip middle after : Chip} {address value : Word}

/-- The registers that the line depends on: two clock gates and two control registers. -/
def lineRegisters : List Word :=
  [Rcc.apb1lenr, Rcc.ahb1enr, Usart3.base + Usart3.cr1, Usart3.base + Usart3.cr3]

/-- The registers that the line depends on are the same in both chips. -/
def SameLine (chip after : Chip) : Prop :=
  ∀ address ∈ lineRegisters, after.peek address = chip.peek address

/-- USART3 and DMA1 are clocked, and the transmitter is on. -/
structure LineOn (chip : Chip) : Prop where
  serialClocked : chip.clocked (.usart3 0) = true
  dmaClocked : chip.clocked (.dma1 0) = true
  transmits : chip.usartHas (Usart3.enable ||| Usart3.transmitterEnable) = true

/-- The line is on and asks channels for bytes. -/
structure LineReady (chip : Chip) : Prop extends LineOn chip where
  requests : chip.peek (Usart3.base + Usart3.cr3) &&& Usart3.dmaTransmit ≠ 0

theorem LineOn.of_same (same : SameLine chip after) (line : chip.LineOn) : after.LineOn where
  serialClocked := by
    rw [clocked, same Rcc.apb1lenr (by simp [lineRegisters])]
    exact line.serialClocked
  dmaClocked := by
    rw [clocked, same Rcc.ahb1enr (by simp [lineRegisters])]
    exact line.dmaClocked
  transmits := by
    rw [usartHas, same (Usart3.base + Usart3.cr1) (by simp [lineRegisters])]
    exact line.transmits

theorem LineReady.of_same (same : SameLine chip after) (line : chip.LineReady) :
    after.LineReady where
  toLineOn := line.toLineOn.of_same same
  requests := by
    rw [same (Usart3.base + Usart3.cr3) (by simp [lineRegisters])]
    exact line.requests

/-- A register that the line depends on is no port's, no channel's and not the data register. -/
theorem decode_lineRegister (member : address ∈ lineRegisters) :
    Block.decode address = .other ∨ Block.decode address = .usart3 Usart3.cr1 ∨
      Block.decode address = .usart3 Usart3.cr3 := by
  simp only [lineRegisters, List.mem_cons, List.not_mem_nil, or_false] at member
  obtain rfl | rfl | rfl | rfl := member
  · exact .inl rfl
  · exact .inl rfl
  · exact .inr (.inl rfl)
  · exact .inr (.inr rfl)

theorem SameLine.refl (chip : Chip) : SameLine chip chip :=
  fun _ _ => rfl

theorem SameLine.trans (first : SameLine chip middle) (second : SameLine middle after) :
    SameLine chip after :=
  fun address member => (second address member).trans (first address member)

theorem SameLine.poke (outside : address ∉ lineRegisters) (value : Word) :
    SameLine chip (chip.poke address value) := by
  intro other member
  rw [peek_poke, if_neg]
  rintro rfl
  exact outside member

theorem register_not_line (c : Channel) {field : Word} (small : field.toNat < 0x14) :
    Dma1.register c field ∉ lineRegisters := by
  intro member
  have decoded := Dma1.decode_register c small
  obtain h | h | h := decode_lineRegister member <;> rw [h] at decoded <;> cases decoded

theorem flags_not_line : Dma1.base + Dma1.isr ∉ lineRegisters := by
  intro member
  have decoded := decode_flags
  obtain h | h | h := decode_lineRegister member <;> rw [h] at decoded <;> cases decoded

theorem output_not_line (port : Port) : port.base + Gpio.odr ∉ lineRegisters := by
  intro member
  have decoded := decode_output port
  obtain h | h | h := decode_lineRegister member <;> rw [h] at decoded <;> cases decoded

theorem SameLine.setOutput (port : Port) (value : Word) :
    SameLine chip (chip.setOutput port value) := by
  intro other member
  rw [peek_setOutput, if_neg]
  rintro rfl
  exact output_not_line port member

/-- A moved item changes the line no more than its store did. -/
theorem SameLine.moved (c : Channel) (byte : Byte) :
    SameLine (chip.stored c byte) (chip.moved c byte) := by
  intro other member
  apply peek_moved
  · rintro rfl
    exact flags_not_line member
  · rintro rfl
    exact register_not_line c Dma1.cndtr_inside member

/-- USART3 is clocked, and the transmitter is on. -/
structure TransmitterOn (chip : Chip) : Prop where
  serialClocked : chip.clocked (.usart3 0) = true
  transmits : chip.usartHas (Usart3.enable ||| Usart3.transmitterEnable) = true

/-- With the transmitter on, a byte that is stored into the data register is transmitted. -/
theorem TransmitterOn.store_data (on : chip.TransmitterOn) (byte : Byte) :
    chip.store Serial.target (byte.setWidth 32) = chip.transmit byte := by
  have clock : chip.clocked (.usart3 Usart3.tdr) = true := on.serialClocked
  have decoded : Block.decode Serial.target = .usart3 Usart3.tdr := decode_data
  have narrow : (byte.setWidth 32).setWidth 8 = byte := by simp
  simp only [store, decoded, clock, if_true, storeUsart, on.transmits, narrow]

theorem LineOn.transmitterOn (line : chip.LineOn) : chip.TransmitterOn :=
  ⟨line.serialClocked, line.transmits⟩

/-- So it is with the line on. -/
theorem LineOn.store_data (line : chip.LineOn) (byte : Byte) :
    chip.store Serial.target (byte.setWidth 32) = chip.transmit byte :=
  line.transmitterOn.store_data byte

/-! ## What leaves the line alone -/

/-- Nothing changed that the line, the channels, their flags or their memory depend on. -/
structure Undisturbed (chip after : Chip) : Prop where
  channels : ∀ c, SameChannel c chip after
  line : SameLine chip after
  flags : after.peek (Dma1.base + Dma1.isr) = chip.peek (Dma1.base + Dma1.isr)
  transmitted : after.transmitted = chip.transmitted
  memory : after.regions = chip.regions ∧ after.nextRegion = chip.nextRegion

theorem Undisturbed.trans (first : Undisturbed chip middle) (second : Undisturbed middle after) :
    Undisturbed chip after where
  channels c := (first.channels c).trans (second.channels c)
  line := first.line.trans second.line
  flags := second.flags.trans first.flags
  transmitted := second.transmitted.trans first.transmitted
  memory := ⟨second.memory.1.trans first.memory.1, second.memory.2.trans first.memory.2⟩

theorem SameEngine.undisturbed (same : SameEngine chip after)
    (events : after.events = chip.events) : Undisturbed chip after where
  channels c := ⟨same.latch c, fun _ _ => same.peek _⟩
  line _ _ := same.peek _
  flags := same.peek _
  transmitted := by rw [transmitted_eq, events, transmitted_eq]
  memory := ⟨same.regions, same.nextRegion⟩

theorem countedDown_undisturbed (chip : Chip) : Undisturbed chip chip.countedDown :=
  SameEngine.undisturbed ⟨rfl, rfl, rfl, rfl⟩ rfl

/-- Addresses whose stores disturb nothing that the line or a channel depends on. -/
structure Aside (address : Word) : Prop where
  line : address ∉ lineRegisters
  data : address ≠ Usart3.base + Usart3.tdr
  clear : address ≠ Dma1.base + Dma1.ifcr
  channels : ∀ c (field : Word), field.toNat < 0x14 → address ≠ Dma1.register c field

theorem StoreEffect.undisturbed (effect : StoreEffect chip address value after)
    (aside : Aside address) : Undisturbed chip after where
  channels c := by
    cases effect.channel c with
    | same same => exact same
    | control place => exact (aside.channels c _ Dma1.ccr_inside place).elim
    | programmed field small _ place => exact (aside.channels c field small place).elim
  line := by
    cases effect with
    | lost => exact .refl chip
    | output port => exact .setOutput port _
    | sent place => exact (aside.data place).elim
    | cleared place => exact (aside.clear place).elim
    | control c place => exact (aside.channels c _ Dma1.ccr_inside place).elim
    | replaced => exact .poke aside.line _
  flags := effect.flags_of_ne aside.clear
  transmitted := effect.transmitted_of_ne aside.data
  memory := effect.regions_eq

/-- Every register of a port lies aside. -/
theorem Aside.of_gpio {port : Port} {offset : Word}
    (decoded : Block.decode address = .gpio port offset) : Aside address where
  line member := by
    obtain h | h | h := decode_lineRegister member <;> rw [h] at decoded <;> cases decoded
  data place := by
    rw [place, decode_data] at decoded
    cases decoded
  clear place := by
    have clear : Block.decode (Dma1.base + Dma1.ifcr) = .dma1 Dma1.ifcr := rfl
    rw [place, clear] at decoded
    cases decoded
  channels c field small place := by
    rw [place, Dma1.decode_register c small] at decoded
    cases decoded

end Peripherals.Chip
