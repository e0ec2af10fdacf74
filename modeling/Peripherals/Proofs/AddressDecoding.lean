import Peripherals.Block
import Mathlib.Tactic.Common

/-! # Decoding undoes addressing

Drivers compute addresses forward, from a base, a stride and an offset; the chip
divides them back. Decoding gives a block exactly at the addresses of that
block, a channel exactly at the registers of that channel, and so no two
registers share an address. -/

namespace Peripherals

theorem Port.toNat_base (port : Port) : port.base.toNat = 0x42020000 + 0x400 * port.index := by
  cases port <;> rfl

namespace Block

/-- The distance to the first port selects no port exactly behind the ninth block. -/
theorem ofIndex?_distance_eq_none_iff (distance : Word) :
    Port.ofIndex? (distance / Gpio.stride).toNat = none ↔ 0x2400 ≤ distance.toNat := by
  have quotient : (distance / Gpio.stride).toNat = distance.toNat / 0x400 := BitVec.toNat_udiv
  rw [Port.ofIndex?_eq_none_iff, quotient]
  omega

/-- A port's block holds the addresses from the port's base on. -/
theorem decode_eq_gpio_iff {address offset : Word} {port : Port} :
    decode address = .gpio port offset ↔
      address = port.base + offset ∧ offset.toNat < 0x400 := by
  have below := port.index_lt
  have start := port.toNat_base
  have origin : Gpio.base.toNat = 0x42020000 := rfl
  have quotient : ((address - Gpio.base) / Gpio.stride).toNat =
      (address - Gpio.base).toNat / 0x400 := BitVec.toNat_udiv
  have rest : ((address - Gpio.base) % Gpio.stride).toNat =
      (address - Gpio.base).toNat % 0x400 := BitVec.toNat_umod
  simp only [decode]
  constructor
  · intro h
    split at h
    · next found selected =>
      obtain ⟨rfl, rfl⟩ := gpio.inj h
      rw [Port.ofIndex?_eq_some_iff] at selected
      constructor
      · bv_omega
      · bv_omega
    · split at h
      · cases h
      · split at h <;> cases h
  · rintro ⟨rfl, small⟩
    have selected : Port.ofIndex? ((port.base + offset - Gpio.base) / Gpio.stride).toNat =
        some port := by
      rw [Port.ofIndex?_eq_some_iff]
      bv_omega
    have same : (port.base + offset - Gpio.base) % Gpio.stride = offset := by
      bv_omega
    rw [selected, same]

/-- USART3's block holds the addresses from its base on. -/
theorem decode_eq_usart3_iff {address offset : Word} :
    decode address = .usart3 offset ↔
      address = Usart3.base + offset ∧ offset.toNat < 0x400 := by
  have outside := ofIndex?_distance_eq_none_iff (address - Gpio.base)
  simp only [decode]
  constructor
  · intro h
    split at h
    · cases h
    · split at h
      · next inside =>
        obtain rfl := usart3.inj h
        simp only [Usart3.base, size] at inside ⊢
        bv_omega
      · split at h <;> cases h
  · rintro ⟨rfl, small⟩
    have same : Usart3.base + offset - Usart3.base = offset := by bv_omega
    have inside : offset < size := by
      simp only [size]
      bv_omega
    rw [outside.mpr (by simp only [Usart3.base, Gpio.base]; bv_omega)]
    simp only [same, inside, if_true]

/-- DMA1's block holds the addresses from its base on. -/
theorem decode_eq_dma1_iff {address offset : Word} :
    decode address = .dma1 offset ↔
      address = Dma1.base + offset ∧ offset.toNat < 0x400 := by
  have outside := ofIndex?_distance_eq_none_iff (address - Gpio.base)
  simp only [decode]
  constructor
  · intro h
    split at h
    · cases h
    · split at h
      · cases h
      · split at h
        · next inside =>
          obtain rfl := dma1.inj h
          simp only [Dma1.base, size] at inside ⊢
          bv_omega
        · cases h
  · rintro ⟨rfl, small⟩
    have below : ¬ Dma1.base + offset - Usart3.base < size := by
      simp only [Dma1.base, Usart3.base, size]
      bv_omega
    have same : Dma1.base + offset - Dma1.base = offset := by bv_omega
    have inside : offset < size := by
      simp only [size]
      bv_omega
    rw [outside.mpr (by simp only [Dma1.base, Gpio.base]; bv_omega)]
    simp only [below, same, inside, if_false, if_true]

end Block

namespace Dma1

theorem toNat_register (c : Channel) {offset : Word} (small : offset.toNat < 0x14) :
    (register c offset).toNat = 0x40020008 + 0x14 * c.val + offset.toNat := by
  have bound := c.isLt
  simp only [register, base, channelBase, channelStride]
  bv_omega

/-! The four registers of a channel lie within the distance between channels. -/

theorem ccr_inside : ccr.toNat < 0x14 := by decide

theorem cndtr_inside : cndtr.toNat < 0x14 := by decide

theorem cpar_inside : cpar.toNat < 0x14 := by decide

theorem cmar_inside : cmar.toNat < 0x14 := by decide

/-- An offset belongs to a channel exactly if it leads to one of the channel's registers. -/
theorem channelAt?_eq_some_iff {offset field : Word} {c : Channel} :
    channelAt? offset = some (c, field) ↔
      base + offset = register c field ∧ field.toNat < 0x14 := by
  have quotient : ((offset - channelBase) / channelStride).toNat =
      (offset - channelBase).toNat / 0x14 := BitVec.toNat_udiv
  have rest : ((offset - channelBase) % channelStride).toNat =
      (offset - channelBase).toNat % 0x14 := BitVec.toNat_umod
  have first : channelBase.toNat = 8 := rfl
  have origin : base.toNat = 0x40020000 := rfl
  have bound := c.isLt
  simp only [channelAt?]
  constructor
  · intro h
    split at h
    · next inside =>
      obtain ⟨rfl, rfl⟩ := Prod.mk.inj (Option.some.inj h)
      have small : ((offset - channelBase) % channelStride).toNat < 0x14 := by omega
      refine ⟨BitVec.eq_of_toNat_eq ?_, small⟩
      rw [toNat_register _ small]
      bv_omega
    · cases h
  · rintro ⟨same, small⟩
    have position := toNat_register c small
    rw [← same] at position
    have index : ((offset - channelBase) / channelStride).toNat = c.val := by bv_omega
    have field : (offset - channelBase) % channelStride = field := by bv_omega
    rw [dif_pos (index ▸ bound)]
    simp only [index, field]

/-- Two channel registers share an address only if they are the same register. -/
theorem register_eq_register_iff {c d : Channel} {f g : Word} (hf : f.toNat < 0x14)
    (hg : g.toNat < 0x14) : register c f = register d g ↔ c = d ∧ f = g := by
  have left := toNat_register c hf
  have right := toNat_register d hg
  constructor
  · intro h
    rw [h] at left
    constructor
    · exact Fin.ext (by omega)
    · exact BitVec.eq_of_toNat_eq (by omega)
  · rintro ⟨rfl, rfl⟩
    rfl

/-- Every register of a channel lies in DMA1's block, behind the two shared registers. -/
theorem decode_register (c : Channel) {offset : Word} (small : offset.toNat < 0x14) :
    Block.decode (register c offset) = .dma1 (register c offset - base) := by
  have position := toNat_register c small
  have bound := c.isLt
  have origin : base.toNat = 0x40020000 := rfl
  rw [Block.decode_eq_dma1_iff]
  constructor
  · bv_omega
  · bv_omega

theorem channelAt?_register (c : Channel) {offset : Word} (small : offset.toNat < 0x14) :
    channelAt? (register c offset - base) = some (c, offset) := by
  rw [channelAt?_eq_some_iff]
  exact ⟨by bv_omega, small⟩

/-- The flag register is not a register of a channel. -/
theorem register_ne_flags (c : Channel) {offset : Word} (small : offset.toNat < 0x14) :
    register c offset ≠ base + isr := by
  have position := toNat_register c small
  have origin : (base + isr).toNat = 0x40020000 := rfl
  intro same
  rw [same] at position
  omega

theorem register_ne_clear (c : Channel) {offset : Word} (small : offset.toNat < 0x14) :
    register c offset ≠ base + ifcr := by
  have position := toNat_register c small
  have place : (base + ifcr).toNat = 0x40020004 := rfl
  intro same
  rw [same] at position
  omega

end Dma1

end Peripherals
