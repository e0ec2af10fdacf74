import Peripherals.Proofs.ChipContracts
import Peripherals.Proofs.LineFeed

/-! # Programming a channel

The writes with which a driver programs, starts and stops a channel reach that
channel and its flags, and nothing else that the line or another channel depends
on. A disabled channel takes over what was programmed when it is started. -/

namespace Peripherals

theorem or_and_ne_zero_iff {a b mask : Word} :
    (a ||| b) &&& mask ≠ 0 ↔ a &&& mask ≠ 0 ∨ b &&& mask ≠ 0 := by
  have none_set : (a &&& mask) ||| (b &&& mask) = 0 ↔ a &&& mask = 0 ∧ b &&& mask = 0 :=
    BitVec.or_eq_zero_iff
  rw [BitVec.and_or_distrib_right, Ne, none_set, not_and_or]

/-! ## Control values -/

namespace ChannelConfig

variable (config : ChannelConfig) {mask : Word}

/-- Bits 4 to 7 and 14 of a control value are those of the direction and of the three switches. -/
theorem control_and_ne_zero_iff (inside : 0x40F0 &&& mask = mask) :
    (config.bits ||| Dma1.enable) &&& mask ≠ 0 ↔
      config.direction.bits &&& mask ≠ 0 ∨ bitIf config.circular Dma1.circular &&& mask ≠ 0 ∨
        bitIf config.peripheralIncrement Dma1.peripheralIncrement &&& mask ≠ 0 ∨
        bitIf config.memoryIncrement Dma1.memoryIncrement &&& mask ≠ 0 := by
  have outside {x : Word} (h : x &&& 0x40F0 = 0) : x &&& mask = 0 := by
    rw [← inside, ← BitVec.and_assoc, h]
    exact BitVec.zero_and
  have priority (p : Priority) : p.code <<< Dma1.priorityShift.toNat &&& mask = 0 :=
    outside (by cases p <;> decide)
  have peripheral (s : ItemSize) : s.code <<< Dma1.peripheralSizeShift.toNat &&& mask = 0 :=
    outside (by cases s <;> decide)
  have memory (s : ItemSize) : s.code <<< Dma1.memorySizeShift.toNat &&& mask = 0 :=
    outside (by cases s <;> decide)
  have complete (wanted : Bool) : bitIf wanted Dma1.completeInterrupt &&& mask = 0 :=
    outside (by cases wanted <;> decide)
  have half (wanted : Bool) : bitIf wanted Dma1.halfInterrupt &&& mask = 0 :=
    outside (by cases wanted <;> decide)
  have error (wanted : Bool) : bitIf wanted Dma1.errorInterrupt &&& mask = 0 :=
    outside (by cases wanted <;> decide)
  have enable : Dma1.enable &&& mask = 0 := outside (by decide)
  rw [bits]
  simp only [or_and_ne_zero_iff, priority, peripheral, memory, complete, half, error, enable,
    ne_eq, not_true_eq_false, false_or, or_false, or_assoc]

theorem control_fromMemory_iff :
    (config.bits ||| Dma1.enable) &&& Dma1.fromMemory ≠ 0 ↔ config.direction = .fromMemory := by
  rw [control_and_ne_zero_iff config (by decide)]
  cases config.direction <;> cases config.circular <;> cases config.peripheralIncrement <;>
    cases config.memoryIncrement <;> decide

theorem control_memoryToMemory_iff :
    (config.bits ||| Dma1.enable) &&& Dma1.memoryToMemory ≠ 0 ↔
      config.direction = .memoryToMemory := by
  rw [control_and_ne_zero_iff config (by decide)]
  cases config.direction <;> cases config.circular <;> cases config.peripheralIncrement <;>
    cases config.memoryIncrement <;> decide

theorem control_circular_iff :
    (config.bits ||| Dma1.enable) &&& Dma1.circular ≠ 0 ↔ config.circular = true := by
  rw [control_and_ne_zero_iff config (by decide)]
  cases config.direction <;> cases config.circular <;> cases config.peripheralIncrement <;>
    cases config.memoryIncrement <;> decide

theorem control_peripheralIncrement_iff :
    (config.bits ||| Dma1.enable) &&& Dma1.peripheralIncrement ≠ 0 ↔
      config.peripheralIncrement = true := by
  rw [control_and_ne_zero_iff config (by decide)]
  cases config.direction <;> cases config.circular <;> cases config.peripheralIncrement <;>
    cases config.memoryIncrement <;> decide

theorem control_memoryIncrement_iff :
    (config.bits ||| Dma1.enable) &&& Dma1.memoryIncrement ≠ 0 ↔
      config.memoryIncrement = true := by
  rw [control_and_ne_zero_iff config (by decide)]
  cases config.direction <;> cases config.circular <;> cases config.peripheralIncrement <;>
    cases config.memoryIncrement <;> decide

/-- A channel that reads memory forward and once, for one register, streams. -/
theorem streams {config : ChannelConfig} (direction : config.direction = .fromMemory)
    (memory : config.memoryIncrement = true) (peripheral : config.peripheralIncrement = false)
    (once : config.circular = false) : Chip.Streams (config.bits ||| Dma1.enable) where
  fromMemory := config.control_fromMemory_iff.mpr direction
  memoryIncrement := config.control_memoryIncrement_iff.mpr memory
  peripheralIncrement := by
    rw [← not_ne_iff, control_peripheralIncrement_iff, peripheral]
    decide
  circular := by
    rw [← not_ne_iff, control_circular_iff, once]
    decide

theorem control_enables : (config.bits ||| Dma1.enable) &&& Dma1.enable ≠ 0 := by
  rw [or_and_ne_zero_iff]
  exact .inr (by decide)

end ChannelConfig

namespace Chip

variable {chip middle after : Chip} {c : Channel} {address value field : Word}

/-- What changed is confined to one channel and the flags. -/
structure Confined (c : Channel) (chip after : Chip) : Prop where
  others : ∀ d, d ≠ c → SameChannel d chip after
  line : SameLine chip after
  transmitted : after.transmitted = chip.transmitted
  memory : after.regions = chip.regions ∧ after.nextRegion = chip.nextRegion

theorem Confined.trans (first : Confined c chip middle) (second : Confined c middle after) :
    Confined c chip after where
  others d ne := (first.others d ne).trans (second.others d ne)
  line := first.line.trans second.line
  transmitted := second.transmitted.trans first.transmitted
  memory := ⟨second.memory.1.trans first.memory.1, second.memory.2.trans first.memory.2⟩

theorem Confined.poke_register (small : field.toNat < 0x14) (value : Word) :
    Confined c chip (chip.poke (Dma1.register c field) value) where
  others _ ne := .poke_register ne.symm small value
  line := .poke (register_not_line c small) value
  transmitted := rfl
  memory := ⟨rfl, rfl⟩

theorem Confined.poke_flags (value : Word) :
    Confined c chip (chip.poke (Dma1.base + Dma1.isr) value) where
  others _ _ := .poke_flags value
  line := .poke flags_not_line value
  transmitted := rfl
  memory := ⟨rfl, rfl⟩

theorem Confined.storeControl (value : Word) : Confined c chip (chip.storeControl c value) where
  others _ ne := .storeControl ne.symm value
  line address member := by
    rw [peek_storeControl, if_neg]
    rintro rfl
    exact register_not_line c Dma1.ccr_inside member
  transmitted := by rw [transmitted_eq, events_storeControl, transmitted_eq]
  memory := by
    rw [Chip.storeControl]
    split
    · exact ⟨rfl, rfl⟩
    split <;> exact ⟨rfl, rfl⟩

/-! ## Writes into a clocked controller -/

/-- The chip with a written value remembered, before it is stored. -/
def noted (chip : Chip) (address value : Word) : Chip :=
  { chip with written := chip.written.insert address value }

theorem regions_write (chip : Chip) (address value : Word) :
    (chip.write address value).regions = chip.regions :=
  (store_effect (chip.noted address value) address value).regions_eq.1

theorem Confined.noted (chip : Chip) (address value : Word) :
    Confined c chip (chip.noted address value) where
  others _ _ := ⟨rfl, fun _ _ => rfl⟩
  line _ _ := rfl
  transmitted := rfl
  memory := ⟨rfl, rfl⟩

theorem SameLine.dmaClocked (same : SameLine chip after) (clocked : chip.clocked (.dma1 0) = true) :
    after.clocked (.dma1 0) = true := by
  rw [Chip.clocked, same Rcc.ahb1enr (by simp [lineRegisters])]
  exact clocked

theorem write_dma (clocked : chip.clocked (.dma1 0) = true) {offset : Word}
    (decoded : Block.decode address = .dma1 offset) (value : Word) :
    chip.write address value = (chip.noted address value).storeDma offset value := by
  have clock : (chip.noted address value).clocked (.dma1 offset) = true := clocked
  change (chip.noted address value).store address value = _
  simp only [store, decoded, clock, if_true]

/-- A channel's register is none of the two that all channels share. -/
theorem register_not_shared (c : Channel) (small : field.toNat < 0x14) :
    Dma1.register c field - Dma1.base ≠ Dma1.isr ∧
      Dma1.register c field - Dma1.base ≠ Dma1.ifcr := by
  have position := Dma1.toNat_register c small
  have origin : Dma1.base.toNat = 0x40020000 := rfl
  have first : Dma1.isr.toNat = 0 := rfl
  have second : Dma1.ifcr.toNat = 4 := rfl
  constructor
  · bv_omega
  · bv_omega

theorem write_control (clocked : chip.clocked (.dma1 0) = true) (value : Word) :
    chip.write (Dma1.register c Dma1.ccr) value =
      (chip.noted (Dma1.register c Dma1.ccr) value).storeControl c value := by
  obtain ⟨notFlags, notClear⟩ : Dma1.register c Dma1.ccr - Dma1.base ≠ Dma1.isr ∧
      Dma1.register c Dma1.ccr - Dma1.base ≠ Dma1.ifcr := register_not_shared c Dma1.ccr_inside
  rw [write_dma clocked (Dma1.decode_register c Dma1.ccr_inside), storeDma, if_neg notFlags,
    if_neg notClear, Dma1.channelAt?_register c Dma1.ccr_inside]
  exact if_pos rfl

theorem write_register (clocked : chip.clocked (.dma1 0) = true)
    (disabled : chip.channelEnabled c = false) (small : field.toNat < 0x14)
    (notControl : field ≠ Dma1.ccr) (value : Word) :
    chip.write (Dma1.register c field) value =
      (chip.noted (Dma1.register c field) value).poke (Dma1.register c field) value := by
  obtain ⟨notFlags, notClear⟩ := register_not_shared c small
  have place : Dma1.base + (Dma1.register c field - Dma1.base) = Dma1.register c field := by
    bv_omega
  have off : (chip.noted (Dma1.register c field) value).channelEnabled c = false := disabled
  rw [write_dma clocked (Dma1.decode_register c small), storeDma, if_neg notFlags,
    if_neg notClear, Dma1.channelAt?_register c small]
  simp only [if_neg notControl, off, Bool.false_eq_true, if_false, place]

theorem write_clear (clocked : chip.clocked (.dma1 0) = true) (value : Word) :
    chip.write (Dma1.base + Dma1.ifcr) value =
      (chip.noted (Dma1.base + Dma1.ifcr) value).poke (Dma1.base + Dma1.isr)
        (chip.peek (Dma1.base + Dma1.isr) &&& ~~~value) := by
  have decoded : Block.decode (Dma1.base + Dma1.ifcr) = .dma1 Dma1.ifcr := rfl
  have notFlags : Dma1.ifcr ≠ Dma1.isr := by decide
  rw [write_dma clocked decoded, storeDma, if_neg notFlags, if_pos rfl]
  rfl

theorem load_dma (clocked : chip.clocked (.dma1 0) = true) {offset : Word}
    (decoded : Block.decode address = .dma1 offset) :
    (load address).run chip = .ok (chip.peek address) chip := by
  have clock : chip.clocked (.dma1 offset) = true := clocked
  simp only [load, EStateM.run, decoded, clock, if_true]

/-! ## One register of a disabled channel -/

/-- One register of a channel was given a value, and nothing else of the channel changed. -/
structure Wrote (c : Channel) (field value : Word) (chip after : Chip) : Prop where
  confined : Confined c chip after
  latch : after.latch c = chip.latch c
  flags : after.peek (Dma1.base + Dma1.isr) = chip.peek (Dma1.base + Dma1.isr)
  self : after.peek (Dma1.register c field) = value
  fields : ∀ other : Word, other.toNat < 0x14 → field ≠ other →
    after.peek (Dma1.register c other) = chip.peek (Dma1.register c other)

theorem wrote_register (clocked : chip.clocked (.dma1 0) = true)
    (disabled : chip.channelEnabled c = false) (small : field.toNat < 0x14)
    (notControl : field ≠ Dma1.ccr) (value : Word) :
    Wrote c field value chip (chip.write (Dma1.register c field) value) := by
  rw [write_register clocked disabled small notControl]
  constructor
  · exact .trans (.noted chip _ _) (.poke_register small value)
  · rfl
  · rw [peek_poke, if_neg (Dma1.register_ne_flags c small)]
    rfl
  · rw [peek_poke, if_pos rfl]
  · intro other small' ne
    rw [peek_poke, if_neg (Dma1.register_ne_register small small' (.inr ne))]
    rfl

theorem Wrote.disabled (wrote : Wrote c field value chip after) (notControl : field ≠ Dma1.ccr)
    (disabled : chip.channelEnabled c = false) : after.channelEnabled c = false := by
  rw [channelEnabled, wrote.fields Dma1.ccr Dma1.ccr_inside notControl]
  exact disabled

/-! ## The writes of a driver -/

/-- A disabled channel was programmed, and its flags were cleared. -/
structure Programmed (chip : Chip) (c : Channel) (target source length : Word) (after : Chip) :
    Prop where
  confined : Confined c chip after
  target : after.peek (Dma1.register c Dma1.cpar) = target
  source : after.peek (Dma1.register c Dma1.cmar) = source
  length : after.itemsLeft c = length
  control : after.controlOf c = chip.controlOf c
  latch : after.latch c = chip.latch c
  flags : after.peek (Dma1.base + Dma1.isr) =
    chip.peek (Dma1.base + Dma1.isr) &&&
      ~~~Dma1.flagsOf c (Dma1.channelFlags ||| Dma1.globalFlag)

/-- The chip after the writes that program a channel. -/
def programmed (chip : Chip) (c : Channel) (target source length : Word) : Chip :=
  (((chip.write (Dma1.register c Dma1.cpar) target).write (Dma1.register c Dma1.cmar) source).write
    (Dma1.register c Dma1.cndtr) length).write (Dma1.base + Dma1.ifcr)
      (Dma1.flagsOf c (Dma1.channelFlags ||| Dma1.globalFlag))

theorem regions_programmed (chip : Chip) (c : Channel) (target source length : Word) :
    (chip.programmed c target source length).regions = chip.regions := by
  simp only [programmed, regions_write]

theorem Reachable.programmed {allowed : Action → Prop} (reachable : Reachable allowed chip)
    (permitted : ∀ address value, allowed (.write address value)) (c : Channel)
    (target source length : Word) : Reachable allowed (chip.programmed c target source length) := by
  have pointed := (reachable.write (Dma1.register c Dma1.cpar) target (permitted _ _)).write
    (Dma1.register c Dma1.cmar) source (permitted _ _)
  exact (pointed.write _ length (permitted _ _)).write _ _ (permitted _ _)

theorem programmed_spec (clocked : chip.clocked (.dma1 0) = true)
    (disabled : chip.channelEnabled c = false) (target source length : Word) :
    Programmed chip c target source length (chip.programmed c target source length) := by
  have first : Wrote c Dma1.cpar target chip _ :=
    wrote_register clocked disabled Dma1.cpar_inside (by decide) target
  have clocked₁ := first.confined.line.dmaClocked clocked
  have disabled₁ := first.disabled (by decide) disabled
  have second : Wrote c Dma1.cmar source _ _ :=
    wrote_register clocked₁ disabled₁ Dma1.cmar_inside (by decide) source
  have clocked₂ := second.confined.line.dmaClocked clocked₁
  have disabled₂ := second.disabled (by decide) disabled₁
  have third : Wrote c Dma1.cndtr length _ _ :=
    wrote_register clocked₂ disabled₂ Dma1.cndtr_inside (by decide) length
  have clocked₃ := third.confined.line.dmaClocked clocked₂
  rw [programmed, write_clear clocked₃]
  have cleared {last : Chip} {field : Word} (value cleared : Word) (small : field.toNat < 0x14) :
      ((last.noted (Dma1.base + Dma1.ifcr) value).poke (Dma1.base + Dma1.isr) cleared).peek
        (Dma1.register c field) = last.peek (Dma1.register c field) := by
    rw [peek_poke, if_neg (Dma1.register_ne_flags c small).symm]
    rfl
  constructor
  · exact .trans first.confined (.trans second.confined (.trans third.confined
      (.trans (.noted _ _ _) (.poke_flags _))))
  · rw [cleared _ _ Dma1.cpar_inside, third.fields _ Dma1.cpar_inside (by decide),
      second.fields _ Dma1.cpar_inside (by decide), first.self]
  · rw [cleared _ _ Dma1.cmar_inside, third.fields _ Dma1.cmar_inside (by decide), second.self]
  · rw [itemsLeft, cleared _ _ Dma1.cndtr_inside, third.self]
  · rw [controlOf, cleared _ _ Dma1.ccr_inside, third.fields _ Dma1.ccr_inside (by decide),
      second.fields _ Dma1.ccr_inside (by decide), first.fields _ Dma1.ccr_inside (by decide),
      controlOf]
  · exact third.latch.trans (second.latch.trans first.latch)
  · rw [peek_poke, if_pos rfl, third.flags, second.flags, first.flags]

theorem Programmed.disabled {target source length : Word}
    (programmed : Programmed chip c target source length after)
    (disabled : chip.channelEnabled c = false) : after.channelEnabled c = false := by
  rw [channelEnabled, ← controlOf, programmed.control]
  exact disabled

/-- A control value was written, and the channel took over what its registers say if that
enabled it. -/
structure Controlled (c : Channel) (value : Word) (chip after : Chip) : Prop where
  confined : Confined c chip after
  control : after.controlOf c = value
  fields : ∀ field : Word, field.toNat < 0x14 → field ≠ Dma1.ccr →
    after.peek (Dma1.register c field) = chip.peek (Dma1.register c field)
  flags : after.peek (Dma1.base + Dma1.isr) = chip.peek (Dma1.base + Dma1.isr)
  latch : after.latch c =
    if value &&& Dma1.enable = 0 then { chip.latch c with active := false }
    else if chip.channelEnabled c then chip.latch c
    else ⟨true, chip.peek (Dma1.register c Dma1.cmar), chip.peek (Dma1.register c Dma1.cpar),
      chip.itemsLeft c⟩

theorem controlled (clocked : chip.clocked (.dma1 0) = true) (value : Word) :
    Controlled c value chip (chip.write (Dma1.register c Dma1.ccr) value) := by
  rw [write_control clocked]
  constructor
  · exact .trans (.noted chip _ _) (.storeControl value)
  · rw [controlOf, peek_storeControl, if_pos rfl]
  · intro field small notControl
    rw [peek_storeControl, if_neg]
    · rfl
    · exact Dma1.register_ne_register Dma1.ccr_inside small (.inr notControl.symm)
  · rw [peek_storeControl, if_neg (Dma1.register_ne_flags c Dma1.ccr_inside)]
    rfl
  · exact latch_storeControl _ c value

theorem Controlled.itemsLeft (wrote : Controlled c value chip after) :
    after.itemsLeft c = chip.itemsLeft c :=
  wrote.fields Dma1.cndtr Dma1.cndtr_inside (by decide)

theorem Controlled.enabled (wrote : Controlled c value chip after) :
    after.channelEnabled c = (value &&& Dma1.enable != 0) := by
  rw [channelEnabled, ← controlOf, wrote.control]

/-! ## Starting on a shared buffer -/

/-- A disabled channel is programmed to send a shared buffer. -/
structure Ready (chip : Chip) (c : Channel) (region : Region) : Prop where
  disabled : chip.channelEnabled c = false
  inactive : (chip.latch c).active = false
  target : chip.peek (Dma1.register c Dma1.cpar) = Serial.target
  source : chip.peek (Dma1.register c Dma1.cmar) = region.base
  length : chip.itemsLeft c = BitVec.ofNat 32 region.bytes.size

variable {region : Region}

theorem Programmed.ready (disabled : chip.channelEnabled c = false)
    (inactive : (chip.latch c).active = false)
    (programmed : Programmed chip c Serial.target region.base
      (BitVec.ofNat 32 region.bytes.size) after) : after.Ready c region where
  disabled := programmed.disabled disabled
  inactive := by
    rw [programmed.latch]
    exact inactive
  target := programmed.target
  source := programmed.source
  length := programmed.length

theorem Ready.of_same (same : SameChannel c chip after) (ready : chip.Ready c region) :
    after.Ready c region where
  disabled := same.enabled.trans ready.disabled
  inactive := by
    rw [same.latch]
    exact ready.inactive
  target := (same.register Dma1.cpar Dma1.cpar_inside).trans ready.target
  source := (same.register Dma1.cmar Dma1.cmar_inside).trans ready.source
  length := same.itemsLeft.trans ready.length

/-- A length of at most sixteen bits is written as it is. -/
theorem toNat_ofNat_le {length : Nat} (short : length ≤ 0xFFFF) :
    (BitVec.ofNat 32 length).toNat ≤ 0xFFFF := by
  rw [BitVec.toNat_ofNat, Nat.mod_eq_of_lt (by omega)]
  exact short

theorem toNat_itemsLeft (short : region.bytes.size ≤ 0xFFFF)
    (length : chip.itemsLeft c = BitVec.ofNat 32 region.bytes.size) :
    (chip.itemsLeft c).toNat = region.bytes.size := by
  rw [length, BitVec.toNat_ofNat, Nat.mod_eq_of_lt (by omega)]

/-- Nothing of the buffer was moved while the count is its length. -/
theorem movedCount_eq_zero (short : region.bytes.size ≤ 0xFFFF)
    (length : chip.itemsLeft c = BitVec.ofNat 32 region.bytes.size) :
    chip.movedCount c region = 0 := by
  rw [movedCount, toNat_itemsLeft short length, Nat.sub_self]

theorem Ready.feed (ready : chip.Ready c region) (member : region ∈ chip.regions)
    (short : region.bytes.size ≤ 0xFFFF) : chip.Feed c region where
  registered := member
  short := short
  count_le := Nat.le_of_eq (toNat_itemsLeft short ready.length)
  active_eq := ready.inactive.trans ready.disabled.symm
  working active := by
    rw [ready.inactive] at active
    cases active
  streams active := by
    rw [ready.inactive] at active
    cases active

/-- A channel that is started takes over what it was programmed for. -/
theorem Ready.start (ready : chip.Ready c region) (member : region ∈ chip.regions)
    (short : region.bytes.size ≤ 0xFFFF) (on : value &&& Dma1.enable ≠ 0) (streams : Streams value)
    (wrote : Controlled c value chip after) :
    after.Feed c region ∧ (after.latch c).active = true := by
  have length : after.itemsLeft c = BitVec.ofNat 32 region.bytes.size :=
    wrote.itemsLeft.trans ready.length
  have latch : after.latch c = ⟨true, region.base, Serial.target,
      BitVec.ofNat 32 region.bytes.size⟩ := by
    rw [wrote.latch, if_neg on, ready.disabled, if_neg Bool.false_ne_true, ready.source,
      ready.target, ready.length]
  constructor
  · constructor
    · rw [wrote.confined.memory.1]
      exact member
    · exact short
    · exact Nat.le_of_eq (toNat_itemsLeft short length)
    · rw [latch, wrote.enabled, eq_comm, bne_iff_ne]
      exact on
    · intro _
      rw [latch, movedCount_eq_zero short length]
      simp
    · intro _
      rw [wrote.control]
      exact streams
  · rw [latch]

end Chip

/-! ## Contracts of the driver -/

namespace Dma

open Bus Chip

variable {P R B : Chip → Prop} {Q : Chip → Prop} {c : Channel} {target source length : Word}

/-- Checking the enable bit of a channel lets a tick pass and changes nothing else. -/
theorem check_takes {E : Nat → Chip → Prop} (c : Channel)
    (tick : ∀ chip, P chip → ∃ after, Chip.tick.run chip = .ok () after ∧ R after)
    (clocked : ∀ chip, R chip → chip.clocked (.dma1 0) = true)
    (kept : ∀ chip, P chip → E 0 chip) :
    Takes 1 P (anySet (Dma1.register c Dma1.ccr) Dma1.enable : BusM Chip Bool)
      (fun enabled chip => R chip ∧ enabled = chip.channelEnabled c) E := by
  refine Takes.bind (n := 0) (Takes.load (Q := fun value chip =>
    R chip ∧ value = chip.peek (Dma1.register c Dma1.ccr)) ?_ kept) ?_
  · intro chip holds
    obtain ⟨ticked, passed, reached⟩ := tick chip holds
    exact ⟨ticked, _, passed, load_dma (clocked ticked reached)
      (Dma1.decode_register c Dma1.ccr_inside), reached, rfl⟩
  · intro value
    refine Takes.pure _ fun chip reached => ⟨reached.1, ?_⟩
    rw [channelEnabled, reached.2]

theorem check_settles (c : Channel)
    (tick : ∀ chip, P chip → ∃ after, Chip.tick.run chip = .ok () after ∧ R after)
    (clocked : ∀ chip, R chip → chip.clocked (.dma1 0) = true) :
    Settles 1 P (anySet (Dma1.register c Dma1.ccr) Dma1.enable : BusM Chip Bool)
      fun enabled chip => R chip ∧ enabled = chip.channelEnabled c :=
  (check_takes (E := fun _ _ => True) c tick clocked fun _ _ => trivial).settles

section Stop

variable (tick : ∀ chip, P chip → ∃ after, Chip.tick.run chip = .ok () after ∧ B after)
  (clocked : ∀ chip, B chip → chip.clocked (.dma1 0) = true)
  (off : ∀ chip, B chip →
    R (chip.write (Dma1.register c Dma1.ccr) (chip.controlOf c &&& ~~~Dma1.enable)))
  (tick' : ∀ chip, R chip → ∃ after, Chip.tick.run chip = .ok () after ∧ R after)
  (stopped : ∀ chip, R chip → chip.clocked (.dma1 0) = true ∧ chip.channelEnabled c = false)

include tick clocked off tick' stopped

/-- Stopping a channel clears the enable bit after a tick, and finds it cleared after another. -/
theorem stop_takes : Takes 2 P (stop c) (fun _ => R) fun _ _ => True := by
  change Takes (1 + 1) _ _ _ _
  refine Takes.bind (R := fun _ => R) ?_ fun _ => ?_
  · change Takes (1 + 0) _ _ _ _
    refine Takes.bind (R := fun value chip => B chip ∧ value = chip.controlOf c) ?_ fun value => ?_
    · refine Takes.load ?_ fun _ _ => trivial
      intro chip holds
      obtain ⟨after, passed, reached⟩ := tick chip holds
      exact ⟨after, _, passed, load_dma (clocked after reached)
        (Dma1.decode_register c Dma1.ccr_inside), reached, rfl⟩
    · apply Takes.write
      rintro chip ⟨holds, rfl⟩
      exact off chip holds
  · refine (Takes.untilTrue (J := fun _ => R) (fun _ => ?_) Nat.one_pos).weaken
      (fun _ _ reached => reached) fun _ _ _ => trivial
    change Takes (1 + 0) _ _ _ _
    refine Takes.bind (check_takes c tick' (fun chip holds => (stopped chip holds).1)
      fun _ holds => holds) fun enabled => Takes.pure _ ?_
    rintro chip ⟨holds, same⟩
    rw [same, (stopped chip holds).2]
    exact ⟨rfl, holds⟩

theorem stop_settles : Settles 2 P (stop c) fun _ => R :=
  (stop_takes tick clocked off tick' stopped).settles

end Stop

/-- Configuring checks the enable bit, stops the channel if it is set, and programs it. -/
theorem configure_settles {n : Nat} (short : length.toNat ≤ 0xFFFF)
    (check : Settles 1 P (anySet (Dma1.register c Dma1.ccr) Dma1.enable : BusM Chip Bool)
      fun enabled chip => if enabled then B chip else R chip)
    (stopped : Settles n B (stop c) fun _ => R)
    (leads : ∀ chip, R chip → Q (chip.programmed c target source length)) :
    Settles (1 + n) P (configure c target source length) fun _ => Q := by
  have fits : ¬ Dma1.countMax < length := by
    have bound : Dma1.countMax.toNat = 0xFFFF := rfl
    bv_omega
  have writes : Settles 0 R (do
      write (Dma1.register c Dma1.cpar) target
      write (Dma1.register c Dma1.cmar) source
      write (Dma1.register c Dma1.cndtr) length
      clearFlags c : BusM Chip Unit) fun _ => Q :=
    fun session holds => ⟨leads session.device holds, Nat.le_refl _⟩
  rw [configure, if_neg fits]
  apply Settles.bind check
  intro enabled
  cases enabled with
  | true =>
    change Settles (n + 0) B _ _
    apply Settles.bind stopped
    intro _
    exact writes
  | false => exact writes.weaken (Nat.zero_le n) (fun _ holds => holds) fun _ _ holds => holds

/-- Configuring takes a tick where it finds the enable bit clear, and three where it has to stop the
channel. -/
theorem configure_takes {busy : Bool} (short : length.toNat ≤ 0xFFFF)
    (check : Takes 1 P (anySet (Dma1.register c Dma1.ccr) Dma1.enable : BusM Chip Bool)
      (fun enabled chip => enabled = busy ∧ if busy then B chip else R chip) fun _ _ => True)
    (stopped : Takes 2 B (stop c) (fun _ => R) fun _ _ => True)
    (leads : ∀ chip, R chip → Q (chip.programmed c target source length)) :
    Takes (if busy then 3 else 1) P (configure c target source length) (fun _ => Q)
      fun _ _ => True := by
  have fits : ¬ Dma1.countMax < length := by
    have bound : Dma1.countMax.toNat = 0xFFFF := rfl
    bv_omega
  have writes : Takes 0 R (do
      write (Dma1.register c Dma1.cpar) target
      write (Dma1.register c Dma1.cmar) source
      write (Dma1.register c Dma1.cndtr) length
      clearFlags c : BusM Chip Unit) (fun _ => Q) fun _ _ => True :=
    fun session holds => ⟨leads session.device holds, rfl⟩
  have rest (enabled : Bool) : Takes (if busy then 2 else 0)
      (fun chip => enabled = busy ∧ if busy then B chip else R chip) (do
        if enabled then
          stop c
        write (Dma1.register c Dma1.cpar) target
        write (Dma1.register c Dma1.cmar) source
        write (Dma1.register c Dma1.cndtr) length
        clearFlags c : BusM Chip Unit) (fun _ => Q) fun _ _ => True := by
    rintro session ⟨rfl, holds⟩
    cases enabled with
    | true => exact Takes.bind stopped (fun _ => writes) session holds
    | false => exact writes session holds
  rw [configure, if_neg fits]
  have both := Takes.bind check rest
  cases busy with
  | true => exact both
  | false => exact both

/-- Configuring a disabled channel programs it after a tick. -/
theorem configure_disabled_settles (short : length.toNat ≤ 0xFFFF)
    (tick : ∀ chip, R chip → ∃ after, Chip.tick.run chip = .ok () after ∧ R after)
    (clocked : ∀ chip, R chip → chip.clocked (.dma1 0) = true)
    (disabled : ∀ chip, R chip → chip.channelEnabled c = false)
    (leads : ∀ chip, R chip → Q (chip.programmed c target source length)) :
    Settles 1 R (configure c target source length) fun _ => Q := by
  change Settles (1 + 0) _ _ _
  apply configure_settles (R := R) (B := fun _ => False) short _ _ leads
  · apply (check_settles c tick clocked).weaken (Nat.le_refl 1) (fun _ holds => holds)
    rintro enabled chip ⟨holds, same⟩
    rw [same, disabled chip holds]
    exact holds
  · intro session impossible
    exact impossible.elim

end Dma

end Peripherals
