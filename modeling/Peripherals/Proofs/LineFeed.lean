import Peripherals.Proofs.Line
import Peripherals.Proofs.ShortPasses

/-! # A channel that feeds the line

A channel that was given a shared buffer and the data register works through the
buffer from its start, and its count tells how far it got. A turn of such a
channel either changes nothing or puts the next byte of the buffer on the line. -/

namespace Peripherals.Chip

variable {chip after : Chip} {c d : Channel} {region : Region} {byte : Byte}

/-- A control value with which a channel moves the bytes of a buffer, in order and once, to one
register. -/
structure Streams (control : Word) : Prop where
  fromMemory : control &&& Dma1.fromMemory ≠ 0
  memoryIncrement : control &&& Dma1.memoryIncrement ≠ 0
  peripheralIncrement : control &&& Dma1.peripheralIncrement = 0
  circular : control &&& Dma1.circular = 0

/-- How many bytes of a buffer a channel has moved. -/
def movedCount (chip : Chip) (c : Channel) (region : Region) : Nat :=
  region.bytes.size - (chip.itemsLeft c).toNat

/-- The bytes of a buffer that a channel has moved. -/
def movedBytes (chip : Chip) (c : Channel) (region : Region) : List Byte :=
  region.bytes.toList.take (chip.movedCount c region)

/-- A channel works through a shared buffer towards the data register, or has stopped there. -/
structure Feed (chip : Chip) (c : Channel) (region : Region) : Prop where
  registered : region ∈ chip.regions
  short : region.bytes.size ≤ 0xFFFF
  count_le : (chip.itemsLeft c).toNat ≤ region.bytes.size
  active_eq : (chip.latch c).active = chip.channelEnabled c
  working : (chip.latch c).active = true → chip.latch c =
    ⟨true, region.base + BitVec.ofNat 32 (chip.movedCount c region), Serial.target,
      BitVec.ofNat 32 region.bytes.size⟩
  streams : (chip.latch c).active = true → Streams (chip.controlOf c)

theorem Feed.of_same (same : SameChannel c chip after) (memory : region ∈ after.regions)
    (feed : chip.Feed c region) : after.Feed c region where
  registered := memory
  short := feed.short
  count_le := by
    rw [same.itemsLeft]
    exact feed.count_le
  active_eq := by
    rw [same.latch, same.enabled]
    exact feed.active_eq
  working := by
    rw [same.latch, movedCount, same.itemsLeft]
    exact feed.working
  streams := by
    rw [same.latch, same.controlOf]
    exact feed.streams

theorem movedBytes_of_same (same : SameChannel c chip after) :
    after.movedBytes c region = chip.movedBytes c region := by
  rw [movedBytes, movedCount, same.itemsLeft, movedBytes, movedCount]

/-! ## Putting a byte on the line -/

section Streaming

variable (target : (chip.latch c).target = Serial.target) (streams : Streams (chip.controlOf c))

include target streams

/-- A channel that streams to the line can move an item while the transmitter is free. -/
theorem canMove_streaming_iff (line : chip.LineReady) :
    chip.canMove c = true ↔ chip.itemsLeft c ≠ 0 ∧ chip.busy = 0 := by
  have control : (chip.peek (Dma1.register c Dma1.ccr) &&& Dma1.fromMemory != 0) = true :=
    bne_iff_ne.mpr streams.fromMemory
  have request : (chip.peek (Usart3.base + Usart3.cr3) &&& Usart3.dmaTransmit != 0) = true :=
    bne_iff_ne.mpr line.requests
  have data : ((chip.latch c).target != Usart3.base + Usart3.tdr) = false := by
    rw [target]
    exact bne_self_eq_false _
  rw [canMove, requestsData, control, request, data, line.serialClocked]
  simp [itemsLeft]

/-- So it moves one, if it has one left and finds its byte in memory. -/
theorem turn_streaming (layout : chip.Layout) (line : chip.LineReady)
    (active : (chip.latch c).active = true) (some_left : chip.itemsLeft c ≠ 0)
    (free : chip.busy = 0) (mapped : chip.memoryByte? (chip.latch c).memory = some byte) :
    Turn chip c (chip.moved c byte) := by
  have stored : chip.stored c byte = chip.transmit byte := by
    rw [Chip.stored, target]
    exact line.toLineOn.store_data byte
  refine .moved byte active ((canMove_streaming_iff target streams line).mpr ⟨some_left, free⟩)
    mapped ⟨fun _ => ?_, fun steps => (steps streams.peripheralIncrement).elim⟩
  rw [stored]
  exact layout.room mapped

end Streaming

/-- A channel put a byte on the line and stepped to the next one. -/
structure Delivered (chip : Chip) (c : Channel) (byte : Byte) (after : Chip) : Prop where
  latch : after.latch c = { chip.latch c with memory := (chip.latch c).memory + 1 }
  control : after.controlOf c = chip.controlOf c
  itemsLeft : after.itemsLeft c = chip.itemsLeft c - 1
  transmitted : after.transmitted = chip.transmitted ++ [byte]
  others : ∀ d, d ≠ c → SameChannel d chip after
  line : SameLine chip after
  flags : after.peek (Dma1.base + Dma1.isr) =
    chip.peek (Dma1.base + Dma1.isr) ||| chip.flagsAfter c (chip.itemsLeft c - 1)
  memory : after.regions = chip.regions ∧ after.nextRegion = chip.nextRegion
  busy : after.busy = chip.latency ∧ after.latency = chip.latency

/-- Moving a byte of a channel that streams to the line delivers it. -/
theorem LineOn.delivered (line : chip.LineOn) (target : (chip.latch c).target = Serial.target)
    (streams : Streams (chip.controlOf c)) (byte : Byte) :
    Delivered chip c byte (chip.moved c byte) := by
  have stored : chip.stored c byte = chip.transmit byte := by
    rw [Chip.stored, target]
    exact line.store_data byte
  have once : ¬ (chip.itemsLeft c - 1 = 0 ∧ chip.controlOf c &&& Dma1.circular ≠ 0) :=
    fun h => h.2 streams.circular
  have stepped : chip.stepped c byte = (chip.latch c).step (chip.controlOf c) := by
    rw [Chip.stepped, stored]
    rfl
  obtain ⟨transmitted, busy, regions, nextRegion, latency⟩ := chip.hidden_moved c byte
  rw [stored] at transmitted busy regions nextRegion latency
  constructor
  · rw [latch_moved, if_neg once, stepped, Latch.step, if_neg streams.memoryIncrement,
      if_pos streams.peripheralIncrement]
  · rw [controlOf, peek_moved, stored]
    · rfl
    · exact Dma1.register_ne_flags c Dma1.ccr_inside
    · exact Dma1.register_ne_register Dma1.ccr_inside Dma1.cndtr_inside (.inr (by decide))
  · rw [itemsLeft_moved, if_neg once]
  · rw [transmitted, transmitted_transmit]
  · intro d ne
    have same : SameChannel d (chip.stored c byte) (chip.moved c byte) := .moved ne.symm byte
    rw [stored] at same
    exact ⟨same.latch, same.register⟩
  · have same : SameLine (chip.stored c byte) (chip.moved c byte) := .moved c byte
    rw [stored] at same
    exact same
  · rw [flags_moved, stored]
    congr 1
    rw [flagsAfter, flagsAfter, latch_setLatch, if_pos rfl, stepped]
    rfl
  · exact ⟨regions, nextRegion⟩
  · exact ⟨busy, latency⟩

/-! ## Sending a byte of a buffer -/

/-- A channel put the next byte of its buffer on the line. -/
structure Sends (chip : Chip) (c : Channel) (region : Region) (after : Chip) : Prop where
  some_left : chip.itemsLeft c ≠ 0
  reload : (chip.latch c).reload = BitVec.ofNat 32 region.bytes.size
  itemsLeft : after.itemsLeft c = chip.itemsLeft c - 1
  active : (after.latch c).active = true
  feed : after.Feed c region
  sent : ∃ byte, after.transmitted = chip.transmitted ++ [byte] ∧
    after.movedBytes c region = chip.movedBytes c region ++ [byte]
  others : ∀ d, d ≠ c → SameChannel d chip after
  line : SameLine chip after
  flags : after.peek (Dma1.base + Dma1.isr) =
    chip.peek (Dma1.base + Dma1.isr) ||| chip.flagsAfter c (chip.itemsLeft c - 1)
  memory : after.regions = chip.regions ∧ after.nextRegion = chip.nextRegion
  busy : after.busy = chip.latency ∧ after.latency = chip.latency

theorem Feed.canMove_iff (line : chip.LineReady) (feed : chip.Feed c region)
    (active : (chip.latch c).active = true) :
    chip.canMove c = true ↔ chip.itemsLeft c ≠ 0 ∧ chip.busy = 0 := by
  apply canMove_streaming_iff _ (feed.streams active) line
  rw [feed.working active]

/-- The byte that a working channel fetches is the next one of its buffer. -/
theorem Feed.fetches (layout : chip.Layout) (feed : chip.Feed c region)
    (active : (chip.latch c).active = true) (some_left : chip.itemsLeft c ≠ 0) :
    ∃ byte, chip.memoryByte? (chip.latch c).memory = some byte ∧
      region.bytes.toList[chip.movedCount c region]? = some byte := by
  have inside : chip.movedCount c region < region.bytes.size := by
    have := feed.count_le
    rw [movedCount]
    bv_omega
  refine ⟨region.bytes[chip.movedCount c region], ?_, ?_⟩
  · rw [feed.working active]
    exact layout.memoryByte?_add feed.registered inside
  · rw [Array.getElem?_toList, Array.getElem?_eq_getElem inside]

/-- Moving a fetched byte puts it on the line and keeps the channel working. -/
theorem Feed.moved (line : chip.LineReady) (feed : chip.Feed c region)
    (active : (chip.latch c).active = true) (some_left : chip.itemsLeft c ≠ 0)
    (next : region.bytes.toList[chip.movedCount c region]? = some byte) :
    Sends chip c region (chip.moved c byte) := by
  have latch := feed.working active
  have target : (chip.latch c).target = Serial.target := by rw [latch]
  have delivered := line.toLineOn.delivered target (feed.streams active) byte
  have before := feed.count_le
  have short := feed.short
  have count := delivered.itemsLeft
  have one_more : (chip.moved c byte).movedCount c region = chip.movedCount c region + 1 := by
    rw [movedCount, movedCount, count]
    bv_omega
  constructor
  · exact some_left
  · rw [latch]
  · exact count
  · rw [delivered.latch]
    exact active
  · constructor
    · rw [delivered.memory.1]
      exact feed.registered
    · exact short
    · rw [count]
      bv_omega
    · rw [delivered.latch, channelEnabled, ← controlOf, delivered.control]
      exact feed.active_eq
    · intro _
      rw [delivered.latch, latch, one_more, BitVec.ofNat_add, ← BitVec.add_assoc]
      rfl
    · intro _
      rw [delivered.control]
      exact feed.streams active
  · refine ⟨byte, delivered.transmitted, ?_⟩
    rw [movedBytes, one_more, List.take_add_one, next]
    rfl
  · exact delivered.others
  · exact delivered.line
  · exact delivered.flags
  · exact delivered.memory
  · exact delivered.busy

/-- The turn of a channel that feeds the line changes nothing or sends one byte. -/
theorem Feed.turn (layout : chip.Layout) (line : chip.LineReady) (feed : chip.Feed c region) :
    (Turn chip c chip ∧
      ((chip.latch c).active = true → chip.itemsLeft c = 0 ∨ chip.busy ≠ 0)) ∨
    ∃ after, Turn chip c after ∧ Sends chip c region after := by
  by_cases active : (chip.latch c).active = true
  · by_cases able : chip.canMove c = true
    · obtain ⟨some_left, free⟩ := (feed.canMove_iff line active).mp able
      obtain ⟨byte, mapped, next⟩ := feed.fetches layout active some_left
      have target : (chip.latch c).target = Serial.target := by rw [feed.working active]
      right
      exact ⟨chip.moved c byte, turn_streaming target (feed.streams active) layout line active
        some_left free mapped, feed.moved line active some_left next⟩
    · left
      refine ⟨.rest fun _ => by simpa using able, fun _ => ?_⟩
      rw [feed.canMove_iff line active] at able
      by_contra waits
      apply able
      tauto
  · left
    exact ⟨.rest fun h => (active h).elim, fun h => (active h).elim⟩

/-! ## A chip to start from -/

/-- The chip with its line brought up from reset, and two bytes in a shared buffer. -/
def broughtUp : Chip :=
  ((((reset.write Rcc.ahb1enr Rcc.dma1Enable).write Rcc.apb1lenr Rcc.usart3Enable).write
    (Usart3.base + Usart3.cr1) (Usart3.enable ||| Usart3.transmitterEnable)).write
    (Usart3.base + Usart3.cr3) Usart3.dmaTransmit).shared #[7, 8] 0x20000014

theorem broughtUp_reachable : Reachable Action.Counted broughtUp := by
  have start : Reachable Action.Counted reset := .reset
  have written := (((start.write Rcc.ahb1enr Rcc.dma1Enable (by decide +kernel)).write
    Rcc.apb1lenr Rcc.usart3Enable (by decide +kernel)).write
    (Usart3.base + Usart3.cr1) (Usart3.enable ||| Usart3.transmitterEnable)
    (by decide +kernel)).write (Usart3.base + Usart3.cr3) Usart3.dmaTransmit (by decide +kernel)
  have small : (#[7, 8] : Array Byte).size < 0x100000000 := by decide
  exact Reachable.perform (.share #[7, 8]) written small rfl

theorem broughtUp_ready : broughtUp.LineReady where
  serialClocked := by decide +kernel
  dmaClocked := by decide +kernel
  transmits := by decide +kernel
  requests := by decide +kernel

theorem broughtUp_idle : ∀ c, broughtUp.channelEnabled c = false ∧
    (broughtUp.latch c).active = false := by
  decide +kernel

theorem broughtUp_shares : ⟨0x20000000, #[7, 8]⟩ ∈ broughtUp.regions :=
  List.mem_singleton_self _

end Peripherals.Chip
