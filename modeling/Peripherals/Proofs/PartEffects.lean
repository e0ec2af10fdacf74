import Peripherals.Proofs.ChannelFrame
import Peripherals.Proofs.Recording

/-! # What a part of a run can do

Time and loads change no register. A turn of a channel either leaves the chip
alone, or fails with a bus error, or stores one item; beside that store only the
channel's own books change, also where the turn ends in a fault. So what holds
of every part follows from what holds of a store. -/

namespace Peripherals.Chip

variable {chip middle after : Chip} {c d : Channel} {address value : Word}

/-! ## The books of a channel -/

/-- Only the books of a channel differ: the flags, its registers and its latch. -/
structure Booked (c : Channel) (chip after : Chip) : Prop where
  peek : ∀ address, address ≠ Dma1.base + Dma1.isr →
    (∀ field : Word, field.toNat < 0x14 → address ≠ Dma1.register c field) →
      after.peek address = chip.peek address
  latch : ∀ d, d ≠ c → after.latch d = chip.latch d
  events : after.events = chip.events
  received : after.received = chip.received
  busy : after.busy = chip.busy
  latency : after.latency = chip.latency

namespace Booked

theorem refl (c : Channel) (chip : Chip) : Booked c chip chip :=
  ⟨fun _ _ _ => rfl, fun _ _ => rfl, rfl, rfl, rfl, rfl⟩

theorem trans (first : Booked c chip middle) (second : Booked c middle after) :
    Booked c chip after where
  peek address notFlags notOwn :=
    (second.peek address notFlags notOwn).trans (first.peek address notFlags notOwn)
  latch d ne := (second.latch d ne).trans (first.latch d ne)
  events := second.events.trans first.events
  received := second.received.trans first.received
  busy := second.busy.trans first.busy
  latency := second.latency.trans first.latency

theorem setLatch (c : Channel) (chip : Chip) (latch : Latch) :
    Booked c chip (chip.setLatch c latch) where
  peek _ _ _ := rfl
  latch d ne := by rw [latch_setLatch, if_neg ne.symm]
  events := rfl
  received := rfl
  busy := rfl
  latency := rfl

theorem poke_flags (c : Channel) (chip : Chip) (value : Word) :
    Booked c chip (chip.poke (Dma1.base + Dma1.isr) value) where
  peek address notFlags _ := by rw [peek_poke, if_neg notFlags.symm]
  latch _ _ := rfl
  events := rfl
  received := rfl
  busy := rfl
  latency := rfl

theorem poke_register (c : Channel) (chip : Chip) {field : Word} (small : field.toNat < 0x14)
    (value : Word) : Booked c chip (chip.poke (Dma1.register c field) value) where
  peek address _ notOwn := by rw [peek_poke, if_neg (notOwn field small).symm]
  latch _ _ := rfl
  events := rfl
  received := rfl
  busy := rfl
  latency := rfl

theorem countItem (c : Channel) (chip : Chip) (control left : Word) :
    Booked c chip (chip.countItem c control left) := by
  rw [countItem_eq]
  apply trans (poke_flags c chip _)
  apply trans (setLatch c _ _)
  exact poke_register c _ Dma1.cndtr_inside _

theorem busError (c : Channel) (chip : Chip) (control : Word) :
    Booked c chip (chip.busError c control) := by
  apply trans (poke_flags c chip _)
  apply trans (poke_register c _ Dma1.ccr_inside _)
  exact setLatch c _ _

theorem transmitted (books : Booked c chip after) : after.transmitted = chip.transmitted := by
  rw [transmitted_eq, books.events, transmitted_eq]

end Booked

/-! ## Turns -/

/-- What a turn of a channel can do, whether it returns or faults. -/
inductive TurnEffect (chip : Chip) (c : Channel) : Chip → Prop
  | rest : TurnEffect chip c chip
  | failed {after : Chip} (books : Booked c chip after) : TurnEffect chip c after
  | carried (byte : Byte) {after : Chip} (active : (chip.latch c).active = true)
      (able : chip.canMove c = true)
      (mapped : chip.memoryByte? (chip.latch c).memory = some byte)
      (books : Booked c (chip.stored c byte) after) : TurnEffect chip c after

section Upheld

variable {P : Chip → Prop} (latches : ∀ chip latch, P chip → P (chip.setLatch c latch))
  (counts : ∀ chip control left, P chip → P (chip.countItem c control left))

include latches

theorem stepMemory_upholds : Upholds P (stepMemory c) := by
  intro chip holds
  rw [stateAfter, EStateM.run, stepMemory]
  cases Checked.add (chip.latch c).memory 1 with
  | ok next => exact latches chip _ holds
  | error fault => exact holds

theorem stepTarget_upholds : Upholds P (stepTarget c) := by
  intro chip holds
  rw [stateAfter, EStateM.run, stepTarget]
  cases Checked.add (chip.latch c).target 1 with
  | ok next => exact latches chip _ holds
  | error fault => exact holds

include counts

/-- What holds after the store of an item holds after the item, whether it is moved or faults, if
new books keep it. -/
theorem moveItem_keeps (control remaining : Word) {byte : Byte} (holds : P (chip.stored c byte)) :
    P (stateAfter (moveItem c control remaining byte) chip) := by
  have counted : Upholds P (modify fun chip => chip.countItem c control (remaining - 1)) :=
    fun chip holds => counts chip control (remaining - 1) holds
  have steps := Upholds.when (control &&& Dma1.memoryIncrement != 0) (stepMemory_upholds latches)
    (Upholds.when (control &&& Dma1.peripheralIncrement != 0) (stepTarget_upholds latches) counted)
  exact steps _ holds

/-- What stores, new books and bus errors keep, a turn keeps. -/
theorem serveChannel_upholds (stores : ∀ chip byte, P chip → P (chip.stored c byte))
    (fails : ∀ chip, P chip → P (chip.busError c (chip.controlOf c))) :
    Upholds P (serveChannel c) := by
  intro chip holds
  rw [stateAfter, run_serveChannel, run_stepChannel]
  by_cases active : (chip.latch c).active = true
  · by_cases able : chip.canMove c = true
    · rw [if_pos active, if_pos able]
      cases chip.memoryByte? (chip.latch c).memory with
      | some byte => exact moveItem_keeps latches counts _ _ (stores chip byte holds)
      | none => exact fails chip holds
    · rw [if_pos active, if_neg able]
      exact holds
  · rw [if_neg active]
    exact holds

end Upheld

section Turns

variable (c : Channel) (base : Chip)

/-- Beside its store, moving an item changes the books only. -/
theorem moveItem_books (control remaining : Word) (byte : Byte) :
    Booked c (base.stored c byte) (stateAfter (moveItem c control remaining byte) base) :=
  moveItem_keeps (fun chip _ books => books.trans (.setLatch c chip _))
    (fun chip _ _ books => books.trans (.countItem c chip _ _)) control remaining (.refl c _)

/-- A turn rests, fails, or carries an item to the channel's target. -/
theorem turn_effect : TurnEffect base c (stateAfter (serveChannel c) base) := by
  rw [stateAfter, run_serveChannel, run_stepChannel]
  by_cases active : (base.latch c).active = true
  · by_cases able : base.canMove c = true
    · rw [if_pos active, if_pos able]
      cases mapped : base.memoryByte? (base.latch c).memory with
      | some byte => exact .carried byte active able mapped (moveItem_books c base _ _ byte)
      | none => exact .failed (.busError c base _)
    · rw [if_pos active, if_neg able]
      exact .rest
  · rw [if_neg active]
    exact .rest

end Turns

/-- A channel that is aimed at the data register carries only while USART3 asks for a byte. -/
theorem requestsData_of_canMove (able : chip.canMove c = true)
    (aimed : (chip.latch c).target = Serial.target) : chip.requestsData = true := by
  have data : (chip.latch c).target = Usart3.base + Usart3.tdr := aimed
  simp only [canMove, data, bne_self_eq_false, Bool.false_or, Bool.and_eq_true] at able
  exact able.2

/-- A load leaves everything but the receive queue. -/
theorem stateAfter_load (chip : Chip) (address : Word) :
    ∃ rest, stateAfter (load address) chip = { chip with received := rest } := by
  rw [stateAfter]
  obtain ⟨value, rest, loaded⟩ | ⟨fault, faulted⟩ := load_effect chip address
  · exact ⟨rest, by rw [loaded]⟩
  · exact ⟨chip.received, by rw [faulted]⟩

/-- Sharing leaves the same chip whether its address is used or dropped. -/
theorem stateAfter_perform_share (chip : Chip) (bytes : Array Byte) :
    stateAfter (Action.share bytes).perform chip = stateAfter (share bytes) chip :=
  stateAfter_dropped (share bytes) chip

/-- Sharing a buffer leaves everything but the memory of buffers. -/
theorem stateAfter_share (chip : Chip) (bytes : Array Byte) :
    ∃ regions next, stateAfter (Action.share bytes).perform chip =
      { chip with regions := regions, nextRegion := next } := by
  rw [stateAfter_perform_share, stateAfter, run_share]
  cases regionAfter chip.nextRegion bytes.size with
  | ok next => exact ⟨_, _, rfl⟩
  | error fault => exact ⟨_, _, rfl⟩

end Peripherals.Chip
