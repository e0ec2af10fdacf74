import Peripherals.Proofs.EngineConsistency
import Peripherals.Proofs.Line
import Peripherals.Proofs.MemoryLayout

/-! # The rest of an old transfer

A channel that a program takes over may still be at work. Which items it moves
next is read off its latch, its count and the memory, whatever else happens: at
the end of its buffer it stops or starts over, and where it finds no byte it
ends. Every tick moves at most one of these items, and what reaches the data
register goes to the line. -/

namespace Peripherals.Chip

variable {chip after : Chip} {c d : Channel} {byte : Byte}

/-! ## The items that follow -/

/-- How far a channel is in its transfer: where its next item is, and how many items are left. -/
structure Course where
  latch : Latch
  left : Word

def course (chip : Chip) (c : Channel) : Course :=
  ⟨chip.latch c, chip.itemsLeft c⟩

/-- The byte of a channel's next item, if the channel has an item left and finds it. -/
def itemAt? (chip : Chip) (c : Channel) (course : Course) : Option Byte :=
  if course.left = 0 ∨ chip.controlOf c &&& Dma1.fromMemory = 0 then none
  else chip.memoryByte? course.latch.memory

/-- One item on. A circular channel starts over behind its last item. -/
def advance (chip : Chip) (c : Channel) (course : Course) : Course :=
  if course.left - 1 = 0 ∧ chip.controlOf c &&& Dma1.circular ≠ 0 then
    ⟨{ course.latch with
        memory := chip.peek (Dma1.register c Dma1.cmar)
        target := chip.peek (Dma1.register c Dma1.cpar) }, course.latch.reload⟩
  else
    ⟨course.latch.step (chip.controlOf c), course.left - 1⟩

/-- How far an active channel is after some further items, if it gets that far. -/
def courseAfter? (chip : Chip) (c : Channel) : Nat → Option Course
  | 0 => if (chip.latch c).active then some (chip.course c) else none
  | n + 1 => (chip.courseAfter? c n).bind fun course =>
    (chip.itemAt? c course).map fun _ => chip.advance c course

/-- The byte that the item after `n` others puts on the line, if it puts one there. -/
def furtherByte? (chip : Chip) (c : Channel) (n : Nat) : Option Byte :=
  (chip.courseAfter? c n).bind fun course =>
    if course.latch.target = Serial.target then chip.itemAt? c course else none

/-- The bytes that the next `count` items of a channel put on the line. -/
def furtherBytes (chip : Chip) (c : Channel) (count : Nat) : List Byte :=
  (List.range count).filterMap (chip.furtherByte? c)

theorem furtherBytes_succ (chip : Chip) (c : Channel) (count : Nat) :
    chip.furtherBytes c (count + 1) =
      chip.furtherBytes c count ++ (chip.furtherByte? c count).toList := by
  rw [furtherBytes, List.range_succ, List.filterMap_append, furtherBytes]
  cases h : chip.furtherByte? c count <;> simp [h]

/-! ## The transmitter's pace -/

/-- The transmitter is busy for a bounded time, and the latency is as it was. -/
structure Paced (limit latency : Nat) (chip : Chip) : Prop where
  busy : chip.busy ≤ limit
  latency : chip.latency = latency

variable {limit latency : Nat} {address value : Word}

theorem Paced.store (effect : StoreEffect chip address value after) (bound : latency ≤ limit)
    (paced : Paced limit latency chip) : Paced limit latency after := by
  cases effect with
  | lost | output | cleared | replaced => exact ⟨paced.busy, paced.latency⟩
  | sent => exact ⟨Nat.le_trans (Nat.le_of_eq paced.latency) bound, paced.latency⟩
  | control =>
    rw [storeControl]
    split
    · exact ⟨paced.busy, paced.latency⟩
    split
    · exact ⟨paced.busy, paced.latency⟩
    · exact ⟨paced.busy, paced.latency⟩

theorem Paced.write (bound : latency ≤ limit) (paced : Paced limit latency chip)
    (address value : Word) : Paced limit latency (chip.write address value) :=
  have noted : Paced limit latency { chip with written := chip.written.insert address value } :=
    ⟨paced.busy, paced.latency⟩
  noted.store (store_effect _ address value) bound

theorem Paced.turn (turn : Turn chip c after) (bound : latency ≤ limit)
    (paced : Paced limit latency chip) : Paced limit latency after := by
  cases turn with
  | rest => exact paced
  | failed => exact ⟨paced.busy, paced.latency⟩
  | moved byte =>
    have stored : Paced limit latency (chip.stored c byte) :=
      paced.store (store_effect _ _ _) bound
    obtain ⟨-, busy, -, -, same⟩ := chip.hidden_moved c byte
    exact ⟨Nat.le_trans (Nat.le_of_eq busy) stored.busy, same.trans stored.latency⟩

theorem Paced.tick (passed : Chip.tick.run chip = .ok () after) (bound : latency ≤ limit)
    (paced : Paced limit latency chip) : Paced limit latency after := by
  have begun : Paced limit latency chip.countedDown :=
    ⟨Nat.le_trans (Nat.sub_le _ _) paced.busy, paced.latency⟩
  exact tick_keeps (fun _ _ _ paced turn => Paced.turn turn bound paced) begun passed

/-! ## Storing an item behind the data register -/

/-- No register that the line or a channel depends on lies shortly behind the data register. -/
theorem Aside.of_behind_data (behind : Serial.target.toNat < address.toNat)
    (near : address.toNat ≤ Serial.target.toNat + 0xFFFF) : Aside address := by
  have data : Serial.target.toNat = 0x40004828 := rfl
  constructor
  · intro member
    simp only [lineRegisters, List.mem_cons, List.not_mem_nil, or_false] at member
    obtain rfl | rfl | rfl | rfl := member
    · exact absurd near (by decide)
    · exact absurd near (by decide)
    · exact absurd behind (by decide)
    · exact absurd behind (by decide)
  · rintro rfl
    exact absurd behind (by decide)
  · rintro rfl
    exact absurd near (by decide)
  · rintro c field small rfl
    have position := Dma1.toNat_register c small
    omega

/-- What storing an item at the data register or shortly behind it does. -/
structure Deposited (chip : Chip) (c : Channel) (byte : Byte) : Prop where
  channels : ∀ d, SameChannel d chip (chip.stored c byte)
  line : SameLine chip (chip.stored c byte)
  transmitted : (chip.stored c byte).transmitted =
    chip.transmitted ++ if (chip.latch c).target = Serial.target then [byte] else []

theorem LineOn.deposited (line : chip.LineOn)
    (near : WentAtMost 0xFFFF Serial.target (chip.latch c).target) (byte : Byte) :
    Deposited chip c byte := by
  by_cases data : (chip.latch c).target = Serial.target
  · have stored : chip.stored c byte = chip.transmit byte := by
      rw [Chip.stored, data]
      exact line.store_data byte
    constructor
    · intro d
      rw [stored]
      exact ⟨rfl, fun _ _ => rfl⟩
    · intro address _
      rw [stored]
      rfl
    · rw [stored, if_pos data, transmitted_transmit]
  · have aside : Aside (chip.latch c).target := by
      apply Aside.of_behind_data _ near.2
      exact Nat.lt_of_le_of_ne near.1 fun same => data (BitVec.eq_of_toNat_eq same).symm
    have undisturbed : Undisturbed chip (chip.stored c byte) :=
      (store_effect _ _ _).undisturbed aside
    constructor
    · exact undisturbed.channels
    · exact undisturbed.line
    · rw [if_neg data, List.append_nil]
      exact undisturbed.transmitted

/-- A moved item takes the channel one item on. -/
theorem Deposited.course (deposited : Deposited chip c byte) :
    (chip.moved c byte).course c = chip.advance c (chip.course c) := by
  have latch := chip.latch_moved c byte
  have count := chip.itemsLeft_moved c byte
  have same := deposited.channels c
  rw [same.register Dma1.cmar Dma1.cmar_inside, same.register Dma1.cpar Dma1.cpar_inside, stepped,
    same.latch] at latch
  rw [same.latch] at count
  rw [Chip.course, latch, count, advance, Chip.course]
  by_cases ended : chip.itemsLeft c - 1 = 0 ∧ chip.controlOf c &&& Dma1.circular ≠ 0
  · simp only [if_pos ended]
    rfl
  · simp only [if_neg ended]

theorem Deposited.register (deposited : Deposited chip c byte) {field : Word}
    (small : field.toNat < 0x14) (notCount : field ≠ Dma1.cndtr) :
    (chip.moved c byte).peek (Dma1.register c field) = chip.peek (Dma1.register c field) := by
  rw [peek_moved _ _ _ (Dma1.register_ne_flags c small)
    (Dma1.register_ne_register small Dma1.cndtr_inside (.inr notCount))]
  exact (deposited.channels c).register field small

/-! ## The old transfer under way -/

/-- The registers that say what an active channel does, besides its count. -/
def workingRegisters : List Word :=
  [Dma1.ccr, Dma1.cpar, Dma1.cmar]

/-- An old transfer goes on as it would from an origin, or has ended, and at most `most` of its
items were moved since. The memory is that of a third chip, which the origin's extends. -/
structure Trailing (origin home : Chip) (c : Channel) (most : Nat) (chip : Chip) : Prop where
  line : chip.LineOn
  consistent : chip.Consistent c
  alone : ∀ d, d ≠ c → (chip.latch d).active = false
  memory : chip.regions = home.regions ∧ chip.nextRegion = home.nextRegion
  working : (chip.latch c).active = true → ∀ field ∈ workingRegisters,
    chip.peek (Dma1.register c field) = origin.peek (Dma1.register c field)
  toData : (chip.latch c).active = true → origin.peek (Dma1.register c Dma1.cpar) = Serial.target
  short : (chip.latch c).active = true → (chip.latch c).reload.toNat ≤ 0xFFFF
  sent : ∃ k, k ≤ most ∧ chip.transmitted = origin.transmitted ++ origin.furtherBytes c k ∧
    ((chip.latch c).active = true → origin.courseAfter? c k = some (chip.course c))

namespace Trailing

variable {origin home : Chip} {most : Nat}

theorem mono (trailing : Trailing origin home c most chip) {more : Nat} (bound : most ≤ more) :
    Trailing origin home c more chip := by
  obtain ⟨k, few, sent⟩ := trailing.sent
  exact { trailing with sent := ⟨k, Nat.le_trans few bound, sent⟩ }

theorem control (trailing : Trailing origin home c most chip)
    (active : (chip.latch c).active = true) : chip.controlOf c = origin.controlOf c :=
  trailing.working active _ (by simp [workingRegisters])

/-- The item of an active channel goes to the data register or shortly behind it. -/
theorem near (trailing : Trailing origin home c most chip)
    (active : (chip.latch c).active = true) :
    WentAtMost 0xFFFF Serial.target (chip.latch c).target := by
  have went := trailing.consistent.target active
  have short := trailing.short active
  rw [trailing.working active _ (by simp [workingRegisters]), trailing.toData active] at went
  obtain ⟨low, high⟩ := went
  exact ⟨low, by omega⟩

theorem itemAt?_eq (trailing : Trailing origin home c most chip)
    (found : ∀ address byte, home.memoryByte? address = some byte →
      origin.memoryByte? address = some byte)
    (active : (chip.latch c).active = true) (able : chip.canMove c = true)
    (mapped : chip.memoryByte? (chip.latch c).memory = some byte) :
    origin.itemAt? c (chip.course c) = some byte := by
  simp only [canMove, Bool.and_eq_true, bne_iff_ne] at able
  have control := trailing.control active
  have stops : ¬ (chip.itemsLeft c = 0 ∨ origin.controlOf c &&& Dma1.fromMemory = 0) := by
    rw [← control]
    exact not_or.mpr able.1
  rw [memoryByte?, trailing.memory.1] at mapped
  rw [itemAt?, course, if_neg stops]
  exact found _ _ mapped

/-- Moving an item goes on with the old transfer. -/
theorem moved (trailing : Trailing origin home c most chip)
    (found : ∀ address byte, home.memoryByte? address = some byte →
      origin.memoryByte? address = some byte)
    (active : (chip.latch c).active = true) (able : chip.canMove c = true)
    (mapped : chip.memoryByte? (chip.latch c).memory = some byte)
    (steps : ((chip.stored c byte).latch c).Steps (chip.controlOf c)) :
    Trailing origin home c (most + 1) (chip.moved c byte) ∧ SameLine chip (chip.moved c byte) := by
  have deposited := trailing.line.deposited (trailing.near active) byte
  have effect : StoreEffect chip _ _ (chip.stored c byte) := store_effect _ _ _
  obtain ⟨transmitted, -, regions, nextRegion, -⟩ := chip.hidden_moved c byte
  have course := deposited.course
  have same (field : Word) (listed : field ∈ workingRegisters) :
      (chip.moved c byte).peek (Dma1.register c field) =
        chip.peek (Dma1.register c field) := by
    have small : field.toNat < 0x14 ∧ field ≠ Dma1.cndtr := by
      simp only [workingRegisters, List.mem_cons, List.not_mem_nil, or_false] at listed
      obtain rfl | rfl | rfl := listed <;> decide
    exact deposited.register small.1 small.2
  have line : SameLine chip (chip.moved c byte) := deposited.line.trans (.moved c byte)
  have reload : ((chip.moved c byte).latch c).reload = (chip.latch c).reload := by
    have latch := congrArg Course.latch course
    change (chip.moved c byte).latch c = (chip.advance c (chip.course c)).latch at latch
    rw [latch, advance]
    split <;> rfl
  refine ⟨?_, line⟩
  constructor
  · exact trailing.line.of_same line
  · exact trailing.consistent.moved active able steps
  · intro d ne
    have moved : SameChannel d (chip.stored c byte) (chip.moved c byte) := .moved ne.symm byte
    rw [moved.latch, (deposited.channels d).latch]
    exact trailing.alone d ne
  · constructor
    · rw [regions, effect.regions_eq.1]
      exact trailing.memory.1
    · rw [nextRegion, effect.regions_eq.2]
      exact trailing.memory.2
  · intro _ field listed
    rw [same field listed]
    exact trailing.working active field listed
  · intro _
    exact trailing.toData active
  · intro _
    rw [reload]
    exact trailing.short active
  · obtain ⟨k, few, sent, reached⟩ := trailing.sent
    have reached := reached active
    have item := trailing.itemAt?_eq found active able mapped
    have advanced : chip.advance c (chip.course c) = origin.advance c (chip.course c) := by
      rw [advance, advance, trailing.control active,
        trailing.working active Dma1.cmar (by simp [workingRegisters]),
        trailing.working active Dma1.cpar (by simp [workingRegisters])]
    refine ⟨k + 1, by omega, ?_, fun _ => ?_⟩
    · have next : (origin.furtherByte? c k).toList =
          if (chip.latch c).target = Serial.target then [byte] else [] := by
        rw [furtherByte?, reached, Option.bind_some]
        change (if (chip.latch c).target = Serial.target then origin.itemAt? c (chip.course c)
          else none).toList = _
        split
        · rw [item]
          rfl
        · rfl
      rw [transmitted, deposited.transmitted, sent, furtherBytes_succ, next, List.append_assoc]
    · rw [courseAfter?, reached, Option.bind_some, item, Option.map_some, course, advanced]

/-- The channel's turn moves one item of the old transfer at most. -/
theorem turn (trailing : Trailing origin home c most chip) (layout : home.Layout)
    (found : ∀ address byte, home.memoryByte? address = some byte →
      origin.memoryByte? address = some byte) :
    ∃ after, Turn chip c after ∧ Trailing origin home c (most + 1) after ∧ SameLine chip after := by
  by_cases active : (chip.latch c).active = true
  · by_cases able : chip.canMove c = true
    · cases mapped : chip.memoryByte? (chip.latch c).memory with
      | none =>
        have failed : Turn chip c (chip.busError c (chip.controlOf c)) :=
          .failed active able mapped
        have inactive : ((chip.busError c (chip.controlOf c)).latch c).active = false := by
          rw [latch_busError]
        have never (active : ((chip.busError c (chip.controlOf c)).latch c).active = true) :
            False := by
          rw [inactive] at active
          cases active
        have line : SameLine chip (chip.busError c (chip.controlOf c)) :=
          SameLine.trans (.poke flags_not_line _) (.poke (register_not_line c Dma1.ccr_inside) _)
        refine ⟨_, failed, ?_, line⟩
        constructor
        · exact trailing.line.of_same line
        · exact trailing.consistent.turn failed
        · intro d ne
          rw [(SameChannel.busError ne.symm _).latch]
          exact trailing.alone d ne
        · exact trailing.memory
        · intro active
          exact (never active).elim
        · intro active
          exact (never active).elim
        · intro active
          exact (never active).elim
        · obtain ⟨k, few, sent, -⟩ := trailing.sent
          exact ⟨k, by omega, sent, fun active => (never active).elim⟩
      | some byte =>
        have deposited := trailing.line.deposited (trailing.near active) byte
        have steps : ((chip.stored c byte).latch c).Steps (chip.controlOf c) := by
          rw [(deposited.channels c).latch]
          constructor
          · intro _
            exact (layout.of_same trailing.memory).room mapped
          · intro _
            have data : Serial.target.toNat = 0x40004828 := rfl
            have near := (trailing.near active).2
            omega
        exact ⟨_, .moved byte active able mapped steps,
          trailing.moved found active able mapped steps⟩
    · exact ⟨chip, .rest fun _ => by simpa using able, trailing.mono (Nat.le_succ _), .refl chip⟩
  · exact ⟨chip, .rest fun h => (active h).elim, trailing.mono (Nat.le_succ _), .refl chip⟩

/-- What changes no channel and transmits nothing leaves the old transfer where it is. -/
theorem of_same {memory : Chip} (trailing : Trailing origin home c most chip)
    (line : after.LineOn) (same : ∀ d, SameChannel d chip after)
    (transmitted : after.transmitted = chip.transmitted)
    (regions : after.regions = memory.regions ∧ after.nextRegion = memory.nextRegion) :
    Trailing origin memory c most after where
  line := line
  consistent := trailing.consistent.of_same (same c)
  alone d ne := by
    rw [(same d).latch]
    exact trailing.alone d ne
  memory := regions
  working active field listed := by
    have small : field.toNat < 0x14 := by
      simp only [workingRegisters, List.mem_cons, List.not_mem_nil, or_false] at listed
      obtain rfl | rfl | rfl := listed <;> decide
    rw [(same c).latch] at active
    rw [(same c).register field small]
    exact trailing.working active field listed
  toData active := by
    rw [(same c).latch] at active
    exact trailing.toData active
  short active := by
    rw [(same c).latch] at active ⊢
    exact trailing.short active
  sent := by
    obtain ⟨k, few, sent, reached⟩ := trailing.sent
    refine ⟨k, few, transmitted.trans sent, fun active => ?_⟩
    rw [(same c).latch] at active
    rw [reached active, course, course, (same c).latch, (same c).itemsLeft]

theorem of_undisturbed (trailing : Trailing origin home c most chip)
    (undisturbed : Undisturbed chip after) : Trailing origin home c most after :=
  trailing.of_same (trailing.line.of_same undisturbed.line) undisturbed.channels
    undisturbed.transmitted ⟨undisturbed.memory.1.trans trailing.memory.1,
      undisturbed.memory.2.trans trailing.memory.2⟩

/-- So does a tick. -/
theorem tick (trailing : Trailing origin home c most chip) (layout : home.Layout)
    (found : ∀ address byte, home.memoryByte? address = some byte →
      origin.memoryByte? address = some byte) :
    ∃ after, Chip.tick.run chip = .ok () after ∧ Trailing origin home c (most + 1) after ∧
      SameLine chip after := by
  have clocked : chip.clocked (.dma1 0) = true := trailing.line.dmaClocked
  have begun : Trailing origin home c most chip.countedDown :=
    trailing.of_undisturbed chip.countedDown_undisturbed
  rw [tick_eq, if_pos clocked]
  obtain ⟨after, turn, trailing', line⟩ := begun.turn layout found
  exact ⟨after, serve_one turn begun.alone trailing'.alone, trailing', line⟩

end Trailing

end Peripherals.Chip
