import Peripherals.Driver.Serial
import Peripherals.Proofs.HandleCalls
import Peripherals.Proofs.OldTransfer
import Peripherals.Proofs.ShortPasses
import Peripherals.Proofs.SingleTransfer

/-! # Using a channel again

A buffer can be sent by a channel in whatever state the channel is. The old
transfer gets at most three more items: one while requests are enabled, one
while the enable bit is checked, one while the channel is stopped. Then exactly
the buffer follows, and waiting for the channel lasts until it is out. -/

namespace Peripherals

open Bus Chip

/-- Send a buffer by a channel, and wait until the channel has sent it. -/
def Serial.sendAndWait (buffer : Buffer) (c : Channel) (config : ChannelConfig) :
    HeldM Chip Serial Unit := do
  Serial.sendBuffer buffer c config
  Held.onBus (Dma.wait c)

/-- What sending a buffer and waiting for it does on the bus. -/
def Serial.callsOnBus (buffer : Buffer) (c : Channel) (config : ChannelConfig) :
    BusM Chip Unit := do
  Bus.setBits (Usart3.base + Usart3.cr3) Usart3.dmaTransmit
  Bus.write (Usart3.base + Usart3.icr) Usart3.tcClear
  let source ← Bus.share buffer
  Dma.configure c Serial.target source (BitVec.ofNat 32 buffer.bytes.size)
  Dma.start c config
  Dma.wait c

theorem Serial.sendAndWait_does (buffer : Buffer) (c : Channel) (config : ChannelConfig) :
    Held.Does (Serial.sendAndWait buffer c config) (Serial.callsOnBus buffer c config) := by
  have parts : Held.Does (Serial.sendAndWait buffer c config) _ :=
    .bind (.bind (.bind (.onBus _) fun _ => .change _) fun _ => .onBus _) fun _ => .onBus _
  simp only [bind_assoc, pure_bind] at parts
  exact parts

/-! ## From the old transfer to a vacant channel -/

namespace Chip

variable {origin home chip after : Chip} {c : Channel} {region : Region}
  {most limit latency count : Nat} {value : Word}

/-- An old transfer goes on while the line asks for bytes. -/
structure Draining (origin home : Chip) (c : Channel) (limit latency most : Nat) (chip : Chip) :
    Prop where
  trailing : Trailing origin home c most chip
  ready : chip.LineReady
  paced : Paced limit latency chip

/-- The old transfer has ended after some of its items, and its channel can be programmed. -/
structure Drained (origin : Chip) (c : Channel) (region : Region) (limit latency count : Nat)
    (chip : Chip) : Prop where
  few : count ≤ 3
  vacant : Vacant (origin.transmitted ++ origin.furtherBytes c count) c region chip
  paced : Paced limit latency chip

theorem Draining.tick (draining : Draining origin origin c limit latency most chip)
    (layout : origin.Layout) (bound : latency ≤ limit) :
    ∃ after, Chip.tick.run chip = .ok () after ∧
      Draining origin origin c limit latency (most + 1) after := by
  obtain ⟨after, passed, trailing, line⟩ := draining.trailing.tick layout fun _ _ found => found
  exact ⟨after, passed, trailing, draining.ready.of_same line, draining.paced.tick passed bound⟩

/-- What disables the channel, and reaches nothing else, ends the old transfer. -/
theorem Draining.drained (draining : Draining origin origin c limit latency most chip)
    (few : most ≤ 3) (layout : origin.Layout) (member : region ∈ origin.regions)
    (confined : Confined c chip after) (disabled : after.channelEnabled c = false)
    (inactive : (after.latch c).active = false) (paced : Paced limit latency after) :
    ∃ count, Drained origin c region limit latency count after := by
  obtain ⟨count, less, sent, -⟩ := draining.trailing.sent
  refine ⟨count, Nat.le_trans less few, ?_, paced⟩
  constructor
  · exact draining.ready.of_same confined.line
  · exact (layout.of_same draining.trailing.memory).of_same confined.memory
  · exact disabled
  · intro d
    by_cases same : d = c
    · rw [same]
      exact inactive
    · rw [(confined.others d same).latch]
      exact draining.trailing.alone d same
  · rw [confined.memory.1, draining.trailing.memory.1]
    exact member
  · exact confined.transmitted.trans sent

theorem Drained.tick (drained : Drained origin c region limit latency count chip)
    (bound : latency ≤ limit) :
    ∃ after, Chip.tick.run chip = .ok () after ∧
      Drained origin c region limit latency count after :=
  ⟨chip.countedDown, drained.vacant.tick, drained.few, drained.vacant.countedDown,
    drained.paced.tick drained.vacant.tick bound⟩

end Chip

section Draining

variable {origin : Chip} {c : Channel} {region : Region} {limit latency : Nat}
  (layout : origin.Layout) (member : region ∈ origin.regions) (bound : latency ≤ limit)

include layout member bound

/-- Stopping a channel lets one more item pass. -/
theorem Dma.stop_draining :
    Settles 2 (Draining origin origin c limit latency 2) (Dma.stop c) fun _ chip =>
      ∃ count, Drained origin c region limit latency count chip := by
  apply Dma.stop_settles (B := Draining origin origin c limit latency 3)
  · intro chip draining
    exact draining.tick layout bound
  · intro chip draining
    exact draining.ready.dmaClocked
  · intro chip draining
    have wrote := controlled (c := c) draining.ready.dmaClocked
      (chip.controlOf c &&& ~~~Dma1.enable)
    apply draining.drained (Nat.le_refl 3) layout member wrote.confined
    · rw [wrote.enabled, and_not_and_self]
      rfl
    · rw [wrote.latch, if_pos (and_not_and_self _)]
    · exact draining.paced.write bound _ _
  · rintro chip ⟨count, drained⟩
    obtain ⟨after, passed, drained⟩ := drained.tick bound
    exact ⟨after, passed, count, drained⟩
  · rintro chip ⟨count, drained⟩
    exact ⟨drained.vacant.line.dmaClocked, drained.vacant.disabled⟩

/-- Configuring the channel ends the old transfer, if it has not ended before. -/
theorem Dma.configure_draining (short : region.bytes.size ≤ 0xFFFF) :
    Settles 3 (Draining origin origin c limit latency 1)
      (Dma.configure c Serial.target region.base (BitVec.ofNat 32 region.bytes.size))
      fun _ chip => ∃ count, count ≤ 3 ∧
        Prepared (origin.transmitted ++ origin.furtherBytes c count) c region chip ∧
        Paced limit latency chip := by
  change Settles (1 + 2) _ _ _
  apply Dma.configure_settles (B := Draining origin origin c limit latency 2)
    (R := fun chip => ∃ count, Drained origin c region limit latency count chip)
  · exact toNat_ofNat_le short
  · have check := Dma.check_settles c (P := Draining origin origin c limit latency 1)
      (fun chip draining => draining.tick layout bound)
      fun chip draining => draining.ready.dmaClocked
    apply check.weaken (Nat.le_refl 1) (fun _ holds => holds)
    rintro enabled chip ⟨draining, same⟩
    cases enabled with
    | true => exact draining
    | false =>
      apply draining.drained (by decide) layout member _ same.symm _ draining.paced
      · exact ⟨fun _ _ => .refl _ _, .refl _, rfl, rfl, rfl⟩
      · rw [draining.trailing.consistent.active_eq]
        exact same.symm
  · exact Dma.stop_draining layout member bound
  · rintro chip ⟨count, drained⟩
    refine ⟨count, drained.few, drained.vacant.prepared, ?_⟩
    rw [programmed]
    exact (((drained.paced.write bound _ _).write bound _ _).write bound _ _).write bound _ _

end Draining

/-! ## Before the channel is configured -/

section Taking

variable {first chip : Chip} {c : Channel} {buffer : Buffer} {next : Word} {limit latency : Nat}

theorem Chip.LineOn.write_requests (line : chip.LineOn) (value : Word) :
    chip.write (Usart3.base + Usart3.cr3) value =
      (chip.noted (Usart3.base + Usart3.cr3) value).poke (Usart3.base + Usart3.cr3) value := by
  have clock : (chip.noted (Usart3.base + Usart3.cr3) value).clocked (.usart3 Usart3.cr3) = true :=
    line.serialClocked
  have decoded : Block.decode (Usart3.base + Usart3.cr3) = .usart3 Usart3.cr3 := rfl
  have notData : Usart3.cr3 ≠ Usart3.tdr := by decide
  have kept : ¬ (Usart3.cr3 = Usart3.isr ∨ Usart3.cr3 = Usart3.rdr ∨ Usart3.cr3 = Usart3.icr) := by
    decide
  change (chip.noted (Usart3.base + Usart3.cr3) value).store (Usart3.base + Usart3.cr3) value = _
  simp only [store, decoded, clock, if_true, storeUsart, if_neg notData, if_neg kept]

theorem Chip.LineOn.load_requests (line : chip.LineOn) :
    (load (Usart3.base + Usart3.cr3)).run chip =
      .ok (chip.peek (Usart3.base + Usart3.cr3)) chip := by
  have clock : chip.clocked (.usart3 Usart3.cr3) = true := line.serialClocked
  have decoded : Block.decode (Usart3.base + Usart3.cr3) = .usart3 Usart3.cr3 := rfl
  have notStatus : Usart3.cr3 ≠ Usart3.isr := by decide
  have notReceived : Usart3.cr3 ≠ Usart3.rdr := by decide
  simp only [load, EStateM.run, decoded, clock, if_true, if_neg notStatus, if_neg notReceived]

/-- Enabling requests makes the line ready, and changes no channel. -/
theorem Chip.LineOn.requested {value : Word} (line : chip.LineOn)
    (on : value &&& Usart3.dmaTransmit ≠ 0) :
    (chip.write (Usart3.base + Usart3.cr3) value).LineReady ∧
      ∀ d, SameChannel d chip (chip.write (Usart3.base + Usart3.cr3) value) := by
  rw [line.write_requests]
  have peek (address : Word) : ((chip.noted (Usart3.base + Usart3.cr3) value).poke
      (Usart3.base + Usart3.cr3) value).peek address =
      if Usart3.base + Usart3.cr3 = address then value else chip.peek address := by
    rw [peek_poke]
    rfl
  have apart (d : Channel) {field : Word} (small : field.toNat < 0x14) :
      Usart3.base + Usart3.cr3 ≠ Dma1.register d field := by
    intro same
    have member : Usart3.base + Usart3.cr3 ∈ lineRegisters := by simp [lineRegisters]
    exact register_not_line d small (same ▸ member)
  refine ⟨⟨⟨?_, ?_, ?_⟩, ?_⟩, fun d => ⟨rfl, fun field small => ?_⟩⟩
  · rw [clocked, peek, if_neg (by decide)]
    exact line.serialClocked
  · rw [clocked, peek, if_neg (by decide)]
    exact line.dmaClocked
  · rw [usartHas, peek, if_neg (by decide)]
    exact line.transmits
  · rw [peek, if_pos rfl]
    exact on
  · rw [peek, if_neg (apart d small)]

/-- Enabling requests lets the old transfer go on, also where it waited for them. -/
theorem Chip.Trailing.requested {origin home : Chip} {most : Nat} {value : Word}
    (trailing : Trailing origin home c most chip) (on : value &&& Usart3.dmaTransmit ≠ 0)
    (paced : Paced limit latency chip) (bound : latency ≤ limit) :
    Draining origin home c limit latency most
      (chip.write (Usart3.base + Usart3.cr3) value) := by
  have paced' := paced.write bound (Usart3.base + Usart3.cr3) value
  obtain ⟨ready, same⟩ := trailing.line.requested on
  refine ⟨trailing.of_same ready.toLineOn same ?_ ?_, ready, paced'⟩
  · rw [trailing.line.write_requests]
    rfl
  · rw [trailing.line.write_requests]
    exact trailing.memory

theorem Serial.request_trailing {origin home : Chip} (layout : home.Layout)
    (found : ∀ address byte, home.memoryByte? address = some byte →
      origin.memoryByte? address = some byte) (bound : latency ≤ limit) :
    Settles 1 (fun chip => Trailing origin home c 0 chip ∧ Paced limit latency chip)
      (Bus.setBits (Usart3.base + Usart3.cr3) Usart3.dmaTransmit) fun _ =>
      Draining origin home c limit latency 1 := by
  change Settles (1 + 0) _ _ _
  refine Settles.bind (R := fun _ chip =>
    Trailing origin home c 1 chip ∧ Paced limit latency chip) ?_ fun value => ?_
  · apply Settles.read
    rintro chip ⟨trailing, paced⟩
    obtain ⟨after, passed, trailing, -⟩ := trailing.tick layout found
    exact ⟨after, passed, trailing.line.load_requests, trailing, paced.tick passed bound⟩
  · apply Settles.write
    rintro chip ⟨trailing, paced⟩
    apply trailing.requested _ paced bound
    rw [or_and_ne_zero_iff]
    exact .inr (by decide)

/-- Clearing a flag of USART3 is lost. -/
theorem Chip.Draining.cleared {origin home : Chip} {most : Nat} {value : Word}
    (draining : Draining origin home c limit latency most chip) (bound : latency ≤ limit) :
    Draining origin home c limit latency most
      (chip.write (Usart3.base + Usart3.icr) value) := by
  have aside : Aside (Usart3.base + Usart3.icr) := by
    constructor
    · simp only [lineRegisters]
      decide
    · decide
    · decide
    · rintro d field small same
      have decoded := Dma1.decode_register d small
      have icr : Block.decode (Usart3.base + Usart3.icr) = .usart3 Usart3.icr := rfl
      rw [← same, icr] at decoded
      cases decoded
  have undisturbed : Undisturbed chip (chip.write (Usart3.base + Usart3.icr) value) :=
    .write aside chip value
  exact ⟨draining.trailing.of_undisturbed undisturbed, draining.ready.of_same undisturbed.line,
    draining.paced.write bound _ _⟩

/-- Sharing the new buffer lets the old transfer go on in the memory that it is part of. -/
theorem Bus.share_draining {most : Nat}
    (fits : regionAfter first.nextRegion buffer.bytes.size = .ok next) :
    Settles 0 (Draining (first.shared buffer.bytes next) first c limit latency most)
      (Bus.share buffer) fun source chip => source = first.nextRegion ∧
        Draining (first.shared buffer.bytes next) (first.shared buffer.bytes next) c limit latency
          most chip := by
  rintro ⟨chip, ticks, log⟩ draining
  obtain ⟨regions, nextRegion⟩ := draining.trailing.memory
  have fits' : regionAfter chip.nextRegion buffer.bytes.size = .ok next := by
    rw [nextRegion]
    exact fits
  rw [share_fits chip ticks log fits']
  refine ⟨⟨nextRegion, ?_⟩, Nat.le_refl _⟩
  have line : SameLine chip (chip.shared buffer.bytes next) := fun _ _ => rfl
  refine ⟨draining.trailing.of_same (draining.trailing.line.of_same line)
    (fun d => ⟨rfl, fun _ _ => rfl⟩) rfl ?_, draining.ready.of_same line,
    draining.paced.busy, draining.paced.latency⟩
  constructor
  · change chip.regions ++ [⟨chip.nextRegion, buffer.bytes⟩] =
      first.regions ++ [⟨first.nextRegion, buffer.bytes⟩]
    rw [regions, nextRegion]
  · rfl

end Taking

/-! ## The new transfer -/

section Sending

variable {first chip after : Chip} {c : Channel} {region : Region} {before : List Byte}
  {limit latency : Nat}

/-- A tick leaves alone the register that says where a sending channel stores. -/
theorem Chip.Sending.peek_target (sending : Sending before c region chip)
    (passed : Chip.tick.run chip = .ok () after) :
    after.peek (Dma1.register c Dma1.cpar) = chip.peek (Dma1.register c Dma1.cpar) := by
  have begun := sending.of_undisturbed chip.countedDown_undisturbed
  obtain ⟨rested, -⟩ | ⟨served, returned, turn, -⟩ := sending.tick_turns
  · obtain ⟨-, rfl⟩ := EStateM.Result.ok.inj (rested.symm.trans passed)
    rfl
  · obtain ⟨-, rfl⟩ := EStateM.Result.ok.inj (returned.symm.trans passed)
    cases turn with
    | rest => rfl
    | failed =>
      rw [peek_busError _ _ _ (Dma1.register_ne_flags c Dma1.cpar_inside)
        (Dma1.register_ne_register Dma1.cpar_inside Dma1.ccr_inside (.inr (by decide)))]
      rfl
    | moved byte active =>
      have data : (chip.countedDown.latch c).target = Serial.target := by
        rw [begun.feed.working active]
      have near : WentAtMost 0xFFFF Serial.target (chip.countedDown.latch c).target :=
        data ▸ .start _ _
      exact (begun.line.toLineOn.deposited near byte).register Dma1.cpar_inside (by decide)

/-- A sending channel that is still programmed for the data register. -/
structure Chip.Feeding (before : List Byte) (c : Channel) (region : Region) (chip : Chip) : Prop
    extends Sending before c region chip where
  programmed : chip.peek (Dma1.register c Dma1.cpar) = Serial.target

theorem Chip.Feeding.tick (feeding : Feeding before c region chip) :
    ∃ after, Chip.tick.run chip = .ok () after ∧ Feeding before c region after ∧
      ((chip.latch c).active = true → (after.latch c).active = true ∧
        (after.itemsLeft c ≠ 0 → after.pending c < chip.pending c)) := by
  obtain ⟨after, passed, sending, closer⟩ := feeding.toSending.tick
  have kept := feeding.toSending.peek_target passed
  exact ⟨after, passed, ⟨sending, kept.trans feeding.programmed⟩, closer⟩

theorem Dma.start_pending {config : ChannelConfig} (nonempty : 1 ≤ region.bytes.size)
    (short : region.bytes.size ≤ 0xFFFF) (streams : Streams (config.bits ||| Dma1.enable))
    (bound : latency ≤ limit) :
    Settles 0 (fun chip => Prepared before c region chip ∧ Paced limit latency chip)
      (Dma.start c config) fun _ chip => Feeding before c region chip ∧
        (chip.latch c).active = true ∧
        chip.pending c ≤ limit + region.bytes.size * (latency + 1) := by
  apply Settles.write
  rintro chip ⟨prepared, paced⟩
  have wrote := controlled (c := c) prepared.vacant.line.dmaClocked (config.bits ||| Dma1.enable)
  obtain ⟨sending, active⟩ := prepared.start nonempty short config.control_enables streams wrote
  obtain ⟨busy, same⟩ := paced.write bound (Dma1.register c Dma1.ccr) (config.bits ||| Dma1.enable)
  have count := toNat_itemsLeft short (wrote.itemsLeft.trans prepared.ready.length)
  have programmed := (wrote.fields Dma1.cpar Dma1.cpar_inside (by decide)).trans
    prepared.ready.target
  refine ⟨⟨sending, programmed⟩, active, ?_⟩
  rw [pending, same, count]
  omega

/-- Waiting ends when the whole buffer is out, after as many ticks as the transmitter needs. -/
theorem Dma.wait_sending (most : Nat) :
    Settles (most + 1)
      (fun chip => Feeding before c region chip ∧ (chip.latch c).active = true ∧
        chip.pending c ≤ most)
      (Dma.wait c) fun _ chip => Feeding before c region chip ∧ chip.itemsLeft c = 0 := by
  apply Settles.untilTrue (J := fun n chip => Feeding before c region chip ∧
    (chip.latch c).active = true ∧ chip.pending c ≤ n)
  intro n
  change Settles (1 + 0) _ _ _
  refine Settles.bind (R := fun flags chip => flags = chip.peek (Dma1.base + Dma1.isr) ∧
    Feeding before c region chip ∧ (chip.latch c).active = true ∧
    (chip.itemsLeft c ≠ 0 → chip.pending c < n)) ?_ fun flags => ?_
  · apply Settles.read
    rintro chip ⟨feeding, active, few⟩
    obtain ⟨after, passed, feeding', closer⟩ := feeding.tick
    obtain ⟨active', less⟩ := closer active
    refine ⟨after, passed, load_dma feeding'.line.dmaClocked decode_flags, rfl, feeding', active',
      fun some_left => ?_⟩
    exact Nat.lt_of_lt_of_le (less some_left) few
  · refine Settles.pure _ ?_
    rintro chip ⟨rfl, feeding, active, less⟩
    have complete := feeding.tell.complete
    split
    · next raised => exact ⟨feeding, complete.mp (bne_iff_ne.mp raised)⟩
    · next clear =>
      have some_left : chip.itemsLeft c ≠ 0 := fun none_left =>
        clear (bne_iff_ne.mpr (complete.mpr none_left))
      exact ⟨chip.pending c, less some_left, feeding, active, Nat.le_refl _⟩

end Sending

/-! ## Both transfers -/

section Reuse

variable {first : Chip} {c : Channel} {buffer : Buffer} {next : Word} {config : ChannelConfig}
  {limit latency : Nat}

/-- With the old transfer under way, both calls end with the whole buffer behind some of its
items. -/
theorem Serial.callsOnBus_settles (layout : first.Layout)
    (fits : regionAfter first.nextRegion buffer.bytes.size = .ok next)
    (nonempty : 1 ≤ buffer.bytes.size) (short : buffer.bytes.size ≤ 0xFFFF)
    (streams : Streams (config.bits ||| Dma1.enable)) (bound : latency ≤ limit) :
    Settles (limit + buffer.bytes.size * (latency + 1) + 5)
      (fun chip => Trailing (first.shared buffer.bytes next) first c 0 chip ∧
        Paced limit latency chip)
      (Serial.callsOnBus buffer c config) fun _ chip => ∃ count, count ≤ 3 ∧
        Feeding (first.transmitted ++ (first.shared buffer.bytes next).furtherBytes c count) c
          ⟨first.nextRegion, buffer.bytes⟩ chip ∧ chip.itemsLeft c = 0 := by
  have layout' := layout.shared (by omega) fits
  have member : ⟨first.nextRegion, buffer.bytes⟩ ∈ (first.shared buffer.bytes next).regions :=
    List.mem_append_right _ (List.mem_singleton_self _)
  have transfer : Settles (3 + (0 + (limit + buffer.bytes.size * (latency + 1) + 1)))
      (Draining (first.shared buffer.bytes next) (first.shared buffer.bytes next) c limit latency 1)
      (do
        Dma.configure c Serial.target first.nextRegion (BitVec.ofNat 32 buffer.bytes.size)
        Dma.start c config
        Dma.wait c) fun _ chip => ∃ count, count ≤ 3 ∧
          Feeding (first.transmitted ++ (first.shared buffer.bytes next).furtherBytes c count) c
            ⟨first.nextRegion, buffer.bytes⟩ chip ∧ chip.itemsLeft c = 0 := by
    refine Settles.bind (Dma.configure_draining layout' member bound short) fun _ => ?_
    refine Settles.bind (Settles.any fun _ =>
      Dma.start_pending nonempty short streams bound) fun _ => ?_
    exact Settles.any fun _ => Dma.wait_sending _
  have total : limit + buffer.bytes.size * (latency + 1) + 5 =
      1 + (0 + (0 + (3 + (0 + (limit + buffer.bytes.size * (latency + 1) + 1))))) := by
    omega
  rw [total]
  refine Settles.bind (Serial.request_trailing layout
    (fun _ _ found => memoryByte?_shared found) bound) fun _ => ?_
  refine Settles.bind (R := fun _ =>
    Draining (first.shared buffer.bytes next) first c limit latency 1)
    (Settles.write fun chip draining => draining.cleared bound) fun _ => ?_
  refine Settles.bind (Bus.share_draining fits) fun source => ?_
  rintro session ⟨rfl, draining⟩
  exact transfer session draining

/-- Behind some items of the old transfer a buffer was sent, and the channel says so. -/
structure Resent (first : Chip) (c : Channel) (buffer : Buffer) (next : Word) (chip : Chip) :
    Prop where
  /-- The old items are those that follow with the buffer in memory. -/
  transmitted : ∃ count, count ≤ 3 ∧ chip.transmitted =
    first.transmitted ++ (first.shared buffer.bytes next).furtherBytes c count ++
      buffer.bytes.toList
  none_left : chip.itemsLeft c = 0
  no_error : ¬ chip.FlagRaised c .error

/-- In a reachable state the old transfer of a channel that feeds the line has all its items before
it, in the memory to which a buffer will have been added. -/
theorem Chip.Reachable.trailing (reachable : Reachable Action.Counted first) (line : first.LineOn)
    (alone : ∀ d, d ≠ c → (first.latch d).active = false)
    (target : (first.latch c).active = true →
      first.peek (Dma1.register c Dma1.cpar) = Serial.target) (bytes : Array Byte) (next : Word) :
    Trailing (first.shared bytes next) first c 0 first where
  line := line
  consistent := reachable.consistent c
  alone := alone
  memory := ⟨rfl, rfl⟩
  working _ _ _ := rfl
  toData := target
  short _ := (reachable.shortPass c).reload
  sent := ⟨0, Nat.le_refl 0, (List.append_nil _).symm, fun active => if_pos active⟩

/-- When nothing is left, the whole buffer was sent. -/
theorem Chip.Sending.resent {chip : Chip} {region : Region} {count : Nat}
    (sending : Sending
      (first.transmitted ++ (first.shared buffer.bytes next).furtherBytes c count) c region chip)
    (bytes : region.bytes = buffer.bytes) (few : count ≤ 3) (none_left : chip.itemsLeft c = 0) :
    Resent first c buffer next chip where
  transmitted := by
    refine ⟨count, few, ?_⟩
    have moved := sending.transmitted
    rw [movedBytes, movedCount, none_left, bytes] at moved
    exact moved.trans (congrArg _ (List.take_of_length_le (Nat.le_refl _)))
  none_left := none_left
  no_error := sending.tell.error

/-- A buffer can be sent by a channel from every state in which no other channel is active, and
the channel, if it is active, feeds the data register. When both calls return, at most three
further items of the old transfer were transmitted and then exactly the buffer, and they do
return if they get the ticks that the transmitter needs. -/
theorem Serial.sendAndWait_resends (reachable : Reachable Action.Counted first)
    (line : first.LineOn) (alone : ∀ d, d ≠ c → (first.latch d).active = false)
    (target : (first.latch c).active = true →
      first.peek (Dma1.register c Dma1.cpar) = Serial.target)
    (fits : regionAfter first.nextRegion buffer.bytes.size = .ok next)
    (nonempty : 1 ≤ buffer.bytes.size) (short : buffer.bytes.size ≤ 0xFFFF)
    (direction : config.direction = .fromMemory) (memory : config.memoryIncrement = true)
    (peripheral : config.peripheralIncrement = false) (once : config.circular = false)
    (ticks : Nat) (log : Array Access) (handle : Serial) :
    (∀ held, (Serial.sendAndWait buffer c config).run ⟨⟨first, ticks, log⟩, handle⟩ =
      .ok () held → Resent first c buffer next held.session.device) ∧
    (max first.busy first.latency + buffer.bytes.size * (first.latency + 1) + 5 ≤ ticks →
      ∃ held, (Serial.sendAndWait buffer c config).run ⟨⟨first, ticks, log⟩, handle⟩ =
        .ok () held) := by
  have layout := reachable.addressable.layout
  have trailing := reachable.trailing line alone target buffer.bytes next
  have settles := Serial.callsOnBus_settles (c := c) layout fits nonempty short
    (ChannelConfig.streams direction memory peripheral once)
    (Nat.le_max_right first.busy first.latency)
  obtain ⟨reached, returns⟩ := (Serial.sendAndWait_does buffer c config).settles settles
    ⟨trailing, Nat.le_max_left _ _, rfl⟩ ticks log handle
  constructor
  · intro held returned
    obtain ⟨count, few, feeding, none_left⟩ := reached () held returned
    exact feeding.resent rfl few none_left
  · intro enough
    obtain ⟨_, held, returned⟩ := returns enough
    exact ⟨held, returned⟩

/-- The chip that was brought up, with a channel started on the two bytes. -/
def Chip.startedUp (c : Channel) : Chip :=
  (broughtUp.programmed c Serial.target 0x20000000 2).write (Dma1.register c Dma1.ccr) 0x91

theorem Chip.startedUp_reachable : Reachable Action.Counted (startedUp 2) := by
  rw [startedUp, programmed]
  apply Reachable.write _ _ _ (by decide +kernel)
  apply Reachable.write _ _ _ (by decide +kernel)
  apply Reachable.write _ _ _ (by decide +kernel)
  apply Reachable.write _ _ _ (by decide +kernel)
  apply Reachable.write _ _ _ (by decide +kernel)
  exact broughtUp_reachable

theorem Serial.sendAndWait_resends_after_start :
    ((Chip.startedUp 2).latch 2).active = true ∧
    ∃ held, (Serial.sendAndWait ⟨0, #[9]⟩ 2 .default).run ⟨⟨.startedUp 2, 6, #[]⟩, ⟨.default⟩⟩ =
      .ok () held ∧ Resent (.startedUp 2) 2 ⟨0, #[9]⟩ 0x20000028 held.session.device := by
  have line : (Chip.startedUp 2).LineOn :=
    ⟨by decide +kernel, by decide +kernel, by decide +kernel⟩
  have home : (Chip.startedUp 2).nextRegion = 0x20000014 := by decide +kernel
  have fits : regionAfter (Chip.startedUp 2).nextRegion (⟨0, #[9]⟩ : Buffer).bytes.size =
      .ok 0x20000028 := by
    rw [home]
    rfl
  have once : ChannelConfig.default.circular = false := rfl
  obtain ⟨resent, returns⟩ := sendAndWait_resends (c := 2) Chip.startedUp_reachable line
    (by decide +kernel) (fun _ => by decide +kernel) fits (by decide) (by decide) rfl rfl rfl once
    6 #[] ⟨.default⟩
  obtain ⟨held, returned⟩ := returns (by decide +kernel)
  exact ⟨by decide +kernel, held, returned, resent held returned⟩

end Reuse

end Peripherals
