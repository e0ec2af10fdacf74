import Peripherals.Proofs.RestingChip
import Peripherals.Proofs.SingleTransfer
import Peripherals.Proofs.StreamSchedule

/-! # A channel that streams a buffer

What a channel does with a shared buffer that it was started on for the data
register, in every configuration that reads memory. The state of the channel is
a function of the number of items that it has moved, and a tick moves the next
one if it is due. -/

namespace Peripherals

namespace Chip

variable {base chip after : Chip} {c d : Channel} {config : ChannelConfig} {region : Region}
  {k : Nat} {byte : Byte} {address : Word}

/-! ## The state of a channel -/

/-- Addresses that a channel leaves alone while it streams towards the data register. -/
structure Untouched (c : Channel) (address : Word) : Prop where
  not_flags : address ≠ Dma1.base + Dma1.isr
  not_count : address ≠ Dma1.register c Dma1.cndtr
  not_behind : address.toNat ≤ Serial.target.toNat ∨ Serial.target.toNat + 0xFFFF < address.toNat

theorem Untouched.of_register {field : Word} (small : field.toNat < 0x14)
    (ne : c ≠ d ∨ Dma1.cndtr ≠ field) : Untouched c (Dma1.register d field) where
  not_flags := (Dma1.register_ne_flags d small)
  not_count := (Dma1.register_ne_register Dma1.cndtr_inside small ne).symm
  not_behind := by
    have position := Dma1.toNat_register d small
    have data : Serial.target.toNat = 0x40004828 := rfl
    omega

/-- A register outside DMA1 and not behind the data register is left alone. -/
theorem Untouched.of_decode (outside : ∀ offset, Block.decode address ≠ .dma1 offset)
    (notBehind : address.toNat ≤ Serial.target.toNat ∨
      Serial.target.toNat + 0xFFFF < address.toNat) : Untouched c address where
  not_flags := by
    rintro rfl
    exact outside _ decode_flags
  not_count := by
    rintro rfl
    exact outside _ (Dma1.decode_register c Dma1.cndtr_inside)
  not_behind := notBehind

theorem Untouched.of_line (member : address ∈ lineRegisters) : Untouched c address := by
  apply Untouched.of_decode
  · intro offset decoded
    obtain h | h | h := decode_lineRegister member <;> rw [h] at decoded <;> cases decoded
  · simp only [lineRegisters, List.mem_cons, List.not_mem_nil, or_false] at member
    obtain rfl | rfl | rfl | rfl := member <;> decide

/-- A channel has just been started on a shared buffer for the data register. -/
structure Started (c : Channel) (config : ChannelConfig) (region : Region) (base : Chip) :
    Prop where
  line : base.LineReady
  layout : base.Layout
  shared : region ∈ base.regions
  short : region.bytes.size ≤ 0xFFFF
  control : base.controlOf c = config.bits ||| Dma1.enable
  source : base.peek (Dma1.register c Dma1.cmar) = region.base
  target : base.peek (Dma1.register c Dma1.cpar) = Serial.target
  latch : base.latch c = ⟨true, region.base, Serial.target, BitVec.ofNat 32 region.bytes.size⟩
  length : base.itemsLeft c = BitVec.ofNat 32 region.bytes.size
  clear : ¬ base.FlagRaised c .complete
  others : ∀ d, d ≠ c → base.Rests d
  others_active : ∀ d, d ≠ c → (base.latch d).active = base.channelEnabled d

/-- A channel has just been started on a buffer that is not empty. -/
structure Launched (c : Channel) (config : ChannelConfig) (region : Region) (base : Chip) : Prop
    extends Started c config region base where
  nonempty : 1 ≤ region.bytes.size

/-- The channel has moved `k` items since it was started. -/
structure Engaged (base : Chip) (c : Channel) (config : ChannelConfig) (region : Region) (k : Nat)
    (chip : Chip) : Prop where
  latch : chip.latch c =
    ⟨true, region.base + BitVec.ofNat 32 (config.sourceAt region.bytes.size k),
      Serial.target + BitVec.ofNat 32 (config.targetAt region.bytes.size k),
      BitVec.ofNat 32 region.bytes.size⟩
  left : chip.itemsLeft c =
    BitVec.ofNat 32 (region.bytes.size - config.place region.bytes.size k)
  complete : chip.FlagRaised c .complete ↔ region.bytes.size ≤ k
  others : ∀ d, d ≠ c → chip.latch d = base.latch d
  kept : ∀ address, Untouched c address → chip.peek address = base.peek address
  memory : chip.regions = base.regions ∧ chip.nextRegion = base.nextRegion
  latency : chip.latency = base.latency
  few : config.circular = false → k ≤ region.bytes.size

theorem Launched.engaged (launched : Launched c config region base) :
    Engaged base c config region 0 base := by
  have source : config.sourceAt region.bytes.size 0 = 0 := by
    rw [ChannelConfig.sourceAt, ChannelConfig.place_zero, ite_self]
  have target : config.targetAt region.bytes.size 0 = 0 := by
    rw [ChannelConfig.targetAt, ChannelConfig.place_zero, ite_self]
  constructor
  · rw [launched.latch, source, target]
    simp
  · rw [launched.length, ChannelConfig.place_zero, Nat.sub_zero]
  · refine ⟨fun raised => (launched.clear raised).elim, fun none_left => ?_⟩
    have := launched.nonempty
    omega
  · exact fun _ _ => rfl
  · exact fun _ _ => rfl
  · exact ⟨rfl, rfl⟩
  · rfl
  · exact fun _ => Nat.zero_le _

/-- What the transmitter and the observers see does not matter. -/
theorem Engaged.of_same (engaged : Engaged base c config region k chip)
    (registers : after.registers = chip.registers) (channels : after.channels = chip.channels)
    (memory : after.regions = chip.regions ∧ after.nextRegion = chip.nextRegion)
    (latency : after.latency = chip.latency) : Engaged base c config region k after := by
  have peek (address : Word) : after.peek address = chip.peek address := by
    rw [Chip.peek, registers, Chip.peek]
  have latch (d : Channel) : after.latch d = chip.latch d := by
    rw [Chip.latch, channels, Chip.latch]
  constructor
  · rw [latch]
    exact engaged.latch
  · rw [itemsLeft, peek]
    exact engaged.left
  · rw [FlagRaised, peek]
    exact engaged.complete
  · intro d ne
    rw [latch]
    exact engaged.others d ne
  · intro address untouched
    rw [peek]
    exact engaged.kept address untouched
  · exact ⟨memory.1.trans engaged.memory.1, memory.2.trans engaged.memory.2⟩
  · exact latency.trans engaged.latency
  · exact engaged.few

section Engaged

variable (launched : Launched c config region base)

include launched

theorem Engaged.lineReady (engaged : Engaged base c config region k chip) : chip.LineReady :=
  launched.line.of_same fun _ member => engaged.kept _ (.of_line member)

theorem Engaged.layout (engaged : Engaged base c config region k chip) : chip.Layout :=
  launched.layout.of_same engaged.memory

theorem Engaged.controlOf (engaged : Engaged base c config region k chip) :
    chip.controlOf c = config.bits ||| Dma1.enable :=
  (engaged.kept _ (.of_register Dma1.ccr_inside (.inr (by decide)))).trans launched.control

theorem Engaged.rests (engaged : Engaged base c config region k chip) (ne : d ≠ c) :
    chip.Rests d := by
  have latch := engaged.others d ne
  have count : chip.itemsLeft d = base.itemsLeft d :=
    engaged.kept _ (.of_register Dma1.cndtr_inside (.inl ne.symm))
  have control : chip.controlOf d = base.controlOf d :=
    engaged.kept _ (.of_register Dma1.ccr_inside (.inl ne.symm))
  rw [Rests, latch, count, control]
  exact launched.others d ne

/-! ## One item -/

theorem Engaged.place_le (engaged : Engaged base c config region k chip) :
    config.place region.bytes.size k ≤ region.bytes.size := by
  cases circular : config.circular with
  | true => exact Nat.le_of_lt (ChannelConfig.place_lt circular launched.nonempty k)
  | false =>
    rw [ChannelConfig.place, circular]
    exact engaged.few circular

/-- An item is moved while the pass is not over. For the data register it waits until the
transmitter is free. -/
theorem Engaged.canMove_iff (reads : config.direction = .fromMemory)
    (engaged : Engaged base c config region k chip) :
    chip.canMove c = true ↔ config.place region.bytes.size k < region.bytes.size ∧
      (config.targetAt region.bytes.size k ≠ 0 ∨ chip.busy = 0) := by
  have short := launched.short
  have line := engaged.lineReady launched
  have within := engaged.place_le launched
  have near := config.targetAt_le region.bytes.size k
  have count : chip.peek (Dma1.register c Dma1.cndtr) ≠ 0 ↔
      config.place region.bytes.size k < region.bytes.size := by
    rw [← itemsLeft, engaged.left]
    bv_omega
  have control : chip.peek (Dma1.register c Dma1.ccr) &&& Dma1.fromMemory ≠ 0 := by
    rw [← Chip.controlOf, engaged.controlOf launched]
    exact config.control_fromMemory_iff.mpr reads
  have target : (chip.latch c).target ≠ Usart3.base + Usart3.tdr ↔
      config.targetAt region.bytes.size k ≠ 0 := by
    rw [engaged.latch]
    change Serial.target + _ ≠ Serial.target ↔ _
    bv_omega
  have request : chip.requestsData = true ↔ chip.busy = 0 := by
    rw [requestsData, line.serialClocked, bne_iff_ne.mpr line.requests]
    simp
  simp only [canMove, Bool.and_eq_true, Bool.or_eq_true, bne_iff_ne, count, control, target,
    request, and_true, ne_eq, not_false_eq_true]

/-- The byte that is fetched for an item. -/
theorem Engaged.fetches (engaged : Engaged base c config region k chip)
    (inside : config.place region.bytes.size k < region.bytes.size) :
    ∃ byte, chip.memoryByte? (chip.latch c).memory = some byte ∧
      region.bytes[config.sourceAt region.bytes.size k]? = some byte := by
  have source : config.sourceAt region.bytes.size k < region.bytes.size :=
    Nat.lt_of_le_of_lt (config.sourceAt_le _ _) inside
  have member : region ∈ chip.regions := by
    rw [engaged.memory.1]
    exact launched.shared
  refine ⟨region.bytes[config.sourceAt region.bytes.size k], ?_, Array.getElem?_eq_getElem source⟩
  rw [engaged.latch]
  exact (engaged.layout launched).memoryByte?_add member source

end Engaged

/-- Behind the data register nothing takes a byte, and the store replaces a value. -/
theorem store_behind (clocked : chip.clocked (.usart3 0) = true) {j : Nat} (positive : 0 < j)
    (near : j ≤ 0xFFFF) (value : Word) :
    chip.store (Serial.target + BitVec.ofNat 32 j) value =
      chip.poke (Serial.target + BitVec.ofNat 32 j) value := by
  have data : Serial.target = Usart3.base + Usart3.tdr := rfl
  have origin : Usart3.base.toNat = 0x40004800 := rfl
  have offset_data : Usart3.tdr.toNat = 0x28 := rfl
  have position : (Serial.target + BitVec.ofNat 32 j).toNat = 0x40004828 + j := by
    rw [data]
    bv_omega
  rw [store]
  cases decoded : Block.decode (Serial.target + BitVec.ofNat 32 j) with
  | gpio port offset =>
    obtain ⟨place, inside⟩ := Block.decode_eq_gpio_iff.mp decoded
    have bound := port.toNat_base
    have index := port.index_lt
    bv_omega
  | dma1 offset =>
    obtain ⟨place, inside⟩ := Block.decode_eq_dma1_iff.mp decoded
    have start : Dma1.base.toNat = 0x40020000 := rfl
    bv_omega
  | usart3 offset =>
    obtain ⟨place, inside⟩ := Block.decode_eq_usart3_iff.mp decoded
    have far : offset.toNat = 0x28 + j := by bv_omega
    have clock : chip.clocked (.usart3 offset) = true := clocked
    have notData : offset ≠ Usart3.tdr := by bv_omega
    have plain : ¬ (offset = Usart3.isr ∨ offset = Usart3.rdr ∨ offset = Usart3.icr) := by
      have status : Usart3.isr.toNat = 0x1C := rfl
      have received : Usart3.rdr.toNat = 0x24 := rfl
      have clear : Usart3.icr.toNat = 0x20 := rfl
      bv_omega
    simp only [clock, if_true, storeUsart, if_neg notData, if_neg plain, place]
  | other => exact if_pos rfl

/-- What storing an item does: it puts something on the line or it does not, and changes no
register besides those behind the data register. -/
structure ItemStored (chip : Chip) (sent : List Byte) (after : Chip) : Prop where
  latch : ∀ d, after.latch d = chip.latch d
  kept : ∀ address : Word, address.toNat ≤ Serial.target.toNat ∨
    Serial.target.toNat + 0xFFFF < address.toNat → after.peek address = chip.peek address
  memory : after.regions = chip.regions ∧ after.nextRegion = chip.nextRegion
  latency : after.latency = chip.latency
  events : after.events = chip.events ++ sent.map Event.transmitted
  busy : after.busy = if sent = [] then chip.busy else chip.latency

section Engaged

variable (launched : Launched c config region base)

include launched

theorem Engaged.stored (engaged : Engaged base c config region k chip)
    (next : region.bytes[config.sourceAt region.bytes.size k]? = some byte) :
    ItemStored chip (config.emitted region.bytes k) (chip.stored c byte) := by
  have line := engaged.lineReady launched
  rw [Chip.stored, engaged.latch, ChannelConfig.emitted, next]
  by_cases data : config.targetAt region.bytes.size k = 0
  · have sent : chip.store (Serial.target + BitVec.ofNat 32 0) (byte.setWidth 32) =
        chip.transmit byte := line.store_data byte
    rw [if_pos data, data, sent]
    exact ⟨fun _ => rfl, fun _ _ => rfl, ⟨rfl, rfl⟩, rfl, by simp [transmit], rfl⟩
  · have near : config.targetAt region.bytes.size k ≤ 0xFFFF :=
      Nat.le_trans (config.targetAt_le _ _)
        (Nat.le_trans (engaged.place_le launched) launched.short)
    simp only [if_neg data]
    rw [store_behind line.serialClocked (Nat.pos_of_ne_zero data) near]
    refine ⟨fun _ => rfl, fun address apart => ?_, ⟨rfl, rfl⟩, rfl, by simp [poke], rfl⟩
    have position : Serial.target.toNat = 0x40004828 := rfl
    rw [peek_poke, if_neg]
    rintro rfl
    bv_omega

/-- A moved item is one item more. -/
theorem Engaged.moved (engaged : Engaged base c config region k chip)
    (inside : config.place region.bytes.size k < region.bytes.size)
    (next : region.bytes[config.sourceAt region.bytes.size k]? = some byte) :
    Engaged base c config region (k + 1) (chip.moved c byte) := by
  have short := launched.short
  have stored := engaged.stored launched next
  have control := engaged.controlOf launched
  have left := engaged.left
  have last : chip.itemsLeft c - 1 = 0 ↔
      config.place region.bytes.size k + 1 = region.bytes.size := by
    rw [left]
    bv_omega
  have wraps : (chip.itemsLeft c - 1 = 0 ∧ chip.controlOf c &&& Dma1.circular ≠ 0) ↔
      (config.place region.bytes.size k + 1 = region.bytes.size ∧ config.circular = true) := by
    rw [last, control, ChannelConfig.control_circular_iff]
  have register {field : Word} (small : field.toNat < 0x14) (ne : Dma1.cndtr ≠ field) :
      (chip.stored c byte).peek (Dma1.register c field) = base.peek (Dma1.register c field) := by
    have untouched : Untouched c (Dma1.register c field) := .of_register small (.inr ne)
    rw [stored.kept _ untouched.not_behind]
    exact engaged.kept _ untouched
  have memory (pointer : Word) : (if (config.bits ||| Dma1.enable) &&& Dma1.memoryIncrement = 0
      then pointer else pointer + 1) =
      pointer + BitVec.ofNat 32 (if config.memoryIncrement then 1 else 0) := by
    have set := config.control_memoryIncrement_iff
    cases increments : config.memoryIncrement <;> simp_all
  have target (pointer : Word) : (if (config.bits ||| Dma1.enable) &&& Dma1.peripheralIncrement = 0
      then pointer else pointer + 1) =
      pointer + BitVec.ofNat 32 (if config.peripheralIncrement then 1 else 0) := by
    have set := config.control_peripheralIncrement_iff
    cases increments : config.peripheralIncrement <;> simp_all
  have hidden := chip.hidden_moved c byte
  constructor
  · rw [latch_moved, Chip.stepped, stored.latch, engaged.latch, control,
      register Dma1.cmar_inside (by decide), register Dma1.cpar_inside (by decide),
      launched.source, launched.target, ChannelConfig.sourceAt_succ inside,
      ChannelConfig.targetAt_succ inside, ← control]
    by_cases wrap : config.place region.bytes.size k + 1 = region.bytes.size ∧
      config.circular = true
    · rw [if_pos (wraps.mpr wrap), if_pos wrap, if_pos wrap]
      simp [Latch.step]
    · rw [if_neg (fun h => wrap (wraps.mp h)), if_neg wrap, if_neg wrap, Latch.step, control,
        memory, target, BitVec.ofNat_add, BitVec.ofNat_add, BitVec.add_assoc, BitVec.add_assoc]
  · rw [itemsLeft_moved, stored.latch, engaged.latch, ChannelConfig.place_succ inside]
    by_cases wrap : config.place region.bytes.size k + 1 = region.bytes.size ∧
      config.circular = true
    · rw [if_pos (wraps.mpr wrap), if_pos wrap, Nat.sub_zero]
    · rw [if_neg (fun h => wrap (wraps.mp h)), if_neg wrap, left]
      bv_omega
  · rw [FlagRaised, flags_moved, or_and_ne_zero_iff, flagsAfter_and_ne_zero_iff,
      stored.kept _ (by decide), ← FlagRaised, engaged.complete, last]
    exact config.complete_succ _ _
  · intro d ne
    rw [latch_moved_of_ne _ _ _ ne, stored.latch]
    exact engaged.others d ne
  · intro address untouched
    rw [peek_moved _ _ _ untouched.not_flags untouched.not_count,
      stored.kept _ untouched.not_behind]
    exact engaged.kept address untouched
  · exact ⟨hidden.2.2.1.trans (stored.memory.1.trans engaged.memory.1),
      hidden.2.2.2.1.trans (stored.memory.2.trans engaged.memory.2)⟩
  · exact hidden.2.2.2.2.trans (stored.latency.trans engaged.latency)
  · intro once
    rw [ChannelConfig.place, once] at inside
    exact inside

/-! ## One tick -/

/-- What a tick does besides moving the channel from item `k` to item `next`. -/
structure Ticked (base : Chip) (c : Channel) (config : ChannelConfig) (region : Region)
    (chip : Chip) (next : Nat) (sent : List Byte) (after : Chip) : Prop where
  engaged : Engaged base c config region next after
  events : after.events = chip.events ++ sent.map Event.transmitted
  busy : after.busy = if sent = [] then chip.busy - 1 else base.latency

omit launched in
theorem Ticked.transmitted {sent : List Byte} {next : Nat}
    (ticked : Ticked base c config region chip next sent after) :
    after.transmitted = chip.transmitted ++ sent := by
  rw [transmitted_eq, ticked.events]
  exact (transmitted_eq _).symm.trans (chip.transmitted_spoke sent)

/-- A tick moves an item if one is due. -/
def TickedOnce (base : Chip) (c : Channel) (config : ChannelConfig) (region : Region) (k : Nat)
    (chip after : Chip) : Prop :=
  config.Due region.bytes.size k chip.busy ∧
      Ticked base c config region chip (k + 1) (config.emitted region.bytes k) after ∨
    ¬ config.Due region.bytes.size k chip.busy ∧ Ticked base c config region chip k [] after

theorem Engaged.tick (reads : config.direction = .fromMemory)
    (engaged : Engaged base c config region k chip) :
    ∃ after, Chip.tick.run chip = .ok () after ∧ TickedOnce base c config region k chip after := by
  have begun : Engaged base c config region k chip.countedDown :=
    engaged.of_same rfl rfl ⟨rfl, rfl⟩ rfl
  have clocked : chip.clocked (.dma1 0) = true := (engaged.lineReady launched).dmaClocked
  have able := begun.canMove_iff launched reads
  have counted : chip.countedDown.busy = 0 ↔ chip.busy ≤ 1 := Nat.sub_eq_zero_iff_le
  rw [counted] at able
  rw [tick_eq, if_pos clocked]
  by_cases due : config.Due region.bytes.size k chip.busy
  · obtain ⟨byte, mapped, next⟩ := begun.fetches launched due.1
    have stored := begun.stored launched next
    have moved := begun.moved launched due.1 next
    have active : (chip.countedDown.latch c).active = true := by rw [begun.latch]
    have steps : ((chip.countedDown.stored c byte).latch c).Steps
        (chip.countedDown.controlOf c) := by
      rw [stored.latch]
      refine ⟨fun _ => (begun.layout launched).room mapped, fun _ => ?_⟩
      have near := config.targetAt_le region.bytes.size k
      have within := begun.place_le launched
      have short := launched.short
      have position : Serial.target.toNat = 0x40004828 := rfl
      rw [begun.latch]
      bv_omega
    refine ⟨_, serve_alone (.moved byte active (able.mpr due) mapped steps)
      (fun d ne => begun.rests launched ne) (fun d ne => moved.rests launched ne), .inl ⟨due, ?_⟩⟩
    refine ⟨moved, (events_moved _ _ _).trans stored.events, ?_⟩
    rw [(hidden_moved _ _ _).2.1, stored.busy, begun.latency]
    rfl
  · have rest : Turn chip.countedDown c chip.countedDown :=
      .rest fun _ => Bool.eq_false_iff.mpr fun can => due (able.mp can)
    refine ⟨_, serve_alone rest (fun d ne => begun.rests launched ne)
      (fun d ne => begun.rests launched ne), .inr ⟨due, begun, ?_, rfl⟩⟩
    simp [countedDown]

end Engaged

end Chip

/-! ## Waiting for the end of the first pass -/

namespace Bus

open Chip

variable {base chip : Chip} {c : Channel} {config : ChannelConfig} {region : Region} {k limit : Nat}
  {wrote : List Byte} {E : Session Chip → Prop}

/-- A read by a program lets one tick pass. -/
theorem Runs.read_engaged (launched : Launched c config region base)
    (reads : config.direction = .fromMemory) (engaged : Engaged base c config region k chip)
    {address : Word} {shown : Chip → Word}
    (loads : ∀ after : Chip, after.LineReady →
      (load address).run after = .ok (shown after) after)
    (kept : ∀ ticks log, polled log = wrote → E ⟨chip, ticks, log⟩) :
    Runs 1 (fun session => session.device = chip ∧ polled session.log = wrote) (Bus.read address)
      (fun value session => value = shown session.device ∧ polled session.log = wrote ∧
        TickedOnce base c config region k chip session.device) E := by
  rintro ⟨device, ticks, log⟩ ⟨rfl, wrote⟩
  cases ticks with
  | zero => exact ⟨kept _ _ wrote, rfl, Nat.one_pos⟩
  | succ ticks =>
    obtain ⟨after, passed, ticked⟩ := engaged.tick launched reads
    have ready : after.LineReady := by
      obtain ⟨-, moved⟩ | ⟨-, waited⟩ := ticked
      · exact moved.engaged.lineReady launched
      · exact waited.engaged.lineReady launched
    rw [run_read passed (loads after ready)]
    refine ⟨⟨rfl, ?_, ticked⟩, Nat.le_refl _⟩
    exact (polled_push log _).trans ((List.append_nil _).trans wrote)

/-- The channel has moved `k` items, and nothing else was put on the line meanwhile. -/
structure Streaming (base : Chip) (c : Channel) (config : ChannelConfig) (region : Region)
    (limit : Nat) (wrote : List Byte) (k : Nat) (session : Session Chip) : Prop where
  engaged : Engaged base c config region k session.device
  bound : session.device.busy ≤ limit
  polled : polled session.log = wrote
  events : session.device.events =
    base.events ++ (config.streamed region.bytes k).map Event.transmitted
  crowded : config.gap region.bytes.size ≤ base.latency → 1 ≤ k →
    config.Crowded region.bytes.size k session.device.busy

/-- Before its first item the channel has put nothing on the line. -/
theorem Streaming.begun (launched : Launched c config region base) {session : Session Chip}
    (stands : StandsAt base limit wrote session) :
    Streaming base c config region limit wrote 0 session := by
  obtain ⟨⟨busy, written, bound, same⟩, polled⟩ := stands
  constructor
  · rw [same]
    exact launched.engaged.of_same rfl rfl ⟨rfl, rfl⟩ rfl
  · rw [same]
    exact bound
  · exact polled
  · rw [same]
    simp [Chip.timed, ChannelConfig.streamed]
  · intro _ later
    omega

theorem Streaming.transmitted {session : Session Chip}
    (streaming : Streaming base c config region limit wrote k session) :
    session.device.transmitted = base.transmitted ++ config.streamed region.bytes k := by
  rw [transmitted_eq, streaming.events]
  exact (transmitted_eq _).symm.trans (base.transmitted_spoke _)

/-- A tick that moves none leaves the stream where it is. -/
theorem Streaming.waited {session after : Session Chip}
    (streaming : Streaming base c config region limit wrote k session)
    (log : Bus.polled after.log = wrote)
    (inside : config.place region.bytes.size k < region.bytes.size)
    (waiting : ¬ config.Due region.bytes.size k session.device.busy)
    (ticked : Ticked base c config region session.device k [] after.device) :
    Streaming base c config region limit wrote k after where
  engaged := ticked.engaged
  bound := by
    have bound := streaming.bound
    rw [ticked.busy, if_pos rfl]
    omega
  polled := log
  events := by
    rw [ticked.events, streaming.events]
    apply Array.toList_inj.mp
    simp
  crowded _ _ := by
    rw [ticked.busy, if_pos rfl]
    exact ChannelConfig.crowded_wait inside waiting

section Streaming

variable (launched : Launched c config region base) (reads : config.direction = .fromMemory)
  (slow : base.latency ≤ limit)

include slow

/-- A tick that moves an item takes the stream on by it. -/
theorem Streaming.moved {session after : Session Chip}
    (streaming : Streaming base c config region limit wrote k session)
    (log : Bus.polled after.log = wrote)
    (due : config.Due region.bytes.size k session.device.busy)
    (ticked : Ticked base c config region session.device (k + 1) (config.emitted region.bytes k)
      after.device) :
    Streaming base c config region limit wrote (k + 1) after where
  engaged := ticked.engaged
  bound := by
    have bound := streaming.bound
    rw [ticked.busy]
    split <;> omega
  polled := log
  events := by
    rw [ticked.events, streaming.events, ChannelConfig.streamed_succ]
    apply Array.toList_inj.mp
    simp
  crowded few _ := by
    have crowded := ChannelConfig.crowded_succ few (streaming.crowded few) due
    rw [ticked.busy]
    simp only [ChannelConfig.emitted_eq_nil_iff due.1, ne_eq, ite_not]
    exact crowded

include launched reads

/-- One look at the completion flag. -/
theorem raised_streaming {n : Nat} (early : k < region.bytes.size)
    (kept : ∀ k session, Streaming base c config region limit wrote k session → E session) :
    Runs 1 (fun session => Streaming base c config region limit wrote k session ∧
        (region.bytes.size - k) * (base.latency + 1) + session.device.busy ≤ n)
      (Dma.raised c .complete)
      (fun done session => if done then
          Streaming base c config region limit wrote region.bytes.size session
        else ∃ m, m < n ∧ ∃ k, k < region.bytes.size ∧
          Streaming base c config region limit wrote k session ∧
          (region.bytes.size - k) * (base.latency + 1) + session.device.busy ≤ m) E := by
  rintro session ⟨streaming, few⟩
  have read := Runs.read_engaged (E := E) launched reads streaming.engaged
    (fun after ready => load_dma ready.dmaClocked decode_flags) fun ticks log same =>
      kept k _ ⟨streaming.engaged, streaming.bound, same, streaming.events, streaming.crowded⟩
  refine (Runs.bind (n := 0) read fun value => Runs.pure _ ?_) session ⟨rfl, streaming.polled⟩
  rintro after ⟨rfl, log, ticked⟩
  have flag {next : Nat} (engaged : Engaged base c config region next after.device) :
      (after.device.peek (Dma1.base + Dma1.isr) &&&
        Dma1.flagsOf c TransferFlag.complete.bit != 0) = true ↔ region.bytes.size ≤ next := by
    rw [bne_iff_ne]
    exact engaged.complete
  have place : config.place region.bytes.size k = k := ChannelConfig.place_of_lt early
  obtain ⟨due, moved⟩ | ⟨waiting, waited⟩ := ticked
  · have streaming' := streaming.moved slow log due moved
    split
    · next done =>
      have last : k + 1 = region.bytes.size := by
        have := (flag moved.engaged).mp done
        omega
      rwa [last] at streaming'
    · next more =>
      have early' : k + 1 < region.bytes.size := Nat.lt_of_not_le fun all =>
        more ((flag moved.engaged).mpr all)
      refine ⟨_, ?_, k + 1, early', streaming', Nat.le_refl _⟩
      have one_less : region.bytes.size - k = (region.bytes.size - (k + 1)) + 1 := by omega
      rw [one_less, Nat.succ_mul] at few
      rw [moved.busy]
      split <;> omega
  · have streaming' := streaming.waited log (by rw [place]; exact early) waiting waited
    split
    · next done =>
      have := (flag waited.engaged).mp done
      omega
    · refine ⟨_, ?_, k, early, streaming', Nat.le_refl _⟩
      have busy : 1 < session.device.busy := by
        by_contra free
        exact waiting ⟨by rw [place]; exact early, .inr (Nat.le_of_not_lt free)⟩
      rw [waited.busy, if_pos rfl]
      omega

/-- Whatever else the configuration says, a wait for a channel that reads memory ends with the
first pass. -/
theorem wait_streaming (wrote : List Byte)
    (kept : ∀ k session, Streaming base c config region limit wrote k session → E session) :
    Runs (region.bytes.size * (base.latency + 1) + limit + 1)
      (Streaming base c config region limit wrote 0) (Dma.wait c)
      (fun _ => Streaming base c config region limit wrote region.bytes.size) E := by
  have waits := Runs.untilTrue (E := E) (J := fun n session => ∃ k, k < region.bytes.size ∧
    Streaming base c config region limit wrote k session ∧
    (region.bytes.size - k) * (base.latency + 1) + session.device.busy ≤ n)
    (fun n session ⟨k, early, holds⟩ =>
      raised_streaming launched reads slow early kept session holds)
    (fun n session ⟨k, _, streaming, _⟩ => kept k session streaming)
  refine (waits _).weaken (Nat.le_refl _) (fun session start => ?_) (fun _ _ ended => ended)
    fun _ left => left
  refine ⟨0, launched.nonempty, start, ?_⟩
  have bound := start.bound
  rw [Nat.sub_zero]
  omega

end Streaming

end Bus

end Peripherals
