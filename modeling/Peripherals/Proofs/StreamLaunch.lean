import Peripherals.Proofs.ChannelReuse
import Peripherals.Proofs.RestingChip
import Peripherals.Proofs.StreamEngine

/-! # Starting a stream at rest

While every channel rests, starting a channel on a buffer takes a few ticks and
leads to a chip that is known exactly: the channel is at its first item, and
nothing changed that does not concern transfers. A channel that an earlier
transfer left enabled is stopped on the way. -/

namespace Peripherals

open Bus Chip

namespace Chip

variable {chip middle after : Chip} {c : Channel} {address value field : Word} {region : Region}

/-! ## What does not concern transfers -/

/-- A register that is none of DMA1's and does not enable requests. -/
def Apart (address : Word) : Prop :=
  (∀ offset, Block.decode address ≠ .dma1 offset) ∧ address ≠ Usart3.base + Usart3.cr3

/-- What changed concerns transfers. -/
structure OnlyTransfers (chip after : Chip) : Prop where
  events : after.events = chip.events
  latency : after.latency = chip.latency
  kept : ∀ address, Apart address → after.peek address = chip.peek address

theorem OnlyTransfers.refl (chip : Chip) : OnlyTransfers chip chip :=
  ⟨rfl, rfl, fun _ _ => rfl⟩

theorem OnlyTransfers.trans (first : OnlyTransfers chip middle)
    (second : OnlyTransfers middle after) : OnlyTransfers chip after where
  events := second.events.trans first.events
  latency := second.latency.trans first.latency
  kept address apart := (second.kept address apart).trans (first.kept address apart)

/-- A store into DMA1 changes registers of DMA1 only. -/
theorem StoreEffect.onlyTransfers (effect : StoreEffect chip address value after)
    {offset : Word} (decoded : Block.decode address = .dma1 offset) : OnlyTransfers chip after := by
  have elsewhere {other place field : Word} (apart : Apart other)
      (inside : Block.decode place = .dma1 field) : place ≠ other := by
    rintro rfl
    exact apart.1 field inside
  cases effect with
  | lost => exact .refl chip
  | output port field level place inside =>
    rw [Block.decode_eq_gpio_iff.mpr ⟨place, inside⟩] at decoded
    cases decoded
  | sent place =>
    rw [place, decode_data] at decoded
    cases decoded
  | cleared =>
    refine ⟨rfl, rfl, fun other apart => ?_⟩
    rw [peek_poke, if_neg (elsewhere apart decode_flags)]
  | control c place =>
    refine ⟨events_storeControl _ _ _, ?_, fun other apart => ?_⟩
    · rw [storeControl]
      split
      · rfl
      split <;> rfl
    · rw [peek_storeControl, if_neg (elsewhere apart (place ▸ decoded))]
  | replaced =>
    refine ⟨rfl, rfl, fun other apart => ?_⟩
    rw [peek_poke, if_neg (elsewhere apart decoded)]

theorem OnlyTransfers.write_dma {offset : Word} (decoded : Block.decode address = .dma1 offset)
    (chip : Chip) (value : Word) : OnlyTransfers chip (chip.write address value) := by
  have noted : OnlyTransfers chip (chip.noted address value) := ⟨rfl, rfl, fun _ _ => rfl⟩
  have effect : StoreEffect (chip.noted address value) address value (chip.write address value) :=
    store_effect _ _ _
  exact noted.trans (effect.onlyTransfers decoded)

theorem OnlyTransfers.programmed (chip : Chip) (c : Channel) (target source length : Word) :
    OnlyTransfers chip (chip.programmed c target source length) := by
  have register {chip : Chip} {field value : Word} (small : field.toNat < 0x14) :
      OnlyTransfers chip (chip.write (Dma1.register c field) value) :=
    .write_dma (Dma1.decode_register c small) chip value
  have clear : Block.decode (Dma1.base + Dma1.ifcr) = .dma1 Dma1.ifcr := rfl
  exact .trans (register Dma1.cpar_inside) <| .trans (register Dma1.cmar_inside) <|
    .trans (register Dma1.cndtr_inside) (.write_dma clear _ _)

/-! ## Chips at rest -/

/-- The line is on, every channel rests, and those that are enabled are at work. -/
structure Standby (chip : Chip) : Prop where
  line : chip.LineOn
  layout : chip.Layout
  rests : ∀ c, chip.Rests c
  active_eq : ∀ c, (chip.latch c).active = chip.channelEnabled c

theorem Standby.quiet (standby : chip.Standby) : chip.Quiet :=
  fun _ => standby.rests

/-- Nothing that a channel, the line or the memory depends on changed, except for requests. -/
theorem Standby.of_same (standby : chip.Standby) (line : after.LineOn)
    (channels : ∀ c, SameChannel c chip after)
    (memory : after.regions = chip.regions ∧ after.nextRegion = chip.nextRegion) :
    after.Standby where
  line := line
  layout := standby.layout.of_same memory
  rests c := (standby.rests c).of_same (channels c)
  active_eq c := by
    rw [(channels c).latch, (channels c).enabled]
    exact standby.active_eq c

/-- A disabled channel is not active, and so it rests whatever its registers say. -/
theorem Standby.confined (standby : chip.Standby) (confined : Confined c chip after)
    (disabled : after.channelEnabled c = false) (inactive : (after.latch c).active = false) :
    after.Standby where
  line := standby.line.of_same confined.line
  layout := standby.layout.of_same confined.memory
  rests d := by
    by_cases same : d = c
    · rw [same]
      exact .of_inactive inactive
    · exact (standby.rests d).of_same (confined.others d same)
  active_eq d := by
    by_cases same : d = c
    · rw [same, inactive, disabled]
    · rw [(confined.others d same).latch, (confined.others d same).enabled]
      exact standby.active_eq d

/-- The chip with a channel stopped if it was enabled. -/
def stopped (chip : Chip) (c : Channel) : Chip :=
  if chip.channelEnabled c then
    chip.write (Dma1.register c Dma1.ccr) (chip.controlOf c &&& ~~~Dma1.enable)
  else chip

theorem Standby.stopped (standby : chip.Standby) (c : Channel) :
    Confined c chip (chip.stopped c) ∧ (chip.stopped c).channelEnabled c = false ∧
      (chip.stopped c).Standby ∧ OnlyTransfers chip (chip.stopped c) := by
  rw [Chip.stopped]
  cases enabled : chip.channelEnabled c with
  | true =>
    have wrote := controlled (c := c) standby.line.dmaClocked (chip.controlOf c &&& ~~~Dma1.enable)
    have disabled : (chip.write (Dma1.register c Dma1.ccr)
        (chip.controlOf c &&& ~~~Dma1.enable)).channelEnabled c = false := by
      rw [wrote.enabled, and_not_and_self]
      rfl
    have inactive : ((chip.write (Dma1.register c Dma1.ccr)
        (chip.controlOf c &&& ~~~Dma1.enable)).latch c).active = false := by
      rw [wrote.latch, if_pos (and_not_and_self _)]
    exact ⟨wrote.confined, disabled, standby.confined wrote.confined disabled inactive,
      .write_dma (Dma1.decode_register c Dma1.ccr_inside) chip _⟩
  | false =>
    exact ⟨⟨fun _ _ => .refl _ _, .refl _, rfl, rfl, rfl⟩, enabled, standby, .refl chip⟩

/-- A channel that was programmed at rest and is started is at its first item. -/
theorem Standby.started {config : ChannelConfig} (standby : chip.Standby)
    (requests : chip.LineReady) (disabled : chip.channelEnabled c = false)
    (shared : region ∈ chip.regions) (short : region.bytes.size ≤ 0xFFFF) :
    Started c config region ((chip.programmed c Serial.target region.base
      (BitVec.ofNat 32 region.bytes.size)).write (Dma1.register c Dma1.ccr)
        (config.bits ||| Dma1.enable)) := by
  have programmed := programmed_spec standby.line.dmaClocked disabled Serial.target region.base
    (BitVec.ofNat 32 region.bytes.size)
  have ready := requests.of_same programmed.confined.line
  have wrote := controlled (c := c) ready.dmaClocked (config.bits ||| Dma1.enable)
  have confined := programmed.confined.trans wrote.confined
  have flags := wrote.flags.trans programmed.flags
  constructor
  · exact requests.of_same confined.line
  · exact standby.layout.of_same confined.memory
  · rw [confined.memory.1]
    exact shared
  · exact short
  · exact wrote.control
  · exact (wrote.fields _ Dma1.cmar_inside (by decide)).trans programmed.source
  · exact (wrote.fields _ Dma1.cpar_inside (by decide)).trans programmed.target
  · rw [wrote.latch, if_neg config.control_enables, programmed.disabled disabled,
      if_neg Bool.false_ne_true, programmed.source, programmed.target, programmed.length]
  · exact wrote.itemsLeft.trans programmed.length
  · rw [FlagRaised, flags, not_not]
    exact cleared_and_flag _ c .complete
  · intro d ne
    exact (standby.rests d).of_same (confined.others d ne)
  · intro d ne
    rw [(confined.others d ne).latch, (confined.others d ne).enabled]
    exact standby.active_eq d

/-- A channel that does not read memory or has an empty buffer rests from the start. -/
theorem Started.quiet {base : Chip} {config : ChannelConfig}
    (started : Started c config region base)
    (idle : config.direction ≠ .fromMemory ∨ region.bytes.size = 0) : base.Quiet := by
  intro _ d
  by_cases same : d = c
  · intro _
    rw [same, started.control, started.length]
    obtain others | empty := idle
    · right
      exact not_not.mp fun set => others (config.control_fromMemory_iff.mp set)
    · left
      rw [empty]
      rfl
  · exact started.others d same

/-- After a single pass every channel rests again. -/
theorem Engaged.standby {base : Chip} {config : ChannelConfig}
    (launched : Launched c config region base) (once : config.circular = false)
    (engaged : Engaged base c config region region.bytes.size chip) : chip.Standby where
  line := (engaged.lineReady launched).toLineOn
  layout := engaged.layout launched
  rests d := by
    by_cases same : d = c
    · rw [same]
      intro _
      left
      rw [engaged.left, ChannelConfig.place, once, if_neg Bool.false_ne_true, Nat.sub_self]
      rfl
    · exact engaged.rests launched same
  active_eq d := by
    by_cases same : d = c
    · have enabled : chip.controlOf c &&& Dma1.enable ≠ 0 := by
        rw [engaged.controlOf launched]
        exact config.control_enables
      rw [same, engaged.latch]
      exact (bne_iff_ne.mpr enabled).symm
    · have register : chip.peek (Dma1.register d Dma1.ccr) = base.peek (Dma1.register d Dma1.ccr) :=
        engaged.kept _ (.of_register Dma1.ccr_inside (.inl (Ne.symm same)))
      rw [engaged.others d same, channelEnabled, register]
      exact launched.others_active d same

end Chip

/-! ## Driver calls -/

section Calls

variable {base : Chip} {c : Channel} {limit : Nat} {wrote : List Byte} {E : Session Chip → Prop}

theorem Chip.shows_register (clocked : base.clocked (.dma1 0) = true) (c : Channel)
    {field : Word} (small : field.toNat < 0x14) :
    base.Shows (Dma1.register c field) (base.peek (Dma1.register c field)) := by
  intro busy written
  have clocked' : (base.timed busy written).clocked (.dma1 0) = true := clocked
  exact load_dma clocked' (Dma1.decode_register c small)

theorem Chip.register_ne_data (c : Channel) {field : Word} (small : field.toNat < 0x14) :
    Dma1.register c field ≠ Serial.target := by
  intro same
  have decoded := Dma1.decode_register c small
  rw [same] at decoded
  cases decoded.symm.trans decode_data

/-- At rest a channel stops at once. -/
theorem Dma.stop_executes (standby : base.Standby) (enabled : base.channelEnabled c = true)
    (kept : ∀ session, StandsAt base limit wrote session → E session)
    (kept' : ∀ session, StandsAt (base.stopped c) limit wrote session → E session) :
    Executes 2 (StandsAt base limit wrote) (Dma.stop c) ()
      (StandsAt (base.stopped c) limit wrote) E := by
  obtain ⟨-, disabled, standby', -⟩ := standby.stopped c
  have writes : Executes 1 (StandsAt base limit wrote)
      (Bus.clearBits (Dma1.register c Dma1.ccr) Dma1.enable) ()
      (StandsAt (base.stopped c) limit wrote) E := by
    rw [stopped, if_pos enabled]
    change Executes (1 + 0) _ _ _ _ _
    exact Executes.bind (Executes.read kept standby.quiet
      (shows_register standby.line.dmaClocked c Dma1.ccr_inside))
      (Executes.write_noted (register_ne_data c Dma1.ccr_inside))
  have looks : Executes 1 (StandsAt (base.stopped c) limit wrote)
      (Bus.waitClear (Dma1.register c Dma1.ccr) Dma1.enable) ()
      (StandsAt (base.stopped c) limit wrote) E := by
    have looked := Executes.anySet kept' standby'.quiet
      (shows_register standby'.line.dmaClocked c Dma1.ccr_inside) Dma1.enable
    rw [← channelEnabled, disabled] at looked
    apply Executes.once
    change Executes (1 + 0) _ _ _ _ _
    exact Executes.bind looked (Executes.pure _ fun _ stands => stands)
  change Executes (1 + 1) _ _ _ _ _
  exact Executes.bind writes looks

/-- At rest a channel is stopped if it was enabled, and then programmed. -/
theorem Dma.configure_executes (standby : base.Standby) (source : Word) {length : Word}
    (short : length.toNat ≤ 0xFFFF)
    (kept : ∀ session, StandsAt base limit wrote session → E session)
    (kept' : ∀ session, StandsAt (base.stopped c) limit wrote session → E session) :
    Executes 3 (StandsAt base limit wrote) (Dma.configure c Serial.target source length) ()
      (StandsAt ((base.stopped c).programmed c Serial.target source length) limit wrote) E := by
  have fits : ¬ Dma1.countMax < length := by
    have bound : Dma1.countMax.toNat = 0xFFFF := rfl
    bv_omega
  have clear : Dma1.base + Dma1.ifcr ≠ Serial.target := by decide
  have programs : Executes 0 (StandsAt (base.stopped c) limit wrote) (do
      Bus.write (Dma1.register c Dma1.cpar) Serial.target
      Bus.write (Dma1.register c Dma1.cmar) source
      Bus.write (Dma1.register c Dma1.cndtr) length
      Dma.clearFlags c : BusM Chip Unit) ()
      (StandsAt ((base.stopped c).programmed c Serial.target source length) limit wrote) E := by
    change Executes (0 + (0 + (0 + 0))) _ _ _ _ _
    exact Executes.bind (Executes.write_noted (register_ne_data c Dma1.cpar_inside)) <|
      Executes.bind (Executes.write_noted (register_ne_data c Dma1.cmar_inside)) <|
      Executes.bind (Executes.write_noted (register_ne_data c Dma1.cndtr_inside)) <|
      Executes.write_noted clear
  have looked := Executes.anySet kept standby.quiet
    (shows_register standby.line.dmaClocked c Dma1.ccr_inside) Dma1.enable
  rw [← channelEnabled] at looked
  rw [Dma.configure, if_neg fits]
  change Executes (1 + 2) _ _ _ _ _
  refine Executes.bind looked ?_
  cases enabled : base.channelEnabled c with
  | true =>
    change Executes (2 + 0) _ _ _ _ _
    exact Executes.bind (Dma.stop_executes standby enabled kept kept') programs
  | false =>
    have same : base.stopped c = base := by
      rw [stopped, enabled]
      rfl
    rw [same] at programs ⊢
    exact programs.weaken (Nat.zero_le 2) (fun _ stands => stands) (fun _ stands => stands)
      fun _ left => left

/-- Starting a channel that is to send a buffer, on the bus. -/
def Serial.launch (buffer : Buffer) (c : Channel) (config : ChannelConfig) : BusM Chip Unit := do
  Bus.setBits (Usart3.base + Usart3.cr3) Usart3.dmaTransmit
  Bus.write (Usart3.base + Usart3.icr) Usart3.tcClear
  let source ← Bus.share buffer
  Dma.configure c Serial.target source (BitVec.ofNat 32 buffer.bytes.size)
  Dma.start c config

theorem Serial.enableDma_acts (serial : Serial) :
    Held.Acts serial Serial.enableDma
      (Bus.setBits (Usart3.base + Usart3.cr3) Usart3.dmaTransmit : BusM Chip Unit)
      { serial with config.dmaTransmit := true } := by
  have enables : Held.Acts serial Serial.enableDma
      (Bus.setBits (Usart3.base + Usart3.cr3) Usart3.dmaTransmit >>= fun _ => pure () :
        BusM Chip Unit)
      { serial with config.dmaTransmit := true } :=
    .bind (.onBus _ _) fun _ => .change _ _
  rwa [bind_pure_unit] at enables

theorem Serial.sendBuffer_acts (serial : Serial) (buffer : Buffer) (c : Channel)
    (config : ChannelConfig) :
    Held.Acts serial (Serial.sendBuffer buffer c config) (Serial.launch buffer c config)
      { serial with config.dmaTransmit := true } :=
  .bind (Serial.enableDma_acts serial) fun _ => .onBus _ _

/-- A chip at rest whose line asks channels for bytes. -/
theorem Chip.Standby.requested {value : Word} (standby : base.Standby)
    (on : value &&& Usart3.dmaTransmit ≠ 0) :
    (base.write (Usart3.base + Usart3.cr3) value).LineReady ∧
      (base.write (Usart3.base + Usart3.cr3) value).Standby ∧
      OnlyTransfers base (base.write (Usart3.base + Usart3.cr3) value) ∧
      (base.write (Usart3.base + Usart3.cr3) value).regions = base.regions ∧
      (base.write (Usart3.base + Usart3.cr3) value).nextRegion = base.nextRegion := by
  obtain ⟨ready, same⟩ := standby.line.requested on
  have memory : (base.write (Usart3.base + Usart3.cr3) value).regions = base.regions ∧
      (base.write (Usart3.base + Usart3.cr3) value).nextRegion = base.nextRegion := by
    rw [standby.line.write_requests]
    exact ⟨rfl, rfl⟩
  refine ⟨ready, standby.of_same ready.toLineOn same memory, ?_, memory⟩
  rw [standby.line.write_requests]
  refine ⟨rfl, rfl, fun address apart => ?_⟩
  rw [peek_poke, if_neg apart.2.symm]
  rfl

/-- Clearing a flag of USART3 is lost. -/
theorem Chip.LineOn.store_clear (line : base.LineOn) (value : Word) :
    base.store (Usart3.base + Usart3.icr) value = base := by
  have clock : base.clocked (.usart3 Usart3.icr) = true := line.serialClocked
  have decoded : Block.decode (Usart3.base + Usart3.icr) = .usart3 Usart3.icr := rfl
  have notData : Usart3.icr ≠ Usart3.tdr := by decide
  simp only [store, decoded, clock, if_true, storeUsart, if_neg notData, or_true]

theorem Chip.Standby.shared (standby : base.Standby) {bytes : Array Byte} {next : Word}
    (small : bytes.size < 0x100000000) (fits : regionAfter base.nextRegion bytes.size = .ok next) :
    (base.shared bytes next).Standby where
  line := by
    have same : SameLine base (base.shared bytes next) := fun _ _ => rfl
    exact standby.line.of_same same
  layout := standby.layout.shared small fits
  rests := standby.rests
  active_eq := standby.active_eq

/-- At rest a channel is started on a buffer within four ticks. Until then nothing changes that
does not concern transfers. -/
theorem Serial.launch_executes (standby : base.Standby) {buffer : Buffer} {next : Word}
    (config : ChannelConfig) (fits : regionAfter base.nextRegion buffer.bytes.size = .ok next)
    (short : buffer.bytes.size ≤ 0xFFFF)
    (kept : ∀ after, OnlyTransfers base after →
      ∀ session, StandsAt after limit wrote session → E session) :
    ∃ after, Started c config ⟨base.nextRegion, buffer.bytes⟩ after ∧
      OnlyTransfers base after ∧ after.nextRegion = next ∧
      Executes 4 (StandsAt base limit wrote) (Serial.launch buffer c config) ()
        (StandsAt after limit wrote) E := by
  have on : (base.peek (Usart3.base + Usart3.cr3) ||| Usart3.dmaTransmit) &&&
      Usart3.dmaTransmit ≠ 0 := by
    rw [or_and_ne_zero_iff]
    exact .inr (by decide)
  obtain ⟨ready, requested, same, regions, home⟩ := standby.requested on
  have enables : Executes 1 (StandsAt base limit wrote)
      (Bus.setBits (Usart3.base + Usart3.cr3) Usart3.dmaTransmit) ()
      (StandsAt (base.write (Usart3.base + Usart3.cr3)
        (base.peek (Usart3.base + Usart3.cr3) ||| Usart3.dmaTransmit)) limit wrote) E := by
    have shows : base.Shows (Usart3.base + Usart3.cr3) (base.peek (Usart3.base + Usart3.cr3)) := by
      intro busy written
      have same : SameLine base (base.timed busy written) := fun _ _ => rfl
      exact (standby.line.of_same same).load_requests
    change Executes (1 + 0) _ _ _ _ _
    exact Executes.bind (Executes.read (kept base (.refl base)) standby.quiet shows)
      (Executes.write_noted (by decide))
  generalize base.write (Usart3.base + Usart3.cr3)
    (base.peek (Usart3.base + Usart3.cr3) ||| Usart3.dmaTransmit) = asking at *
  have clears : Executes 0 (StandsAt asking limit wrote)
      (Bus.write (Usart3.base + Usart3.icr) Usart3.tcClear) () (StandsAt asking limit wrote) E := by
    have writes : Executes 0 (StandsAt asking limit wrote)
        (Bus.write (Usart3.base + Usart3.icr) Usart3.tcClear) ()
        (StandsAt (asking.store (Usart3.base + Usart3.icr) Usart3.tcClear) limit wrote) E :=
      Executes.write (by decide)
    rwa [requested.line.store_clear] at writes
  have fits' : regionAfter asking.nextRegion buffer.bytes.size = .ok next := by
    rw [home]
    exact fits
  have sharing := requested.shared (by omega) fits'
  obtain ⟨confined, disabled, stopped, only⟩ := sharing.stopped c
  have shared : OnlyTransfers base (asking.shared buffer.bytes next) :=
    ⟨same.events, same.latency, same.kept⟩
  have only' : OnlyTransfers base ((asking.shared buffer.bytes next).stopped c) :=
    shared.trans only
  have member : ⟨base.nextRegion, buffer.bytes⟩ ∈
      ((asking.shared buffer.bytes next).stopped c).regions := by
    rw [confined.memory.1, ← home]
    exact List.mem_append_right _ (List.mem_singleton_self _)
  have line : SameLine asking (asking.shared buffer.bytes next) := fun _ _ => rfl
  have ready' : ((asking.shared buffer.bytes next).stopped c).LineReady :=
    (ready.of_same line).of_same confined.line
  have started : Started c config ⟨base.nextRegion, buffer.bytes⟩ _ :=
    stopped.started ready' disabled member short
  refine ⟨_, started, ?_, ?_, ?_⟩
  · exact only'.trans (.trans (.programmed _ _ _ _ _)
      (.write_dma (Dma1.decode_register c Dma1.ccr_inside) _ _))
  · have programmed := programmed_spec stopped.line.dmaClocked disabled Serial.target
      base.nextRegion (BitVec.ofNat 32 buffer.bytes.size)
    have wrote := controlled (c := c) (stopped.line.of_same programmed.confined.line).dmaClocked
      (config.bits ||| Dma1.enable)
    exact wrote.confined.memory.2.trans (programmed.confined.memory.2.trans confined.memory.2)
  · have configures := Dma.configure_executes (c := c) sharing base.nextRegion
      (toNat_ofNat_le short) (kept _ shared) (kept _ only')
    have shares : Executes 0 (StandsAt asking limit wrote) (Bus.share buffer) asking.nextRegion
        (StandsAt (asking.shared buffer.bytes next) limit wrote) E := Executes.share fits'
    rw [home] at shares
    change Executes (1 + (0 + (0 + (3 + 0)))) _ _ _ _ _
    exact Executes.bind enables <| Executes.bind clears <| Executes.bind shares <|
      Executes.bind configures (Executes.write_noted (register_ne_data c Dma1.ccr_inside))

/-- A wait for a channel ends only if some channel moves an item. -/
theorem Dma.wait_never (quiet : base.Quiet) (clocked : base.clocked (.dma1 0) = true)
    (clear : ¬ base.FlagRaised c .complete)
    (kept : ∀ session, StandsAt base limit wrote session → E session) :
    Ends (StandsAt base limit wrote) (Dma.wait c) (fun _ _ => False) E := by
  apply Ends.never _ kept
  have shows : base.Shows (Dma1.base + Dma1.isr) (base.peek (Dma1.base + Dma1.isr)) := by
    intro busy written
    have clocked' : (base.timed busy written).clocked (.dma1 0) = true := clocked
    exact load_dma clocked' decode_flags
  have unraised : (base.peek (Dma1.base + Dma1.isr) &&&
      Dma1.flagsOf c TransferFlag.complete.bit != 0) = false :=
    bne_eq_false_iff_eq.mpr (not_not.mp clear)
  have looks := Executes.anySet kept quiet shows (Dma1.flagsOf c TransferFlag.complete.bit)
  rw [unraised] at looks
  exact Runs.ends looks

end Calls

end Peripherals
