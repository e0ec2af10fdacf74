import Peripherals.Proofs.RestingCalls
import Peripherals.Proofs.StreamLaunch

/-! # Two ways to send a buffer

Polling and a channel put the same bytes on the line, although they share
nothing above the data register. They part at the empty buffer: polling is done
before it begins, while a channel without items never completes. -/

namespace Peripherals

open Bus Chip

variable {base first : Chip} {c : Channel} {config : ChannelConfig} {buffer : Buffer} {next : Word}
  {limit : Nat}

/-- A chip that was reached with its line on and no channel active is at rest, whatever earlier
transfers left in the registers. -/
theorem Chip.Standby.of_reachable (reachable : Reachable Action.Addressable first)
    (line : first.LineOn) (inactive : ∀ c, (first.latch c).active = false) : first.Standby where
  line := line
  layout := reachable.layout
  rests c := .of_inactive (inactive c)
  active_eq c := (reachable.consistent c).active_eq

theorem Chip.OnlyTransfers.transmitted {chip after : Chip} (only : OnlyTransfers chip after) :
    after.transmitted = chip.transmitted := by
  rw [transmitted_eq, only.events, transmitted_eq]

/-- What sending a buffer and waiting does on the bus, and what it leaves of the handle. -/
theorem Serial.sendAndWait_acts (serial : Serial) (buffer : Buffer) (c : Channel)
    (config : ChannelConfig) :
    Held.Acts serial (Serial.sendAndWait buffer c config) (do
      Serial.launch buffer c config
      Dma.wait c) { serial with config.dmaTransmit := true } :=
  .bind (Serial.sendBuffer_acts serial buffer c config) fun _ => .onBus _ _

section Rest

variable (standby : base.Standby) (slow : base.latency ≤ limit)
  (fits : regionAfter base.nextRegion buffer.bytes.size = .ok next)
  (short : buffer.bytes.size ≤ 0xFFFF) (wrote : List Byte)

include standby slow fits short

/-- From rest, a channel that goes forward through a buffer sends it and completes. -/
theorem Serial.launch_wait_runs (nonempty : 1 ≤ buffer.bytes.size)
    (reads : config.direction = .fromMemory) (memory : config.memoryIncrement = true)
    (peripheral : config.peripheralIncrement = false) :
    ∃ n, Runs n (StandsAt base limit wrote) (do
      Serial.launch buffer c config
      Dma.wait c)
      (fun _ session => session.device.transmitted = base.transmitted ++ buffer.bytes.toList)
      fun _ => True := by
  obtain ⟨start, started, only, -, launches⟩ :=
    Serial.launch_executes (E := fun _ => True) (c := c) standby config fits short
      fun _ _ _ _ => trivial
  have launched : Launched c config ⟨base.nextRegion, buffer.bytes⟩ start := ⟨started, nonempty⟩
  have slow' : start.latency ≤ limit := only.latency.symm ▸ slow
  have waits := wait_streaming (E := fun _ => True) launched reads slow' wrote
    fun _ _ _ => trivial
  have all : config.streamed buffer.bytes buffer.bytes.size = buffer.bytes.toList := by
    rw [ChannelConfig.streamed_forward memory peripheral (Nat.le_refl _), ← Array.length_toList,
      List.take_length]
  refine ⟨_, launches.then (waits.weaken (Nat.le_refl _)
    (fun _ stands => Streaming.begun launched stands) (fun _ session streaming => ?_)
    fun _ left => left)⟩
  rw [streaming.transmitted, only.transmitted, all]

omit slow in
/-- From rest, a channel that is started on an empty buffer never completes. -/
theorem Serial.launch_wait_never (config : ChannelConfig) (limit : Nat)
    (empty : buffer.bytes.size = 0) :
    Ends (StandsAt base limit wrote) (do
      Serial.launch buffer c config
      Dma.wait c) (fun _ _ => False)
      fun session => session.device.transmitted = base.transmitted := by
  have silent {after : Chip} (only : OnlyTransfers base after) (session : Session Chip)
      (stands : StandsAt after limit wrote session) :
      session.device.transmitted = base.transmitted := by
    obtain ⟨busy, written, -, same⟩ := stands.device
    rw [same]
    exact only.transmitted
  obtain ⟨start, started, only, -, launches⟩ :=
    Serial.launch_executes (c := c) standby config fits short fun after only => silent only
  refine Ends.bind (Runs.ends launches) fun _ session ⟨_, stands⟩ => ?_
  exact Dma.wait_never (started.quiet (.inr empty)) started.line.dmaClocked started.clear
    (silent only) session stands

end Rest

/-! ## The paths compared -/

section Paths

variable (standby : first.Standby) (log : Array Access)

include standby

/-- From rest, polling sends any bytes. -/
theorem Serial.send_returnsInTime (bytes : List Byte) :
    ReturnsInTime (fun ticks => (Serial.send bytes).run ⟨first, ticks, log⟩) fun _ session =>
      session.device.transmitted = first.transmitted ++ bytes :=
  (Serial.send_runs standby.line.transmitterOn standby.quiet log bytes).returnsInTime
    fun ticks => ⟨ticks, rfl⟩

variable (fits : regionAfter first.nextRegion buffer.bytes.size = .ok next)
  (short : buffer.bytes.size ≤ 0xFFFF) (serial : Serial)

include fits short

/-- From rest, a channel sends a buffer with any bytes in it. -/
theorem Serial.sendAndWait_returnsInTime (nonempty : 1 ≤ buffer.bytes.size)
    (reads : config.direction = .fromMemory) (memory : config.memoryIncrement = true)
    (peripheral : config.peripheralIncrement = false) :
    ReturnsInTime
      (fun ticks => (Serial.sendAndWait buffer c config).run ⟨⟨first, ticks, log⟩, serial⟩)
      fun _ held =>
        held.session.device.transmitted = first.transmitted ++ buffer.bytes.toList := by
  obtain ⟨n, runs⟩ := Serial.launch_wait_runs (c := c) standby
    (Nat.le_max_right first.busy first.latency) fits short (polled log) nonempty reads memory
    peripheral
  have onBus := Runs.returnsInTime runs fun ticks => .start first ticks log
  exact ((Serial.sendAndWait_acts serial buffer c config).returnsInTime onBus).mono
    fun _ _ reached => reached.1

/-- On the empty buffer the wait for the channel lasts for ever, and nothing is sent. -/
theorem Serial.sendAndWait_never (c : Channel) (config : ChannelConfig)
    (empty : buffer.bytes.size = 0) :
    NeverReturns
      (fun ticks => (Serial.sendAndWait buffer c config).run ⟨⟨first, ticks, log⟩, serial⟩)
      fun held => held.session.device.transmitted = first.transmitted := by
  have onBus := Serial.launch_wait_never (c := c) standby fits short (polled log) config
    (max first.busy first.latency) empty
  exact (Serial.sendAndWait_acts serial buffer c config).neverReturns
    (onBus.neverReturns fun ticks => .start first ticks log)

end Paths

/-- Polling and the DMA path agree on every buffer that is not empty: from a state with the line on
and no channel active, on any channel, both return and have put exactly the buffer on the line.
On the empty buffer polling returns, and the wait for the channel does not. -/
theorem Serial.paths_agree (reachable : Reachable Action.Addressable first) (line : first.LineOn)
    (inactive : ∀ c, (first.latch c).active = false)
    (fits : regionAfter first.nextRegion buffer.bytes.size = .ok next)
    (short : buffer.bytes.size ≤ 0xFFFF) (c : Channel) (serial : Serial) (log : Array Access) :
    ReturnsInTime
      (fun ticks => (Serial.send buffer.bytes.toList).run ⟨first, ticks, log⟩)
      (fun _ session =>
        session.device.transmitted = first.transmitted ++ buffer.bytes.toList) ∧
    (1 ≤ buffer.bytes.size → ReturnsInTime
      (fun ticks => (Serial.sendAndWait buffer c .default).run ⟨⟨first, ticks, log⟩, serial⟩)
      fun _ held =>
        held.session.device.transmitted = first.transmitted ++ buffer.bytes.toList) ∧
    (buffer.bytes.size = 0 → NeverReturns
      (fun ticks => (Serial.sendAndWait buffer c .default).run ⟨⟨first, ticks, log⟩, serial⟩)
      fun held => held.session.device.transmitted = first.transmitted) := by
  have standby := Standby.of_reachable reachable line inactive
  refine ⟨Serial.send_returnsInTime standby log _, fun nonempty => ?_, fun empty => ?_⟩
  · exact Serial.sendAndWait_returnsInTime standby log fits short serial nonempty rfl rfl rfl
  · exact Serial.sendAndWait_never standby log fits short serial c .default empty

theorem Serial.paths_agree_on_two_bytes :
    Reachable Action.Addressable Chip.broughtUp ∧ Chip.broughtUp.LineOn ∧
    (∀ c, (Chip.broughtUp.latch c).active = false) ∧
    regionAfter Chip.broughtUp.nextRegion 2 = .ok 0x20000028 ∧
    ReturnsInTime (fun ticks => (Serial.send [1, 2]).run ⟨Chip.broughtUp, ticks, #[]⟩)
      (fun _ session => session.device.transmitted = [1, 2]) ∧
    ReturnsInTime
      (fun ticks => (Serial.sendAndWait ⟨0, #[1, 2]⟩ 6 .default).run
        ⟨⟨Chip.broughtUp, ticks, #[]⟩, ⟨.default⟩⟩)
      fun _ held => held.session.device.transmitted = [1, 2] := by
  have inactive (c : Channel) : (Chip.broughtUp.latch c).active = false := (broughtUp_idle c).2
  have home : Chip.broughtUp.nextRegion = 0x20000014 := by decide +kernel
  have fits : regionAfter Chip.broughtUp.nextRegion (⟨0, #[1, 2]⟩ : Buffer).bytes.size =
      .ok 0x20000028 := by
    rw [home]
    rfl
  have silent : Chip.broughtUp.transmitted = [] := by decide +kernel
  obtain ⟨polls, streams, -⟩ := Serial.paths_agree broughtUp_reachable.addressable
    broughtUp_ready.toLineOn inactive fits (by decide) 6 ⟨.default⟩ #[]
  rw [silent] at polls streams
  exact ⟨broughtUp_reachable.addressable, broughtUp_ready.toLineOn, inactive, fits, polls,
    streams (by decide)⟩

/-- On the empty buffer the paths part. -/
theorem Serial.paths_part_on_nothing :
    Reachable Action.Addressable Chip.broughtUp ∧ Chip.broughtUp.LineOn ∧
    (∀ c, (Chip.broughtUp.latch c).active = false) ∧
    (Serial.send []).run ⟨Chip.broughtUp, 0, #[]⟩ = .ok () ⟨Chip.broughtUp, 0, #[]⟩ ∧
    NeverReturns (fun ticks => (Serial.sendAndWait ⟨0, #[]⟩ 0 .default).run
      ⟨⟨Chip.broughtUp, ticks, #[]⟩, ⟨.default⟩⟩)
      fun held => held.session.device.transmitted = Chip.broughtUp.transmitted := by
  have inactive (c : Channel) : (Chip.broughtUp.latch c).active = false := (broughtUp_idle c).2
  have standby := Standby.of_reachable broughtUp_reachable.addressable broughtUp_ready.toLineOn
    inactive
  have home : Chip.broughtUp.nextRegion = 0x20000014 := by decide +kernel
  have fits : regionAfter Chip.broughtUp.nextRegion (⟨0, #[]⟩ : Buffer).bytes.size =
      .ok 0x20000024 := by
    rw [home]
    rfl
  exact ⟨broughtUp_reachable.addressable, broughtUp_ready.toLineOn, inactive, rfl,
    Serial.sendAndWait_never standby #[] fits (by decide) ⟨.default⟩ 0 .default rfl⟩

end Peripherals
