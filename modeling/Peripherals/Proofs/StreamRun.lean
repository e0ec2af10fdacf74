import Peripherals.Proofs.BringUp
import Peripherals.Proofs.HandleCalls
import Peripherals.Proofs.StreamLaunch

/-! # Runs of the stream test

A run of the stream test starts at rest, lights its LED, says that it started,
and streams a ramp by a channel. A channel that reads memory once comes to its
end, and the run returns to rest, so that it can be repeated on this or another
channel. -/

namespace Peripherals

open Bus Chip

namespace Chip

variable {chip after : Chip}

theorem Standby.spoke (standby : chip.Standby) (bytes : List Byte) :
    (chip.spoke bytes).Standby := by
  have line : SameLine chip (chip.spoke bytes) := fun _ _ => rfl
  exact standby.of_same (standby.line.of_same line) (fun _ => ⟨rfl, fun _ _ => rfl⟩) ⟨rfl, rfl⟩

theorem Standby.withLevel (standby : chip.Standby) (pin : PinId) (level : Level) :
    (chip.withLevel pin level).Standby :=
  standby.of_same (standby.line.of_same (.setOutput pin.port _)) (fun _ => .setOutput pin.port _)
    ⟨rfl, rfl⟩

end Chip

namespace StreamTest

variable {base chip after : Chip} {high : Bool} {limit : Nat} {wrote : List Byte}
  {E : Session Chip → Prop} {c : Channel} {transfer : ChannelConfig} {buffer : Buffer}
  {next : Word}

/-! ## The LED -/

/-- The registers that the LED depends on. -/
def ledRegisters : List Word :=
  [Rcc.ahb2enr, Port.b.base + Gpio.moder, Board.greenLed.port.base + Gpio.odr]

/-- The LED's pin is an output, driven high or low. -/
structure LedAt (high : Bool) (chip : Chip) : Prop where
  clocked : chip.clocked (.gpio Board.greenLed.port 0) = true
  output : chip.pinField .b Gpio.moder 0 = 1
  level : chip.outputBit Board.greenLed = high

theorem LedAt.of_same (led : LedAt high chip)
    (same : ∀ address ∈ ledRegisters, after.peek address = chip.peek address) :
    LedAt high after where
  clocked := by
    rw [Chip.clocked, same Rcc.ahb2enr (by decide)]
    exact led.clocked
  output := by
    rw [pinField, same (Port.b.base + Gpio.moder) (by decide)]
    exact led.output
  level := by
    rw [outputBit, same _ (by decide)]
    exact led.level

theorem LedAt.withLevel (led : LedAt high chip) (level : Level) :
    LedAt level.isHigh (chip.withLevel Board.greenLed level) where
  clocked := by
    rw [Chip.clocked, peek_withLevel (by decide)]
    exact led.clocked
  output := by
    rw [pinField, peek_withLevel (by decide)]
    exact led.output
  level := outputBit_withLevel (by decide) chip level

/-- The level of the LED's pin is the one that it is driven to. -/
theorem LedAt.pinLevel (led : LedAt high chip) : chip.pinLevel .b 0 = .ok high := by
  rw [Chip.pinLevel, led.output, if_neg (by decide), if_neg (by decide)]
  exact congrArg Except.ok led.level

theorem LedAt.onlyTransfers (led : LedAt high chip) (only : OnlyTransfers chip after) :
    LedAt high after := by
  apply led.of_same
  intro address member
  apply only.kept
  simp only [ledRegisters, List.mem_cons, List.not_mem_nil, or_false] at member
  obtain rfl | rfl | rfl := member
  · exact ⟨nofun, by decide⟩
  · exact ⟨nofun, by decide⟩
  · exact ⟨nofun, by decide⟩

theorem LedAt.engaged {region : Region} {k : Nat} (led : LedAt high base)
    (engaged : Engaged base c transfer region k chip) : LedAt high chip := by
  apply led.of_same
  intro address member
  apply engaged.kept
  simp only [ledRegisters, List.mem_cons, List.not_mem_nil, or_false] at member
  obtain rfl | rfl | rfl := member
  · exact .of_decode nofun (by decide)
  · exact .of_decode nofun (by decide)
  · exact .of_decode nofun (by decide)

theorem LedAt.spoke (led : LedAt high chip) (bytes : List Byte) : LedAt high (chip.spoke bytes) :=
  led.of_same fun _ _ => rfl

/-! ## The parts of a run -/

/-- What a run does on the bus up to the start of the channel. -/
def opening (buffer : Buffer) (c : Channel) (transfer : ChannelConfig) : BusM Chip Unit := do
  Board.greenLed.setLevel .high
  Serial.sendText started
  Serial.launch buffer c transfer

/-- What a run does on the bus after the wait for the channel. -/
def closing : BusM Chip Unit := do
  Serial.sendText passed
  Board.greenLed.setLevel .low
  Bus.breakpoint

/-- What a run does on the bus. -/
def calls (buffer : Buffer) (c : Channel) (transfer : ChannelConfig) : BusM Chip Unit := do
  opening buffer c transfer
  Dma.wait c
  closing

/-- The chip between two runs. -/
structure Idle (chip : Chip) : Prop where
  standby : chip.Standby
  dark : LedAt false chip

theorem Idle.unseen (idle : Idle chip) (same : SameEngine chip after) : Idle after where
  standby := by
    have line : SameLine chip after := fun _ _ => same.peek _
    exact idle.standby.of_same (idle.standby.line.of_same line)
      (fun c => ⟨same.latch c, fun _ _ => same.peek _⟩) ⟨same.regions, same.nextRegion⟩
  dark := idle.dark.of_same fun _ _ => same.peek _

theorem Idle.timed (idle : Idle chip) (busy : Nat) (written : WordMap) :
    Idle (chip.timed busy written) :=
  idle.unseen ⟨rfl, rfl, rfl, rfl⟩

/-- The LED was lit, and some bytes were sent. -/
structure Shining (base : Chip) (sent : List Byte) (after : Chip) : Prop where
  led : LedAt true after
  latency : after.latency = base.latency
  events : after.events.toList = base.events.toList ++
    Event.levelChanged Board.greenLed .high :: sent.map Event.transmitted

theorem Idle.lit (idle : Idle base) (sent : List Byte) :
    Shining base sent ((base.withLevel Board.greenLed .high).spoke sent) where
  led := (idle.dark.withLevel .high).spoke sent
  latency := rfl
  events := by
    have lit : (base.withLevel Board.greenLed .high).events =
        base.events ++ [Event.levelChanged Board.greenLed .high] := by
      rw [events_withLevel (by decide), idle.dark.level]
      rfl
    rw [Chip.spoke, observe, lit]
    simp

theorem Shining.onlyTransfers {sent : List Byte} (shining : Shining base sent chip)
    (only : OnlyTransfers chip after) : Shining base sent after where
  led := shining.led.onlyTransfers only
  latency := only.latency.trans shining.latency
  events := by
    rw [only.events]
    exact shining.events

/-- A run lights the LED and says that it started before the channel starts. -/
theorem opening_executes (idle : Idle base) (slow : base.latency ≤ limit) (c : Channel)
    (transfer : ChannelConfig) (fits : regionAfter base.nextRegion buffer.bytes.size = .ok next)
    (nonempty : 1 ≤ buffer.bytes.size) (short : buffer.bytes.size ≤ 0xFFFF) (wrote : List Byte)
    (kept : ∀ sent after, sent <+: Text.bytes started → Shining base sent after →
      ∀ session, StandsAt after limit (wrote ++ sent) session → E session) :
    ∃ after n, Launched c transfer ⟨base.nextRegion, buffer.bytes⟩ after ∧
      Shining base (Text.bytes started) after ∧ after.nextRegion = next ∧
      Executes n (StandsAt base limit wrote) (opening buffer c transfer) ()
        (StandsAt after limit (wrote ++ Text.bytes started)) E := by
  have standby := idle.standby.withLevel Board.greenLed .high
  have lights : Executes 0 (StandsAt base limit wrote) (Board.greenLed.setLevel .high) ()
      (StandsAt (base.withLevel Board.greenLed .high) limit wrote) E :=
    PinId.setLevel_executes (by decide) idle.dark.clocked .high
  have speaks : Executes _ (StandsAt (base.withLevel Board.greenLed .high) limit wrote)
      (Serial.sendText started) () _ E :=
    Serial.sendText_executes standby.line.transmitterOn standby.quiet slow (by decide +kernel)
      fun sent part => kept sent _ part (idle.lit sent)
  obtain ⟨after, ready, only, home, launches⟩ :=
    Serial.launch_executes (c := c) (standby.spoke (Text.bytes started)) transfer fits short
      fun after only session stands =>
        kept _ after (List.prefix_refl _) ((idle.lit _).onlyTransfers only) session stands
  exact ⟨after, _, ⟨ready, nonempty⟩, (idle.lit _).onlyTransfers only, home,
    Executes.bind lights (Executes.bind speaks launches)⟩

/-- Darkening the LED and stopping takes no time. -/
theorem halt_executes (led : LedAt high base) :
    Executes 0 (StandsAt base limit wrote) (do
      Board.greenLed.setLevel .low
      Bus.breakpoint : BusM Chip Unit) ()
      (StandsAt ((base.withLevel Board.greenLed .low).breakpoint) limit wrote) E := by
  change Executes (0 + 0) _ _ _ _ _
  exact Executes.bind (PinId.setLevel_executes (by decide) led.clocked .low) Executes.breakpoint

/-- A run says that it passed, darkens the LED and stops. -/
theorem closing_executes (standby : base.Standby) (led : LedAt true base)
    (slow : base.latency ≤ limit) :
    Executes ((Text.bytes passed).length * (limit + 1)) (StandsAt base limit wrote) closing ()
      (StandsAt (((base.spoke (Text.bytes passed)).withLevel Board.greenLed .low).breakpoint) limit
        (wrote ++ Text.bytes passed)) fun _ => True := by
  have speaks : Executes _ (StandsAt base limit wrote) (Serial.sendText passed) () _
      fun _ => True :=
    Serial.sendText_executes standby.line.transmitterOn standby.quiet slow (by decide +kernel)
      fun _ _ _ _ => trivial
  change Executes ((Text.bytes passed).length * (limit + 1) + 0) _ _ _ _ _
  exact Executes.bind speaks (halt_executes (led.spoke _))

/-- What is observed of a run that streams some bytes between its two lines. -/
def runEvents (streamed : List Byte) : List Event :=
  .levelChanged Board.greenLed .high ::
    (Text.bytes started ++ streamed ++ Text.bytes passed).map .transmitted ++
    [.levelChanged Board.greenLed .low, .breakpoint]

theorem closed_idle (standby : chip.Standby) (led : LedAt true chip) (bytes : List Byte) :
    Idle (((chip.spoke bytes).withLevel Board.greenLed .low).breakpoint) := by
  have dark : LedAt false ((chip.spoke bytes).withLevel Board.greenLed .low) :=
    (led.spoke bytes).withLevel .low
  exact Idle.unseen ⟨(standby.spoke bytes).withLevel _ _, dark⟩ ⟨rfl, rfl, rfl, rfl⟩

theorem closed_events (led : LedAt true chip) (bytes : List Byte) :
    (((chip.spoke bytes).withLevel Board.greenLed .low).breakpoint).events.toList =
      chip.events.toList ++ bytes.map Event.transmitted ++
        [.levelChanged Board.greenLed .low, .breakpoint] := by
  have dark : ((chip.spoke bytes).withLevel Board.greenLed .low).events =
      (chip.spoke bytes).events ++ [Event.levelChanged Board.greenLed .low] := by
    rw [events_withLevel (by decide), (led.spoke bytes).level]
    rfl
  rw [Chip.breakpoint, observe, dark, Chip.spoke, observe]
  simp

theorem filterMap_runEvents (streamed : List Byte) :
    (runEvents streamed).filterMap Event.byte? =
      Text.bytes started ++ streamed ++ Text.bytes passed := by
  rw [runEvents, List.filterMap_append]
  refine (List.append_nil _).trans ?_
  exact filterMap_byte?_map _

theorem nextRegion_closed (chip : Chip) (bytes : List Byte) :
    (((chip.spoke bytes).withLevel Board.greenLed .low).breakpoint).nextRegion = chip.nextRegion :=
  rfl

section Calls

variable (idle : Idle base) (slow : base.latency ≤ limit) (c : Channel)
  (reads : transfer.direction = .fromMemory)
  (fits : regionAfter base.nextRegion buffer.bytes.size = .ok next)
  (nonempty : 1 ≤ buffer.bytes.size) (short : buffer.bytes.size ≤ 0xFFFF) (wrote : List Byte)

include idle slow reads fits nonempty short

/-- A run whose channel reads memory comes to its end if what follows the first pass does. -/
theorem calls_runs_of {n : Nat} {Q : Unit → Session Chip → Prop}
    (closes : ∀ start, Launched c transfer ⟨base.nextRegion, buffer.bytes⟩ start →
      Shining base (Text.bytes started) start → start.nextRegion = next → start.latency ≤ limit →
      Runs n (Streaming start c transfer ⟨base.nextRegion, buffer.bytes⟩ limit
        (wrote ++ Text.bytes started) buffer.bytes.size) closing Q fun _ => True) :
    ∃ n, Runs n (StandsAt base limit wrote) (calls buffer c transfer) Q fun _ => True := by
  obtain ⟨start, m, launched, shining, home, opens⟩ :=
    opening_executes (E := fun _ => True) idle slow c transfer fits nonempty short wrote
      fun _ _ _ _ _ _ => trivial
  have slow' : start.latency ≤ limit := shining.latency.symm ▸ slow
  have waits := wait_streaming (E := fun _ => True) launched reads slow'
    (wrote ++ Text.bytes started) fun _ _ _ => trivial
  have begins := waits.weaken (Nat.le_refl _) (fun _ stands => Streaming.begun launched stands)
    (fun _ _ ended => ended) fun _ left => left
  exact ⟨_, opens.then (begins.bind fun _ => closes start launched shining home slow')⟩

/-- A run whose channel reads memory once comes to its end, and back to rest. -/
theorem calls_runs (once : transfer.circular = false) :
    ∃ n, Runs n (StandsAt base limit wrote) (calls buffer c transfer) (fun _ session =>
      Idle session.device ∧ session.device.nextRegion = next ∧
        session.device.events.toList = base.events.toList ++
          runEvents (transfer.streamed buffer.bytes buffer.bytes.size)) fun _ => True := by
  apply calls_runs_of (n := (Text.bytes passed).length * (limit + 1)) idle slow c reads fits
    nonempty short wrote
  intro start launched shining home slow'
  apply Runs.of_each
  intro session streaming
  have standby := streaming.engaged.standby launched once
  have led := shining.led.engaged streaming.engaged
  have slow'' : session.device.latency ≤ limit := streaming.engaged.latency.symm ▸ slow'
  have stands : StandsAt session.device limit (polled session.log) session :=
    (StandsAt.self session).mono streaming.bound
  apply Runs.weaken (closing_executes standby led slow'') (Nat.le_refl _)
  · rintro _ rfl
    exact stands
  · rintro _ last ⟨-, ⟨busy, written, -, same⟩, -⟩
    have home' : session.device.nextRegion = next := streaming.engaged.memory.2.trans home
    rw [same, events_timed, nextRegion_timed, nextRegion_closed]
    refine ⟨(closed_idle standby led _).timed busy written, home', (closed_events led _).trans ?_⟩
    rw [streaming.events, Array.toList_appendList, shining.events, runEvents]
    simp only [List.map_append, List.append_assoc, List.cons_append]
  · exact fun _ left => left

end Calls

/-! ## Bringing up -/

variable {config : Config}

/-- The chip after bringing up the test. -/
def broughtUp (config : Config) (latency : Nat) : Chip :=
  (Chip.reset.setLatency latency).amended config.amendments

theorem amendments_admitted (config : Config) :
    Amendment.admitted (fun _ => 0) config.amendments = true := by
  obtain ⟨channel, transfer, divisor, dmaTransmit, receiver⟩ := config
  cases dmaTransmit <;> cases receiver <;> cbv

theorem idle_broughtUp (config : Config) (latency : Nat) : Idle (broughtUp config latency) := by
  have values : (broughtUp config latency).peek =
      config.amendments.foldl Amendment.on fun _ => 0 := by
    rw [broughtUp, peek_amended, peek_fresh]
  have inactive (c : Channel) : ((broughtUp config latency).latch c).active = false := by
    rw [broughtUp, amended_eq]
    exact inactive_fresh latency c
  have disabled (c : Channel) : (broughtUp config latency).channelEnabled c = false := by
    rw [channelEnabled, values, Amendment.foldl_on_dma (amendments_admitted config)
      (Dma1.decode_register c Dma1.ccr_inside)]
    rfl
  have layout : (broughtUp config latency).Layout := by
    have fresh : (Chip.reset.setLatency latency).Layout :=
      ⟨List.Pairwise.nil, fun _ member => (List.not_mem_nil member).elim⟩
    rw [broughtUp, amended_eq]
    exact fresh.of_same ⟨rfl, rfl⟩
  have line : (broughtUp config latency).LineOn ∧ LedAt false (broughtUp config latency) := by
    obtain ⟨channel, transfer, divisor, dmaTransmit, receiver⟩ := config
    refine ⟨⟨?_, ?_, ?_⟩, ?_, ?_, ?_⟩
    · rw [clocked_eq, values]
      cases dmaTransmit <;> cases receiver <;> cbv
    · rw [clocked_eq, values]
      cases dmaTransmit <;> cases receiver <;> cbv
    · rw [usartHas, values]
      cases dmaTransmit <;> cases receiver <;> cbv
    · rw [clocked_eq, values]
      cases dmaTransmit <;> cases receiver <;> cbv
    · rw [pinField, values]
      cases dmaTransmit <;> cases receiver <;> cbv
    · rw [outputBit, values]
      cases dmaTransmit <;> cases receiver <;> cbv
  exact ⟨⟨line.1, layout, fun c => .of_inactive (inactive c),
    fun c => (inactive c).trans (disabled c).symm⟩, line.2⟩

/-- Setting up returns, and leads to the chip that was brought up. -/
theorem setUp_returns (divisor : config.serial.divisor ≠ 0) (buffer : Buffer) (latency : Nat)
    (log : Array Access) :
    ReturnsInTime
      (fun ticks => (setUp buffer config).run ⟨Chip.reset.setLatency latency, ticks, log⟩)
      fun test session => test = ⟨Board.greenLed, ⟨config.serial⟩, buffer, config⟩ ∧
        ∃ busy written, session.device = (broughtUp config latency).timed busy written := by
  have admitted : Amendment.admitted (Chip.reset.setLatency latency).peek config.amendments =
      true := by
    rw [peek_fresh]
    exact amendments_admitted config
  have transforms := setUp_amends divisor buffer (Chip.reset.setLatency latency) latency
    (inactive_fresh latency) admitted
  exact (transforms.returnsInTime (Nat.zero_le _) log).mono
    fun _ _ ⟨same, busy, written, _, device⟩ => ⟨same, busy, written, device⟩

theorem runToHalt_acts (test : StreamTest) (led : test.led = Board.greenLed) :
    Held.Acts test runToHalt (calls test.fill.buffer test.config.channel test.config.transfer)
      { test.fill with serial := { test.serial with config.dmaTransmit := true } } := by
  have parts : calls test.fill.buffer test.config.channel test.config.transfer = (do
      (do
        test.fill.led.setLevel .high
        Serial.sendText started)
      Serial.launch test.fill.buffer test.config.channel test.config.transfer
      (do
        Dma.wait test.config.channel
        Serial.sendText passed
        test.fill.led.setLevel .low
        Bus.breakpoint)) := by
    simp only [calls, opening, closing, fill, led, bind_assoc]
  rw [parts]
  apply Held.Acts.changed
  apply Held.Acts.current
  apply Held.Acts.bind (Held.Acts.onBus _ _)
  intro _
  apply Held.Acts.bind (Held.Acts.part (Serial.sendBuffer_acts _ _ _ _))
  intro _
  exact Held.Acts.onBus _ _

/-- A run comes to its end in time if what it does on the bus does. -/
theorem runToHalt_returnsInTime {test : StreamTest} (led : test.led = Board.greenLed)
    {log : Array Access} {n : Nat} {Q : Unit → Session Chip → Prop}
    (runs : Runs n (StandsAt chip (max chip.busy chip.latency) (polled log))
      (calls test.fill.buffer test.config.channel test.config.transfer) Q fun _ => True) :
    ReturnsInTime (fun ticks => runToHalt.run ⟨⟨chip, ticks, log⟩, test⟩) fun a held =>
      Q a held.session ∧ held.handle =
        { test.fill with serial := { test.serial with config.dmaTransmit := true } } :=
  (runToHalt_acts test led).returnsInTime
    (Runs.returnsInTime runs fun ticks => StandsAt.start chip ticks log)

theorem size_ramp : ramp.size = size := by
  rw [ramp, Array.size_map, Array.size_range]

/-- The buffer of a run holds the ramp. -/
theorem size_fill (test : StreamTest) : test.fill.buffer.bytes.size = size :=
  size_ramp

/-! ## Any number of runs -/

/-- The chip and the test after it was set up on a chip fresh from reset, and after any number of
runs that found memory for their buffer. Between runs the latency and the channel can change. -/
inductive Halted (config : Config) : Chip → StreamTest → Prop
  | begun {buffer : Buffer} {latency ticks : Nat} {log : Array Access} {test : StreamTest}
      {session : Session Chip}
      (returned : (setUp buffer config).run ⟨Chip.reset.setLatency latency, ticks, log⟩ =
        .ok test session) : Halted config session.device test
  | slowed {chip : Chip} {test : StreamTest} (before : Halted config chip test) (latency : Nat) :
      Halted config (chip.setLatency latency) test
  | moved {chip : Chip} {test : StreamTest} (before : Halted config chip test) (c : Channel) :
      Halted config chip { test with config := { test.config with channel := c } }
  | ran {chip : Chip} {test : StreamTest} {ticks : Nat} {log : Array Access} {next : Word}
      {held : Held Chip StreamTest} (before : Halted config chip test)
      (fits : regionAfter chip.nextRegion size = .ok next)
      (returned : runToHalt.run ⟨⟨chip, ticks, log⟩, test⟩ = .ok () held) :
      Halted config held.session.device held.handle

/-- A run returns to rest, and leaves the test as it was except for what it streams. -/
theorem runToHalt_returns (idle : Idle chip) {test : StreamTest}
    (led : test.led = Board.greenLed) (reads : test.config.transfer.direction = .fromMemory)
    (once : test.config.transfer.circular = false)
    (fits : regionAfter chip.nextRegion size = .ok next) (log : Array Access) :
    ReturnsInTime (fun ticks => runToHalt.run ⟨⟨chip, ticks, log⟩, test⟩) fun _ held =>
      (Idle held.session.device ∧ held.session.device.nextRegion = next ∧
        held.session.device.events.toList = chip.events.toList ++
          runEvents (test.config.transfer.streamed ramp size)) ∧
      held.handle =
        { test.fill with serial := { test.serial with config.dmaTransmit := true } } := by
  have slow : chip.latency ≤ max chip.busy chip.latency := Nat.le_max_right _ _
  rw [← size_fill test] at fits
  obtain ⟨n, runs⟩ := calls_runs idle slow test.config.channel reads fits
    (by rw [size_fill]; decide) (by rw [size_fill]; decide) (polled log) once
  rw [size_fill] at runs
  exact runToHalt_returnsInTime led runs

/-- Every run finds the chip at rest. -/
theorem Halted.idle {test : StreamTest} (divisor : config.serial.divisor ≠ 0)
    (reads : config.transfer.direction = .fromMemory) (once : config.transfer.circular = false)
    (halted : Halted config chip test) :
    Idle chip ∧ test.led = Board.greenLed ∧ test.config.transfer = config.transfer := by
  induction halted with
  | begun returned =>
    obtain ⟨rfl, busy, written, same⟩ := (setUp_returns divisor _ _ _).holds _ _ _ returned
    rw [same]
    exact ⟨(idle_broughtUp config _).timed busy written, rfl, rfl⟩
  | slowed before latency ih => exact ⟨ih.1.unseen ⟨rfl, rfl, rfl, rfl⟩, ih.2⟩
  | moved before c ih => exact ih
  | ran before fits returned ih =>
    obtain ⟨idle, led, same⟩ := ih
    rw [← same] at reads once
    obtain ⟨⟨idle', -⟩, handle⟩ :=
      (runToHalt_returns idle led reads once fits _).holds _ _ _ returned
    rw [handle]
    exact ⟨idle', led, same⟩

end StreamTest

end Peripherals
