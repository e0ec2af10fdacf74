import Peripherals.Proofs.BringUp
import Peripherals.Proofs.HandleCalls

/-! # The trace of the status report

Everything that an observer of the board sees while the status report runs. It
first sends its banner. Every step then drives the three LEDs to the other level,
sends one line and pauses, however often it is repeated and whatever happens to
the button, the receive line and the transmitter's latency between two steps. -/

namespace Peripherals

open Bus Chip

namespace StatusReport

/-! ## The report line -/

/-- A level as a digit. -/
def digit (level : Level) : String :=
  toString level.bit.toNat

/-- The line of a report. -/
def line (count : Word) (level button : Level) : String :=
  "BLINK " ++ toString count.toNat ++ " PB0=" ++ digit level ++ " PF4=" ++ digit level ++
    " PG4=" ++ digit level ++ " BTN13=" ++ digit button ++ "\r\n"

/-! ## What a step finds -/

/-- The LEDs as they are brought up. -/
def boardLeds : Leds :=
  ⟨Board.greenLed, Board.yellowLed, Board.redLed⟩

/-- The chip between two reports: the line works, no channel and no wire interferes, and the LEDs
and the button are set up. -/
structure Poised (lit : Bool) (chip : Chip) : Prop where
  transmitter : chip.TransmitterOn
  inactive : ∀ c, (chip.latch c).active = false
  unwired : chip.wiring.wires = []
  clocked : ∀ port ∈ [Port.b, .f, .g, .c], chip.clocked (.gpio port 0) = true
  green : chip.outputBit Board.greenLed = lit
  yellow : chip.outputBit Board.yellowLed = lit
  red : chip.outputBit Board.redLed = lit
  input : chip.pinField .c Gpio.moder 13 = 0
  pulledUp : chip.pinField .c Gpio.pupdr 13 = 1

/-- What the surroundings do between two steps. -/
inductive Surrounding
  | drive (level : Level)
  | release
  | setLatency (ticks : Nat)
  | pushReceived (bytes : List Byte)

/-- The button is the only pin that is driven from outside. -/
def Surrounding.act (chip : Chip) : Surrounding → Chip
  | .drive level => chip.drive Board.userButton level
  | .release => chip.release Board.userButton
  | .setLatency ticks => chip.setLatency ticks
  | .pushReceived bytes => chip.pushReceived bytes

/-- The registers, the channels and the wires of both chips are the same. -/
structure SameBoard (chip after : Chip) : Prop where
  registers : after.registers = chip.registers
  channels : after.channels = chip.channels
  wires : after.wiring.wires = chip.wiring.wires

variable {chip after base : Chip} {lit : Bool} {limit : Nat} {config : Config}

theorem Poised.of_same (poised : Poised lit chip) (same : SameBoard chip after) :
    Poised lit after := by
  obtain ⟨registers, channels, wires⟩ := same
  have peek : after.peek = chip.peek := by
    funext address
    rw [Chip.peek, registers, Chip.peek]
  have clock (block : Block) : after.clocked block = chip.clocked block := by
    rw [clocked_eq, clocked_eq, peek]
  constructor
  · constructor
    · rw [clock]
      exact poised.transmitter.serialClocked
    · rw [usartHas, peek]
      exact poised.transmitter.transmits
  · intro c
    rw [latch, channels]
    exact poised.inactive c
  · rw [wires]
    exact poised.unwired
  · intro port member
    rw [clock]
    exact poised.clocked port member
  · rw [outputBit, peek]
    exact poised.green
  · rw [outputBit, peek]
    exact poised.yellow
  · rw [outputBit, peek]
    exact poised.red
  · rw [pinField, peek]
    exact poised.input
  · rw [pinField, peek]
    exact poised.pulledUp

theorem Poised.quiet (poised : Poised lit chip) : chip.Quiet :=
  .of_inactive poised.inactive

theorem Poised.spoke (poised : Poised lit chip) (bytes : List Byte) :
    Poised lit (chip.spoke bytes) :=
  poised.of_same ⟨rfl, rfl, rfl⟩

theorem Poised.idled (poised : Poised lit chip) (n : Nat) : Poised lit (chip.idled n) :=
  poised.of_same ⟨rfl, rfl, rfl⟩

theorem Poised.timed (poised : Poised lit chip) (busy : Nat) (written : WordMap) :
    Poised lit (chip.timed busy written) :=
  poised.of_same ⟨rfl, rfl, rfl⟩

theorem Poised.surrounded (poised : Poised lit chip) (surrounding : Surrounding) :
    Poised lit (surrounding.act chip) := by
  apply poised.of_same
  cases surrounding <;> exact ⟨rfl, rfl, rfl⟩

/-! ## One step -/

theorem sendText_transforms (poised : Poised lit base) (slow : base.latency ≤ limit) {text : String}
    (plain : Text.Plain text) :
    Transforms limit base (Serial.sendText text) () (base.spoke (Text.bytes text)) :=
  fun _ => ⟨_, _, Serial.sendText_executes poised.transmitter poised.quiet slow plain
    fun _ _ _ _ => trivial⟩

theorem sendDecimal_transforms (poised : Poised lit base) (slow : base.latency ≤ limit) (n : Word) :
    Transforms limit base (Serial.sendDecimal n) ()
      (base.spoke (Text.bytes (toString n.toNat))) := by
  rw [Serial.sendDecimal_eq, ← Text.decimal_eq_bytes]
  exact fun _ => ⟨_, _, Serial.send_executes poised.transmitter poised.quiet slow _
    fun _ _ _ _ => trivial⟩

/-- A LED is reported by a label and its level. -/
theorem reportLed_transforms (poised : Poised lit base) (slow : base.latency ≤ limit)
    {label : String} (plain : Text.Plain label)
    {led : PinId} (valid : led.number.toNat < 16)
    (clocked : base.clocked (.gpio led.port 0) = true) (level : base.outputBit led = lit) :
    Transforms limit base (reportLed label led) ()
      (base.spoke (Text.bytes (label ++ digit (.ofBool lit)))) := by
  have looks := PinId.outputLevel_transforms (n := limit) poised.quiet clocked (by omega)
  rw [level] at looks
  rw [Text.bytes_append, ← spoke_spoke]
  exact Transforms.bind looks <| Transforms.bind (sendText_transforms poised slow plain)
    (sendDecimal_transforms (poised.spoke _) slow _)

/-- A report line has the count, the level of the LEDs and the level of the button. -/
theorem reportLine_transforms (poised : Poised lit base) (slow : base.latency ≤ limit)
    (count : Word) (button : Level) :
    Transforms limit base (reportLine boardLeds count button) ()
      (base.spoke (Text.bytes (line count (.ofBool lit) button))) := by
  have led {sent : List Byte} {label : String} {pin : PinId}
      (plain : Text.Plain label)
      (valid : pin.number.toNat < 16) (clocked : base.clocked (.gpio pin.port 0) = true)
      (level : base.outputBit pin = lit) :
      Transforms limit (base.spoke sent) (reportLed label pin) ()
        (base.spoke (sent ++ Text.bytes (label ++ digit (.ofBool lit)))) := by
    rw [← spoke_spoke]
    exact reportLed_transforms (poised.spoke sent) slow plain valid clocked level
  have text {sent : List Byte} {text : String}
      (plain : Text.Plain text) :
      Transforms limit (base.spoke sent) (Serial.sendText text) ()
        (base.spoke (sent ++ Text.bytes text)) := by
    rw [← spoke_spoke]
    exact sendText_transforms (poised.spoke sent) slow plain
  have number {sent : List Byte} (n : Word) :
      Transforms limit (base.spoke sent) (Serial.sendDecimal n) ()
        (base.spoke (sent ++ Text.bytes (toString n.toNat))) := by
    rw [← spoke_spoke]
    exact sendDecimal_transforms (poised.spoke sent) slow n
  have whole : Text.bytes (line count (.ofBool lit) button) =
      Text.bytes "BLINK " ++ Text.bytes (toString count.toNat) ++
      Text.bytes (" PB0=" ++ digit (.ofBool lit)) ++ Text.bytes (" PF4=" ++ digit (.ofBool lit)) ++
      Text.bytes (" PG4=" ++ digit (.ofBool lit)) ++ Text.bytes " BTN13=" ++
      Text.bytes (toString button.bit.toNat) ++ Text.bytes "\r\n" := by
    -- The parts are variables here, since a literal could itself be taken for a joined text.
    have parts (a b c d e f g h i : String) :
        Text.bytes (a ++ b ++ c ++ d ++ e ++ d ++ f ++ d ++ g ++ h ++ i) =
          Text.bytes a ++ Text.bytes b ++ Text.bytes (c ++ d) ++ Text.bytes (e ++ d) ++
          Text.bytes (f ++ d) ++ Text.bytes g ++ Text.bytes h ++ Text.bytes i := by
      simp only [Text.bytes_append, List.append_assoc]
    exact parts ..
  rw [whole]
  apply Transforms.bind (sendText_transforms poised slow (by decide +kernel))
  apply Transforms.bind (number count)
  apply Transforms.bind (led (by decide +kernel) (by decide) (poised.clocked _ (by decide))
    poised.green)
  apply Transforms.bind (led (by decide +kernel) (by decide) (poised.clocked _ (by decide))
    poised.yellow)
  apply Transforms.bind (led (by decide +kernel) (by decide) (poised.clocked _ (by decide))
    poised.red)
  apply Transforms.bind (text (by decide +kernel))
  apply Transforms.bind (number button.bit)
  exact text (by decide +kernel)

/-- The chip with all LEDs driven to a level. -/
def withLeds (chip : Chip) (level : Level) : Chip :=
  ((chip.withLevel Board.greenLed level).withLevel Board.yellowLed level).withLevel Board.redLed
    level

/-- The addresses of the LEDs' output registers. -/
def outputs : List Word :=
  [Board.greenLed, Board.yellowLed, Board.redLed].map fun led => led.port.base + Gpio.odr

theorem peek_withLeds {address : Word} (other : address ∉ outputs) (level : Level) :
    (withLeds chip level).peek address = chip.peek address := by
  have ne {led : PinId} (member : led ∈ [Board.greenLed, Board.yellowLed, Board.redLed]) :
      address ≠ led.port.base + Gpio.odr := by
    rintro rfl
    exact other (List.mem_map_of_mem member)
  rw [withLeds, peek_withLevel (ne (by decide)), peek_withLevel (ne (by decide)),
    peek_withLevel (ne (by decide))]

/-- Driving the LEDs leaves the rest of the board as it was. -/
theorem Poised.withLeds (poised : Poised lit chip) (level : Level) :
    Poised level.isHigh (withLeds chip level) := by
  constructor
  · constructor
    · rw [Chip.clocked, peek_withLeds (by decide)]
      exact poised.transmitter.serialClocked
    · rw [usartHas, peek_withLeds (by decide)]
      exact poised.transmitter.transmits
  · exact poised.inactive
  · exact poised.unwired
  · intro port member
    rw [Chip.clocked, peek_withLeds (by decide)]
    exact poised.clocked port member
  · have own : (chip.withLevel Board.greenLed level).outputBit Board.greenLed = level.isHigh :=
      outputBit_withLevel (by decide) chip level
    rw [outputBit] at own
    rw [outputBit, StatusReport.withLeds, peek_withLevel (by decide), peek_withLevel (by decide)]
    exact own
  · have own : ((chip.withLevel Board.greenLed level).withLevel Board.yellowLed level).outputBit
        Board.yellowLed = level.isHigh := outputBit_withLevel (by decide) _ level
    rw [outputBit] at own
    rw [outputBit, StatusReport.withLeds, peek_withLevel (by decide)]
    exact own
  · exact outputBit_withLevel (by decide) _ level
  · rw [pinField, peek_withLeds (by decide)]
    exact poised.input
  · rw [pinField, peek_withLeds (by decide)]
    exact poised.pulledUp

theorem setAll_transforms (poised : Poised lit base) (level : Level) :
    Transforms limit base (boardLeds.setAll level) () (withLeds base level) := by
  have drives {chip : Chip} {led : PinId} (valid : led.number.toNat < 16)
      (clocked : chip.clocked (.gpio led.port 0) = true) :
      Transforms limit chip (led.setLevel level) () (chip.withLevel led level) :=
    fun wrote => ⟨0, wrote, PinId.setLevel_executes valid clocked level⟩
  have yellow : (base.withLevel Board.greenLed level).clocked (.gpio Board.yellowLed.port 0) =
      true := by
    rw [Chip.clocked, peek_withLevel (by decide)]
    exact poised.clocked _ (by decide)
  have red : ((base.withLevel Board.greenLed level).withLevel Board.yellowLed level).clocked
      (.gpio Board.redLed.port 0) = true := by
    rw [Chip.clocked, peek_withLevel (by decide), peek_withLevel (by decide)]
    exact poised.clocked _ (by decide)
  exact Transforms.bind (drives (by decide) (poised.clocked _ (by decide))) <|
    Transforms.bind (drives (by decide) yellow) (drives (by decide) red)

/-- The level of the button: what drives its pin, else its pull. -/
def buttonLevel (chip : Chip) : Level :=
  (chip.wiring.driven? Board.userButton).getD .high

theorem inputLevel_transforms (poised : Poised lit base) :
    Transforms limit base Board.userButton.inputLevel (buttonLevel base) base := by
  have level : base.pinLevel Board.userButton.port Board.userButton.number.toNat =
      .ok (buttonLevel base).isHigh :=
    pinLevel_pulledUp poised.unwired poised.input poised.pulledUp
  have same : Level.ofBool (buttonLevel base).isHigh = buttonLevel base := by
    cases buttonLevel base <;> rfl
  have looks := PinId.inputLevel_transforms (n := limit) poised.quiet
    (poised.clocked _ (by decide)) (by decide) (.of_unwired poised.unwired) level
  rw [same] at looks
  exact looks

/-- The chip after a step that drove the LEDs to a level. -/
def reported (base : Chip) (count : Word) (lit : Bool) (pause : Word) : Chip :=
  ((withLeds base (.ofBool lit)).spoke
    (Text.bytes (line count (.ofBool lit) (buttonLevel base)))).idled pause.toNat

theorem Poised.reported (poised : Poised lit base) (count : Word) (next : Bool) (pause : Word) :
    Poised next (StatusReport.reported base count next pause) := by
  have driven := poised.withLeds (.ofBool next)
  rw [Level.isHigh_ofBool] at driven
  exact (driven.spoke _).idled _

/-- The computation that a step carries out. -/
def stepCalls (report : StatusReport) : BusM Chip Unit := do
  report.leds.setAll (.ofBool !report.lit)
  let button ← report.button.inputLevel
  reportLine report.leds report.count button
  Delay.spin report.config.pause

theorem step_acts (report : StatusReport) :
    Held.Acts report step (stepCalls report)
      { report with lit := !report.lit, count := report.count + 1 } := by
  have calls : stepCalls report = (do
      (do
        report.leds.setAll (.ofBool !report.lit)
        let button ← report.button.inputLevel
        reportLine report.leds report.count button)
      Delay.spin report.config.pause) := by
    simp only [stepCalls, bind_assoc]
  rw [calls]
  apply Held.Acts.changed
  apply Held.Acts.current
  apply Held.Acts.bind (Held.Acts.onBus _ _)
  intro _
  apply Held.Acts.changed
  exact Held.Acts.onBus _ _

/-- The application when it has reported `count` times. -/
def standing (config : Config) (count : Word) (lit : Bool) : StatusReport :=
  ⟨boardLeds, Board.userButton, ⟨config.serial⟩, count, lit, config⟩

theorem stepCalls_transforms (config : Config) (poised : Poised lit base)
    (slow : base.latency ≤ limit) (count : Word) :
    Transforms limit base (stepCalls (standing config count lit)) ()
      (reported base count (!lit) config.pause) := by
  have driven := poised.withLeds (.ofBool !lit)
  rw [Level.isHigh_ofBool] at driven
  apply Transforms.bind (setAll_transforms poised _)
  apply Transforms.bind (inputLevel_transforms driven)
  apply Transforms.bind (reportLine_transforms driven slow count _)
  exact fun wrote => ⟨_, wrote, Bus.pause_executes (driven.spoke _).quiet _⟩

/-! ## Bringing up -/

/-- The chip after bringing up the board. -/
def broughtUp (config : Config) (latency : Nat) : Chip :=
  (Chip.reset.setLatency latency).amended config.amendments

theorem poised_broughtUp (config : Config) (latency : Nat) :
    Poised false (broughtUp config latency) := by
  have values : (broughtUp config latency).peek =
      config.amendments.foldl Amendment.on fun _ => 0 := by
    rw [broughtUp, peek_amended, peek_fresh]
  have inactive (c : Channel) : ((broughtUp config latency).latch c).active = false := by
    rw [broughtUp, amended_eq]
    exact inactive_fresh latency c
  have unwired : (broughtUp config latency).wiring.wires = [] := by
    rw [broughtUp, amended_eq]
    rfl
  obtain ⟨pause, divisor, dmaTransmit, receiver⟩ := config
  constructor
  · constructor
    · rw [clocked_eq, values]
      cases dmaTransmit <;> cases receiver <;> cbv
    · rw [usartHas, values]
      cases dmaTransmit <;> cases receiver <;> cbv
  · exact inactive
  · exact unwired
  · intro port member
    rw [clocked_eq, values]
    simp only [List.mem_cons, List.not_mem_nil, or_false] at member
    obtain rfl | rfl | rfl | rfl := member <;> cases dmaTransmit <;> cases receiver <;> cbv
  · rw [outputBit, values]
    cases dmaTransmit <;> cases receiver <;> cbv
  · rw [outputBit, values]
    cases dmaTransmit <;> cases receiver <;> cbv
  · rw [outputBit, values]
    cases dmaTransmit <;> cases receiver <;> cbv
  · rw [pinField, values]
    cases dmaTransmit <;> cases receiver <;> cbv
  · rw [pinField, values]
    cases dmaTransmit <;> cases receiver <;> cbv

/-- What is brought up before the banner is sent. -/
def bringUp (config : Config) : BusM Chip (Leds × PinId × Serial) := do
  let leds ← Board.setUpLeds
  let button ← Board.setUpButton
  let serial ← Board.setUpConsole config.serial
  pure (leds, button, serial)

theorem bringUp_amends (divisor : config.serial.divisor ≠ 0) :
    Amends (bringUp config) (boardLeds, Board.userButton, ⟨config.serial⟩)
      config.amendments :=
  Amends.bind Board.setUpLeds_amends <| Amends.bind Board.setUpButton_amends <|
    Amends.bind (Board.setUpConsole_amends divisor) (Amends.pure _)

/-- Setting up sends the banner on the line that was brought up. -/
theorem setUp_transforms (divisor : config.serial.divisor ≠ 0) {latency : Nat}
    (slow : latency ≤ limit) :
    Transforms limit (Chip.reset.setLatency latency) (setUp config) (standing config 0 false)
      ((broughtUp config latency).spoke (Text.bytes banner)) := by
  have parts : setUp config = (do
      let (leds, button, serial) ← bringUp config
      Serial.sendText banner
      pure ⟨leds, button, serial, 0, false, config⟩ : BusM Chip StatusReport) := by
    simp only [setUp, bringUp, bind_assoc, pure_bind]
  have admitted : Amendment.admitted (Chip.reset.setLatency latency).peek
      config.amendments = true := by
    rw [peek_fresh]
    obtain ⟨pause, divisor, dmaTransmit, receiver⟩ := config
    cases dmaTransmit <;> cases receiver <;> cbv
  have brings := bringUp_amends divisor (Chip.reset.setLatency latency) limit
    (inactive_fresh latency) admitted
  have latent : (broughtUp config latency).latency = latency := by
    rw [broughtUp, amended_eq]
    rfl
  have greets : Transforms limit (broughtUp config latency) (Serial.sendText banner) ()
      ((broughtUp config latency).spoke (Text.bytes banner)) :=
    sendText_transforms (poised_broughtUp config latency) (Nat.le_trans (Nat.le_of_eq latent) slow)
      (by decide +kernel)
  rw [parts]
  exact Transforms.bind brings (Transforms.bind greets (Transforms.pure _))

/-! ## Whole runs -/

/-- The chip and the application after a number of steps that returned, on a chip fresh from reset,
with anything that the surroundings do between the steps. -/
inductive Between (config : Config) : Nat → Chip → StatusReport → Prop
  | begun {latency ticks : Nat} {log : Array Access} {report : StatusReport}
      {session : Session Chip}
      (returned : (setUp config).run ⟨Chip.reset.setLatency latency, ticks, log⟩ =
        .ok report session) : Between config 0 session.device report
  | surrounded {k : Nat} {chip : Chip} {report : StatusReport}
      (before : Between config k chip report) (surrounding : Surrounding) :
      Between config k (surrounding.act chip) report
  | stepped {k ticks : Nat} {chip : Chip} {report : StatusReport} {log : Array Access}
      {held : Held Chip StatusReport} (before : Between config k chip report)
      (returned : step.run ⟨⟨chip, ticks, log⟩, report⟩ = .ok () held) :
      Between config (k + 1) held.session.device held.handle

/-- Setting up returns, and leads to the chip that was brought up and sent the banner. -/
theorem setUp_returns (divisor : config.serial.divisor ≠ 0) (latency : Nat) (log : Array Access) :
    ReturnsInTime (fun ticks => (setUp config).run ⟨Chip.reset.setLatency latency, ticks, log⟩)
      fun report session => report = standing config 0 false ∧ ∃ busy written, session.device =
        ((broughtUp config latency).spoke (Text.bytes banner)).timed busy written :=
  ((setUp_transforms divisor (Nat.le_refl latency)).returnsInTime (Nat.zero_le _) log).mono
    fun _ _ ⟨same, busy, written, _, device⟩ => ⟨same, busy, written, device⟩

/-- A step returns, and reports. -/
theorem step_returns (poised : Poised lit base) (count : Word) (log : Array Access) :
    ReturnsInTime (fun ticks => step.run ⟨⟨base, ticks, log⟩, standing config count lit⟩)
      fun _ held => held.handle = standing config (count + 1) (!lit) ∧ ∃ busy written,
        held.session.device = (reported base count (!lit) config.pause).timed busy written := by
  have calls := (stepCalls_transforms config poised
    (Nat.le_max_right base.busy base.latency) count).returnsInTime (Nat.le_max_left _ _) log
  exact ((step_acts _).returnsInTime calls).mono
    fun _ _ ⟨⟨_, busy, written, _, device⟩, same⟩ => ⟨same, busy, written, device⟩

/-- Every step finds the board as setting up left it, except that the LEDs have been driven by the
step before. -/
theorem Between.poised {k : Nat} {report : StatusReport} (divisor : config.serial.divisor ≠ 0)
    (between : Between config k chip report) :
    report = standing config (BitVec.ofNat 32 k) (decide (k % 2 = 1)) ∧
      Poised (decide (k % 2 = 1)) chip := by
  induction between with
  | begun returned =>
    obtain ⟨rfl, busy, written, device⟩ := (setUp_returns divisor _ _).holds _ _ _ returned
    rw [device]
    exact ⟨rfl, ((poised_broughtUp config _).spoke _).timed busy written⟩
  | surrounded before surrounding ih =>
    exact ⟨ih.1, ih.2.surrounded surrounding⟩
  | @stepped k ticks chip report log held before returned ih =>
    obtain ⟨rfl, poised⟩ := ih
    obtain ⟨same, busy, written, device⟩ := (step_returns poised _ log).holds _ _ _ returned
    have odd : (!decide (k % 2 = 1)) = decide ((k + 1) % 2 = 1) := by
      rw [← decide_not]
      exact decide_eq_decide.mpr (by omega)
    have next : BitVec.ofNat 32 k + 1 = BitVec.ofNat 32 (k + 1) :=
      (BitVec.ofNat_add k 1).symm
    rw [odd, next] at same
    rw [odd] at device
    rw [device]
    have reports := poised.reported (BitVec.ofNat 32 k) (decide ((k + 1) % 2 = 1)) config.pause
    exact ⟨same, reports.timed busy written⟩

end StatusReport

end Peripherals
