import Mathlib.Data.List.Pairwise
import Mathlib.Data.List.Forall2
import Peripherals.Proofs.PinFields

/-! # Setting up the board in any order

The three set-up calls share clock gates and ports, but no two of them give a
value to the same field of a register. So it does not matter in which order they
are made, nor how often: each field has the value of its call in the end, and
every bit outside these fields is as it was before, whatever that was. -/

namespace Peripherals

open Bus Chip

/-! ## Fields and their values -/

/-- A field of a register, and the value that it is given. -/
structure Setting where
  address : Word
  low : Nat
  width : Nat
  value : Word

namespace Setting

/-- A bit of a register lies in the field. -/
def Covers (setting : Setting) (address : Word) (bit : Nat) : Prop :=
  setting.address = address ∧ setting.low ≤ bit ∧ bit < setting.low + setting.width

instance (setting : Setting) (address : Word) (bit : Nat) :
    Decidable (setting.Covers address bit) :=
  inferInstanceAs (Decidable (_ ∧ _ ∧ _))

/-- The field has its value. -/
def Holds (setting : Setting) (values : Word → Word) : Prop :=
  (values setting.address).extractLsb' setting.low setting.width =
    setting.value.setWidth setting.width

/-- The field without its value. -/
def place (setting : Setting) : Setting :=
  { setting with value := 0 }

/-- Two fields have no bit in common. -/
def Apart (first second : Setting) : Prop :=
  first.address ≠ second.address ∨ first.low + first.width ≤ second.low ∨
    second.low + second.width ≤ first.low

instance (first second : Setting) : Decidable (first.Apart second) :=
  inferInstanceAs (Decidable (_ ∨ _ ∨ _))

variable {setting other : Setting} {values others : Word → Word} {address : Word} {bit : Nat}

theorem Apart.symm (apart : setting.Apart other) : other.Apart setting := by
  obtain ne | left | right := apart
  · exact .inl ne.symm
  · exact .inr (.inr left)
  · exact .inr (.inl right)

instance : Std.Symm Apart :=
  ⟨fun _ _ => Apart.symm⟩

theorem Apart.not_covers (apart : setting.Apart other) (covers : setting.Covers address bit) :
    ¬ other.Covers address bit := by
  rintro ⟨place, low, high⟩
  obtain ⟨place', low', high'⟩ := covers
  obtain ne | left | right := apart
  · exact ne (place'.trans place.symm)
  · omega
  · omega

/-- A field has its value if its bits have. -/
theorem holds_iff : setting.Holds values ↔ ∀ bit, setting.Covers setting.address bit →
    (values setting.address).getLsbD bit = setting.value.getLsbD (bit - setting.low) := by
  constructor
  · rintro holds bit ⟨-, low, high⟩
    have same := congrArg (·.getLsbD (bit - setting.low)) holds
    have inside : bit - setting.low < setting.width := by omega
    have position : setting.low + (bit - setting.low) = bit := by omega
    simpa [BitVec.getLsbD_extractLsb', BitVec.getLsbD_setWidth, inside, position] using same
  · intro same
    apply BitVec.eq_of_getLsbD_eq
    intro i inside
    have bit := same (setting.low + i) ⟨rfl, by omega, by omega⟩
    simpa [BitVec.getLsbD_extractLsb', BitVec.getLsbD_setWidth, inside] using bit

/-- A field keeps its value if its bits stay. -/
theorem Holds.of_same (holds : setting.Holds values)
    (same : ∀ bit, setting.Covers setting.address bit →
      (others setting.address).getLsbD bit = (values setting.address).getLsbD bit) :
    setting.Holds others :=
  holds_iff.mpr fun bit covers => (same bit covers).trans (holds_iff.mp holds bit covers)

end Setting

/-- Each of some fields has its value, and every bit that lies in none of them is as before. -/
structure Settled (settings : List Setting) (before after : Word → Word) : Prop where
  holds : ∀ setting ∈ settings, setting.Holds after
  spares : ∀ address bit, (∀ setting ∈ settings, ¬ setting.Covers address bit) →
    (after address).getLsbD bit = (before address).getLsbD bit

namespace Settled

variable {settings others : List Setting} {before middle after : Word → Word}

/-- Fields and the contents before determine the contents after. -/
theorem unique {after' : Word → Word} (settled : Settled settings before after)
    (settled' : Settled settings before after') : after = after' := by
  funext address
  apply BitVec.eq_of_getLsbD_eq
  intro bit _
  by_cases covered : ∃ setting ∈ settings, setting.Covers address bit
  · obtain ⟨setting, member, covers⟩ := covered
    obtain rfl := covers.1
    rw [Setting.holds_iff.mp (settled.holds setting member) bit covers,
      Setting.holds_iff.mp (settled'.holds setting member) bit covers]
  · have free : ∀ setting ∈ settings, ¬ setting.Covers address bit :=
      fun setting member covers => covered ⟨setting, member, covers⟩
    rw [settled.spares address bit free, settled'.spares address bit free]

/-- Only which fields there are matters. -/
theorem congr (settled : Settled settings before after)
    (same : ∀ setting, setting ∈ settings ↔ setting ∈ others) : Settled others before after where
  holds setting member := settled.holds setting ((same setting).mpr member)
  spares address bit free :=
    settled.spares address bit fun setting member => free setting ((same setting).mp member)

/-- Fields that are the same or have no bit in common can be settled one after the other. -/
theorem append (first : Settled settings before middle) (second : Settled others middle after)
    (compatible : ∀ setting ∈ settings, ∀ other ∈ others, setting = other ∨ setting.Apart other) :
    Settled (settings ++ others) before after where
  holds setting member := by
    by_cases later : setting ∈ others
    · exact second.holds setting later
    · have earlier : setting ∈ settings := (List.mem_append.mp member).resolve_right later
      refine (first.holds setting earlier).of_same fun bit covers => ?_
      apply second.spares
      intro other others_mem
      obtain rfl | apart := compatible setting earlier other others_mem
      · exact (later others_mem).elim
      · exact apart.not_covers covers
  spares address bit free := by
    obtain ⟨free, free'⟩ := List.forall_mem_append.mp free
    rw [second.spares address bit free', first.spares address bit free]

theorem nil (before : Word → Word) : Settled [] before before where
  holds := List.forall_mem_nil _
  spares _ _ _ := rfl

end Settled

/-! ## Amendments that settle fields -/

/-- An amendment gives a field its value, and changes no other bit. -/
structure Amendment.Sets (amendment : Amendment) (setting : Setting) : Prop where
  place : amendment.address = setting.address
  bits : ∀ (old : Word) bit, bit < 32 → (amendment.change old).getLsbD bit =
    if setting.low ≤ bit ∧ bit < setting.low + setting.width then
      setting.value.getLsbD (bit - setting.low)
    else old.getLsbD bit

namespace Amendment

variable {amendment : Amendment} {amendments : List Amendment} {setting : Setting}
  {settings : List Setting} {values : Word → Word}

theorem Sets.settles (sets : amendment.Sets setting) (inside : setting.low + setting.width ≤ 32)
    (values : Word → Word) : Settled [setting] values (amendment.on values) where
  holds := by
    refine List.forall_mem_singleton.mpr (Setting.holds_iff.mpr ?_)
    rintro bit ⟨-, low, high⟩
    rw [on, if_pos sets.place, sets.bits _ _ (by omega), if_pos ⟨low, high⟩]
  spares address bit free := by
    have free := free setting (List.mem_singleton_self _)
    rw [on]
    split
    · next here =>
      by_cases small : bit < 32
      · rw [sets.bits _ _ small, if_neg fun within => free ⟨sets.place.symm.trans here, within⟩,
          here]
      · rw [BitVec.getLsbD_of_ge _ _ (by omega), BitVec.getLsbD_of_ge _ _ (by omega)]
    · rfl

/-- Amendments of separate fields settle all of them. -/
theorem settles_of_forall₂ (sets : List.Forall₂ Sets amendments settings)
    (inside : ∀ setting ∈ settings, setting.low + setting.width ≤ 32)
    (apart : settings.Pairwise Setting.Apart) (values : Word → Word) :
    Settled settings values (amendments.foldl on values) := by
  induction sets generalizing values with
  | nil => exact .nil values
  | @cons amendment setting amendments settings first _ ih =>
    obtain ⟨here, inside⟩ := List.forall_mem_cons.mp inside
    obtain ⟨separate, apart⟩ := List.pairwise_cons.mp apart
    refine (first.settles here values).append (ih inside apart (amendment.on values)) ?_
    exact List.forall_mem_singleton.mpr fun other member => .inr (separate other member)

theorem field_sets (address value : Word) (shift width : Byte) :
    (field address shift width value).Sets ⟨address, shift.toNat, width.toNat, value⟩ :=
  ⟨rfl, fun old _ small => getLsbD_field address value old shift width small⟩

/-- Enabling a clock sets one bit. -/
theorem gate_sets (address : Word) {mask : Word} {position : Nat}
    (one : ∀ bit, bit < 32 → mask.getLsbD bit = decide (bit = position)) :
    (gate address mask).Sets ⟨address, position, 1, 1⟩ := by
  refine ⟨rfl, fun old bit small => ?_⟩
  rw [gate, BitVec.getLsbD_or, one bit small]
  by_cases same : bit = position
  · have within : position ≤ bit ∧ bit < position + 1 := by omega
    rw [if_pos within, same, decide_eq_true rfl, Bool.or_true, Nat.sub_self]
    change true = (1 : Word).getLsbD 0
    decide
  · have outside : ¬ (position ≤ bit ∧ bit < position + 1) := by omega
    rw [if_neg outside, decide_eq_false same, Bool.or_false]

/-- Replacing a register gives a value to all its bits. -/
theorem replace_sets (address value : Word) :
    Sets ⟨address, fun _ => value⟩ ⟨address, 0, 32, value⟩ := by
  refine ⟨rfl, fun old bit small => ?_⟩
  rw [if_pos ⟨Nat.zero_le _, by omega⟩, Nat.sub_zero]

end Amendment

/-! ## The fields of the board -/

namespace PinId

variable {pin : PinId}

/-- Two bits of a pin in a register with two bits for each pin. -/
def pairSetting (pin : PinId) (offset value : Word) : Setting :=
  ⟨pin.port.base + offset, 2 * pin.number.toNat, 2, value⟩

/-- The output type of a pin. -/
def typeSetting (pin : PinId) (value : Word) : Setting :=
  ⟨pin.port.base + Gpio.otyper, pin.number.toNat, 1, value⟩

/-- The alternate function of a pin in the upper half of its port. -/
def functionSetting (pin : PinId) (value : Word) : Setting :=
  ⟨pin.port.base + Gpio.afrh, 4 * (pin.number.toNat - 8), 4, value⟩

theorem outputType_sets (pin : PinId) (type : OutputType) :
    (pin.outputType type).Sets (pin.typeSetting type.code) :=
  Amendment.field_sets _ _ _ _

variable (valid : pin.number.toNat < 16)

include valid

theorem pair_sets (offset value : Word) :
    (pin.pair offset value).Sets (pin.pairSetting offset value) := by
  have shift : (pin.number * 2).toNat = 2 * pin.number.toNat := by bv_omega
  have sets := Amendment.field_sets (pin.port.base + offset) value (pin.number * 2) 2
  rwa [shift] at sets

theorem alternate_sets (high : ¬ pin.number < 8) (function : Fin 16) :
    (pin.alternate function).Sets (pin.functionSetting (BitVec.ofNat 32 function)) := by
  have shift : ((pin.number - 8) * 4).toNat = 4 * (pin.number.toNat - 8) := by bv_omega
  have sets := Amendment.field_sets (pin.port.base + Gpio.afrh) (BitVec.ofNat 32 function)
    ((pin.number - 8) * 4) 4
  rw [alternate, if_neg high]
  rwa [shift] at sets

end PinId

/-- A call that sets up a part of the board. -/
inductive BoardCall
  | leds
  | button
  | console
  deriving DecidableEq

namespace Board

/-- The clock of a port. -/
def portSetting (port : Port) : Setting :=
  ⟨Rcc.ahb2enr, port.index, 1, 1⟩

/-- A pin that is a push-pull output of medium speed without a pull. -/
def ledSettings (pin : PinId) : List Setting :=
  [pin.pairSetting Gpio.moder 1, pin.typeSetting 0, pin.pairSetting Gpio.ospeedr 1,
    pin.pairSetting Gpio.pupdr 0]

/-- A pin that is an input with a pull-up. -/
def buttonSettings (pin : PinId) : List Setting :=
  [pin.pairSetting Gpio.moder 0, pin.pairSetting Gpio.pupdr 1]

/-- A pin that is connected to USART3: push-pull, at the highest speed, on function seven. -/
def consolePinSettings (pin : PinId) (pull : Word) : List Setting :=
  [pin.typeSetting 0, pin.pairSetting Gpio.ospeedr 3, pin.pairSetting Gpio.pupdr pull,
    pin.functionSetting 7, pin.pairSetting Gpio.moder 2]

/-- The registers of USART3. -/
def lineSettings (config : SerialConfig) : List Setting :=
  [⟨Usart3.base + Usart3.cr2, 0, 32, 0⟩,
    ⟨Usart3.base + Usart3.cr3, 0, 32, if config.dmaTransmit then Usart3.dmaTransmit else 0⟩,
    ⟨Usart3.base + Usart3.brr, 0, 32, config.divisor⟩,
    ⟨Usart3.base + Usart3.cr1, 0, 32, Usart3.transmitterEnable ||| Usart3.enable |||
      (if config.receiver then Usart3.receiverEnable else 0)⟩]

end Board

namespace BoardCall

/-- The fields that a call is about. -/
def settings (config : SerialConfig) : BoardCall → List Setting
  | leds =>
    [Board.portSetting .b, Board.portSetting .f, Board.portSetting .g] ++
      (Board.ledSettings ⟨.b, 0⟩ ++ (Board.ledSettings ⟨.f, 4⟩ ++ Board.ledSettings ⟨.g, 4⟩))
  | button => [Board.portSetting .c] ++ Board.buttonSettings ⟨.c, 13⟩
  | console =>
    [Board.portSetting .d, ⟨Rcc.apb1lenr, 18, 1, 1⟩, ⟨Rcc.ccipr1, 6, 3, 0⟩] ++
      (Board.consolePinSettings ⟨.d, 8⟩ 0 ++ (Board.consolePinSettings ⟨.d, 9⟩ 1 ++
        Board.lineSettings config))

/-- What a call amends. -/
def amendments (config : SerialConfig) : BoardCall → List Amendment
  | leds => Board.leds
  | button => Board.button
  | console => Board.console config

/-- Make a call, and drop the handle that it gives. -/
def perform (config : SerialConfig) : BoardCall → BusM Chip Unit
  | leds => Board.setUpLeds >>= fun _ => pure ()
  | button => Board.setUpButton >>= fun _ => pure ()
  | console => Board.setUpConsole config >>= fun _ => pure ()

end BoardCall

/-- The fields that all three calls are about. -/
def Board.settings (config : SerialConfig) : List Setting :=
  BoardCall.leds.settings config ++ (BoardCall.button.settings config ++
    BoardCall.console.settings config)

/-- Make calls one after the other. -/
def Board.setUpAll (config : SerialConfig) (calls : List BoardCall) : BusM Chip Unit :=
  forM calls (BoardCall.perform config)

namespace BoardCall

variable {config : SerialConfig} {call : BoardCall} {calls : List BoardCall}
  {values : Word → Word}

/-- The fields of one call are among those of the board. -/
theorem settings_sublist (config : SerialConfig) (call : BoardCall) :
    (call.settings config).Sublist (Board.settings config) := by
  cases call with
  | leds => exact List.sublist_append_left _ _
  | button => exact (List.sublist_append_left _ _).trans (List.sublist_append_right _ _)
  | console => exact (List.sublist_append_right _ _).trans (List.sublist_append_right _ _)

theorem settings_subset (config : SerialConfig) (call : BoardCall) :
    call.settings config ⊆ Board.settings config :=
  (settings_sublist config call).subset

/-- No two fields of the board have a bit in common, whatever their values. -/
theorem settings_apart (config : SerialConfig) :
    (Board.settings config).Pairwise Setting.Apart := by
  have places : (Board.settings config).map Setting.place =
      (Board.settings ⟨0, false, false⟩).map Setting.place := rfl
  have apart : ((Board.settings ⟨0, false, false⟩).map Setting.place).Pairwise Setting.Apart := by
    decide +kernel
  rw [← places, List.pairwise_map] at apart
  exact apart

/-- So two of them are the same or have no bit in common. -/
theorem settings_compatible {setting other : Setting} (member : setting ∈ Board.settings config)
    (member' : other ∈ Board.settings config) : setting = other ∨ setting.Apart other := by
  by_cases same : setting = other
  · exact .inl same
  · exact .inr ((settings_apart config).forall member member' same)

theorem settings_inside (config : SerialConfig) :
    ∀ setting ∈ Board.settings config, setting.low + setting.width ≤ 32 := by
  have places : (Board.settings config).map Setting.place =
      (Board.settings ⟨0, false, false⟩).map Setting.place := rfl
  have inside : ∀ setting ∈ (Board.settings ⟨0, false, false⟩).map Setting.place,
      setting.low + setting.width ≤ 32 := by
    decide +kernel
  rw [← places, List.forall_mem_map] at inside
  exact inside

/-! ## One call -/

theorem output_sets {pin : PinId} (valid : pin.number.toNat < 16) :
    List.Forall₂ Amendment.Sets pin.output (Board.ledSettings pin) :=
  .cons (PinId.pair_sets valid _ _) <| .cons (PinId.outputType_sets pin .pushPull) <|
    .cons (PinId.pair_sets valid _ _) <| .cons (PinId.pair_sets valid _ _) .nil

theorem inputPullUp_sets {pin : PinId} (valid : pin.number.toNat < 16) :
    List.Forall₂ Amendment.Sets pin.inputPullUp (Board.buttonSettings pin) :=
  .cons (PinId.pair_sets valid _ _) <| .cons (PinId.pair_sets valid _ _) .nil

theorem consolePin_sets {pin : PinId} (valid : pin.number.toNat < 16)
    (high : ¬ pin.number < 8) (pull : Pull) :
    List.Forall₂ Amendment.Sets (Board.consolePin pin pull)
      (Board.consolePinSettings pin pull.code) :=
  .cons (PinId.outputType_sets pin .pushPull) <| .cons (PinId.pair_sets valid _ _) <|
    .cons (PinId.pair_sets valid _ _) <| .cons (PinId.alternate_sets valid high _) <|
    .cons (PinId.pair_sets valid _ _) .nil

theorem port_sets (port : Port) :
    (Amendment.gate Rcc.ahb2enr (Rcc.portEnable port)).Sets (Board.portSetting port) := by
  apply Amendment.gate_sets
  cases port <;> decide

/-- What is left of setting up the line when registers that are written twice are written once. -/
def lineAmendments (config : SerialConfig) : List Amendment :=
  [⟨Usart3.base + Usart3.cr2, fun _ => 0⟩,
    ⟨Usart3.base + Usart3.cr3,
      fun _ => if config.dmaTransmit then Usart3.dmaTransmit else 0⟩,
    ⟨Usart3.base + Usart3.brr, fun _ => config.divisor⟩,
    ⟨Usart3.base + Usart3.cr1, fun _ => Usart3.transmitterEnable ||| Usart3.enable |||
      (if config.receiver then Usart3.receiverEnable else 0)⟩]

theorem foldl_lineAmendments (config : SerialConfig) (values : Word → Word) :
    config.amendments.foldl Amendment.on values =
      (lineAmendments config).foldl Amendment.on values := by
  funext address
  have apart : Usart3.base + Usart3.brr ≠ Usart3.base + Usart3.cr3 := by decide
  cases dma : config.dmaTransmit <;>
    simp only [SerialConfig.amendments, lineAmendments, dma, List.cons_append, List.nil_append,
      List.foldl_cons, List.foldl_nil, Amendment.on, if_true, if_false, Bool.false_eq_true]
  · by_cases last : Usart3.base + Usart3.cr1 = address
    · simp only [if_pos last]
    · simp only [if_neg last]
  · by_cases last : Usart3.base + Usart3.cr1 = address
    · simp only [if_pos last]
    simp only [if_neg last]
    by_cases requests : Usart3.base + Usart3.cr3 = address
    · have other : Usart3.base + Usart3.brr ≠ address := fun same =>
        apart (same.trans requests.symm)
      simp only [if_pos requests, if_neg other]
    · simp only [if_neg requests]

theorem lineAmendments_sets (config : SerialConfig) :
    List.Forall₂ Amendment.Sets (lineAmendments config) (Board.lineSettings config) :=
  .cons (Amendment.replace_sets _ _) <| .cons (Amendment.replace_sets _ _) <|
    .cons (Amendment.replace_sets _ _) <| .cons (Amendment.replace_sets _ _) .nil

/-- Amendments that set the fields of a call settle them. -/
theorem settles_of_sets {amendments : List Amendment}
    (sets : List.Forall₂ Amendment.Sets amendments (call.settings config))
    (values : Word → Word) :
    Settled (call.settings config) values (amendments.foldl Amendment.on values) :=
  Amendment.settles_of_forall₂ sets
    (fun setting member => settings_inside config setting (settings_subset config call member))
    ((settings_apart config).sublist (settings_sublist config call)) values

theorem leds_sets (config : SerialConfig) :
    List.Forall₂ Amendment.Sets Board.leds (leds.settings config) := by
  have green : List.Forall₂ Amendment.Sets Board.greenLed.output (Board.ledSettings ⟨.b, 0⟩) :=
    output_sets (by decide)
  have yellow : List.Forall₂ Amendment.Sets Board.yellowLed.output (Board.ledSettings ⟨.f, 4⟩) :=
    output_sets (by decide)
  have red : List.Forall₂ Amendment.Sets Board.redLed.output (Board.ledSettings ⟨.g, 4⟩) :=
    output_sets (by decide)
  rw [Board.leds, List.append_nil]
  exact .cons (port_sets .b) <| .cons (port_sets .f) <| .cons (port_sets .g) <|
    List.rel_append green (List.rel_append yellow red)

theorem button_sets (config : SerialConfig) :
    List.Forall₂ Amendment.Sets Board.button (button.settings config) := by
  rw [Board.button, List.append_nil]
  exact .cons (port_sets .c) (inputPullUp_sets (by decide))

/-- What the console brings up before the line. -/
def consoleFront : List Amendment :=
  [.gate Rcc.ahb2enr (Rcc.portEnable .d)] ++ ([.gate Rcc.apb1lenr Rcc.usart3Enable] ++
    ([.field Rcc.ccipr1 Rcc.usart3SelectShift Rcc.usart3SelectWidth
      KernelClock.peripheralBus.code] ++
    (Board.consolePin Board.consoleTransmit .floating ++
      Board.consolePin Board.consoleReceive .up)))

/-- What comes after that is the line. -/
theorem console_eq (config : SerialConfig) :
    Board.console config = consoleFront ++ config.amendments := by
  simp only [Board.console, consoleFront, List.append_assoc]

theorem console_sets (config : SerialConfig) :
    List.Forall₂ Amendment.Sets (consoleFront ++ lineAmendments config)
      (console.settings config) := by
  have transmit : List.Forall₂ Amendment.Sets (Board.consolePin Board.consoleTransmit .floating)
      (Board.consolePinSettings ⟨.d, 8⟩ 0) := consolePin_sets (by decide) (by decide) _
  have receive : List.Forall₂ Amendment.Sets (Board.consolePin Board.consoleReceive .up)
      (Board.consolePinSettings ⟨.d, 9⟩ 1) := consolePin_sets (by decide) (by decide) _
  simp only [consoleFront, List.append_assoc]
  exact .cons (port_sets .d) <| .cons (Amendment.gate_sets _ (by decide)) <|
    .cons (Amendment.field_sets _ _ _ _) <|
    List.rel_append transmit (List.rel_append receive (lineAmendments_sets config))

/-- A call settles its fields. -/
theorem settles (config : SerialConfig) (call : BoardCall) (values : Word → Word) :
    Settled (call.settings config) values
      ((call.amendments config).foldl Amendment.on values) := by
  cases call with
  | leds => exact settles_of_sets (leds_sets config) values
  | button => exact settles_of_sets (button_sets config) values
  | console =>
    rw [amendments, console_eq, List.foldl_append, foldl_lineAmendments, ← List.foldl_append]
    exact settles_of_sets (console_sets config) values

/-! ## Clocks -/

/-- A clock gate with its bit set lets the block answer. -/
theorem and_ne_zero_of_holds {address mask : Word} {position : Nat} {values : Word → Word}
    (holds : Setting.Holds ⟨address, position, 1, 1⟩ values)
    (set : mask.getLsbD position = true) : values address &&& mask ≠ 0 := by
  intro zero
  have on : (values address).getLsbD position = true := by
    simpa using Setting.holds_iff.mp holds position
      ⟨rfl, Nat.le_refl _, Nat.lt_succ_self _⟩
  have both : (values address &&& mask).getLsbD position = true := by
    rw [BitVec.getLsbD_and, set, on, Bool.and_true]
  rw [zero] at both
  simp at both

theorem clocked_port {port : Port} (holds : (Board.portSetting port).Holds values)
    (offset : Word) : Amendment.clocked values (.gpio port offset) = true := by
  refine bne_iff_ne.mpr (and_ne_zero_of_holds holds ?_)
  cases port <;> decide

theorem clocked_serial (holds : Setting.Holds ⟨Rcc.apb1lenr, 18, 1, 1⟩ values) (offset : Word) :
    Amendment.clocked values (.usart3 offset) = true :=
  bne_iff_ne.mpr (and_ne_zero_of_holds holds (by decide))

/-- The blocks that answer once a call has opened its gates. -/
def opens : BoardCall → Block → Bool
  | _, .other => true
  | leds, .gpio port _ => port ∈ [Port.b, .f, .g]
  | button, .gpio port _ => port = .c
  | console, .gpio port _ => port = .d
  | console, .usart3 _ => true
  | _, _ => false

/-- A register that is plain storage of such a block, and no clock gate. -/
def reaches (call : BoardCall) (address : Word) : Bool :=
  Amendment.storage (Block.decode address) && call.opens (Block.decode address) &&
    address ∉ [Rcc.ahb1enr, Rcc.ahb2enr, Rcc.apb1lenr]

theorem clocked_on {amendment : Amendment}
    (away : amendment.address ∉ [Rcc.ahb1enr, Rcc.ahb2enr, Rcc.apb1lenr]) (block : Block) :
    Amendment.clocked (amendment.on values) block = Amendment.clocked values block := by
  simp only [List.mem_cons, List.not_mem_nil, or_false, not_or] at away
  cases block with
  | gpio => rw [Amendment.clocked, Amendment.on, if_neg away.2.1, Amendment.clocked]
  | usart3 => rw [Amendment.clocked, Amendment.on, if_neg away.2.2, Amendment.clocked]
  | dma1 => rw [Amendment.clocked, Amendment.on, if_neg away.1, Amendment.clocked]
  | other => rfl

/-- With the gates of a call open, amendments of what it reaches are admitted. -/
theorem admitted_of_reaches {amendments : List Amendment}
    (opened : ∀ block, call.opens block = true → Amendment.clocked values block = true)
    (each : ∀ amendment ∈ amendments, call.reaches amendment.address = true) :
    Amendment.admitted values amendments = true := by
  induction amendments generalizing values with
  | nil => rfl
  | cons amendment rest ih =>
    obtain ⟨first, others⟩ := List.forall_mem_cons.mp each
    simp only [reaches, Bool.and_eq_true, decide_eq_true_eq] at first
    obtain ⟨⟨plain, open'⟩, away⟩ := first
    simp only [Amendment.admitted, plain, opened _ open', Bool.true_and]
    exact ih (fun block opens => (clocked_on away block).trans (opened block opens)) others

/-- The gates that a call opens. -/
def gates : BoardCall → List Amendment
  | leds => [.gate Rcc.ahb2enr (Rcc.portEnable .b), .gate Rcc.ahb2enr (Rcc.portEnable .f),
    .gate Rcc.ahb2enr (Rcc.portEnable .g)]
  | button => [.gate Rcc.ahb2enr (Rcc.portEnable .c)]
  | console => [.gate Rcc.ahb2enr (Rcc.portEnable .d), .gate Rcc.apb1lenr Rcc.usart3Enable]

theorem gates_admitted (call : BoardCall) (values : Word → Word) :
    Amendment.admitted values call.gates = true := by
  cases call <;> rfl

theorem gates_open (call : BoardCall) (values : Word → Word) (block : Block)
    (opens : call.opens block = true) :
    Amendment.clocked (call.gates.foldl Amendment.on values) block = true := by
  cases call with
  | leds =>
    have settled : Settled [Board.portSetting .b, Board.portSetting .f, Board.portSetting .g]
        values (leds.gates.foldl Amendment.on values) :=
      Amendment.settles_of_forall₂
        (.cons (port_sets .b) <| .cons (port_sets .f) <| .cons (port_sets .g) .nil)
        (by decide) (by decide) values
    cases block with
    | gpio port offset =>
      have one : port ∈ [Port.b, .f, .g] := of_decide_eq_true opens
      have member := List.mem_map_of_mem (f := Board.portSetting) one
      exact clocked_port (settled.holds _ member) offset
    | usart3 | dma1 => cases opens
    | other => rfl
  | button =>
    have settled : Settled [Board.portSetting .c] values
        (button.gates.foldl Amendment.on values) :=
      Amendment.settles_of_forall₂ (.cons (port_sets .c) .nil) (by decide) (by decide) values
    cases block with
    | gpio port offset =>
      obtain rfl : port = .c := of_decide_eq_true opens
      exact clocked_port (settled.holds _ (List.mem_singleton_self _)) offset
    | usart3 | dma1 => cases opens
    | other => rfl
  | console =>
    have settled : Settled [Board.portSetting .d, ⟨Rcc.apb1lenr, 18, 1, 1⟩] values
        (console.gates.foldl Amendment.on values) :=
      Amendment.settles_of_forall₂
        (.cons (port_sets .d) <| .cons (Amendment.gate_sets _ (by decide)) .nil)
        (by decide) (by decide) values
    cases block with
    | gpio port offset =>
      obtain rfl : port = .d := of_decide_eq_true opens
      exact clocked_port (settled.holds _ List.mem_cons_self) offset
    | usart3 offset =>
      exact clocked_serial (settled.holds _ (List.mem_cons_of_mem _ List.mem_cons_self)) offset
    | dma1 => cases opens
    | other => rfl

/-- After its gates, a call amends what they let it reach. -/
theorem amendments_eq (config : SerialConfig) (call : BoardCall) :
    ∃ rest, call.amendments config = call.gates ++ rest ∧
      ∀ amendment ∈ rest, call.reaches amendment.address = true := by
  cases call with
  | leds =>
    refine ⟨Board.greenLed.output ++ (Board.yellowLed.output ++ (Board.redLed.output ++ [])), rfl,
      ?_⟩
    decide +kernel
  | button => exact ⟨Board.userButton.inputPullUp ++ [], rfl, by decide +kernel⟩
  | console =>
    have front : ∀ amendment ∈ [Amendment.field Rcc.ccipr1 Rcc.usart3SelectShift
          Rcc.usart3SelectWidth KernelClock.peripheralBus.code] ++
        (Board.consolePin Board.consoleTransmit .floating ++
          Board.consolePin Board.consoleReceive .up),
        console.reaches amendment.address = true := by
      decide +kernel
    have line : ∀ amendment ∈ config.amendments, console.reaches amendment.address = true := by
      cases dma : config.dmaTransmit <;>
        simp only [SerialConfig.amendments, dma, List.forall_mem_append,
          List.forall_mem_singleton] <;> decide +kernel
    refine ⟨_, ?_, List.forall_mem_append.mpr ⟨front, line⟩⟩
    simp only [amendments, gates, Board.console, List.append_assoc, List.cons_append,
      List.nil_append]

theorem admitted (config : SerialConfig) (call : BoardCall) (values : Word → Word) :
    Amendment.admitted values (call.amendments config) = true := by
  obtain ⟨rest, parts, reached⟩ := amendments_eq config call
  rw [parts, Amendment.admitted_append, gates_admitted, Bool.true_and]
  exact admitted_of_reaches (gates_open call values) reached

/-! ## Many calls -/

/-- Calls settle the fields of all of them. -/
theorem settle (config : SerialConfig) (calls : List BoardCall) (values : Word → Word) :
    Settled (calls.flatMap (settings config)) values
      ((calls.flatMap (amendments config)).foldl Amendment.on values) := by
  induction calls generalizing values with
  | nil => exact .nil values
  | cons call calls ih =>
    rw [List.flatMap_cons, List.flatMap_cons, List.foldl_append]
    refine (settles config call values).append (ih _) fun setting member other member' => ?_
    obtain ⟨later, -, inside⟩ := List.mem_flatMap.mp member'
    exact settings_compatible (settings_subset config call member)
      (settings_subset config later inside)

/-- If every call is made, the fields are those of the board. -/
theorem mem_settings_iff (all : ∀ call, call ∈ calls) (setting : Setting) :
    setting ∈ calls.flatMap (settings config) ↔ setting ∈ Board.settings config := by
  rw [List.mem_flatMap, Board.settings, List.mem_append, List.mem_append]
  constructor
  · rintro ⟨call, -, member⟩
    cases call with
    | leds => exact .inl member
    | button => exact .inr (.inl member)
    | console => exact .inr (.inr member)
  · rintro (member | member | member)
    · exact ⟨leds, all _, member⟩
    · exact ⟨button, all _, member⟩
    · exact ⟨console, all _, member⟩

/-- What the calls amend is admitted whatever the registers hold. -/
theorem all_admitted (config : SerialConfig) (calls : List BoardCall) (values : Word → Word) :
    Amendment.admitted values (calls.flatMap (amendments config)) = true := by
  induction calls generalizing values with
  | nil => rfl
  | cons call calls ih =>
    rw [List.flatMap_cons, Amendment.admitted_append, admitted, ih]
    rfl

theorem perform_amends (divisor : config.divisor ≠ 0) (call : BoardCall) :
    Amends (call.perform config) () (call.amendments config) := by
  rw [← List.append_nil (call.amendments config)]
  cases call with
  | leds => exact Amends.bind Board.setUpLeds_amends (Amends.pure ())
  | button => exact Amends.bind Board.setUpButton_amends (Amends.pure ())
  | console => exact Amends.bind (Board.setUpConsole_amends divisor) (Amends.pure ())

theorem all_amend (divisor : config.divisor ≠ 0) (calls : List BoardCall) :
    Amends (Board.setUpAll config calls) () (calls.flatMap (amendments config)) := by
  induction calls with
  | nil => exact Amends.pure ()
  | cons call calls ih =>
    rw [Board.setUpAll, List.forM_cons, List.flatMap_cons]
    exact Amends.bind (perform_amends divisor call) ih

end BoardCall

/-- Setting up the board leads to one contents of all registers: each field of the board has its
value, and every bit outside of them is as it was. Whatever was in the registers, whichever blocks
were clocked, and in whatever order and however often the three calls are made, provided that each
is made and that no channel is active, they return and lead there, and nothing is observed. -/
theorem Board.setUpAll_settles {chip : Chip} {config : SerialConfig}
    (inactive : ∀ c, (chip.latch c).active = false) (divisor : config.divisor ≠ 0) :
    ∃ settled : Registers,
      Settled (Board.settings config) chip.registers.get settled.get ∧
      ∀ (calls : List BoardCall) (log : Array Access), (∀ call, call ∈ calls) →
        ReturnsInTime (fun ticks => (Board.setUpAll config calls).run ⟨chip, ticks, log⟩)
          fun _ session => session.device.registers = settled ∧
            session.device.events = chip.events := by
  have settles (calls : List BoardCall) (all : ∀ call, call ∈ calls) :
      Settled (Board.settings config) chip.registers.get
        (chip.amended (calls.flatMap (BoardCall.amendments config))).registers.get := by
    have settled := BoardCall.settle config calls chip.peek
    rw [← peek_amended] at settled
    exact settled.congr (BoardCall.mem_settings_iff all)
  have each : ∀ call, call ∈ [BoardCall.leds, .button, .console] := fun call => by
    cases call <;> decide
  refine ⟨_, settles _ each, fun calls log all => ?_⟩
  have transforms := BoardCall.all_amend divisor calls chip chip.busy inactive
    (BoardCall.all_admitted config calls chip.peek)
  refine (transforms.returnsInTime (Nat.le_refl _) log).mono ?_
  rintro _ session ⟨-, busy, written, -, same⟩
  rw [same]
  constructor
  · apply Registers.ext
    exact congrFun ((settles calls all).unique (settles _ each))
  · rw [events_timed, amended_eq]

/-- No block has a clock, but some of the registers hold values from before. -/
def Chip.stale : Chip :=
  (((Chip.reset.setLatency 2).poke (Port.base .b + Gpio.moder) 0xABFFFFFF).poke
    Rcc.ccipr1 0xFFFFFFFF).poke (Usart3.base + Usart3.cr2) 0x1234

theorem Board.setUpAll_settles_stale :
    (∀ c, (Chip.stale.latch c).active = false) ∧ SerialConfig.default.divisor ≠ 0 ∧
    (∀ call, call ∈ [BoardCall.console, .leds, .button, .leds, .console]) ∧
    ∃ settled : Registers,
      Settled (Board.settings .default) Chip.stale.registers.get settled.get ∧
      ReturnsInTime (fun ticks =>
        (Board.setUpAll .default [.console, .leds, .button, .leds, .console]).run
          ⟨Chip.stale, ticks, #[]⟩)
        fun _ session => session.device.registers = settled ∧
          session.device.events = Chip.stale.events := by
  have inactive : ∀ c, (Chip.stale.latch c).active = false := inactive_fresh 2
  have divisor : SerialConfig.default.divisor ≠ 0 := by decide
  have all : ∀ call, call ∈ [BoardCall.console, .leds, .button, .leds, .console] := fun call => by
    cases call <;> decide
  obtain ⟨settled, contents, leads⟩ := Board.setUpAll_settles inactive divisor
  exact ⟨inactive, divisor, all, settled, contents, leads _ #[] all⟩

end Peripherals
