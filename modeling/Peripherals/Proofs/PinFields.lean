import Peripherals.Proofs.BringUp
import Peripherals.Proofs.Bystanders

/-! # The fields of a pin

Each bit of a port's packed registers belongs to one pin: two bits of a pin lie
in the mode, speed and pull registers, one in the output type and output
registers, four in one of the two alternate function registers. Every use of a
pin changes only bits that belong to it, and what it makes of them and what it
answers depend on no others. -/

namespace Peripherals

open Bus Chip

theorem getLsbD_three {i : Nat} (high : ¬i < 2) : (3 : Word).getLsbD i = false := by
  by_cases small : i < 32
  · have bits : ∀ i : Fin 32, ¬i.val < 2 → (3 : Word).getLsbD i.val = false := by decide
    exact bits ⟨i, small⟩ high
  · exact BitVec.getLsbD_of_ge _ _ (by omega)

theorem Port.register_ne (port : Port) {offset other : Word} (differs : offset ≠ other) :
    port.base + offset ≠ port.base + other :=
  (BitVec.add_right_inj port.base).not.mpr differs

/-- The number of the pin to which a bit of a port's register belongs. -/
def Gpio.owner? (offset : Word) (bit : Nat) : Option Nat :=
  if offset = moder ∨ offset = ospeedr ∨ offset = pupdr then some (bit / 2)
  else if offset = otyper ∨ offset = odr then some bit
  else if offset = afrl then some (bit / 4)
  else if offset = afrh then some (8 + bit / 4)
  else none

/-- A bit of a register belongs to a pin. -/
def PinId.Owns (pin : PinId) (address : Word) (bit : Nat) : Prop :=
  ∃ offset, address = pin.port.base + offset ∧ offset.toNat < 0x400 ∧
    Gpio.owner? offset bit = some pin.number.toNat

namespace PinId

variable {pin other : PinId} {address offset : Word} {bit : Nat}

theorem owns_iff (inside : offset.toNat < 0x400) :
    pin.Owns (pin.port.base + offset) bit ↔ Gpio.owner? offset bit = some pin.number.toNat := by
  constructor
  · rintro ⟨found, same, small, owner⟩
    have decoded := Block.decode_eq_gpio_iff.mpr ⟨same, small⟩
    rw [Block.decode_eq_gpio_iff.mpr ⟨rfl, inside⟩] at decoded
    rwa [(Block.gpio.inj decoded).2]
  · intro owner
    exact ⟨offset, rfl, inside, owner⟩

/-- No bit belongs to two pins. -/
theorem Owns.unique (owns : pin.Owns address bit) (others : other.Owns address bit) :
    pin = other := by
  obtain ⟨offset, place, small, owner⟩ := owns
  obtain ⟨offset', place', small', owner'⟩ := others
  have decoded := Block.decode_eq_gpio_iff.mpr ⟨place, small⟩
  rw [Block.decode_eq_gpio_iff.mpr ⟨place', small'⟩] at decoded
  obtain ⟨port, rfl⟩ := Block.gpio.inj decoded
  have number := Option.some.inj (owner.symm.trans owner')
  obtain ⟨home, place⟩ := pin
  obtain ⟨home', place'⟩ := other
  exact congrArg₂ PinId.mk port.symm (BitVec.eq_of_toNat_eq number)

/-- The clock gates belong to no pin. -/
theorem not_owns_gate (pin : PinId) (bit : Nat) : ¬pin.Owns Rcc.ahb2enr bit := by
  rintro ⟨offset, place, small, -⟩
  have decoded := Block.decode_eq_gpio_iff.mpr ⟨place, small⟩
  have other : Block.decode Rcc.ahb2enr = .other := rfl
  rw [other] at decoded
  cases decoded

/-- The bits of a pin are the same in two sets of values. -/
def Agree (pin : PinId) (values others : Word → Word) : Prop :=
  ∀ address bit, pin.Owns address bit →
    (values address).getLsbD bit = (others address).getLsbD bit

/-- All bits that do not belong to a pin are the same in two sets of values. -/
def Spares (pin : PinId) (values others : Word → Word) : Prop :=
  ∀ address bit, ¬pin.Owns address bit →
    (values address).getLsbD bit = (others address).getLsbD bit

end PinId

/-! ## Amendments of a pin's fields -/

/-- A change of one register that concerns the bits of one pin only. -/
structure Amendment.Local (pin : PinId) (amendment : Amendment) : Prop where
  spares : ∀ (old : Word) bit, ¬pin.Owns amendment.address bit →
    (amendment.change old).getLsbD bit = old.getLsbD bit
  agrees : ∀ old other : Word,
    (∀ bit, pin.Owns amendment.address bit → old.getLsbD bit = other.getLsbD bit) →
    ∀ bit, pin.Owns amendment.address bit →
      (amendment.change old).getLsbD bit = (amendment.change other).getLsbD bit

namespace Amendment

variable {pin : PinId} {amendment : Amendment} {amendments : List Amendment}
  {values others : Word → Word}

theorem Local.on_spares (here : amendment.Local pin) (values : Word → Word) :
    pin.Spares (amendment.on values) values := by
  intro address bit outside
  rw [on]
  split
  · next same =>
    subst same
    exact here.spares _ bit outside
  · rfl

theorem Local.on_agree (here : amendment.Local pin) (agree : pin.Agree values others) :
    pin.Agree (amendment.on values) (amendment.on others) := by
  intro address bit owns
  rw [on, on]
  split
  · next same =>
    subst same
    exact here.agrees _ _ (agree amendment.address) bit owns
  · exact agree address bit owns

theorem foldl_spares (here : ∀ amendment ∈ amendments, amendment.Local pin)
    (values : Word → Word) : pin.Spares (amendments.foldl on values) values := by
  induction amendments generalizing values with
  | nil => exact fun _ _ _ => rfl
  | cons amendment rest ih =>
    obtain ⟨first, others⟩ := List.forall_mem_cons.mp here
    intro address bit outside
    rw [List.foldl_cons, ih others (amendment.on values) address bit outside]
    exact first.on_spares values address bit outside

theorem foldl_agree (here : ∀ amendment ∈ amendments, amendment.Local pin)
    (agree : pin.Agree values others) :
    pin.Agree (amendments.foldl on values) (amendments.foldl on others) := by
  induction amendments generalizing values others with
  | nil => exact agree
  | cons amendment rest ih =>
    obtain ⟨first, rest⟩ := List.forall_mem_cons.mp here
    exact ih rest (first.on_agree agree)

/-- A register that no amendment is about keeps its value. -/
theorem foldl_elsewhere {address : Word}
    (elsewhere : ∀ amendment ∈ amendments, amendment.address ≠ address) (values : Word → Word) :
    amendments.foldl on values address = values address := by
  induction amendments generalizing values with
  | nil => rfl
  | cons amendment rest ih =>
    obtain ⟨first, others⟩ := List.forall_mem_cons.mp elsewhere
    rw [List.foldl_cons, ih others, on, if_neg first]

/-- A field holds its value, and every other bit stays. -/
theorem getLsbD_field (address value old : Word) (shift width : Byte) {bit : Nat}
    (small : bit < 32) :
    ((field address shift width value).change old).getLsbD bit =
      if shift.toNat ≤ bit ∧ bit < shift.toNat + width.toNat then
        value.getLsbD (bit - shift.toNat)
      else old.getLsbD bit := by
  simp only [field, BitVec.getLsbD_or, BitVec.getLsbD_and, BitVec.getLsbD_not,
    BitVec.getLsbD_shiftLeft, getLsbD_fieldMask, small, decide_true, Bool.true_and]
  by_cases below : bit < shift.toNat
  · have outside : ¬(shift.toNat ≤ bit ∧ bit < shift.toNat + width.toNat) := by omega
    simp [below, outside]
  · by_cases inside : bit - shift.toNat < width.toNat
    · have within : shift.toNat ≤ bit ∧ bit < shift.toNat + width.toNat := by omega
      have word : bit - shift.toNat < 32 := by omega
      simp [below, inside, within, word]
    · have outside : ¬(shift.toNat ≤ bit ∧ bit < shift.toNat + width.toNat) := by omega
      simp [below, inside, outside]

/-- A field whose bits belong to a pin concerns this pin only. -/
theorem field_local {offset value : Word} {shift width : Byte} (inside : offset.toNat < 0x400)
    (owned : ∀ bit, bit < 32 → (Gpio.owner? offset bit = some pin.number.toNat ↔
      shift.toNat ≤ bit ∧ bit < shift.toNat + width.toNat)) :
    (field (pin.port.base + offset) shift width value).Local pin where
  spares old bit outside := by
    by_cases small : bit < 32
    · rw [getLsbD_field _ _ _ _ _ small, if_neg]
      rw [← owned bit small, ← PinId.owns_iff inside]
      exact outside
    · rw [BitVec.getLsbD_of_ge _ _ (by omega), BitVec.getLsbD_of_ge _ _ (by omega)]
  agrees old other _ bit owns := by
    by_cases small : bit < 32
    · have within := (owned bit small).mp ((PinId.owns_iff inside).mp owns)
      rw [getLsbD_field _ _ _ _ _ small, getLsbD_field _ _ _ _ _ small, if_pos within,
        if_pos within]
    · rw [BitVec.getLsbD_of_ge _ _ (by omega), BitVec.getLsbD_of_ge _ _ (by omega)]

/-- A list that amends plain storage of one clocked port is admitted. -/
theorem admitted_of_port {port : Port} (clock : clocked values (.gpio port 0) = true)
    (each : ∀ amendment ∈ amendments, ∃ offset, amendment.address = port.base + offset ∧
      offset.toNat < 0x400 ∧ storage (.gpio port offset) = true) :
    admitted values amendments = true := by
  induction amendments generalizing values with
  | nil => rfl
  | cons amendment rest ih =>
    obtain ⟨⟨offset, place, inside, plain⟩, others⟩ := List.forall_mem_cons.mp each
    have decoded := Block.decode_eq_gpio_iff.mpr ⟨place, inside⟩
    have kept : clocked (amendment.on values) (.gpio port 0) = true := by
      have gate : amendment.address ≠ Rcc.ahb2enr := by
        intro same
        rw [same] at decoded
        cases decoded
      rw [clocked, on, if_neg gate]
      exact clock
    have opened : clocked values (.gpio port offset) = true := clock
    simp only [admitted, decoded, plain, opened, Bool.true_and]
    exact ih kept others

end Amendment

namespace PinId

variable {pin : PinId}

/-- An amendment of plain storage that concerns the bits of one pin only. -/
structure Configures (pin : PinId) (amendment : Amendment) : Prop where
  place : ∃ offset, amendment.address = pin.port.base + offset ∧ offset.toNat < 0x400 ∧
    Amendment.storage (.gpio pin.port offset) = true
  here : amendment.Local pin

theorem configures_field {offset value : Word} {shift width : Byte} (inside : offset.toNat < 0x400)
    (plain : Amendment.storage (.gpio pin.port offset) = true)
    (owned : ∀ bit, bit < 32 → (Gpio.owner? offset bit = some pin.number.toNat ↔
      shift.toNat ≤ bit ∧ bit < shift.toNat + width.toNat)) :
    pin.Configures (.field (pin.port.base + offset) shift width value) :=
  ⟨⟨offset, rfl, inside, plain⟩, Amendment.field_local inside owned⟩

theorem configures_outputType (type : OutputType) : pin.Configures (pin.outputType type) := by
  have width : (1 : Byte).toNat = 1 := rfl
  apply configures_field (by decide) rfl
  intro bit _
  have owner : Gpio.owner? Gpio.otyper bit = some bit := rfl
  rw [owner, Option.some.injEq, width]
  omega

/-- A pin's output bit is given a level that may depend on the old one. -/
def drives (pin : PinId) (choose : Bool → Level) : Amendment where
  address := pin.port.base + Gpio.odr
  change old := pin.driven (choose (old.getLsbD pin.number.toNat)) old

variable (valid : pin.number.toNat < 16)

include valid

theorem drives_local (choose : Bool → Level) : (pin.drives choose).Local pin := by
  have owner (bit : Nat) : pin.Owns (pin.port.base + Gpio.odr) bit ↔ bit = pin.number.toNat := by
    have bits : Gpio.owner? Gpio.odr bit = some bit := rfl
    rw [owns_iff (by decide), bits, Option.some.injEq]
  constructor
  · intro old bit outside
    by_cases small : bit < 32
    · exact (getLsbD_driven valid _ old small).trans (if_neg (mt (owner bit).mpr outside))
    · rw [BitVec.getLsbD_of_ge _ _ (by omega), BitVec.getLsbD_of_ge _ _ (by omega)]
  · intro old other agree bit owns
    have own := agree pin.number.toNat ((owner _).mpr rfl)
    obtain rfl := (owner bit).mp owns
    simp only [drives, getLsbD_driven valid _ _ (show pin.number.toNat < 32 by omega), own]

theorem configures_pair {offset : Word} (paired : offset = Gpio.moder ∨ offset = Gpio.ospeedr ∨
    offset = Gpio.pupdr) (value : Word) : pin.Configures (pin.pair offset value) := by
  have owner (bit : Nat) : Gpio.owner? offset bit = some (bit / 2) := if_pos paired
  have inside : offset.toNat < 0x400 := by
    rcases paired with rfl | rfl | rfl <;> decide
  have plain : Amendment.storage (.gpio pin.port offset) = true := by
    rcases paired with rfl | rfl | rfl <;> rfl
  have shift : (pin.number * 2).toNat = 2 * pin.number.toNat := by bv_omega
  have width : (2 : Byte).toNat = 2 := rfl
  apply configures_field inside plain
  intro bit _
  rw [owner, Option.some.injEq, shift, width]
  omega

/-- Two bits that are given a value have it. -/
theorem pair_on (offset value : Word) (values : Word → Word) :
    (pin.pair offset value).on values (pin.port.base + offset) >>> (2 * pin.number.toNat) &&& 3 =
      value &&& 3 := by
  have shift : (pin.number * 2).toNat = 2 * pin.number.toNat := by bv_omega
  have width : (2 : Byte).toNat = 2 := rfl
  have place : (pin.pair offset value).address = pin.port.base + offset := rfl
  apply BitVec.eq_of_getLsbD_eq
  intro i _
  rw [Amendment.on, if_pos place, BitVec.getLsbD_and, BitVec.getLsbD_and,
    BitVec.getLsbD_ushiftRight]
  by_cases low : i < 2
  · have inside : 2 * pin.number.toNat ≤ 2 * pin.number.toNat + i ∧
        2 * pin.number.toNat + i < 2 * pin.number.toNat + 2 := by omega
    rw [pair, Amendment.getLsbD_field _ _ _ _ _ (by omega), shift, width, if_pos inside,
      Nat.add_sub_cancel_left]
  · rw [getLsbD_three low, Bool.and_false, Bool.and_false]

theorem configures_alternate (function : Fin 16) : pin.Configures (pin.alternate function) := by
  have width : (4 : Byte).toNat = 4 := rfl
  rw [alternate]
  split
  · next low =>
    have shift : (pin.number * 4).toNat = 4 * pin.number.toNat := by bv_omega
    apply configures_field (by decide) rfl
    intro bit small
    have owner : Gpio.owner? Gpio.afrl bit = some (bit / 4) := rfl
    rw [owner, Option.some.injEq, shift, width]
    omega
  · next high =>
    have shift : ((pin.number - 8) * 4).toNat = 4 * (pin.number.toNat - 8) := by bv_omega
    have above : 8 ≤ pin.number.toNat := by bv_omega
    apply configures_field (by decide) rfl
    intro bit small
    have owner : Gpio.owner? Gpio.afrh bit = some (8 + bit / 4) := rfl
    rw [owner, Option.some.injEq, shift, width]
    omega

theorem configures_mode (mode : PinMode) :
    ∀ amendment ∈ pin.mode mode, pin.Configures amendment := by
  have moded (value : Word) := configures_pair valid (.inl rfl : Gpio.moder = Gpio.moder ∨ _) value
  cases mode with
  | alternate function =>
    exact List.forall_mem_cons.mpr
      ⟨configures_alternate valid function, List.forall_mem_singleton.mpr (moded _)⟩
  | input | output | analog => exact List.forall_mem_singleton.mpr (moded _)

theorem configures_output : ∀ amendment ∈ pin.output, pin.Configures amendment := by
  simp only [output, List.forall_mem_append, List.forall_mem_singleton]
  exact ⟨configures_mode valid _, configures_outputType _,
    configures_pair valid (.inr (.inl rfl)) _, configures_pair valid (.inr (.inr rfl)) _⟩

theorem configures_inputPullUp : ∀ amendment ∈ pin.inputPullUp, pin.Configures amendment := by
  simp only [inputPullUp, List.forall_mem_append, List.forall_mem_singleton]
  exact ⟨configures_mode valid _, configures_pair valid (.inr (.inr rfl)) _⟩

end PinId

/-! ## Uses of a pin -/

/-- A use of a pin whose answer is kept: a call, or a question whether the pin is at a level. -/
inductive PinUse
  | operate (call : PinCall)
  | inputIs (expected : Level)

/-- What a use of a pin answers. -/
inductive PinAnswer
  | done
  | level (level : Level)
  | flag (holds : Bool)

/-- Whether a pin is found at the high level. -/
def Chip.seesHigh (chip : Chip) (pin : PinId) : Bool :=
  match chip.pinLevel pin.port pin.number.toNat with
  | .ok high => high
  | .error _ => false

/-- What a call amends. -/
def PinCall.amendments (pin : PinId) : PinCall → List Amendment
  | .setMode mode => pin.mode mode
  | .setAlternate function => [pin.alternate function]
  | .setOutputType type => [pin.outputType type]
  | .setOutputSpeed speed => [pin.pair Gpio.ospeedr speed.code]
  | .setPull pull => [pin.pair Gpio.pupdr pull.code]
  | .configureOutput => pin.output
  | .configureInputPullUp => pin.inputPullUp
  | .setLevel level => [pin.drives fun _ => level]
  | .toggle => [pin.drives fun high => .ofBool !high]
  | .inputLevel | .outputLevel => []

/-- The chip after a call. -/
def PinCall.after (pin : PinId) (chip : Chip) : PinCall → Chip
  | .setLevel level => chip.withLevel pin level
  | .toggle => chip.withLevel pin (.ofBool !chip.outputBit pin)
  | call => chip.amended (call.amendments pin)

namespace PinUse

/-- What a use does, and its answer. -/
def perform (pin : PinId) : PinUse → BusM Chip PinAnswer
  | .operate .inputLevel => do
    let level ← pin.inputLevel
    pure (.level level)
  | .operate .outputLevel => do
    let level ← pin.outputLevel
    pure (.level level)
  | .operate call => do
    call.perform pin
    pure .done
  | .inputIs expected => do
    let level ← pin.inputLevel
    pure (.flag (level = expected))

/-- What a use amends. -/
def amendments (pin : PinId) : PinUse → List Amendment
  | .operate call => call.amendments pin
  | .inputIs _ => []

/-- The chip after a use. -/
def after (pin : PinId) (chip : Chip) : PinUse → Chip
  | .operate call => call.after pin chip
  | .inputIs _ => chip

/-- The answer of a use. -/
def answer (pin : PinId) (chip : Chip) : PinUse → PinAnswer
  | .operate .inputLevel => .level (.ofBool (chip.seesHigh pin))
  | .operate .outputLevel => .level (.ofBool (chip.outputBit pin))
  | .operate _ => .done
  | .inputIs expected => .flag (Level.ofBool (chip.seesHigh pin) = expected)

end PinUse

namespace PinCall

variable {pin : PinId} {chip : Chip}

theorem peek_withLevel_eq (chip : Chip) (pin : PinId) (choose : Bool → Level) :
    (chip.withLevel pin (choose (chip.outputBit pin))).peek = (pin.drives choose).on chip.peek := by
  funext address
  rw [withLevel, peek_setOutput]
  rfl

theorem peek_after (pin : PinId) (chip : Chip) (call : PinCall) :
    (call.after pin chip).peek = (call.amendments pin).foldl Amendment.on chip.peek := by
  cases call with
  | setLevel level => exact peek_withLevel_eq chip pin fun _ => level
  | toggle => exact peek_withLevel_eq chip pin fun high => .ofBool !high
  | setMode | setAlternate | setOutputType | setOutputSpeed | setPull | configureOutput
  | configureInputPullUp | inputLevel | outputLevel => exact peek_amended chip _

/-- A call changes registers, and what is observed of pins. -/
theorem after_eq (pin : PinId) (chip : Chip) (call : PinCall) :
    ∃ registers events,
      call.after pin chip = { chip with registers := registers, events := events } := by
  cases call with
  | setLevel | toggle => exact ⟨_, _, rfl⟩
  | setMode | setAlternate | setOutputType | setOutputSpeed | setPull | configureOutput
  | configureInputPullUp | inputLevel | outputLevel => exact ⟨_, _, amended_eq chip _⟩

/-- Whether a call configures its pin. -/
def configuring : PinCall → Bool
  | .setMode _ | .setAlternate _ | .setOutputType _ | .setOutputSpeed _ | .setPull _
  | .configureOutput | .configureInputPullUp => true
  | .setLevel _ | .inputLevel | .outputLevel | .toggle => false

/-- A call that configures its pin amends plain storage of this pin. -/
theorem configures (valid : pin.number.toNat < 16) {call : PinCall}
    (configuring : call.configuring = true) :
    ∀ amendment ∈ call.amendments pin, pin.Configures amendment := by
  cases call with
  | setMode mode => exact PinId.configures_mode valid mode
  | setAlternate function =>
    exact List.forall_mem_singleton.mpr (PinId.configures_alternate valid function)
  | setOutputType type => exact List.forall_mem_singleton.mpr (PinId.configures_outputType type)
  | setOutputSpeed =>
    exact List.forall_mem_singleton.mpr (PinId.configures_pair valid (.inr (.inl rfl)) _)
  | setPull =>
    exact List.forall_mem_singleton.mpr (PinId.configures_pair valid (.inr (.inr rfl)) _)
  | configureOutput => exact PinId.configures_output valid
  | configureInputPullUp => exact PinId.configures_inputPullUp valid
  | setLevel | inputLevel | outputLevel | toggle => cases configuring

/-- Whatever a call amends belongs to its pin. -/
theorem amendments_local (valid : pin.number.toNat < 16) (call : PinCall) :
    ∀ amendment ∈ call.amendments pin, amendment.Local pin := by
  cases call with
  | setLevel | toggle => exact List.forall_mem_singleton.mpr (PinId.drives_local valid _)
  | inputLevel | outputLevel => exact List.forall_mem_nil _
  | setMode | setAlternate | setOutputType | setOutputSpeed | setPull | configureOutput
  | configureInputPullUp => exact fun _ member => (configures valid rfl _ member).here

end PinCall

/-! ## What a use does to the chip -/

/-- A pin can be used: its number is one of its port's, its port is clocked, no channel is active
and no pin is wired to another. -/
structure Chip.Usable (chip : Chip) (pin : PinId) : Prop where
  valid : pin.number.toNat < 16
  clocked : chip.clocked (.gpio pin.port 0) = true
  inactive : ∀ c, (chip.latch c).active = false
  unwired : chip.wiring.wires = []

/-- The bits of a pin and the wiring are the same in two chips. -/
structure PinId.Same (pin : PinId) (chip other : Chip) : Prop where
  bits : pin.Agree chip.peek other.peek
  wiring : chip.wiring = other.wiring

theorem PinId.Same.refl (pin : PinId) (chip : Chip) : pin.Same chip chip :=
  ⟨fun _ _ _ => rfl, rfl⟩

namespace PinUse

variable {pin : PinId} {chip other : Chip} {limit : Nat}

theorem peek_after (pin : PinId) (chip : Chip) (use : PinUse) :
    (use.after pin chip).peek = (use.amendments pin).foldl Amendment.on chip.peek := by
  cases use with
  | operate call => exact call.peek_after pin chip
  | inputIs => rfl

theorem after_eq (pin : PinId) (chip : Chip) (use : PinUse) :
    ∃ registers events,
      use.after pin chip = { chip with registers := registers, events := events } := by
  cases use with
  | operate call => exact call.after_eq pin chip
  | inputIs => exact ⟨_, _, rfl⟩

theorem amendments_local (valid : pin.number.toNat < 16) (use : PinUse) :
    ∀ amendment ∈ use.amendments pin, amendment.Local pin := by
  cases use with
  | operate call => exact call.amendments_local valid
  | inputIs => exact List.forall_mem_nil _

/-- A use changes no bit that does not belong to its pin. -/
theorem after_spares (valid : pin.number.toNat < 16) (chip : Chip) (use : PinUse) :
    pin.Spares (use.after pin chip).peek chip.peek := by
  rw [peek_after]
  exact Amendment.foldl_spares (use.amendments_local valid) chip.peek

/-- A use opens and closes no clock gate of a port. -/
theorem after_clocked (valid : pin.number.toNat < 16) (chip : Chip) (use : PinUse) (port : Port) :
    (use.after pin chip).clocked (.gpio port 0) = chip.clocked (.gpio port 0) := by
  have gate : (use.after pin chip).peek Rcc.ahb2enr = chip.peek Rcc.ahb2enr := by
    apply BitVec.eq_of_getLsbD_eq
    intro bit _
    exact use.after_spares valid chip _ bit (pin.not_owns_gate bit)
  rw [Chip.clocked, gate, Chip.clocked]

theorem after_wiring (pin : PinId) (chip : Chip) (use : PinUse) :
    (use.after pin chip).wiring = chip.wiring := by
  obtain ⟨registers, events, same⟩ := use.after_eq pin chip
  rw [same]

/-- What a use makes of its pin's bits depends on these bits only. -/
theorem after_same (valid : pin.number.toNat < 16) (same : pin.Same chip other) (use : PinUse) :
    pin.Same (use.after pin chip) (use.after pin other) where
  bits := by
    rw [peek_after, peek_after]
    exact Amendment.foldl_agree (use.amendments_local valid) same.bits
  wiring := by rw [after_wiring, after_wiring, same.wiring]

/-- The use of a pin leaves every other pin as it is. -/
theorem after_same_of_ne {q : PinId} (valid : q.number.toNat < 16) (ne : q ≠ pin)
    (same : pin.Same chip other) (use : PinUse) : pin.Same (use.after q chip) other where
  bits address bit owns := by
    rw [use.after_spares valid chip address bit fun others => ne (others.unique owns)]
    exact same.bits address bit owns
  wiring := by rw [after_wiring, same.wiring]

end PinUse

/-! ## What a use answers -/

namespace Chip

variable {chip other : Chip} {pin : PinId}

theorem outputBit_same (same : pin.Same chip other) :
    chip.outputBit pin = other.outputBit pin :=
  same.bits _ _ ⟨Gpio.odr, rfl, by decide, rfl⟩

theorem pinField_same (same : pin.Same chip other) {offset : Word}
    (paired : offset = Gpio.moder ∨ offset = Gpio.ospeedr ∨ offset = Gpio.pupdr) :
    chip.pinField pin.port offset pin.number.toNat =
      other.pinField pin.port offset pin.number.toNat := by
  have inside : offset.toNat < 0x400 := by
    rcases paired with rfl | rfl | rfl <;> decide
  apply BitVec.eq_of_getLsbD_eq
  intro i _
  simp only [pinField, BitVec.getLsbD_and, BitVec.getLsbD_ushiftRight]
  by_cases low : i < 2
  · have half : (2 * pin.number.toNat + i) / 2 = pin.number.toNat := by omega
    rw [same.bits _ _ ⟨offset, rfl, inside, (if_pos paired).trans (congrArg some half)⟩]
  · rw [getLsbD_three low, Bool.and_false, Bool.and_false]

/-- Without wires, the level found at a pin depends on the pin's bits and what drives it. -/
theorem seesHigh_same (unwired : chip.wiring.wires = []) (same : pin.Same chip other) :
    chip.seesHigh pin = other.seesHigh pin := by
  have mode := pinField_same same (.inl rfl : Gpio.moder = Gpio.moder ∨ _)
  have pull := pinField_same same (.inr (.inr rfl) : Gpio.pupdr = Gpio.moder ∨ _)
  have bit := outputBit_same same
  have source (input : PinId) : chip.wiring.source? input = none := by
    rw [Wiring.source?, unwired]
    rfl
  have level : chip.pinLevel pin.port pin.number.toNat =
      other.pinLevel pin.port pin.number.toNat := by
    simp only [outputBit] at bit
    simp only [pinLevel, Chip.inputLevel, mode, pull, bit, ← same.wiring, source]
  rw [seesHigh, level, seesHigh]

end Chip

theorem PinUse.answer_same {pin : PinId} {chip other : Chip} (unwired : chip.wiring.wires = [])
    (same : pin.Same chip other) (use : PinUse) : use.answer pin chip = use.answer pin other := by
  have sees := seesHigh_same unwired same
  have bit := outputBit_same same
  cases use with
  | operate call => cases call <;> simp only [answer, sees, bit]
  | inputIs => simp only [answer, sees]

end Peripherals
