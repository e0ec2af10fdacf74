import Peripherals.Proofs.PinCalls

/-! # How far a handle reaches

A pin's number is checked when the pin is claimed, and a handle can be given
another number later. A call with a number that names no pin is refused before
any register is accessed, or changes only bits of that number, with one
exception: driving a pin from 16 to 31 high lands in the half of the set and
reset register that resets, and clears the output of the pin sixteen below. -/

namespace Peripherals

open Bus Chip

variable {pin : PinId} {base chip : Chip} {α β : Type}

/-! ## Refused calls -/

/-- A computation faults, before it does anything. -/
def Bus.Refuses {δ : Type} (x : BusM δ α) : Prop :=
  ∀ session, ∃ fault, x.run session = .error fault session

namespace Bus.Refuses

variable {δ : Type}

theorem lift (fault : Fault) : Refuses (liftM (Except.error fault : Except Fault α) : BusM δ α) :=
  fun _ => ⟨fault, rfl⟩

theorem bind {x : BusM δ α} (refuses : Refuses x) (f : α → BusM δ β) : Refuses (x >>= f) := by
  intro session
  obtain ⟨fault, stopped⟩ := refuses session
  exact ⟨fault, by rw [EStateM.run_bind, stopped]⟩

theorem shiftLeft {amount : Byte} (far : 32 ≤ amount.toNat) (mask : Word) (f : Word → BusM δ β) :
    Refuses (liftM (Checked.shiftLeft mask amount) >>= f) := by
  rw [Checked.shiftLeft, if_neg (by omega)]
  exact (lift _).bind f

variable [Target δ]

theorem writeField {shift : Byte} (far : 32 ≤ shift.toNat) (address : Word) (width : Byte)
    (value : Word) : Refuses (Bus.writeField address shift width value : BusM δ Unit) :=
  shiftLeft far _ _

/-- A field whose place is a multiple that does not fit is refused, also where it overflows. -/
theorem slot {number factor : Byte} (far : 32 ≤ number.toNat * factor.toNat) (address : Word)
    (width : Byte) (value : Word) :
    Refuses (do
      let shift ← liftM (Checked.mul number factor)
      Bus.writeField address shift width value : BusM δ Unit) := by
  rw [Checked.mul]
  split
  · exact (lift _).bind _
  · next fits =>
    have small : number.toNat * factor.toNat < 256 := by
      simpa [BitVec.umulOverflow] using fits
    have product : (number * factor).toNat = number.toNat * factor.toNat := by
      rw [BitVec.toNat_mul, Nat.mod_eq_of_lt small]
    exact writeField (by omega) address width value

end Bus.Refuses

namespace PinId

section Beyond

variable {δ : Type} [Target δ]

/-- Driving a pin high writes the bit of its number. -/
theorem setLevel_high (pin : PinId) :
    (pin.setLevel .high : BusM δ Unit) =
      liftM (Checked.shiftLeft (1 : Word) pin.number) >>= fun mask =>
        Bus.write (pin.port.base + Gpio.bsrr) mask := by
  have fits : (0 : Byte).uaddOverflow pin.number = false := by
    simp [BitVec.uaddOverflow]
    omega
  have sum : (0 : Byte) + pin.number = pin.number := BitVec.zero_add _
  rw [setLevel, Checked.add_eq_ok fits, sum]
  rfl

section Sixteen

variable (beyond : 16 ≤ pin.number.toNat)

include beyond

theorem writePair_refuses (offset value : Word) :
    Refuses (pin.writePair offset value : BusM δ Unit) := by
  have far : 32 ≤ pin.number.toNat * (2 : Byte).toNat := Nat.mul_le_mul_right 2 beyond
  exact Refuses.slot far _ _ _

theorem setAlternate_refuses (function : Fin 16) :
    Refuses (pin.setAlternate function : BusM δ Unit) := by
  have high : ¬pin.number < 8 := by bv_omega
  have upper : 8 ≤ (pin.number - 8).toNat := by bv_omega
  have far : 32 ≤ (pin.number - 8).toNat * (4 : Byte).toNat := Nat.mul_le_mul_right 4 upper
  rw [setAlternate, if_neg high]
  exact Refuses.slot far _ _ _

theorem setMode_refuses (mode : PinMode) : Refuses (pin.setMode mode : BusM δ Unit) := by
  cases mode with
  | alternate function => exact (setAlternate_refuses beyond function).bind _
  | input | output | analog => exact writePair_refuses beyond _ _

theorem setLevel_low_refuses : Refuses (pin.setLevel .low : BusM δ Unit) := by
  have sixteen : Gpio.resetShift.toNat = 16 := rfl
  rw [setLevel, Checked.add]
  split
  · exact (Refuses.lift _).bind _
  · next fits =>
    have small : Gpio.resetShift.toNat + pin.number.toNat < 256 := by
      simpa [BitVec.uaddOverflow] using fits
    have sum : (Gpio.resetShift + pin.number).toNat = 16 + pin.number.toNat := by
      rw [BitVec.toNat_add, Nat.mod_eq_of_lt small, sixteen]
    exact Refuses.shiftLeft (by omega) _ _

end Sixteen

section ThirtyTwo

variable (far : 32 ≤ pin.number.toNat)

include far

theorem setOutputType_refuses (type : OutputType) :
    Refuses (pin.setOutputType type : BusM δ Unit) :=
  Refuses.writeField far _ _ _

theorem setLevel_high_refuses : Refuses (pin.setLevel .high : BusM δ Unit) := by
  rw [setLevel_high]
  exact Refuses.shiftLeft far _ _

end ThirtyTwo

/-- The pin whose number is sixteen less. -/
def below (pin : PinId) : PinId :=
  ⟨pin.port, pin.number - 16⟩

/-- Driving a number from 16 to 31 high drives the pin sixteen below low. -/
theorem setLevel_high_eq (beyond : 16 ≤ pin.number.toNat) (inside : pin.number.toNat < 32) :
    (pin.setLevel .high : BusM δ Unit) = pin.below.setLevel .low := by
  have number : pin.below.number.toNat = pin.number.toNat - 16 := by
    simp only [below]
    bv_omega
  have drive : pin.below.drive .low = (1 : Word) <<< pin.number.toNat := by
    rw [PinId.drive, number, Nat.add_sub_cancel' beyond]
  rw [setLevel_eq (by omega : pin.below.number.toNat < 16), drive, setLevel_high,
    Checked.shiftLeft_eq_ok inside]
  rfl

end Beyond

end PinId

/-! ## Outcomes -/

/-- No channel is active, and the registers are those of another chip. -/
structure Chip.Unaltered (base chip : Chip) : Prop where
  inactive : ∀ c, (chip.latch c).active = false
  registers : chip.registers = base.registers

/-- With enough ticks, a computation on a chip returns, with a property of the registers that it
leaves, or it is stopped and leaves every register as it was. -/
def Bus.Commits (base : Chip) (x : BusM Chip α) (Q : Registers → Prop) : Prop :=
  ∀ log, ∃ enough, ∀ ticks, enough ≤ ticks →
    match x.run ⟨base, ticks, log⟩ with
    | .ok _ session => Q session.device.registers
    | .error _ session => session.device.registers = base.registers

namespace Bus

variable {x : BusM Chip α} {Q Q' : Registers → Prop}

theorem Refuses.leads {P E : Chip → Prop} {Q : α → Chip → Prop} (refuses : Refuses x)
    (kept : ∀ chip, P chip → E chip) : Leads P x Q E := by
  intro session holds
  obtain ⟨fault, stopped⟩ := refuses session
  rw [stopped]
  exact kept _ holds

namespace Commits

theorem of_leads (inactive : ∀ c, (base.latch c).active = false)
    (leads : Leads base.Unaltered x (fun _ chip => Q chip.registers)
      base.Unaltered) : Commits base x Q := by
  refine fun log => ⟨0, fun ticks _ => ?_⟩
  have reached := leads ⟨base, ticks, log⟩ ⟨inactive, rfl⟩
  split at reached
  · next ended =>
    rw [ended]
    exact reached
  · next ended =>
    rw [ended]
    exact reached.registers

theorem of_transforms {after : Chip} {a : α} (transforms : Transforms base.busy base x a after)
    (holds : Q after.registers) : Commits base x Q := by
  intro log
  obtain ⟨⟨enough, returns⟩, left⟩ := transforms.returnsInTime (Nat.le_refl _) log
  refine ⟨enough, fun ticks more => ?_⟩
  obtain ⟨b, session, returned⟩ := returns ticks more
  obtain ⟨-, busy, written, -, same⟩ := left ticks b session returned
  rw [returned]
  change Q session.device.registers
  rw [same]
  exact holds

theorem of_refuses (refuses : Refuses x) : Commits base x Q := by
  refine fun log => ⟨0, fun ticks _ => ?_⟩
  obtain ⟨fault, stopped⟩ := refuses ⟨base, ticks, log⟩
  rw [stopped]

/-- What is done with the answer alone changes nothing. -/
theorem answer (commits : Commits base x Q) (f : α → β) (holds : ∀ registers, Q registers →
    Q' registers) : Commits base (x >>= fun a => pure (f a)) Q' := by
  intro log
  obtain ⟨enough, each⟩ := commits log
  refine ⟨enough, fun ticks more => ?_⟩
  have reached := each ticks more
  rw [EStateM.run_bind]
  split at reached
  · next ended =>
    rw [ended]
    exact holds _ reached
  · next ended =>
    rw [ended]
    exact reached

end Commits

/-- A read leaves every register as it is, also where it faults. -/
theorem Keeps.read_unaltered (address : Word) : Keeps base.Unaltered (Bus.read address) := by
  apply Keeps.bind (Keeps.require address)
  intro _
  apply Keeps.bind Keeps.spend
  intro _
  apply Keeps.bind
  · apply Leads.onDevice
    intro chip unaltered
    have passed : Chip.tick.run chip = .ok () (chip.timed (chip.busy - 1) chip.written) :=
      Quiet.tick (.of_inactive unaltered.inactive) chip.busy chip.written
    rw [run_load, passed]
    obtain ⟨value, rest, loaded⟩ | ⟨fault, loaded⟩ :=
      load_effect (chip.timed (chip.busy - 1) chip.written) address
    · simp only [loaded]
      exact ⟨unaltered.inactive, unaltered.registers⟩
    · simp only [loaded]
      exact ⟨unaltered.inactive, unaltered.registers⟩
  · intro value
    exact Keeps.bind (Keeps.record _) fun _ => Keeps.pure value

end Bus

/-! ## Calls that access one register -/

namespace PinId

theorem readLevel_unaltered (pin : PinId) (offset : Word) :
    Keeps base.Unaltered (pin.readLevel offset) := by
  apply Keeps.bind (Keeps.monadLift _)
  intro mask
  apply Keeps.bind
  · exact Keeps.bind (Keeps.read_unaltered _) fun _ => Keeps.pure _
  · exact fun _ => Keeps.pure _

variable (clocked : base.clocked (.gpio pin.port 0) = true)

include clocked

/-- Driving a number that names a pin drives this pin. From there to 31, driving it high drives the
pin sixteen below low, and nothing else returns. -/
theorem setLevel_drives (level : Level) :
    Leads base.Unaltered (pin.setLevel level) (fun _ chip =>
      (pin.number.toNat < 16 ∧ chip.registers = (base.withLevel pin level).registers) ∨
        (level = .high ∧ 16 ≤ pin.number.toNat ∧ pin.number.toNat < 32 ∧
          chip.registers = (base.withLevel pin.below .low).registers)) base.Unaltered := by
  have single (pin : PinId) (clocked : base.clocked (.gpio pin.port 0) = true)
      (valid : pin.number.toNat < 16) (level : Level) :
      Leads base.Unaltered (pin.setLevel level)
        (fun _ chip => chip.registers = (base.withLevel pin level).registers) base.Unaltered := by
    rw [setLevel_eq valid]
    apply Leads.write
    rintro chip ⟨-, registers⟩
    have clocked' (written : WordMap) :
        { chip with written := written }.clocked (.gpio pin.port 0) = true := by
      rwa [Chip.clocked, peek, registers]
    have driven (chip : Chip) : (chip.withLevel pin level).registers =
        chip.registers.set (pin.port.base + Gpio.odr)
          (pin.driven level (chip.registers.get (pin.port.base + Gpio.odr))) := rfl
    rw [Chip.write, store_drive (clocked' _) valid, driven, driven, registers]
  by_cases valid : pin.number.toNat < 16
  · exact (single pin clocked valid level).weaken (fun _ _ reached => .inl ⟨valid, reached⟩)
      fun _ left => left
  have beyond : 16 ≤ pin.number.toNat := by omega
  cases level with
  | low => exact (setLevel_low_refuses beyond).leads fun _ unaltered => unaltered
  | high =>
    by_cases inside : pin.number.toNat < 32
    · have small : pin.below.number.toNat < 16 := by
        simp only [below]
        bv_omega
      rw [setLevel_high_eq beyond inside]
      exact (single pin.below clocked small .low).weaken
        (fun _ _ reached => .inr ⟨rfl, beyond, inside, reached⟩) fun _ left => left
    · exact (setLevel_high_refuses (by omega)).leads fun _ unaltered => unaltered

end PinId

/-! ## Every use -/

/-- A use goes astray: it drives a number from 16 to 31 high, or toggles it. -/
def PinUse.Strays (pin : PinId) : PinUse → Prop
  | .operate (.setLevel .high) | .operate .toggle =>
    16 ≤ pin.number.toNat ∧ pin.number.toNat < 32
  | _ => False

/-- What a use that returns makes of the registers: it changes only bits of its number, or it goes
astray and drives the pin sixteen below low. -/
def PinUse.Reaches (pin : PinId) (use : PinUse) (base : Chip) (registers : Registers) : Prop :=
  (¬use.Strays pin ∧ pin.Spares registers.get base.peek) ∨
    (use.Strays pin ∧ registers = (base.withLevel pin.below .low).registers)

namespace PinUse

variable {use : PinUse} {registers : Registers} {level : Level}

theorem Strays.beyond (strays : use.Strays pin) : 16 ≤ pin.number.toNat := by
  unfold Strays at strays
  split at strays
  · exact strays.1
  · exact strays.1
  · exact strays.elim

/-- A use that drives its pin reaches no further, if it goes astray where driving does. -/
theorem Reaches.of_driven (strays : level = .high → 16 ≤ pin.number.toNat →
      pin.number.toNat < 32 → use.Strays pin)
    (driven : (pin.number.toNat < 16 ∧ registers = (base.withLevel pin level).registers) ∨
      (level = .high ∧ 16 ≤ pin.number.toNat ∧ pin.number.toNat < 32 ∧
        registers = (base.withLevel pin.below .low).registers)) :
    use.Reaches pin base registers := by
  obtain ⟨valid, rfl⟩ | ⟨high, beyond, inside, same⟩ := driven
  · left
    constructor
    · intro strays
      exact absurd strays.beyond (by omega)
    · exact (PinUse.operate (.setLevel level)).after_spares valid base
  · exact .inr ⟨strays high beyond inside, same⟩

end PinUse

section Uses

variable (inactive : ∀ c, (base.latch c).active = false)
  (clocked : base.clocked (.gpio pin.port 0) = true)

include inactive clocked

theorem PinCall.commits_configuring {call : PinCall} (configuring : call.configuring = true) :
    Commits base (call.perform pin) fun registers => pin.Spares registers.get base.peek := by
  have carried {amendments : List Amendment}
      (each : ∀ amendment ∈ amendments, pin.Configures amendment) :
      Commits base (amendAll amendments) fun registers => pin.Spares registers.get base.peek := by
    apply Commits.of_transforms (Transforms.configure clocked inactive each)
    change pin.Spares (base.amended amendments).peek base.peek
    rw [peek_amended]
    exact Amendment.foldl_spares (fun amendment member => (each amendment member).here) base.peek
  by_cases valid : pin.number.toNat < 16
  · rw [perform_eq valid configuring]
    exact carried (configures valid configuring)
  have beyond : 16 ≤ pin.number.toNat := by omega
  cases call with
  | setMode mode => exact .of_refuses (PinId.setMode_refuses beyond mode)
  | setAlternate function => exact .of_refuses (PinId.setAlternate_refuses beyond function)
  | setOutputSpeed | setPull => exact .of_refuses (PinId.writePair_refuses beyond _ _)
  | configureOutput | configureInputPullUp =>
    exact .of_refuses ((PinId.setMode_refuses beyond _).bind _)
  | setOutputType type =>
    -- The output type has one bit for each number, also for those that name no pin.
    by_cases inside : pin.number.toNat < 32
    · have single : (pin.setOutputType type : BusM Chip Unit) =
          amendAll [pin.outputType type] := writeField_eq _ inside 1 _
      rw [perform, single]
      exact carried (List.forall_mem_singleton.mpr (PinId.configures_outputType type))
    · exact .of_refuses (PinId.setOutputType_refuses (by omega) type)
  | setLevel | inputLevel | outputLevel | toggle => cases configuring

/-- A toggle drives to some level, after a look that changes nothing. -/
theorem PinId.toggle_commits :
    Commits base pin.toggle ((PinUse.operate .toggle).Reaches pin base) := by
  apply Commits.of_leads inactive
  apply Leads.bind (PinId.readLevel_unaltered pin Gpio.odr)
  have drives (level : Level) : Leads base.Unaltered (pin.setLevel level)
      (fun _ chip => (PinUse.operate .toggle).Reaches pin base chip.registers)
      base.Unaltered :=
    (PinId.setLevel_drives clocked level).weaken
      (fun _ _ driven => .of_driven (fun _ beyond inside => ⟨beyond, inside⟩) driven)
      fun _ left => left
  intro level
  cases level with
  | high => exact drives .low
  | low => exact drives .high

/-- Every use of a handle reaches as far as its number, whatever the number is. -/
theorem PinUse.commits (use : PinUse) :
    Commits base (use.perform pin) (use.Reaches pin base) := by
  have looks (offset : Word) {β : Type} (f : Level → β) (unstrayed : ¬use.Strays pin) :
      Commits base (pin.readLevel offset >>= fun level => pure (f level))
        (use.Reaches pin base) := by
    have looked : Commits base (pin.readLevel offset) fun registers =>
        registers = base.registers :=
      .of_leads inactive <| (PinId.readLevel_unaltered pin offset).weaken
        (fun _ _ unaltered => unaltered.registers) fun _ left => left
    refine looked.answer f ?_
    rintro registers rfl
    exact .inl ⟨unstrayed, fun _ _ _ => rfl⟩
  have configured {call : PinCall} (configuring : call.configuring = true)
      (unstrayed : ¬use.Strays pin) :
      Commits base (call.perform pin >>= fun _ => pure PinAnswer.done) (use.Reaches pin base) :=
    (call.commits_configuring inactive clocked configuring).answer _
      fun _ spares => .inl ⟨unstrayed, spares⟩
  cases use with
  | inputIs expected => exact looks _ _ id
  | operate call =>
    cases call with
    | inputLevel | outputLevel => exact looks _ _ id
    | setLevel level =>
      refine Commits.answer (Commits.of_leads inactive ?_) _ fun _ reached => reached
      refine (PinId.setLevel_drives clocked level).weaken ?_ fun _ left => left
      refine fun _ _ driven => .of_driven ?_ driven
      rintro rfl beyond inside
      exact ⟨beyond, inside⟩
    | toggle =>
      exact (PinId.toggle_commits inactive clocked).answer _ fun _ reached => reached
    | setMode | setAlternate | setOutputType | setOutputSpeed | setPull | configureOutput
    | configureInputPullUp => exact configured rfl id

end Uses

namespace PinUse

/-- A handle acts on the bits of its number only, with one exception. Where no channel is active
and the port is clocked, every use of a handle with any number either is stopped and leaves every
register as it was, or returns and changes only bits that belong to the number, unless it drives a
number from 16 to 31 high or toggles it: then it drives the pin sixteen below low. -/
theorem reach_of_handles (pin : PinId) (use : PinUse) (chip : Chip) (log : Array Access)
    (inactive : ∀ c, (chip.latch c).active = false)
    (clocked : chip.clocked (.gpio pin.port 0) = true) :
    ∃ enough, ∀ ticks, enough ≤ ticks →
      match (use.perform pin).run ⟨chip, ticks, log⟩ with
      | .ok _ session =>
        (¬use.Strays pin ∧ pin.Spares session.device.peek chip.peek) ∨
          (use.Strays pin ∧
            session.device.registers = (chip.withLevel pin.below .low).registers)
      | .error _ session => session.device.registers = chip.registers := by
  obtain ⟨enough, each⟩ := use.commits inactive clocked log
  refine ⟨enough, fun ticks more => ?_⟩
  have reached := each ticks more
  split at reached
  · next ended =>
    rw [ended]
    exact reached
  · next ended =>
    rw [ended]
    exact reached

/-- The chip with port B clocked and its first output high. -/
def lit : Chip :=
  (reset.write Rcc.ahb2enr (Rcc.portEnable .b)).write (Port.b.base + Gpio.odr) 1

theorem reach_of_handles_beyond_port :
    ∃ enough, ∀ ticks, enough ≤ ticks →
      match (perform ⟨.b, 16⟩ (.operate .toggle)).run ⟨lit, ticks, #[]⟩ with
      | .ok _ session => session.device.registers = (lit.withLevel Board.greenLed .low).registers
      | .error _ session => session.device.registers = lit.registers := by
  obtain ⟨enough, each⟩ := reach_of_handles ⟨.b, 16⟩ (.operate .toggle) lit #[] (by decide +kernel)
    (by decide +kernel)
  have strays : Strays ⟨.b, 16⟩ (.operate .toggle) := ⟨by decide, by decide⟩
  refine ⟨enough, fun ticks more => ?_⟩
  have reached := each ticks more
  split at reached
  · obtain ⟨kept, -⟩ | ⟨-, driven⟩ := reached
    · exact (kept strays).elim
    · exact driven
  · exact reached

/-- Set high, a handle with the number 16 returns and clears the output of the first pin. -/
theorem sixteen_clears_first : ∃ session,
    (perform ⟨.b, 16⟩ (.operate (.setLevel .high))).run ⟨lit, 0, #[]⟩ = .ok .done session ∧
      ¬PinId.Spares ⟨.b, 16⟩ session.device.peek lit.peek := by
  refine ⟨⟨lit.write (Port.b.base + Gpio.bsrr) 0x10000, 0, _⟩, rfl, ?_⟩
  intro spares
  have first : PinId.Owns ⟨.b, 0⟩ (Port.b.base + Gpio.odr) 0 := ⟨Gpio.odr, rfl, by decide, rfl⟩
  have foreign : ¬PinId.Owns ⟨.b, 16⟩ (Port.b.base + Gpio.odr) 0 := fun owns =>
    absurd (owns.unique first) (by decide)
  have bit : ((lit.write (Port.b.base + Gpio.bsrr) 0x10000).peek
      (Port.b.base + Gpio.odr)).getLsbD 0 = (lit.peek (Port.b.base + Gpio.odr)).getLsbD 0 :=
    spares _ 0 foreign
  exact absurd bit (by decide +kernel)

end PinUse

end Peripherals
