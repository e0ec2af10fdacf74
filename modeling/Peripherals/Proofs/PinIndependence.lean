import Peripherals.Proofs.PinCalls

/-! # Pins in use side by side

Handles of different pins do not disturb each other. What a run of uses leaves
of one pin, and what it answers there, is what this pin's own uses leave and
answer when they are made alone. So of two runs that make the same uses of every
pin in the same order, mixed in different ways, both leave the same registers
and give every pin the same answers. -/

namespace Peripherals

open Bus Chip

variable {pin : PinId} {base chip other : Chip} {limit : Nat}

/-! ## Uses on the bus -/

/-- Where its pin can be used, a use returns, with its answer and what it makes of the chip. -/
theorem PinUse.transforms (usable : base.Usable pin) (use : PinUse) :
    Transforms limit base (use.perform pin) (use.answer pin base) (use.after pin base) := by
  obtain ⟨valid, clocked, inactive, unwired⟩ := usable
  have inRange : base.wiring.InRange := .of_unwired unwired
  have sees : Transforms limit base pin.inputLevel (Level.ofBool (base.seesHigh pin)) base :=
    PinId.inputLevel_sees clocked inactive valid inRange
  cases use with
  | inputIs expected => exact .bind sees (.pure _)
  | operate call =>
    have done : Transforms limit base (call.perform pin) () (call.after pin base) :=
      call.transforms clocked inactive valid inRange
    cases call with
    | inputLevel => exact .bind sees (.pure _)
    | outputLevel =>
      exact .bind (PinId.outputLevel_transforms (.of_inactive inactive) clocked (by omega))
        (.pure _)
    | setMode | setAlternate | setOutputType | setOutputSpeed | setPull | configureOutput
    | configureInputPullUp | setLevel | toggle => exact .bind done (.pure _)

/-- A use of one pin leaves every pin usable. -/
theorem Chip.Usable.after {q : PinId} (usable : chip.Usable pin) (valid : q.number.toNat < 16)
    (use : PinUse) : (use.after q chip).Usable pin where
  valid := usable.valid
  clocked := (use.after_clocked valid chip pin.port).trans usable.clocked
  inactive c := by
    obtain ⟨registers, events, same⟩ := use.after_eq q chip
    rw [same]
    exact usable.inactive c
  unwired := by
    rw [use.after_wiring]
    exact usable.unwired

/-! ## Runs of uses -/

namespace PinUse

/-- Make uses of pins in order, and keep every answer with its pin. -/
def performAll : List (PinId × PinUse) → BusM Chip (List (PinId × PinAnswer))
  | [] => pure []
  | (pin, use) :: rest => do
    let answer ← use.perform pin
    let answers ← performAll rest
    pure ((pin, answer) :: answers)

/-- The chip after a run of uses. -/
def afterAll (chip : Chip) (uses : List (PinId × PinUse)) : Chip :=
  uses.foldl (fun chip use => use.2.after use.1 chip) chip

/-- The answers of a run of uses. -/
def answers (chip : Chip) : List (PinId × PinUse) → List (PinId × PinAnswer)
  | [] => []
  | (pin, use) :: rest => (pin, use.answer pin chip) :: answers (use.after pin chip) rest

theorem performAll_transforms {uses : List (PinId × PinUse)}
    (usable : ∀ use ∈ uses, base.Usable use.1) :
    Transforms limit base (performAll uses) (answers base uses) (afterAll base uses) := by
  induction uses generalizing base with
  | nil => exact Transforms.pure _
  | cons first rest ih =>
    obtain ⟨pin, use⟩ := first
    obtain ⟨here, others⟩ := List.forall_mem_cons.mp usable
    apply Transforms.bind (use.transforms here)
    apply Transforms.bind (ih fun other member => (others other member).after here.valid use)
    exact Transforms.pure _

/-- A run changes no bit that belongs to none of its pins. -/
theorem afterAll_spares {uses : List (PinId × PinUse)}
    (valid : ∀ use ∈ uses, use.1.number.toNat < 16) (chip : Chip) {address : Word} {bit : Nat}
    (outside : ∀ use ∈ uses, ¬use.1.Owns address bit) :
    ((afterAll chip uses).peek address).getLsbD bit = (chip.peek address).getLsbD bit := by
  induction uses generalizing chip with
  | nil => rfl
  | cons first rest ih =>
    obtain ⟨valid, valids⟩ := List.forall_mem_cons.mp valid
    obtain ⟨notHere, notThere⟩ := List.forall_mem_cons.mp outside
    exact (ih valids _ notThere).trans (first.2.after_spares valid chip address bit notHere)

/-- A run does with a pin, and answers there, what the pin's own uses do and answer alone. -/
theorem run_same {uses : List (PinId × PinUse)}
    (usable : ∀ use ∈ uses, chip.Usable use.1) (unwired : chip.wiring.wires = [])
    (same : pin.Same chip other) :
    pin.Same (afterAll chip uses) (afterAll other (uses.filter (·.1 = pin))) ∧
      (answers chip uses).filter (·.1 = pin) = answers other (uses.filter (·.1 = pin)) := by
  induction uses generalizing chip other with
  | nil => exact ⟨same, rfl⟩
  | cons first rest ih =>
    obtain ⟨q, use⟩ := first
    obtain ⟨here, others⟩ := List.forall_mem_cons.mp usable
    have valid := here.valid
    have later (next : PinId × PinUse) (member : next ∈ rest) :
        (use.after q chip).Usable next.1 := (others next member).after valid use
    have unwired' : (use.after q chip).wiring.wires = [] := by
      rw [use.after_wiring]
      exact unwired
    by_cases own : q = pin
    · subst own
      obtain ⟨left, answered⟩ := ih later unwired' (use.after_same valid same)
      constructor
      · simpa [afterAll] using left
      · simp [answers, answered, use.answer_same unwired same]
    · obtain ⟨left, answered⟩ := ih later unwired' (use.after_same_of_ne valid own same)
      constructor
      · simpa [afterAll, own] using left
      · simpa [answers, own] using answered

variable {uses others : List (PinId × PinUse)}

theorem mem_of_mixed (mixed : ∀ pin, uses.filter (·.1 = pin) = others.filter (·.1 = pin))
    {use : PinId × PinUse} (member : use ∈ others) : use ∈ uses := by
  have own : use ∈ others.filter (·.1 = use.1) := List.mem_filter.mpr ⟨member, by simp⟩
  rw [← mixed] at own
  exact (List.mem_filter.mp own).1

/-- Two runs that mix the same uses of every pin leave the same registers. -/
theorem afterAll_mixed (usable : ∀ use ∈ uses, chip.Usable use.1)
    (unwired : chip.wiring.wires = [])
    (mixed : ∀ pin, uses.filter (·.1 = pin) = others.filter (·.1 = pin)) :
    (afterAll chip uses).registers = (afterAll chip others).registers := by
  have usable' (use : PinId × PinUse) (member : use ∈ others) : chip.Usable use.1 :=
    usable use (mem_of_mixed mixed member)
  ext1 address
  apply BitVec.eq_of_getLsbD_eq
  intro bit _
  by_cases owned : ∃ use ∈ uses, use.1.Owns address bit
  · obtain ⟨⟨pin, use⟩, -, owns⟩ := owned
    have self := PinId.Same.refl pin chip
    have left := (run_same usable unwired self).1.bits address bit owns
    have right := (run_same usable' unwired self).1.bits address bit owns
    rw [mixed] at left
    exact left.trans right.symm
  · have outside : ∀ use ∈ uses, ¬use.1.Owns address bit :=
      fun use member owns => owned ⟨use, member, owns⟩
    have left := afterAll_spares (fun use member => (usable use member).valid) chip outside
    have right := afterAll_spares (fun use member => (usable' use member).valid) chip
      fun use member => outside use (mem_of_mixed mixed member)
    exact left.trans right.symm

/-- They also give every pin the same answers. -/
theorem answers_mixed (usable : ∀ use ∈ uses, chip.Usable use.1)
    (unwired : chip.wiring.wires = [])
    (mixed : ∀ pin, uses.filter (·.1 = pin) = others.filter (·.1 = pin)) (pin : PinId) :
    (answers chip uses).filter (·.1 = pin) = (answers chip others).filter (·.1 = pin) := by
  have self := PinId.Same.refl pin chip
  have left := (run_same usable unwired self).2
  have right := (run_same (fun use member => usable use (mem_of_mixed mixed member)) unwired
    self).2
  rw [left, right, mixed]

/-- Handles of different pins are independent. Where no channel is active, no pin is wired to
another and the ports are clocked, two runs that make the same uses of every pin in the same
order both return, with the same registers and the same answers for every pin, and a single use
changes no bit of a register that does not belong to its pin. -/
theorem interleavings_agree (chip : Chip) (log : Array Access)
    (inactive : ∀ c, (chip.latch c).active = false) (unwired : chip.wiring.wires = [])
    (claimed : ∀ use ∈ uses,
      use.1.number.toNat < 16 ∧ chip.clocked (.gpio use.1.port 0) = true)
    (mixed : ∀ pin, uses.filter (·.1 = pin) = others.filter (·.1 = pin)) :
    (∃ registers given given',
      ReturnsInTime (fun ticks => (performAll uses).run ⟨chip, ticks, log⟩)
        (fun answers session => answers = given ∧ session.device.registers = registers) ∧
      ReturnsInTime (fun ticks => (performAll others).run ⟨chip, ticks, log⟩)
        (fun answers session => answers = given' ∧ session.device.registers = registers) ∧
      ∀ pin, given.filter (·.1 = pin) = given'.filter (·.1 = pin)) ∧
    ∀ pin : PinId, pin.number.toNat < 16 → chip.clocked (.gpio pin.port 0) = true →
      ∀ use : PinUse, ReturnsInTime (fun ticks => (use.perform pin).run ⟨chip, ticks, log⟩)
        fun _ session => pin.Spares session.device.peek chip.peek := by
  have usable (pin : PinId) (valid : pin.number.toNat < 16)
      (clocked : chip.clocked (.gpio pin.port 0) = true) : chip.Usable pin :=
    ⟨valid, clocked, inactive, unwired⟩
  have all (use : PinId × PinUse) (member : use ∈ uses) : chip.Usable use.1 :=
    usable _ (claimed use member).1 (claimed use member).2
  have runs (uses : List (PinId × PinUse)) (all : ∀ use ∈ uses, chip.Usable use.1) :
      ReturnsInTime (fun ticks => (performAll uses).run ⟨chip, ticks, log⟩)
        (fun given session => given = answers chip uses ∧
          session.device.registers = (afterAll chip uses).registers) := by
    apply ((performAll_transforms all).returnsInTime (Nat.le_refl _) log).mono
    rintro given session ⟨rfl, busy, written, -, left⟩
    exact ⟨rfl, by rw [left]; rfl⟩
  constructor
  · refine ⟨(afterAll chip uses).registers, answers chip uses, answers chip others,
      runs uses all, ?_, answers_mixed all unwired mixed⟩
    rw [afterAll_mixed all unwired mixed]
    exact runs others fun use member => all use (mem_of_mixed mixed member)
  · intro pin valid clocked use
    apply ((use.transforms (usable pin valid clocked)).returnsInTime (Nat.le_refl _) log).mono
    rintro answer session ⟨-, busy, written, -, left⟩
    rw [left]
    exact use.after_spares valid chip

/-- The chip with port B clocked, its pins analog and every other output of it high. -/
def striped : Chip :=
  ((reset.write Rcc.ahb2enr (Rcc.portEnable .b)).write (Port.b.base + Gpio.moder)
    0xFFFFFFFF).write (Port.b.base + Gpio.odr) 0xAAAA

/-- The green LED is toggled and looked at, and then another pin gets an alternate function. -/
def lampFirst : List (PinId × PinUse) :=
  [(Board.greenLed, .operate .toggle), (Board.greenLed, .operate .outputLevel),
    (⟨.b, 9⟩, .operate (.setMode (.alternate Board.consoleFunction)))]

/-- The same uses, with the other pin in between. -/
def lampAround : List (PinId × PinUse) :=
  [(Board.greenLed, .operate .toggle),
    (⟨.b, 9⟩, .operate (.setMode (.alternate Board.consoleFunction))),
    (Board.greenLed, .operate .outputLevel)]

theorem interleavings_agree_on_two : ∃ registers given given',
    ReturnsInTime (fun ticks => (performAll lampFirst).run ⟨striped, ticks, #[]⟩)
      (fun answers session => answers = given ∧ session.device.registers = registers) ∧
    ReturnsInTime (fun ticks => (performAll lampAround).run ⟨striped, ticks, #[]⟩)
      (fun answers session => answers = given' ∧ session.device.registers = registers) ∧
    ∀ pin, given.filter (·.1 = pin) = given'.filter (·.1 = pin) := by
  have mixed (pin : PinId) :
      lampFirst.filter (·.1 = pin) = lampAround.filter (·.1 = pin) := by
    by_cases lamp : Board.greenLed = pin
    · subst lamp
      rfl
    · simp only [lampFirst, lampAround, List.filter_cons, lamp, decide_false, Bool.false_eq_true,
        if_false]
  exact (interleavings_agree striped #[] (by decide +kernel) rfl (by decide +kernel) mixed).1

end PinUse

end Peripherals
