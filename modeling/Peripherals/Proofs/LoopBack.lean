import Peripherals.Proofs.PinCalls

/-! # Loop-back

An output is found at the level that was last given to it, whatever drives it or
is wired to it, and an input that nothing drives is found at the level of the
output that is wired to it first. This is so after any run of calls on any pins
and of changes of what surrounds the chip: only the last call that set a pin's
mode, the levels given to the output, and the drives and wires count. -/

namespace Peripherals

open Bus Chip

variable {pin out input : PinId} {chip base : Chip} {limit : Nat}

/-! ## The mode of a pin -/

/-- The mode field of a pin. -/
def Chip.modeOf (chip : Chip) (pin : PinId) : Word :=
  chip.pinField pin.port Gpio.moder pin.number.toNat

namespace PinCall

/-- The mode that a call gives to its pin, if it sets the mode. -/
def mode? : PinCall → Option PinMode
  | .setMode mode => some mode
  | .configureOutput => some .output
  | .configureInputPullUp => some .input
  | .setAlternate _ | .setOutputType _ | .setOutputSpeed _ | .setPull _ | .setLevel _
  | .inputLevel | .outputLevel | .toggle => none

/-- After its mode a call amends no mode register. -/
theorem amendments_mode (pin : PinId) (call : PinCall) :
    ∃ rest, call.amendments pin = (call.mode?.map pin.mode).getD [] ++ rest ∧
      ∀ amendment ∈ rest, amendment.address ≠ pin.port.base + Gpio.moder := by
  have apart {offset : Word} (differs : offset ≠ Gpio.moder) := pin.port.register_ne differs
  cases call with
  | setMode mode => exact ⟨[], (List.append_nil _).symm, List.forall_mem_nil _⟩
  | configureOutput =>
    refine ⟨_, rfl, ?_⟩
    simp only [List.forall_mem_append, List.forall_mem_singleton]
    exact ⟨apart (by decide), apart (by decide), apart (by decide)⟩
  | configureInputPullUp =>
    exact ⟨_, rfl, List.forall_mem_singleton.mpr (apart (by decide))⟩
  | setAlternate function =>
    refine ⟨_, rfl, List.forall_mem_singleton.mpr ?_⟩
    rw [PinId.alternate]
    split
    · exact apart (by decide)
    · exact apart (by decide)
  | setOutputType | setOutputSpeed | setPull | setLevel | toggle =>
    exact ⟨_, rfl, List.forall_mem_singleton.mpr (apart (by decide))⟩
  | inputLevel | outputLevel => exact ⟨[], rfl, List.forall_mem_nil _⟩

/-- After a call its pin is in the mode that the call sets, and otherwise in the mode of before. -/
theorem modeOf_after (valid : pin.number.toNat < 16) (chip : Chip) (call : PinCall) :
    (call.after pin chip).modeOf pin = (call.mode?.map PinMode.code).getD (chip.modeOf pin) := by
  obtain ⟨rest, parts, elsewhere⟩ := call.amendments_mode pin
  rw [modeOf, pinField, peek_after, parts, List.foldl_append,
    Amendment.foldl_elsewhere elsewhere]
  cases call.mode? with
  | none => rfl
  | some mode =>
    have code : mode.code &&& 3 = mode.code := by cases mode <;> simp [PinMode.code]
    rw [Option.map_some, Option.getD_some, Option.map_some, Option.getD_some, ← code]
    cases mode with
    | alternate function => exact PinId.pair_on valid _ _ _
    | input | output | analog => exact PinId.pair_on valid _ _ _

/-- The level given to a pin after a call on it, from the level given before. -/
def gives (level : Level) : PinCall → Level
  | .setLevel new => new
  | .toggle => .ofBool !level.isHigh
  | .setMode _ | .setAlternate _ | .setOutputType _ | .setOutputSpeed _ | .setPull _
  | .configureOutput | .configureInputPullUp | .inputLevel | .outputLevel => level

end PinCall

/-! ## Moves -/

/-- A call on a pin, or a change of what surrounds the chip. -/
inductive PinMove
  | usePin (pin : PinId) (call : PinCall)
  | surround (change : Surrounding)

namespace PinMove

/-- Make a move. -/
def perform : PinMove → BusM Chip Unit
  | .usePin pin call => call.perform pin
  | .surround change => Bus.onDevice (modify (Surrounding.apply · change))

/-- Make moves in order. -/
def performAll (moves : List PinMove) : BusM Chip Unit :=
  forM moves perform

/-- Calls are on pins of their ports, and so are the outputs of wires. -/
def Valid : PinMove → Prop
  | .usePin pin _ => pin.number.toNat < 16
  | .surround (.connect output _) => output.number.toNat < 16
  | .surround _ => True

/-- The chip after a move. A call on a pin of a port without clock is lost. -/
def after (chip : Chip) : PinMove → Chip
  | .usePin pin call => if chip.clocked (.gpio pin.port 0) then call.after pin chip else chip
  | .surround change => change.apply chip

/-- The chip after some moves. -/
def afterAll (chip : Chip) (moves : List PinMove) : Chip :=
  moves.foldl after chip

/-- The wiring after a move. -/
def rewire (wiring : Wiring) : PinMove → Wiring
  | .surround (.drive pin level) => wiring.drive pin level
  | .surround (.release pin) => wiring.release pin
  | .surround (.connect output input) => wiring.connect output input
  | .usePin _ _ | .surround (.pushReceived _) | .surround (.setLatency _) => wiring

/-- The level given to a pin after a move, from the level given before. -/
def given (pin : PinId) (level : Level) : PinMove → Level
  | .usePin other call => if other = pin then call.gives level else level
  | .surround _ => level

/-- The mode set for a pin by a move, if it sets one. -/
def modes? (pin : PinId) : PinMove → Option PinMode
  | .usePin other call => if other = pin then call.mode? else none
  | .surround _ => none

/-- One call on a pin was made in a run, and after it no other that sets the mode of the pin. -/
def LastConfigured (pin : PinId) (call : PinCall) (moves : List PinMove) : Prop :=
  ∃ earlier later, moves = earlier ++ .usePin pin call :: later ∧
    ∀ move ∈ later, move.modes? pin = none

/-! ### One move -/

variable {move : PinMove} {moves : List PinMove}

/-- Moves can be made: no channel is active, and every wire comes from a pin of its port. -/
structure Ready (chip : Chip) : Prop where
  inactive : ∀ c, (chip.latch c).active = false
  inRange : chip.wiring.InRange

theorem surround_transforms (base : Chip) (change : Surrounding) :
    Transforms limit base (perform (.surround change)) () (change.apply base) := by
  refine fun wrote => ⟨0, wrote, ?_⟩
  rintro ⟨chip, ticks, log⟩ ⟨⟨busy, written, bound, same⟩, polled⟩
  obtain rfl : chip = base.timed busy written := same
  refine ⟨⟨rfl, ⟨busy, written, bound, ?_⟩, polled⟩, Nat.le_refl _⟩
  cases change <;> rfl

theorem perform_transforms (ready : Ready base) (valid : move.Valid) :
    Transforms limit base move.perform () (move.after base) := by
  cases move with
  | surround change => exact surround_transforms base change
  | usePin pin call =>
    rw [after]
    split
    · next clocked => exact call.transforms clocked ready.inactive valid ready.inRange
    · next unclocked =>
      have off : (Gated.gpio pin.port).Off base := by
        by_contra on
        exact unclocked (bne_iff_ne.mpr on)
      exact call.transforms_off off ready.inactive valid

theorem after_wiring (chip : Chip) (move : PinMove) :
    (move.after chip).wiring = move.rewire chip.wiring := by
  cases move with
  | surround change => cases change <;> rfl
  | usePin pin call =>
    rw [after]
    split
    · exact PinUse.after_wiring pin chip (.operate call)
    · rfl

theorem rewire_inRange {wiring : Wiring} (inRange : wiring.InRange) (valid : move.Valid) :
    (move.rewire wiring).InRange := by
  cases move with
  | usePin => exact inRange
  | surround change =>
    cases change with
    | connect output input =>
      exact List.forall_mem_append.mpr ⟨inRange, List.forall_mem_singleton.mpr valid⟩
    | drive | release | pushReceived | setLatency => exact inRange

theorem Ready.after (ready : Ready chip) (valid : move.Valid) : Ready (move.after chip) where
  inactive c := by
    cases move with
    | surround change => cases change <;> exact ready.inactive c
    | usePin pin call =>
      obtain ⟨registers, events, same⟩ := call.after_eq pin chip
      rw [PinMove.after]
      split
      · rw [same]
        exact ready.inactive c
      · exact ready.inactive c
  inRange := by
    rw [after_wiring]
    exact rewire_inRange ready.inRange valid

/-- Moves open and close no clock gate of a port. -/
theorem after_clocked (chip : Chip) (valid : move.Valid) (port : Port) :
    (move.after chip).clocked (.gpio port 0) = chip.clocked (.gpio port 0) := by
  cases move with
  | surround change => cases change <;> rfl
  | usePin pin call =>
    rw [after]
    split
    · exact PinUse.after_clocked valid chip (.operate call) port
    · rfl

section Clocked

variable (valid : move.Valid) (clocked : chip.clocked (.gpio pin.port 0) = true)

include valid clocked

/-- A move gives a pin a mode, or leaves it in its own. -/
theorem after_modeOf :
    (move.after chip).modeOf pin = ((move.modes? pin).map PinMode.code).getD (chip.modeOf pin) := by
  cases move with
  | surround change => cases change <;> rfl
  | usePin other call =>
    rw [after, modes?]
    by_cases own : other = pin
    · subst own
      rw [if_pos clocked, if_pos rfl]
      exact call.modeOf_after valid chip
    · rw [if_neg own]
      split
      · have same := PinUse.after_same_of_ne valid own (.refl pin chip) (.operate call)
        exact pinField_same same (.inl rfl)
      · rfl

end Clocked

/-! ### Runs of moves -/

section Runs

variable (valid : ∀ move ∈ moves, move.Valid)

include valid

theorem performAll_transforms (ready : Ready base) :
    Transforms limit base (performAll moves) () (afterAll base moves) := by
  induction moves generalizing base with
  | nil => exact .pure ()
  | cons move rest ih =>
    obtain ⟨first, others⟩ := List.forall_mem_cons.mp valid
    rw [performAll, List.forM_cons]
    exact .bind (perform_transforms ready first) (ih others (ready.after first))

theorem afterAll_clocked (chip : Chip) (port : Port) :
    (afterAll chip moves).clocked (.gpio port 0) = chip.clocked (.gpio port 0) := by
  induction moves generalizing chip with
  | nil => rfl
  | cons move rest ih =>
    obtain ⟨first, others⟩ := List.forall_mem_cons.mp valid
    exact (ih others (move.after chip)).trans (after_clocked chip first port)

variable (clocked : chip.clocked (.gpio pin.port 0) = true)

include clocked

/-- While no move sets the mode of a pin, the pin stays in its mode. -/
theorem afterAll_modeOf (unmoded : ∀ move ∈ moves, move.modes? pin = none) :
    (afterAll chip moves).modeOf pin = chip.modeOf pin := by
  induction moves generalizing chip with
  | nil => rfl
  | cons move rest ih =>
    obtain ⟨first, others⟩ := List.forall_mem_cons.mp valid
    obtain ⟨own, later⟩ := List.forall_mem_cons.mp unmoded
    have step := after_modeOf first clocked
    rw [own] at step
    exact (ih others ((after_clocked chip first pin.port).trans clocked) later).trans step

/-- After a run a pin is in the mode that it was last given. -/
theorem LastConfigured.modeOf {call : PinCall} {mode : PinMode}
    (configured : LastConfigured pin call moves) (sets : call.mode? = some mode) :
    (afterAll chip moves).modeOf pin = mode.code := by
  obtain ⟨earlier, later, rfl, unmoded⟩ := configured
  obtain ⟨before, rest⟩ := List.forall_mem_append.mp valid
  obtain ⟨here, after⟩ := List.forall_mem_cons.mp rest
  have clocked' : (afterAll chip earlier).clocked (.gpio pin.port 0) = true :=
    (afterAll_clocked before chip pin.port).trans clocked
  have moded := after_modeOf here clocked'
  rw [modes?, if_pos rfl, sets] at moded
  rw [afterAll, List.foldl_append, List.foldl_cons]
  exact (afterAll_modeOf after ((after_clocked _ here pin.port).trans clocked') unmoded).trans moded

end Runs

end PinMove

/-! ## What is found -/

namespace Chip

section Input

variable (isInput : chip.modeOf input = PinMode.input.code)

include isInput

end Input

end Chip

namespace PinMove

variable {moves : List PinMove}

end PinMove

end Peripherals
