import Peripherals.Proofs.Recording

/-! # Runs of actions and polled calls

A program is run as a list of moves: single actions, and polled calls that get
some ticks and may stop in the middle. The run of a recorded chip is that of the
chip, and its record has no gaps. What the parts of a run keep holds of the
record at its end. -/

namespace Peripherals

open Bus

/-! ## Polled calls -/

/-- What a polled call does on any target. -/
def PolledCall.transmit {δ : Type} [Target δ] : PolledCall → BusM δ Unit
  | .sendByte byte => Serial.sendByte byte
  | .send bytes => Serial.send bytes
  | .sendText text => Serial.sendText text
  | .sendDecimal n => Serial.sendDecimal n

/-- A polled call keeps what polling one byte keeps. -/
theorem PolledCall.keeps {δ : Type} [Target δ] {P : δ → Prop}
    (each : ∀ byte, Keeps P (Serial.sendByte byte : BusM δ Unit)) (call : PolledCall) :
    Keeps P (call.transmit : BusM δ Unit) := by
  have bytes (bytes : List Byte) : Keeps P (Serial.send bytes : BusM δ Unit) := by
    induction bytes with
    | nil => exact Keeps.pure ()
    | cons byte rest ih => exact Keeps.bind (each byte) fun _ => ih
  cases call with
  | sendByte byte => exact each byte
  | send | sendText => exact bytes _
  | sendDecimal n =>
    rw [transmit, Serial.sendDecimal_eq]
    exact bytes _

/-- Polling a byte keeps what time, loads and writes of the data register keep. -/
theorem Recorded.sendByte_keeps {P : Recorded → Prop} (lasting : Lasting P)
    (own : ∀ value r, P r → P (r.extend (.whole (.write Serial.target value)))) (byte : Byte) :
    Keeps P (Serial.sendByte byte : BusM Recorded Unit) := by
  apply Keeps.bind (Keeps.untilTrue (Keeps.bind (read_keeps lasting _) fun _ => Keeps.pure _))
  intro _ session holds
  change P (session.device.extend (.whole (.write Serial.target (byte.setWidth 32))))
  exact own _ _ holds

/-- Polling a recorded chip does to it what polling does to the chip. -/
theorem PolledCall.transmit_projects (call : PolledCall) :
    Projects Recorded.unrecorded call.transmit call.perform := by
  have each (byte : Byte) : Projects Recorded.unrecorded (Serial.sendByte byte)
      (Serial.sendByte byte) :=
    .bind (Recorded.waitSet_projects _ _) fun _ => Recorded.write_projects _ _
  cases call with
  | sendByte byte => exact each byte
  | send | sendText => exact .forM each _
  | sendDecimal n =>
    rw [transmit, perform, Serial.sendDecimal_eq, Serial.sendDecimal_eq]
    exact .forM each _

/-! ## Runs -/

/-- One step of a run: an action, or a polled call that gets some ticks. -/
inductive Move
  | act (action : Chip.Action)
  | poll (call : PolledCall) (ticks : Nat)

namespace Move

/-- Where a move leaves the chip, whether it returns or stops. -/
def apply (chip : Chip) : Move → Chip
  | .act action => stateAfter action.perform chip
  | .poll call ticks => leaves call.perform ticks chip

/-- Where a move leaves a recorded chip. -/
def note (r : Recorded) : Move → Recorded
  | .act action => stateAfter (Recorded.act action) r
  | .poll call ticks => (stateAfter call.transmit ⟨r, ticks, #[]⟩).device

/-- The record of a run. -/
def record (first : Chip) (moves : List Move) : Recorded :=
  moves.foldl note ⟨first, []⟩

theorem note_chip (r : Recorded) (move : Move) : (move.note r).chip = move.apply r.chip := by
  cases move with
  | act action => exact (Recorded.act_projects action).stateAfter r
  | poll call ticks =>
    have same := call.transmit_projects.stateAfter ⟨r, ticks, #[]⟩
    have left : leaves call.perform ticks r.chip =
        (stateAfter call.perform ⟨r.chip, ticks, #[]⟩).device := by
      rw [leaves, ends, stateAfter]
      split <;> simp_all
    rw [apply, left]
    exact congrArg Session.device same

variable {P : Recorded → Prop}

/-- A move keeps what its action or the polling of a byte keeps. -/
theorem note_keeps {move : Move}
    (act : ∀ action, move = .act action → Upholds P (Recorded.act action))
    (poll : ∀ byte, Keeps P (Serial.sendByte byte : BusM Recorded Unit)) {r : Recorded}
    (holds : P r) : P (move.note r) := by
  cases move with
  | act action => exact act action rfl r holds
  | poll call ticks =>
    have kept := call.keeps poll ⟨r, ticks, #[]⟩ holds
    rw [note, stateAfter]
    split at kept
    · next ended => rwa [ended]
    · next ended => rwa [ended]

/-- A run keeps what its moves keep. -/
theorem record_keeps {first : Chip} {moves : List Move}
    (act : ∀ action, .act action ∈ moves → Upholds P (Recorded.act action))
    (poll : ∀ byte, Keeps P (Serial.sendByte byte : BusM Recorded Unit))
    (start : P ⟨first, []⟩) : P (record first moves) := by
  rw [record]
  generalize (⟨first, []⟩ : Recorded) = r at start ⊢
  induction moves generalizing r with
  | nil => exact start
  | cons move rest ih =>
    refine ih (fun action member => act action (List.mem_cons_of_mem _ member)) (move.note r) ?_
    exact note_keeps (fun action same => act action (same ▸ List.mem_cons_self)) poll start

/-- Recording a run changes nothing of it. -/
theorem record_chip (first : Chip) (moves : List Move) :
    (record first moves).chip = moves.foldl apply first := by
  have folded (r : Recorded) : (moves.foldl note r).chip = moves.foldl apply r.chip := by
    induction moves generalizing r with
    | nil => rfl
    | cons move rest ih =>
      rw [List.foldl_cons, List.foldl_cons, ih, note_chip]
  exact folded ⟨first, []⟩

/-- The record of a run has no gaps. -/
theorem record_linked (first : Chip) (moves : List Move) :
    Chip.Linked first (record first moves).moments (record first moves).chip := by
  have lasting := Recorded.linked_lasting first
  apply record_keeps (P := fun r => Chip.Linked first r.moments r.chip)
  · intro action _
    exact Recorded.act_upholds lasting fun _ _ linked => linked.concat _
  · exact Recorded.sendByte_keeps lasting fun _ _ linked => linked.concat _
  · exact rfl

end Move

/-! ## Properties of the chip under a condition on the record -/

/-- A part that belongs to a read, a write or a `nop`. -/
def Chip.Part.OnBus : Chip.Part → Prop
  | .countDown | .countNop | .turn _ | .load _ | .whole (.write _ _) => True
  | .whole _ => False

/-- A part that a record can hold: of the actions, those that take no time. -/
def Chip.Part.Indivisible : Chip.Part → Prop
  | .countDown | .countNop | .turn _ | .load _ => True
  | .whole action => action.instant = true

theorem Chip.Part.Indivisible.of_ne {part : Chip.Part}
    (other : ∀ action, part ≠ .whole action) : part.Indivisible := by
  cases part with
  | countDown | countNop | turn | load => trivial
  | whole action => exact absurd rfl (other action)

theorem Chip.Part.OnBus.indivisible {part : Chip.Part} (onBus : part.OnBus) :
    part.Indivisible := by
  cases part with
  | countDown | countNop | turn | load => trivial
  | whole action =>
    cases action with
    | write => rfl
    | read | nop | breakpoint | share | drive | release | connect | pushReceived | setLatency
    | clearEvents => exact onBus.elim

/-- A move that is made of reads, writes and `nop`s. -/
def Move.OnBus : Move → Prop
  | .act (.read _) | .act (.write _ _) | .act .nop | .poll _ _ => True
  | .act _ => False

/-- A property holds of the chip, as it did whenever a part began and wherever a tick began that
took turns. -/
structure Recorded.Guards (I : Chip → Prop) (r : Recorded) : Prop where
  now : I r.chip
  began : ∀ moment ∈ r.moments, I moment.chip
  turned : ∀ moment ∈ r.moments, ∀ c, moment.part = .turn c →
    ∃ begun, I begun ∧ begun.clocked (.dma1 0) = true

/-- Every part of a tick, a load or a write keeps a property, if what it finds is permitted. -/
def Chip.Guarded (permitted : Chip.Moment → Prop) (I : Chip → Prop) : Prop :=
  ∀ (chip : Chip) (part : Chip.Part), part.OnBus → permitted ⟨part, chip⟩ →
    (∀ c, part = .turn c → ∃ begun, I begun ∧ begun.clocked (.dma1 0) = true) →
      I chip → I (part.after chip)

namespace Recorded

open Chip

variable {permitted : Moment → Prop} {I : Chip → Prop}

theorem Guards.concat {r : Recorded} {part : Part} (held : r.Guards I)
    (turned : ∀ c, part = .turn c → ∃ begun, I begun ∧ begun.clocked (.dma1 0) = true)
    (next : I (part.after r.chip)) : (r.extend part).Guards I := by
  refine ⟨next, ?_, ?_⟩
  · exact List.forall_mem_append.mpr ⟨held.began, List.forall_mem_singleton.mpr held.now⟩
  · exact List.forall_mem_append.mpr ⟨held.turned, List.forall_mem_singleton.mpr turned⟩

theorem Guards.extend {r : Recorded} {part : Part} (guarded : Guarded permitted I)
    (onBus : part.OnBus)
    (turned : ∀ c, part = .turn c → ∃ begun, I begun ∧ begun.clocked (.dma1 0) = true)
    (guards : (∀ moment ∈ r.moments, permitted moment) → r.Guards I)
    (allowed : ∀ moment ∈ (r.extend part).moments, permitted moment) :
    (r.extend part).Guards I := by
  obtain ⟨before, new⟩ := List.forall_mem_append.mp allowed
  have held := guards before
  exact held.concat turned (guarded r.chip part onBus (new _ List.mem_cons_self) turned held.now)

theorem guarded_lasting (guarded : Guarded permitted I) :
    Lasting fun r => (∀ moment ∈ r.moments, permitted moment) → r.Guards I where
  countDown _ := .extend guarded trivial nofun
  countNop _ := .extend guarded trivial nofun
  load _ _ := .extend guarded trivial nofun
  turn start r c started clocked grown guards allowed := by
    have earlier : ∀ moment ∈ start.moments, permitted moment := fun moment member =>
      allowed moment (List.mem_append_left _ (grown.subset member))
    exact .extend guarded trivial (fun _ _ => ⟨start.chip, (started earlier).now, clocked⟩) guards
      allowed

end Recorded

/-- What every permitted part keeps, and every permitted action of the run that takes no time,
holds throughout a run whose parts are all permitted. -/
theorem Move.record_guards_each {permitted : Chip.Moment → Prop} {I : Chip → Prop}
    (guarded : Chip.Guarded permitted I) {first : Chip} (start : I first) {moves : List Move}
    (single : ∀ action, .act action ∈ moves → action.instant = true → ∀ chip,
      permitted ⟨.whole action, chip⟩ → I chip → I (Chip.Part.after chip (.whole action)))
    (allowed : ∀ moment ∈ (record first moves).moments, permitted moment) :
    (record first moves).Guards I := by
  have lasting := Recorded.guarded_lasting guarded
  revert allowed
  apply record_keeps (P := fun r => (∀ moment ∈ r.moments, permitted moment) → r.Guards I)
  · intro action member
    apply Recorded.act_upholds lasting
    intro instant r guards allowed
    obtain ⟨before, new⟩ := List.forall_mem_append.mp allowed
    have held := guards before
    exact held.concat nofun
      (single action member instant r.chip (new _ List.mem_cons_self) held.now)
  · exact Recorded.sendByte_keeps lasting fun value r guards => .extend guarded trivial nofun guards
  · exact fun _ => ⟨start, List.forall_mem_nil _, List.forall_mem_nil _⟩

/-- A run of reads, writes and `nop`s has no other action that takes no time than a write. -/
theorem Move.record_guards {permitted : Chip.Moment → Prop} {I : Chip → Prop}
    (guarded : Chip.Guarded permitted I) {first : Chip} (start : I first) {moves : List Move}
    (onBus : ∀ move ∈ moves, move.OnBus)
    (allowed : ∀ moment ∈ (record first moves).moments, permitted moment) :
    (record first moves).Guards I := by
  refine record_guards_each guarded start (fun action member instant chip permits holds => ?_)
    allowed
  have bus := onBus _ member
  cases action with
  | write address value => exact guarded chip _ trivial permits nofun holds
  | read | nop => cases instant
  | breakpoint | share | drive | release | connect | pushReceived | setLatency
  | clearEvents => exact bus.elim

end Peripherals
