import Peripherals.Proofs.GatedBlocks
import Peripherals.Proofs.LineFeed
import Peripherals.Proofs.RecordedMoves

/-! # Clock gating freezes a block

While the clock enable bit of a block is clear and nothing stores into its
enable register, no read, write or `nop` changes the block, and none finds
anything but zero there. A channel that is aimed at the data register of a
USART3 without clock waits with the item it is at. Once the bit is set again the
block shows what it showed before. -/

namespace Peripherals

open Chip

variable {gated : Gated} {first chip : Chip} {c : Channel}

/-- Where a moment stores, if it does: a write at its address, a channel's turn at its target. -/
def Chip.Moment.storesAt? (moment : Chip.Moment) : Option Word :=
  match moment.part with
  | .turn c => moment.chip.itemTarget? c
  | .whole (.write address _) => some address
  | .countDown | .countNop | .load _ | .whole _ => none

namespace Gated

/-! ## The block -/

/-- A part of a run keeps a block without clock, if it spares the block's enable register. -/
theorem guarded_kept (off : gated.Off first) :
    Guarded (fun moment => moment.storesAt? ≠ some gated.register) (gated.Kept first) := by
  intro chip part onBus spares turned kept
  have closed : gated.Off chip := kept.off off
  apply kept.trans
  cases part with
  | countDown | countNop => exact .of_eq rfl rfl rfl rfl
  | load address => exact kept_of_load closed address
  | turn c =>
    apply kept_of_turn closed _ spares
    rintro rfl
    obtain ⟨begun, same, clocked⟩ := turned c rfl
    have still : Gated.dma.Off begun := same.off off
    have flags : Gated.dma.Holds (Dma1.base + Dma1.isr) := trivial
    exact not_clocked still flags clocked
  | whole action =>
    cases action with
    | write address value =>
      apply kept_of_write closed _ value
      rintro rfl
      exact spares rfl
    | read | nop | breakpoint | share | drive | release | connect | pushReceived | setLatency
    | clearEvents => exact onBus.elim

/-! ## A channel that waits for USART3 -/

/-- While USART3 has no clock, the turn of a channel that is aimed at its data register changes
nothing. -/
theorem turn_waits (off : Gated.serial.Off chip)
    (aimed : (chip.latch c).target = Serial.target) :
    stateAfter (serveChannel c) chip = chip := by
  have data : Gated.serial.Holds (Usart3.base + Usart3.tdr) := trivial
  have rests : Turn chip c chip := by
    refine .rest fun _ => ?_
    by_contra able
    have requests := requestsData_of_canMove (by simpa using able) aimed
    simp only [requestsData, Bool.and_eq_true] at requests
    exact not_clocked off data requests.1.1
  exact stateAfter_of_ok (serveChannel_eq_ok_iff.mpr rests)

theorem sameChannel_of_books {d : Channel} {after : Chip} (ne : d ≠ c)
    (books : Booked d chip after) : SameChannel c chip after where
  latch := books.latch c ne.symm
  register offset small := by
    apply books.peek
    · exact Dma1.register_ne_flags c small
    · intro field inside
      exact Dma1.register_ne_register small inside (.inl ne.symm)

/-- A store that spares the control register of an enabled channel leaves the channel alone. -/
theorem sameChannel_of_store {address value : Word} (enabled : chip.channelEnabled c = true)
    (spares : address ≠ Dma1.register c Dma1.ccr) :
    SameChannel c chip (chip.store address value) := by
  cases (store_effect chip address value).channel c with
  | same same => exact same
  | control place => exact (spares place).elim
  | programmed _ _ _ _ disabled => rw [enabled] at disabled; cases disabled

/-- A part that does not store into the control register of an enabled channel leaves the channel
alone, if the channel waits in its own turn. -/
theorem sameChannel_of_part {part : Part} (single : part.Indivisible)
    (enabled : chip.channelEnabled c = true)
    (spares : Moment.storesAt? ⟨part, chip⟩ ≠ some (Dma1.register c Dma1.ccr))
    (waits : part = .turn c → part.after chip = chip) :
    SameChannel c chip (part.after chip) := by
  cases part with
  | countDown | countNop => exact ⟨rfl, fun _ _ => rfl⟩
  | load address =>
    obtain ⟨rest, loaded⟩ := stateAfter_load chip address
    rw [Part.after, loaded]
    exact ⟨rfl, fun _ _ => rfl⟩
  | turn d =>
    by_cases own : d = c
    · rw [waits (congrArg Part.turn own)]
      exact .refl c chip
    rw [Part.after]
    have effect := turn_effect d chip
    generalize stateAfter (serveChannel d) chip = after at effect ⊢
    cases effect with
    | rest => exact .refl c chip
    | failed books => exact sameChannel_of_books own books
    | carried byte active able mapped books =>
      have target : (chip.latch d).target ≠ Dma1.register c Dma1.ccr := by
        intro same
        exact spares ((itemTarget?_eq_some active able mapped).trans (congrArg some same))
      exact (sameChannel_of_store enabled target).trans (sameChannel_of_books own books)
  | whole action =>
    cases action with
    | write address value =>
      have target : address ≠ Dma1.register c Dma1.ccr := by
        rintro rfl
        exact spares rfl
      have noted : SameChannel c chip { chip with written := chip.written.insert address value } :=
        ⟨rfl, fun _ _ => rfl⟩
      exact noted.trans (sameChannel_of_store (noted.enabled.trans enabled) target)
    | share bytes =>
      obtain ⟨regions, next, shared⟩ := stateAfter_share chip bytes
      rw [Part.after, shared]
      exact ⟨rfl, fun _ _ => rfl⟩
    | read | nop => cases single
    | breakpoint | drive | release | connect | pushReceived | setLatency | clearEvents =>
      exact ⟨rfl, fun _ _ => rfl⟩

/-- Neither the clock of USART3 nor the control register of a channel is stored to. -/
def SparesStall (c : Channel) (moment : Moment) : Prop :=
  moment.storesAt? ≠ some Gated.serial.register ∧
    moment.storesAt? ≠ some (Dma1.register c Dma1.ccr)

/-- An enabled channel that is aimed at the data register of a USART3 without clock stays as it is,
unless its control register is stored to. -/
theorem guarded_stall (off : Gated.serial.Off first) (enabled : first.channelEnabled c = true)
    (aimed : (first.latch c).target = Serial.target) :
    Guarded (SparesStall c) fun chip =>
      Gated.serial.Kept first chip ∧ SameChannel c first chip := by
  intro chip part onBus spares turned holds
  have kept := guarded_kept off chip part onBus spares.1
    (fun d turn => (turned d turn).imp fun _ begun => ⟨begun.1.1, begun.2⟩) holds.1
  refine ⟨kept, holds.2.trans ?_⟩
  apply sameChannel_of_part onBus.indivisible (holds.2.enabled.trans enabled) spares.2
  rintro rfl
  exact turn_waits (holds.1.off off) (holds.2.latch ▸ aimed)

/-! ## Whole runs -/

/-- A block stood still throughout a run from a chip: its registers, its events and its engine are
as they were, every load from it gave zero and changed nothing, no channel of a gated DMA1 had a
turn, and the channels that are aimed at the data register of a gated USART3 waited. -/
structure Frozen (gated : Gated) (first : Chip) (r : Recorded) : Prop where
  kept : gated.Kept first r.chip
  reads : ∀ moment ∈ r.moments, ∀ address, moment.part = .load address →
    gated.Holds address → (load address).run moment.chip = .ok 0 moment.chip
  idle : gated = .dma → ∀ moment ∈ r.moments, ∀ c, moment.part ≠ .turn c
  waits : gated = .serial → ∀ moment ∈ r.moments, ∀ c, moment.part = .turn c →
    (moment.chip.latch c).target = Serial.target → moment.after = moment.chip
  stalls : gated = .serial → ∀ c, first.channelEnabled c = true →
    (first.latch c).target = Serial.target →
    (∀ moment ∈ r.moments, moment.storesAt? ≠ some (Dma1.register c Dma1.ccr)) →
      SameChannel c first r.chip

theorem frozen_of_spared (off : gated.Off first) {moves : List Move}
    (onBus : ∀ move ∈ moves, move.OnBus)
    (spares : ∀ moment ∈ (Move.record first moves).moments,
      moment.storesAt? ≠ some gated.register) :
    gated.Frozen first (Move.record first moves) := by
  have guards := Move.record_guards (guarded_kept off) (.refl gated first) onBus spares
  refine ⟨guards.now, ?_, ?_, ?_, ?_⟩
  · intro moment member address _ holds
    exact load_off ((guards.began moment member).off off) holds
  · rintro rfl moment member c turn
    obtain ⟨begun, kept, clocked⟩ := guards.turned moment member c turn
    have flags : Gated.dma.Holds (Dma1.base + Dma1.isr) := trivial
    exact not_clocked (kept.off off) flags clocked
  · rintro rfl moment member c turn aimed
    have waits := turn_waits ((guards.began moment member).off off) aimed
    rw [Moment.after, turn]
    exact waits
  · rintro rfl c enabled aimed control
    have stalls := Move.record_guards (guarded_stall off enabled aimed)
      ⟨.refl .serial first, .refl c first⟩ onBus
      fun moment member => ⟨spares moment member, control moment member⟩
    exact stalls.now.2

/-- Clock gating freezes a block. While its enable bit is clear, and as long as neither the program
nor a channel stores into its enable register, the block stands still in every run of reads,
writes and `nop`s. After a write that sets the bit again, the block shows what it shows at the
start of the run, and what it showed before the write that cleared the bit. -/
theorem freezes (gated : Gated) (first : Chip) (off : gated.Off first) (moves : List Move)
    (onBus : ∀ move ∈ moves, move.OnBus)
    (spares : ∀ moment ∈ (Move.record first moves).moments,
      moment.storesAt? ≠ some gated.register) :
    (Move.record first moves).chip = moves.foldl Move.apply first ∧
      Linked first (Move.record first moves).moments (Move.record first moves).chip ∧
      gated.Frozen first (Move.record first moves) ∧
      ∀ value, value &&& gated.mask ≠ 0 →
        gated.Restored first ((Move.record first moves).chip.write gated.register value) ∧
        ∀ before closing, first = before.write gated.register closing →
          gated.Restored before ((Move.record first moves).chip.write gated.register value) ∧
          (¬gated.Off before → ∀ address, gated.Holds address → Shown address →
            (load address).run before = .ok (before.peek address) before) := by
  have frozen := frozen_of_spared off onBus spares
  refine ⟨Move.record_chip first moves, Move.record_linked first moves, frozen, ?_⟩
  intro value enables
  refine ⟨restored_of_write frozen.kept.registers enables, ?_⟩
  rintro before closing rfl
  refine ⟨restored_of_write (fun address holds => ?_) enables, ?_⟩
  · exact (frozen.kept.registers address holds).trans (peek_write_held holds before closing)
  · exact fun on address holds shown => load_shown on holds shown

/-- A chip with a channel that feeds the line, right after USART3 lost its clock. -/
def unclockedLine (c : Channel) : Chip :=
  ((((broughtUp.write (Dma1.register c Dma1.cpar) Serial.target).write
    (Dma1.register c Dma1.cmar) 0x20000000).write (Dma1.register c Dma1.cndtr) 2).write
    (Dma1.register c Dma1.ccr) 0x91).write Rcc.apb1lenr 0

/-- Accesses to USART3, with time in which the channel could move. -/
def pokes : List Move :=
  [.act .nop, .act (.write (Usart3.base + Usart3.cr1) 0), .act (.write Serial.target 0x41),
    .act (.read (Usart3.base + Usart3.cr1))]

theorem freezes_line :
    Gated.serial.Off (unclockedLine 0) ∧ ((unclockedLine 0).latch 0).active = true ∧
      (Move.record (unclockedLine 0) pokes).chip.transmitted = [] ∧
      SameChannel 0 (unclockedLine 0) (Move.record (unclockedLine 0) pokes).chip ∧
      Gated.serial.Restored (unclockedLine 0)
        ((Move.record (unclockedLine 0) pokes).chip.write Rcc.apb1lenr Rcc.usart3Enable) := by
  have off : Gated.serial.Off (unclockedLine 0) := by
    change (unclockedLine 0).peek Rcc.apb1lenr &&& Rcc.usart3Enable = 0
    decide +kernel
  have onBus : ∀ move ∈ pokes, move.OnBus := by
    simp [pokes, Move.OnBus]
  have spares : ∀ moment ∈ (Move.record (unclockedLine 0) pokes).moments,
      moment.storesAt? ≠ some Rcc.apb1lenr := by
    decide +kernel
  have control : ∀ moment ∈ (Move.record (unclockedLine 0) pokes).moments,
      moment.storesAt? ≠ some (Dma1.register 0 Dma1.ccr) := by
    decide +kernel
  obtain ⟨-, -, frozen, restores⟩ := freezes .serial (unclockedLine 0) off pokes onBus spares
  refine ⟨off, by decide +kernel, frozen.kept.still.1, ?_, (restores _ (by decide)).1⟩
  exact frozen.stalls rfl 0 (by decide +kernel) (by decide +kernel) control

end Gated

end Peripherals
