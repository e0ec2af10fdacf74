import Peripherals.Proofs.FlagHistory
import Peripherals.Proofs.MemoryLayout

/-! # Where a channel stores from here on

The addresses that a channel can come to store at are those of the items left in
its pass and, if it starts over then, those of a whole pass. A turn only takes
addresses away. So channels that aim at no register of DMA1 leave each other
alone for good, and if none of them aims at the last address either, no tick
faults. -/

namespace Peripherals

namespace Chip

variable {chip after : Chip} {c d : Channel} {address first left control : Word}

/-- An address belongs to a pass with some items left, the next of them for the address `first`. -/
def InPass (control first left address : Word) : Prop :=
  if control &&& Dma1.peripheralIncrement = 0 then address = first
  else first.toNat ≤ address.toNat ∧ address.toNat < first.toNat + left.toNat

/-- A channel comes to store at an address, if nothing stops it before. -/
structure Aims (chip : Chip) (c : Channel) (address : Word) : Prop where
  active : (chip.latch c).active = true
  reads : chip.controlOf c &&& Dma1.fromMemory ≠ 0
  some_left : chip.itemsLeft c ≠ 0
  ahead : InPass (chip.controlOf c) (chip.latch c).target (chip.itemsLeft c) address ∨
    chip.controlOf c &&& Dma1.circular ≠ 0 ∧
      InPass (chip.controlOf c) (chip.peek (Dma1.register c Dma1.cpar)) (chip.latch c).reload
        address

/-! ## One turn -/

theorem InPass.next (some_left : left ≠ 0) : InPass control first left first := by
  rw [InPass]
  split
  · rfl
  · refine ⟨Nat.le_refl _, ?_⟩
    bv_omega

/-- What is left after an item was left before it. -/
theorem InPass.of_step (some_left : left ≠ 0)
    (steps : control &&& Dma1.peripheralIncrement ≠ 0 → first.toNat + 1 < 0x100000000)
    (inPass : InPass control
      (if control &&& Dma1.peripheralIncrement = 0 then first else first + 1) (left - 1) address) :
    InPass control first left address := by
  rw [InPass] at inPass ⊢
  by_cases fixed : control &&& Dma1.peripheralIncrement = 0
  · rw [if_pos fixed, if_pos fixed] at inPass
    rw [if_pos fixed]
    exact inPass
  · rw [if_neg fixed, if_neg fixed] at inPass
    rw [if_neg fixed]
    have room := steps fixed
    bv_omega

theorem canMove_reads (able : chip.canMove c = true) :
    chip.controlOf c &&& Dma1.fromMemory ≠ 0 ∧ chip.itemsLeft c ≠ 0 := by
  simp only [canMove, Bool.and_eq_true, bne_iff_ne] at able
  exact ⟨able.1.2, able.1.1⟩

/-- A channel that is about to move an item aims at its target. -/
theorem Aims.target (active : (chip.latch c).active = true) (able : chip.canMove c = true) :
    chip.Aims c (chip.latch c).target where
  active := active
  reads := (canMove_reads able).1
  some_left := (canMove_reads able).2
  ahead := .inl (.next (canMove_reads able).2)

theorem Aims.of_same (same : SameChannel c chip after) (aims : after.Aims c address) :
    chip.Aims c address where
  active := same.latch ▸ aims.active
  reads := same.controlOf ▸ aims.reads
  some_left := same.itemsLeft ▸ aims.some_left
  ahead := by
    have ahead := aims.ahead
    rw [same.latch, same.controlOf, same.itemsLeft, same.register _ Dma1.cpar_inside] at ahead
    exact ahead

/-- A channel that aims beyond DMA1 stores beyond it in its turn. -/
theorem spares_of_aims (beyond : ∀ address, chip.Aims c address → beyondDma address = true) :
    Moment.spares ⟨.turn c, chip⟩ = true := by
  rw [Moment.spares_turn, itemTarget?]
  split
  · next moves => exact beyond _ (.target moves.1 moves.2.1)
  · rfl

/-- A turn that spares DMA1 leaves the other channels alone. -/
theorem SameChannel.of_turn (ne : d ≠ c) (spares : Moment.spares ⟨.turn d, chip⟩ = true)
    (turn : Turn chip d after) : SameChannel c chip after := by
  cases turn with
  | rest => exact .refl c chip
  | failed => exact .busError ne _
  | moved byte active able mapped =>
    obtain ⟨outside, -⟩ := target_of_spares spares active able mapped
    exact ((store_outside outside chip _).1 c).trans (.moved ne byte)

/-- A channel that moves an item beyond its own registers changes its count alone of them. -/
theorem peek_moved_own {byte : Byte} (same : SameChannel c chip (chip.stored c byte)) {field : Word}
    (small : field.toNat < 0x14) (notCount : field ≠ Dma1.cndtr) :
    (chip.moved c byte).peek (Dma1.register c field) = chip.peek (Dma1.register c field) := by
  rw [peek_moved _ _ _ (Dma1.register_ne_flags c small)
    (Dma1.register_ne_register small Dma1.cndtr_inside (.inr notCount)), same.register _ small]

/-- A turn takes addresses away from those that a channel aims at. -/
theorem Aims.of_turn (spares : Moment.spares ⟨.turn d, chip⟩ = true) (turn : Turn chip d after)
    (aims : after.Aims c address) : chip.Aims c address := by
  by_cases own : d = c
  · subst own
    cases turn with
    | rest => exact aims
    | failed =>
      have active := aims.active
      rw [latch_busError] at active
      cases active
    | moved byte active able mapped steps =>
      obtain ⟨outside, -⟩ := target_of_spares spares active able mapped
      have same : SameChannel d chip (chip.stored d byte) := (store_outside outside chip _).1 d
      obtain ⟨reads, some_left⟩ := canMove_reads able
      have control : (chip.moved d byte).controlOf d = chip.controlOf d :=
        peek_moved_own same Dma1.ccr_inside (by decide)
      have ahead := aims.ahead
      rw [control, peek_moved_own same Dma1.cpar_inside (by decide), latch_moved, itemsLeft_moved,
        stepped, same.latch, same.register _ Dma1.cpar_inside] at ahead
      rw [same.latch] at steps
      refine ⟨active, reads, some_left, ?_⟩
      by_cases finished : chip.itemsLeft d - 1 = 0 ∧ chip.controlOf d &&& Dma1.circular ≠ 0
      · rw [if_pos finished, if_pos finished] at ahead
        exact .inr ⟨finished.2, ahead.elim id And.right⟩
      · rw [if_neg finished, if_neg finished] at ahead
        exact ahead.imp (.of_step some_left steps.target) id
  · exact aims.of_same (.of_turn own spares turn)

/-- A turn takes nothing from a control value but the enable bit. -/
theorem control_turn (spares : Moment.spares ⟨.turn d, chip⟩ = true) (turn : Turn chip d after) :
    after.controlOf c &&& ~~~Dma1.enable = chip.controlOf c &&& ~~~Dma1.enable := by
  by_cases own : d = c
  · subst own
    cases turn with
    | rest => rfl
    | failed => rw [controlOf_busError, BitVec.and_assoc, BitVec.and_self]
    | moved byte active able mapped =>
      obtain ⟨outside, -⟩ := target_of_spares spares active able mapped
      have same : SameChannel d chip (chip.stored d byte) := (store_outside outside chip _).1 d
      rw [controlOf, peek_moved_own same Dma1.ccr_inside (by decide), controlOf]
  · rw [(SameChannel.of_turn own spares turn).controlOf]

/-! ## What belongs to a channel -/

/-- Everything that belongs to a channel is the same in both chips: its registers, its latch and its
flags. -/
structure SameState (c : Channel) (chip after : Chip) : Prop extends SameChannel c chip after where
  flags : after.flagGroup c = chip.flagGroup c

namespace SameState

theorem refl (c : Channel) (chip : Chip) : SameState c chip chip :=
  ⟨.refl c chip, rfl⟩

theorem trans {middle : Chip} (first : SameState c chip middle)
    (second : SameState c middle after) : SameState c chip after :=
  ⟨first.toSameChannel.trans second.toSameChannel, second.flags.trans first.flags⟩

theorem of_engine (same : SameEngine chip after) : SameState c chip after where
  latch := same.latch c
  register _ _ := same.peek _
  flags := by rw [flagGroup, same.peek, flagGroup]

/-- A turn changes nothing that belongs to another channel, or to one that is not active. -/
theorem of_turn (still : d = c → (chip.latch c).active = false)
    (spares : Moment.spares ⟨.turn d, chip⟩ = true) (turn : Turn chip d after) :
    SameState c chip after := by
  by_cases own : d = c
  · have inactive := still own
    subst own
    cases turn with
    | rest => exact .refl d chip
    | failed active | moved _ active =>
      rw [inactive] at active
      cases active
  · exact ⟨.of_turn own spares turn, (addsFlags_turn spares turn).others c own⟩

end SameState

/-! ## Ticks -/

/-- The last of all addresses. -/
def lastAddress : Word := 0xFFFFFFFF

/-- A channel that does not aim at the last address has its turn without a fault. -/
theorem turn_returns (layout : chip.Layout) (spares : Moment.spares ⟨.turn c, chip⟩ = true)
    (below : ¬chip.Aims c lastAddress) : ∃ after, Turn chip c after := by
  by_cases moves : (chip.latch c).active = true ∧ chip.canMove c = true
  · obtain ⟨active, able⟩ := moves
    cases mapped : chip.memoryByte? (chip.latch c).memory with
    | none => exact ⟨_, .failed active able mapped⟩
    | some byte =>
      obtain ⟨outside, -⟩ := target_of_spares spares active able mapped
      have same : SameChannel c chip (chip.stored c byte) := (store_outside outside chip _).1 c
      refine ⟨_, .moved byte active able mapped ⟨fun _ => ?_, fun _ => ?_⟩⟩
      · rw [same.latch]
        exact layout.room mapped
      · rw [same.latch]
        have early : (chip.latch c).target ≠ lastAddress := by
          intro last
          exact below (last ▸ .target active able)
        have last : lastAddress.toNat = 0xFFFFFFFF := rfl
        bv_omega
  · refine ⟨chip, .rest fun active => Bool.eq_false_iff.mpr fun able => moves ⟨active, able⟩⟩

/-- What every turn keeps and needs to return, a tick keeps and returns. -/
theorem serve_returns {P : Chip → Prop}
    (each : ∀ chip c, P chip → ∃ after, Turn chip c after ∧ P after) (cs : List Channel)
    (holds : P chip) : ∃ after, (forM cs serveChannel).run chip = .ok () after ∧ P after := by
  induction cs generalizing chip with
  | nil => exact ⟨chip, rfl, holds⟩
  | cons c rest ih =>
    obtain ⟨served, turn, holds⟩ := each chip c holds
    obtain ⟨after, others, holds⟩ := ih holds
    refine ⟨after, ?_, holds⟩
    rw [List.forM_cons, run_seq_eq_ok_iff]
    exact ⟨served, serveChannel_eq_ok_iff.mpr turn, others⟩

/-- No channel aims at a register of DMA1, at DMA1's clock or at the last address. -/
def AimsClear (chip : Chip) : Prop :=
  ∀ c address, chip.Aims c address → beyondDma address = true ∧ address ≠ lastAddress

/-- All that a tick needs in order to return. -/
structure Unhindered (chip : Chip) : Prop where
  layout : chip.Layout
  clear : chip.AimsClear

namespace Unhindered

variable (unhindered : chip.Unhindered)

include unhindered

theorem spares (c : Channel) : Moment.spares ⟨.turn c, chip⟩ = true :=
  spares_of_aims fun address aims => (unhindered.clear c address aims).1

theorem turn (turn : Turn chip c after) : after.Unhindered where
  layout := unhindered.layout.of_same turn.regions_eq
  clear d address aims := unhindered.clear d address (aims.of_turn (unhindered.spares c) turn)

theorem of_engine (same : SameEngine chip after) : after.Unhindered where
  layout := unhindered.layout.of_same ⟨same.regions, same.nextRegion⟩
  clear c address aims :=
    unhindered.clear c address (aims.of_same (SameState.of_engine same).toSameChannel)

/-- A tick returns, and keeps what every turn keeps. -/
theorem tick {P : Chip → Prop}
    (each : ∀ {chip c after}, chip.Unhindered → P chip → Turn chip c after → P after)
    (begun : P chip.countedDown) :
    ∃ after, Chip.tick.run chip = .ok () after ∧ after.Unhindered ∧ P after := by
  have counted : chip.countedDown.Unhindered := unhindered.of_engine ⟨rfl, rfl, rfl, rfl⟩
  rw [tick_eq]
  split
  · refine serve_returns (P := fun chip => chip.Unhindered ∧ P chip) ?_ _ ⟨counted, begun⟩
    rintro chip c ⟨unhindered, holds⟩
    obtain ⟨after, turn⟩ := turn_returns unhindered.layout (unhindered.spares c)
      fun last => (unhindered.clear c _ last).2 rfl
    exact ⟨after, turn, unhindered.turn turn, each unhindered holds turn⟩
  · exact ⟨_, rfl, counted, begun⟩

end Unhindered

end Chip

end Peripherals
