import Peripherals.Proofs.ChannelAims
import Peripherals.Proofs.RecordedMoves

/-! # Programming a channel from any state

The address and count registers of an enabled channel ignore what is written to
them, and the channel goes on with each tick in which it is looked at. Still
configuring it always takes effect: it is stopped first if it is enabled, and
since no tick faults while channels aim elsewhere, this takes a known number of
ticks. What was programmed then stays until the channel's registers are written
again. -/

namespace Peripherals

open Bus

namespace Chip

variable {first chip after : Chip} {c d : Channel} {target source length : Word}

/-! ## Up to the writes -/

/-- A channel still has what its control value said beside the enable bit, and ticks return. -/
structure Programmable (first : Chip) (c : Channel) (chip : Chip) : Prop where
  unhindered : chip.Unhindered
  clocked : chip.clocked (.dma1 0) = true
  consistent : chip.Consistent c
  control : chip.controlOf c &&& ~~~Dma1.enable = first.controlOf c &&& ~~~Dma1.enable

/-- The same of a channel that is disabled. -/
structure Vacated (first : Chip) (c : Channel) (chip : Chip) : Prop
    extends Programmable first c chip where
  disabled : chip.channelEnabled c = false

theorem Programmable.turn (programmable : Programmable first c chip) (turn : Turn chip d after) :
    Programmable first c after where
  unhindered := programmable.unhindered.turn turn
  clocked := by
    rw [Chip.clocked, gate_turn (programmable.unhindered.spares d) turn]
    exact programmable.clocked
  consistent := programmable.consistent.turn turn
  control := (control_turn (programmable.unhindered.spares d) turn).trans programmable.control

theorem Programmable.of_engine (programmable : Programmable first c chip)
    (same : SameEngine chip after) : Programmable first c after where
  unhindered := programmable.unhindered.of_engine same
  clocked := by
    rw [Chip.clocked, same.peek]
    exact programmable.clocked
  consistent := programmable.consistent.of_same (SameState.of_engine same).toSameChannel
  control := by
    rw [controlOf, same.peek]
    exact programmable.control

theorem Programmable.tick (programmable : Programmable first c chip) :
    ∃ after, Chip.tick.run chip = .ok () after ∧ Programmable first c after := by
  have counted : Programmable first c chip.countedDown :=
    programmable.of_engine ⟨rfl, rfl, rfl, rfl⟩
  obtain ⟨after, passed, -, holds⟩ := programmable.unhindered.tick
    (fun _ holds turn => Programmable.turn holds turn) counted
  exact ⟨after, passed, holds⟩

theorem Vacated.inactive (vacated : Vacated first c chip) : (chip.latch c).active = false :=
  vacated.consistent.active_eq.trans vacated.disabled

theorem Vacated.turn (vacated : Vacated first c chip) (turn : Turn chip d after) :
    Vacated first c after := by
  have same : SameState c chip after :=
    .of_turn (fun _ => vacated.inactive) (vacated.unhindered.spares d) turn
  exact ⟨vacated.toProgrammable.turn turn, same.toSameChannel.enabled.trans vacated.disabled⟩

theorem Vacated.tick (vacated : Vacated first c chip) :
    ∃ after, Chip.tick.run chip = .ok () after ∧ Vacated first c after := by
  have counted : Vacated first c chip.countedDown :=
    ⟨vacated.toProgrammable.of_engine ⟨rfl, rfl, rfl, rfl⟩, vacated.disabled⟩
  obtain ⟨after, passed, -, holds⟩ := vacated.unhindered.tick
    (fun _ holds turn => Vacated.turn holds turn) counted
  exact ⟨after, passed, holds⟩

/-- What happens to one channel, which then is not active, hinders no tick. -/
theorem Unhindered.confined (unhindered : chip.Unhindered) (confined : Confined c chip after)
    (inactive : (after.latch c).active = false) : after.Unhindered where
  layout := unhindered.layout.of_same confined.memory
  clear d address aims := by
    by_cases own : d = c
    · subst own
      have active := aims.active
      rw [inactive] at active
      cases active
    · exact unhindered.clear d address (aims.of_same (confined.others d own))

/-- Writing the control value without its enable bit disables a channel. -/
theorem Programmable.vacated (programmable : Programmable first c chip) :
    Vacated first c
      (chip.write (Dma1.register c Dma1.ccr) (chip.controlOf c &&& ~~~Dma1.enable)) := by
  have wrote := controlled (c := c) programmable.clocked (chip.controlOf c &&& ~~~Dma1.enable)
  have disabled : (chip.write (Dma1.register c Dma1.ccr)
      (chip.controlOf c &&& ~~~Dma1.enable)).channelEnabled c = false := by
    rw [wrote.enabled, and_not_and_self]
    rfl
  have inactive : ((chip.write (Dma1.register c Dma1.ccr)
      (chip.controlOf c &&& ~~~Dma1.enable)).latch c).active = false := by
    rw [wrote.latch, if_pos (and_not_and_self _)]
  refine ⟨⟨?_, ?_, .of_inactive inactive disabled, ?_⟩, disabled⟩
  · exact programmable.unhindered.confined wrote.confined inactive
  · exact wrote.confined.line.dmaClocked programmable.clocked
  · rw [wrote.control, BitVec.and_assoc, BitVec.and_self]
    exact programmable.control

/-! ## What was programmed -/

/-- A channel holds what it was configured with, is disabled, and has no flag raised. Beside the
enable bit its control value is what it was. -/
structure Reprogrammed (first : Chip) (c : Channel) (target source length : Word) (chip : Chip) :
    Prop where
  target : chip.peek (Dma1.register c Dma1.cpar) = target
  source : chip.peek (Dma1.register c Dma1.cmar) = source
  length : chip.peek (Dma1.register c Dma1.cndtr) = length
  control : chip.peek (Dma1.register c Dma1.ccr) =
    first.peek (Dma1.register c Dma1.ccr) &&& ~~~Dma1.enable
  flags : chip.flagGroup c = 0

theorem Programmed.flagGroup_eq_zero (programmed : Programmed chip c target source length after) :
    after.flagGroup c = 0 := by
  have none_left : ~~~Dma1.flagsOf c (Dma1.channelFlags ||| Dma1.globalFlag) &&&
      Dma1.flagsOf c Dma1.channelFlags = 0 := by
    clear programmed
    revert c
    decide
  rw [flagGroup, programmed.flags, BitVec.and_assoc, none_left]
  exact BitVec.and_zero

/-- A channel holds what it was configured with, and nothing but writes into its registers can
change that. -/
structure Established (first : Chip) (c : Channel) (target source length : Word) (chip : Chip) :
    Prop extends Reprogrammed first c target source length chip where
  layout : chip.Layout
  inactive : (chip.latch c).active = false

theorem Vacated.established (vacated : Vacated first c chip) (target source length : Word) :
    Established first c target source length (chip.programmed c target source length) ∧
      (chip.programmed c target source length).AimsClear := by
  have programmed := programmed_spec vacated.clocked vacated.disabled target source length
  have inactive : ((chip.programmed c target source length).latch c).active = false := by
    rw [programmed.latch]
    exact vacated.inactive
  have unhindered := vacated.unhindered.confined programmed.confined inactive
  have control : chip.controlOf c = first.controlOf c &&& ~~~Dma1.enable := by
    have off : chip.controlOf c &&& Dma1.enable = 0 := by
      have disabled := vacated.disabled
      rw [channelEnabled, bne_eq_false_iff_eq] at disabled
      exact disabled
    exact (and_not_eq_self off).symm.trans vacated.control
  exact ⟨⟨⟨programmed.target, programmed.source, programmed.length,
    programmed.control.trans control, programmed.flagGroup_eq_zero⟩, unhindered.layout, inactive⟩,
    unhindered.clear⟩

/-! ## Afterwards -/

/-- An action writes none of a channel's registers. -/
def Action.LeavesAlone (c : Channel) (action : Action) : Prop :=
  action.Addressable ∧
    ∀ field value, field.toNat < 0x14 → action ≠ .write (Dma1.register c field) value

/-- A state that actions lead to which write none of a channel's registers, while no channel comes
to aim at DMA1, at DMA1's clock or at the last address. -/
inductive Unwritten (c : Channel) (chip : Chip) : Chip → Prop
  | start : Unwritten c chip chip
  | act {now : Chip} (action : Action) (earlier : Unwritten c chip now) (clear : now.AimsClear)
      (leaves : action.LeavesAlone c) : Unwritten c chip (stateAfter action.perform now)

namespace Established

variable (established : Established first c target source length chip)

include established

theorem of_registers (same : SameChannel c chip after) (clear : after.flagGroup c = 0)
    (layout : after.Layout) : Established first c target source length after where
  target := (same.register _ Dma1.cpar_inside).trans established.target
  source := (same.register _ Dma1.cmar_inside).trans established.source
  length := (same.register _ Dma1.cndtr_inside).trans established.length
  control := (same.register _ Dma1.ccr_inside).trans established.control
  flags := clear
  layout := layout
  inactive := by
    rw [same.latch]
    exact established.inactive

theorem of_engine (same : SameEngine chip after) :
    Established first c target source length after := by
  have state : SameState c chip after := .of_engine same
  exact established.of_registers state.toSameChannel (state.flags.trans established.flags)
    (established.layout.of_same ⟨same.regions, same.nextRegion⟩)

theorem turn (spares : Moment.spares ⟨.turn d, chip⟩ = true) (turn : Turn chip d after) :
    Established first c target source length after := by
  have state : SameState c chip after := .of_turn (fun _ => established.inactive) spares turn
  exact established.of_registers state.toSameChannel (state.flags.trans established.flags)
    (established.layout.of_same turn.regions_eq)

theorem tick (clear : chip.AimsClear) :
    ∃ after, Chip.tick.run chip = .ok () after ∧ after.AimsClear ∧
      Established first c target source length after := by
  have unhindered : chip.Unhindered := ⟨established.layout, clear⟩
  have counted : Established first c target source length chip.countedDown :=
    established.of_engine ⟨rfl, rfl, rfl, rfl⟩
  obtain ⟨after, passed, unhindered, established⟩ := unhindered.tick
    (fun {_ d _} unhindered holds turn => Established.turn holds (unhindered.spares d) turn)
    counted
  exact ⟨after, passed, unhindered.clear, established⟩

theorem ticks (clear : chip.AimsClear) (n : Nat) :
    ∃ after, (times n Chip.tick).run chip = .ok () after ∧
      Established first c target source length after := by
  induction n generalizing chip with
  | zero => exact ⟨chip, rfl, established⟩
  | succ n ih =>
    obtain ⟨ticked, passed, clear, established⟩ := established.tick clear
    obtain ⟨after, others, established⟩ := ih established clear
    exact ⟨after, run_seq_eq_ok_iff.mpr ⟨ticked, passed, others⟩, established⟩

theorem write {address value : Word} (leaves : (Action.write address value).LeavesAlone c) :
    Established first c target source length (chip.write address value) := by
  have noted : Established first c target source length (chip.noted address value) :=
    established.of_engine ⟨rfl, rfl, rfl, rfl⟩
  have effect : StoreEffect (chip.noted address value) address value
      (chip.write address value) := store_effect _ _ _
  refine noted.of_registers ?_ (effect.unraised noted.flags)
    (noted.layout.of_same effect.regions_eq)
  cases effect.channel c with
  | same same => exact same
  | control place => exact (leaves.2 _ value Dma1.ccr_inside (by rw [place])).elim
  | programmed _ small _ place => exact (leaves.2 _ value small (by rw [place])).elim

theorem share {bytes : Array Byte} (small : bytes.size < 0x100000000) :
    Established first c target source length (stateAfter (Action.share bytes).perform chip) := by
  rw [stateAfter_perform_share, stateAfter, run_share]
  cases fits : regionAfter chip.nextRegion bytes.size with
  | error fault => exact established
  | ok next =>
    have layout := established.layout.shared small fits
    exact established.of_registers ⟨rfl, fun _ _ => rfl⟩ established.flags layout

/-- Nothing but a write into the channel's registers changes what was programmed. -/
theorem act {action : Action} (clear : chip.AimsClear) (leaves : action.LeavesAlone c) :
    Established first c target source length (stateAfter action.perform chip) := by
  cases action with
  | read address =>
    obtain ⟨ticked, passed, -, established⟩ := established.tick clear
    have left : stateAfter (Action.read address).perform chip =
        stateAfter (Chip.load address) ticked :=
      (stateAfter_dropped _ chip).trans (stateAfter_bind_of_ok passed)
    obtain ⟨rest, loaded⟩ := stateAfter_load ticked address
    rw [left, loaded]
    exact established.of_engine ⟨rfl, rfl, rfl, rfl⟩
  | nop =>
    have same : SameEngine chip { chip with nops := chip.nops + 1 } := ⟨rfl, rfl, rfl, rfl⟩
    have unhindered : chip.Unhindered := ⟨established.layout, clear⟩
    obtain ⟨ticked, passed, -, established⟩ :=
      (established.of_engine same).tick (unhindered.of_engine same).clear
    have ran : Action.nop.perform.run chip = .ok () ticked := passed
    rw [stateAfter_of_ok ran]
    exact established
  | write address value => exact established.write leaves
  | share bytes => exact established.share leaves.1
  | breakpoint | drive | release | connect | pushReceived | setLatency | clearEvents =>
    exact established.of_engine ⟨rfl, rfl, rfl, rfl⟩

theorem unwritten {later : Chip} (unwritten : Unwritten c chip later) :
    Established first c target source length later := by
  induction unwritten with
  | start => exact established
  | act action _ clear leaves ih => exact ih.act clear leaves

end Established

end Chip

/-! ## Configuring -/

namespace Dma

open Chip

variable {first : Chip} {c : Channel} {target source length : Word}

/-- What is left of a call that configures a channel. -/
def Configured (first : Chip) (c : Channel) (target source length : Word) (chip : Chip) : Prop :=
  Established first c target source length chip ∧ chip.AimsClear

theorem stop_vacates : Takes 2 (Programmable first c) (stop c) (fun _ => Vacated first c)
    fun _ _ => True :=
  stop_takes (B := Programmable first c) (fun _ holds => holds.tick) (fun _ holds => holds.clocked)
    (fun _ holds => holds.vacated) (fun _ holds => holds.tick)
    fun _ holds => ⟨holds.clocked, holds.disabled⟩

theorem configure_takes_established {looked : Chip} (programmable : Programmable first c first)
    (passed : Chip.tick.run first = .ok () looked) (short : length.toNat ≤ 0xFFFF) :
    Takes (if looked.channelEnabled c then 3 else 1) (fun chip => chip = first)
      (configure c target source length)
      (fun _ => Configured first c target source length) fun _ _ => True := by
  have reached : Programmable first c looked := by
    obtain ⟨after, passed', programmable⟩ := programmable.tick
    obtain ⟨-, rfl⟩ := EStateM.Result.ok.inj (passed.symm.trans passed')
    exact programmable
  have check : Takes 1 (fun chip => chip = first)
      (anySet (Dma1.register c Dma1.ccr) Dma1.enable : BusM Chip Bool)
      (fun enabled chip => chip = looked ∧ enabled = chip.channelEnabled c) fun _ _ => True := by
    refine check_takes c ?_ ?_ fun _ _ => trivial
    · rintro chip rfl
      exact ⟨looked, passed, rfl⟩
    · rintro chip rfl
      exact reached.clocked
  refine configure_takes short (check.weaken ?_ fun _ _ _ => trivial) stop_vacates
    fun chip vacated => vacated.established target source length
  rintro enabled chip ⟨rfl, same⟩
  refine ⟨same, ?_⟩
  cases enabled' : chip.channelEnabled c with
  | true => exact reached
  | false => exact ⟨reached, enabled'⟩

/-- Configuring always programs a channel, whatever state the channel is in and whatever the others
do beside it: after one tick if the channel is found disabled, and after three if it has to be
stopped. What was programmed stays, through any number of ticks and all else that is done, until the
channel's registers are written again. A length that does not fit is refused before anything
happens. -/
theorem configure_programs {chip : Chip} (reachable : Reachable Action.Addressable chip)
    (clocked : chip.clocked (.dma1 0) = true)
    (clear : ∀ d address, chip.Aims d address →
      beyondDma address = true ∧ address ≠ lastAddress)
    (c : Channel) (target source length : Word) :
    (length.toNat ≤ 0xFFFF → ∃ looked, Chip.tick.run chip = .ok () looked ∧
      Takes (if looked.channelEnabled c then 3 else 1) (fun start => start = chip)
        (configure c target source length)
        (fun _ after => Reprogrammed chip c target source length after ∧
          (∀ n, ∃ later, (times n Chip.tick).run after = .ok () later ∧
            Reprogrammed chip c target source length later) ∧
          ∀ later, Unwritten c after later → Reprogrammed chip c target source length later)
        fun _ _ => True) ∧
    (0xFFFF < length.toNat → ∀ ticks log,
      (configure c target source length : BusM Chip Unit).run ⟨chip, ticks, log⟩ =
        .error .transferTooLong ⟨chip, ticks, log⟩) := by
  have programmable : Programmable chip c chip :=
    ⟨⟨reachable.layout, clear⟩, clocked, reachable.consistent c, rfl⟩
  refine ⟨fun short => ?_, fun long ticks log => ?_⟩
  · obtain ⟨looked, passed, -⟩ := programmable.tick
    refine ⟨looked, passed, (configure_takes_established programmable passed short).weaken ?_
      fun _ _ _ => trivial⟩
    rintro _ after ⟨established, clear⟩
    refine ⟨established.toReprogrammed, fun n => ?_, fun later unwritten => ?_⟩
    · obtain ⟨later, ran, established⟩ := established.ticks clear n
      exact ⟨later, ran, established.toReprogrammed⟩
    · exact (established.unwritten unwritten).toReprogrammed
  · have refused : Dma1.countMax < length := by
      have bound : Dma1.countMax.toNat = 0xFFFF := rfl
      bv_omega
    rw [configure, if_pos refused]
    rfl

/-- One channel sends two bytes over and over, and another one copies them. -/
def twoRunning (sends copies : Channel) : Chip :=
  ((((broughtUp.programmed sends Serial.target 0x20000000 2).write (Dma1.register sends Dma1.ccr)
    0xB1).programmed copies 0x10000000 0x20000000 2).write (Dma1.register copies Dma1.ccr) 0xD1)

theorem twoRunning_reachable (sends copies : Channel) :
    Reachable Action.Addressable (twoRunning sends copies) := by
  have sending := (broughtUp_reachable.addressable.programmed (fun _ _ => trivial) sends
    Serial.target 0x20000000 2).write (Dma1.register sends Dma1.ccr) 0xB1 trivial
  exact (sending.programmed (fun _ _ => trivial) copies 0x10000000 0x20000000 2).write _ 0xD1
    trivial

theorem twoRunning_aims {d : Channel} {address : Word} (aims : (twoRunning 0 5).Aims d address) :
    d = 0 ∧ address = Serial.target ∨
      d = 5 ∧ (address = 0x10000000 ∨ address = 0x10000001) := by
  have working : ∀ d, ((twoRunning 0 5).latch d).active = true → d = 0 ∨ d = 5 := by decide +kernel
  have ahead := aims.ahead
  obtain rfl | rfl := working d aims.active
  · have control : (twoRunning 0 5).controlOf 0 = 0xB1 := by decide +kernel
    have target : ((twoRunning 0 5).latch 0).target = Serial.target ∧
        (twoRunning 0 5).peek (Dma1.register 0 Dma1.cpar) = Serial.target := by decide +kernel
    have fixed : (0xB1 : Word) &&& Dma1.peripheralIncrement = 0 := by decide
    rw [control, target.1, target.2, InPass, InPass, if_pos fixed, if_pos fixed] at ahead
    exact .inl ⟨rfl, ahead.elim id And.right⟩
  · have control : (twoRunning 0 5).controlOf 5 = 0xD1 := by decide +kernel
    have target : ((twoRunning 0 5).latch 5).target = 0x10000000 := by decide +kernel
    have left : (twoRunning 0 5).itemsLeft 5 = 2 := by decide +kernel
    have moves : ¬(0xD1 : Word) &&& Dma1.peripheralIncrement = 0 := by decide
    rw [control, target, left, InPass, if_neg moves] at ahead
    obtain inside | ⟨again, -⟩ := ahead
    · right
      exact ⟨rfl, by bv_omega⟩
    · exact (again (by decide)).elim

theorem twoRunning_clear (d : Channel) (address : Word) (aims : (twoRunning 0 5).Aims d address) :
    beyondDma address = true ∧ address ≠ lastAddress := by
  obtain ⟨-, rfl⟩ | ⟨-, rfl | rfl⟩ := twoRunning_aims aims <;> decide

theorem configure_programs_running :
    Reachable Action.Addressable (twoRunning 0 5) ∧ (twoRunning 0 5).clocked (.dma1 0) = true ∧
    (∀ d address, (twoRunning 0 5).Aims d address →
      beyondDma address = true ∧ address ≠ lastAddress) ∧
    ∃ after, (configure 0 1 2 3 : BusM Chip Unit).run ⟨twoRunning 0 5, 4, #[]⟩ = .ok () after ∧
      after.ticks = 1 ∧ Reprogrammed (twoRunning 0 5) 0 1 2 3 after.device := by
  have clocked : (twoRunning 0 5).clocked (.dma1 0) = true := by decide +kernel
  have busy : (match Chip.tick.run (twoRunning 0 5) with
      | .ok _ looked => looked.channelEnabled 0
      | .error _ _ => false) = true := by
    decide +kernel
  obtain ⟨programs, -⟩ :=
    configure_programs (twoRunning_reachable 0 5) clocked twoRunning_clear 0 1 2 3
  obtain ⟨looked, passed, takes⟩ := programs (by decide)
  rw [passed] at busy
  rw [if_pos busy] at takes
  obtain ⟨_, after, returned, reprogrammed, left⟩ :=
    takes.returns ⟨twoRunning 0 5, 4, #[]⟩ (by simp only) (Nat.le_succ 3)
  exact ⟨twoRunning_reachable 0 5, clocked, twoRunning_clear, after, returned,
    Nat.add_right_cancel left, reprogrammed.1⟩

end Dma

end Peripherals
