import Peripherals.Proofs.BesideChannel
import Peripherals.Proofs.SideBySide

/-! # What the channels leave each other

A channel stores where its registers say, and only starting it gives it a new
aim. While no channel stores into DMA1 or into the register with its clock, what
is done to one of them is not seen in another. A chip in which one channel alone
went on by itself is a shadow of the chip in which it did not: in both the other
channels have the same turns. -/

namespace Peripherals

open Bus DmaCall

namespace Chip

variable {suits : Channel → Word → Prop} {overrun : Prop} {chip other after : Chip}
  {c d n : Channel} {address value : Word}

/-! ## What a channel's calls write -/

theorem AlikeBeside.adjusted (adjusts : Adjusts c address value) :
    AlikeBeside c chip (chip.write address value) := by
  have noted : AlikeBeside c chip (chip.noted address value) := .of_engine ⟨rfl, rfl, rfl, rfl⟩ rfl
  cases adjusts with
  | off control => exact noted.trans (.store_one ⟨_, Dma1.ccr_inside, rfl⟩ _)
  | program _ small => exact noted.trans (.store_one ⟨_, small, rfl⟩ _)
  | clear clearable => exact noted.trans (.clear_one clearable)

theorem AlikeBeside.controlled (value : Word) :
    AlikeBeside c chip (chip.write (Dma1.register c Dma1.ccr) value) := by
  have noted : AlikeBeside c chip (chip.noted (Dma1.register c Dma1.ccr) value) :=
    .of_engine ⟨rfl, rfl, rfl, rfl⟩ rfl
  exact noted.trans (.store_one ⟨_, Dma1.ccr_inside, rfl⟩ value)

/-- The write that enables DMA1's clock is none into DMA1. -/
theorem sameState_gate (chip : Chip) (value : Word) (d : Channel) :
    SameState d chip (chip.write Rcc.ahb1enr value) := by
  have decoded : Block.decode Rcc.ahb1enr = .other := rfl
  have outside : ∀ offset, Block.decode Rcc.ahb1enr ≠ .dma1 offset := by
    rw [decoded]
    exact nofun
  obtain ⟨channels, flags⟩ := store_outside outside (chip.noted Rcc.ahb1enr value) value
  have noted : SameState d chip (chip.noted Rcc.ahb1enr value) := .of_engine ⟨rfl, rfl, rfl, rfl⟩
  exact noted.trans ⟨channels d, congrArg (· &&& _) flags⟩

theorem sameState_shared (chip : Chip) (bytes : Array Byte) (next : Word) (d : Channel) :
    SameState d chip (chip.shared bytes next) :=
  ⟨⟨rfl, fun _ _ => rfl⟩, rfl⟩

/-! ## Where channels store from here on -/

/-- Nothing that a channel comes to store at in the second chip is new. -/
def Narrows (chip after : Chip) : Prop :=
  ∀ d address, after.Aims d address → chip.Aims d address

theorem Narrows.of_same (same : ∀ d, SameChannel d chip after) : Narrows chip after :=
  fun d _ aims => aims.of_same (same d)

/-- A write that disables a channel, programs it or clears flags gives no channel a new aim: the
registers of an enabled channel are locked, and a disabled one has none. -/
theorem Narrows.of_adjusts (consistent : ∀ d, chip.Consistent d)
    (adjusts : Adjusts c address value) : Narrows chip (chip.write address value) := by
  intro d aim aims
  have noted : SameChannel d chip (chip.noted address value) := ⟨rfl, fun _ _ => rfl⟩
  have active := aims.active
  have effect : StoreEffect (chip.noted address value) address value (chip.write address value) :=
    store_effect _ _ _
  cases effect.channel d with
  | same same => exact aims.of_same (noted.trans same)
  | control place becomes =>
    have off : value &&& Dma1.enable = 0 := by
      cases adjusts with
      | off control => exact and_not_and_self control
      | program _ small notControl =>
        obtain ⟨-, control⟩ := (Dma1.register_eq_register_iff small Dma1.ccr_inside).mp place
        exact (notControl control).elim
      | clear => exact (Dma1.register_ne_clear d Dma1.ccr_inside place.symm).elim
    rw [becomes, latch_storeControl, if_pos off] at active
    cases active
  | programmed _ _ _ _ disabled becomes =>
    have inactive : (chip.latch d).active = false := (consistent d).active_eq.trans disabled
    have unchanged : (chip.write address value).latch d = chip.latch d := by
      rw [becomes]
      rfl
    rw [unchanged, inactive] at active
    cases active

theorem consistent_write (consistent : ∀ d, chip.Consistent d) (address value : Word) :
    ∀ d, (chip.write address value).Consistent d := by
  intro d
  have noted : SameChannel d chip (chip.noted address value) := ⟨rfl, fun _ _ => rfl⟩
  exact ((consistent d).of_same noted).store (store_effect _ _ _)

/-- No channel comes to store into DMA1 or into the register with its clock. -/
def SparesDma (chip : Chip) : Prop :=
  ∀ d address, chip.Aims d address → beyondDma address = true

/-- A channel comes to store only where nothing depends on it. -/
def StoresPlainly (c : Channel) (chip : Chip) : Prop :=
  ∀ address, chip.Aims c address → Storage address

/-- All channels are consistent, and where they come to store is beyond DMA1 and its clock, and
suits them. -/
structure Heeds (suits : Channel → Word → Prop) (chip : Chip) : Prop where
  consistent : ∀ d, chip.Consistent d
  beyond : chip.SparesDma
  suits : ∀ d address, chip.Aims d address → suits d address

namespace Heeds

variable (heeds : chip.Heeds suits)

include heeds

theorem spares (d : Channel) : Moment.spares ⟨.turn d, chip⟩ = true :=
  spares_of_aims (heeds.beyond d)

theorem narrowed (consistent : ∀ d, after.Consistent d) (narrows : Narrows chip after) :
    after.Heeds suits where
  consistent := consistent
  beyond d address aims := heeds.beyond d address (narrows d address aims)
  suits d address aims := heeds.suits d address (narrows d address aims)

theorem of_same (same : ∀ d, SameChannel d chip after) : after.Heeds suits :=
  heeds.narrowed (fun d => (heeds.consistent d).of_same (same d)) (.of_same same)

theorem of_engine (same : SameEngine chip after) : after.Heeds suits :=
  heeds.of_same fun _ => (SameState.of_engine same).toSameChannel

theorem turn (turn : Turn chip d after) : after.Heeds suits :=
  heeds.narrowed (fun e => .turn turn (heeds.consistent e))
    fun _ _ aims => aims.of_turn (heeds.spares d) turn

theorem tick (passed : Chip.tick.run chip = .ok () after) : after.Heeds suits :=
  tick_keeps (fun _ _ _ => Heeds.turn) (heeds.of_engine ⟨rfl, rfl, rfl, rfl⟩) passed

theorem adjusted (adjusts : Adjusts c address value) : (chip.write address value).Heeds suits :=
  heeds.narrowed (consistent_write heeds.consistent address value)
    (.of_adjusts heeds.consistent adjusts)

theorem gated (value : Word) : (chip.write Rcc.ahb1enr value).Heeds suits :=
  heeds.of_same fun d => (sameState_gate chip value d).toSameChannel

theorem shared (bytes : Array Byte) (next : Word) : (chip.shared bytes next).Heeds suits :=
  heeds.of_same fun d => (sameState_shared chip bytes next d).toSameChannel

end Heeds

/-! ## A channel that is left alone -/

/-- A channel is as it was at first and not active, while all channels heed. -/
structure Bypassed (suits : Channel → Word → Prop) (n : Channel) (first chip : Chip) : Prop where
  heeds : chip.Heeds suits
  same : SameState n first chip
  inactive : (chip.latch n).active = false

namespace Bypassed

variable {first : Chip} (bypassed : Bypassed suits n first chip)

include bypassed

theorem of_same (heeds : after.Heeds suits) (same : SameState n chip after) :
    Bypassed suits n first after where
  heeds := heeds
  same := bypassed.same.trans same
  inactive := by
    rw [same.latch]
    exact bypassed.inactive

theorem turn (turn : Turn chip d after) : Bypassed suits n first after :=
  bypassed.of_same (bypassed.heeds.turn turn)
    (.of_turn (fun _ => bypassed.inactive) (bypassed.heeds.spares d) turn)

theorem of_engine (same : SameEngine chip after) : Bypassed suits n first after :=
  bypassed.of_same (bypassed.heeds.of_engine same) (.of_engine same)

theorem tick (passed : Chip.tick.run chip = .ok () after) : Bypassed suits n first after :=
  tick_keeps (fun _ _ _ => Bypassed.turn) (bypassed.of_engine ⟨rfl, rfl, rfl, rfl⟩) passed

theorem settled : (∀ d, chip.Consistent d) ∧ SameState n first chip :=
  ⟨bypassed.heeds.consistent, bypassed.same⟩

end Bypassed

/-! ## A channel that cannot be seen -/

/-- What suits all channels but one, and that one where nothing depends on it. -/
def Plainly (c d : Channel) (address : Word) : Prop :=
  d = c → Storage address

theorem Storage.beyondDma (storage : Storage address) : beyondDma address = true := by
  rw [Chip.beyondDma, storage.decoded]
  exact bne_iff_ne.mpr (storage.not_gate .dma)

/-- The second chip differs from the first beside a channel only, and its channel, too, stores where
nothing depends on it. Unless it may overrun, it has no fault ahead. -/
structure Shadow (c : Channel) (overrun : Prop) (chip other : Chip) : Prop where
  alike : AlikeBeside c chip other
  stores : StoresPlainly c other
  safe : ¬overrun → other.Layout ∧ ¬other.Aims c lastAddress

namespace Shadow

variable {after' : Chip} (shadow : Shadow c overrun chip other)

include shadow

theorem next (alike : AlikeBeside c after after')
    (narrows : ∀ address, after'.Aims c address → other.Aims c address)
    (layout : ¬overrun → other.Layout → after'.Layout) : Shadow c overrun after after' where
  alike := alike
  stores address aims := shadow.stores address (narrows address aims)
  safe clear :=
    have ⟨ordered, below⟩ := shadow.safe clear
    ⟨layout clear ordered, fun last => below (narrows _ last)⟩

/-- What is done to the first chip alone must be seen in the channel alone. -/
theorem first (alike : AlikeBeside c chip after) : Shadow c overrun after other :=
  shadow.next (alike.symm.trans shadow.alike) (fun _ aims => aims) fun _ layout => layout

theorem of_engine (alike : AlikeBeside c after after') (same : SameEngine other after') :
    Shadow c overrun after after' :=
  shadow.next alike (fun _ aims => aims.of_same (SameState.of_engine same).toSameChannel)
    fun _ layout => layout.of_same ⟨same.regions, same.nextRegion⟩

variable (heeds : chip.Heeds (Plainly c))

include heeds

/-- The second chip's channels spare DMA1 as those of the first do. -/
theorem spares (d : Channel) : Moment.spares ⟨.turn d, other⟩ = true := by
  apply spares_of_aims
  intro address aims
  by_cases own : d = c
  · subst own
    exact (shadow.stores address aims).beyondDma
  · exact heeds.beyond d address (aims.of_same (shadow.alike.sameState own).toSameChannel)

/-- A turn in the first chip goes with one in the second. -/
theorem turn (turn : Turn chip d after) :
    (∃ after', (serveChannel d).run other = .ok () after' ∧ Shadow c overrun after after') ∨
      overrun ∧ ∃ left, (serveChannel d).run other = .error .addOverflow left := by
  have spares := shadow.spares heeds d
  have next {after' : Chip} (turn' : Turn other d after') (alike : AlikeBeside c after after') :
      Shadow c overrun after after' :=
    shadow.next alike (fun _ aims => aims.of_turn spares turn')
      fun _ layout => layout.of_same turn'.regions_eq
  by_cases own : d = c
  · subst own
    have here : AlikeBeside d chip after :=
      .turn_one turn fun address aims => heeds.suits d address aims rfl
    cases served : (serveChannel d).run other with
    | ok _ after' =>
      have turn' := serveChannel_eq_ok_iff.mp served
      have there : AlikeBeside d other after' := .turn_one turn' shadow.stores
      exact .inl ⟨after', rfl, next turn' (here.symm.trans (shadow.alike.trans there))⟩
    | error fault left =>
      obtain rfl := serveChannel_fault served
      by_cases provided : overrun
      · exact .inr ⟨provided, left, rfl⟩
      · obtain ⟨layout, below⟩ := shadow.safe provided
        obtain ⟨after', turn'⟩ := turn_returns layout spares below
        rw [serveChannel_eq_ok_iff.mpr turn'] at served
        cases served
  · obtain ⟨after', turn', alike⟩ := shadow.alike.turn own (heeds.spares d) turn
    exact .inl ⟨after', serveChannel_eq_ok_iff.mpr turn', next turn' alike⟩

theorem serve {cs : List Channel} (served : (forM cs serveChannel).run chip = .ok () after) :
    (∃ after', (forM cs serveChannel).run other = .ok () after' ∧
        Shadow c overrun after after') ∨
      overrun ∧ ∃ left, (forM cs serveChannel).run other = .error .addOverflow left := by
  induction cs generalizing chip other with
  | nil =>
    obtain ⟨-, rfl⟩ := EStateM.Result.ok.inj served
    exact .inl ⟨other, rfl, shadow⟩
  | cons d rest ih =>
    rw [List.forM_cons, run_seq_eq_ok_iff] at served
    obtain ⟨middle, first, others⟩ := served
    have turn := serveChannel_eq_ok_iff.mp first
    rw [List.forM_cons, EStateM.run_bind]
    obtain ⟨middle', first', shadow'⟩ | ⟨provided, left, first'⟩ := shadow.turn heeds turn
    · rw [first']
      exact ih shadow' (heeds.turn turn) others
    · rw [first']
      exact .inr ⟨provided, left, rfl⟩

/-- A tick of the first chip goes with one of the second. -/
theorem tick (passed : Chip.tick.run chip = .ok () after) :
    (∃ after', Chip.tick.run other = .ok () after' ∧ Shadow c overrun after after') ∨
      overrun ∧ ∃ left, Chip.tick.run other = .error .addOverflow left := by
  have counted : Shadow c overrun chip.countedDown other.countedDown :=
    shadow.of_engine shadow.alike.countedDown ⟨rfl, rfl, rfl, rfl⟩
  rw [tick_eq] at passed
  rw [tick_eq, shadow.alike.clocked]
  split at passed
  · next clocked =>
    rw [if_pos clocked]
    exact counted.serve (heeds.of_engine ⟨rfl, rfl, rfl, rfl⟩) passed
  · next still =>
    obtain ⟨-, rfl⟩ := EStateM.Result.ok.inj passed
    rw [if_neg still]
    exact .inl ⟨_, rfl, counted⟩

end Shadow

end Chip

end Peripherals
