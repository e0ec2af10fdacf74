import Peripherals.Proofs.ChannelTurn

/-! # What belongs to a channel

A channel owns its registers and its latch. Nearly everything that happens to
the chip leaves them alone: a store reaches them only through the channel's own
control register, or while the channel is disabled, and another channel's turn
reaches them only through the store of its item. -/

namespace Peripherals

namespace Dma1

theorem register_ne_output (c : Channel) {offset : Word} (small : offset.toNat < 0x14)
    (port : Port) : register c offset ≠ port.base + Gpio.odr := by
  intro same
  have decoded := decode_register c small
  rw [same, Chip.decode_output] at decoded
  cases decoded

theorem register_ne_register {c d : Channel} {f g : Word} (hf : f.toNat < 0x14)
    (hg : g.toNat < 0x14) (ne : c ≠ d ∨ f ≠ g) : register c f ≠ register d g := by
  intro same
  obtain ⟨rfl, rfl⟩ := (register_eq_register_iff hf hg).mp same
  exact ne.elim (fun h => h rfl) (fun h => h rfl)

end Dma1

namespace Chip

/-- A channel has the same registers and the same latch in both chips. -/
structure SameChannel (c : Channel) (chip after : Chip) : Prop where
  latch : after.latch c = chip.latch c
  register : ∀ offset : Word, offset.toNat < 0x14 →
    after.peek (Dma1.register c offset) = chip.peek (Dma1.register c offset)

variable {chip middle after : Chip} {c d : Channel} {address value : Word}

namespace SameChannel

theorem refl (c : Channel) (chip : Chip) : SameChannel c chip chip :=
  ⟨rfl, fun _ _ => rfl⟩

theorem trans (first : SameChannel c chip middle) (second : SameChannel c middle after) :
    SameChannel c chip after where
  latch := second.latch.trans first.latch
  register offset small := (second.register offset small).trans (first.register offset small)

theorem controlOf (same : SameChannel c chip after) : after.controlOf c = chip.controlOf c :=
  same.register Dma1.ccr Dma1.ccr_inside

theorem itemsLeft (same : SameChannel c chip after) : after.itemsLeft c = chip.itemsLeft c :=
  same.register Dma1.cndtr Dma1.cndtr_inside

theorem enabled (same : SameChannel c chip after) :
    after.channelEnabled c = chip.channelEnabled c := by
  rw [channelEnabled, channelEnabled, same.register Dma1.ccr Dma1.ccr_inside]

theorem poke (outside : ∀ offset : Word, offset.toNat < 0x14 → address ≠ Dma1.register c offset)
    (value : Word) : SameChannel c chip (chip.poke address value) where
  latch := rfl
  register offset small := by rw [peek_poke, if_neg (outside offset small)]

theorem poke_register (ne : d ≠ c) {field : Word} (small : field.toNat < 0x14) (value : Word) :
    SameChannel c chip (chip.poke (Dma1.register d field) value) := by
  apply poke
  intro offset small'
  exact Dma1.register_ne_register small small' (.inl ne)

theorem poke_flags (value : Word) :
    SameChannel c chip (chip.poke (Dma1.base + Dma1.isr) value) := by
  apply poke
  intro offset small
  exact (Dma1.register_ne_flags c small).symm

theorem setOutput (port : Port) (value : Word) :
    SameChannel c chip (chip.setOutput port value) where
  latch := rfl
  register offset small := by
    rw [peek_setOutput, if_neg (Dma1.register_ne_output c small port).symm]

theorem setLatch (ne : d ≠ c) (latch : Latch) : SameChannel c chip (chip.setLatch d latch) where
  latch := by rw [latch_setLatch, if_neg ne]
  register _ _ := rfl

theorem storeControl (ne : d ≠ c) (value : Word) :
    SameChannel c chip (chip.storeControl d value) where
  latch := latch_storeControl_of_ne ne
  register offset small := by
    rw [peek_storeControl, if_neg]
    exact Dma1.register_ne_register Dma1.ccr_inside small (.inl ne)

end SameChannel

theorem Rests.of_same (same : SameChannel c chip after) (rests : chip.Rests c) : after.Rests c := by
  rw [Rests, same.latch, same.itemsLeft, same.controlOf]
  exact rests

/-! ## Stores -/

/-- What a store can do to a channel. -/
inductive ChannelEffect (chip : Chip) (c : Channel) (address value : Word) (after : Chip) : Prop
  | same (same : SameChannel c chip after)
  | control (place : address = Dma1.register c Dma1.ccr)
      (becomes : after = chip.storeControl c value)
  | programmed (field : Word) (small : field.toNat < 0x14) (notControl : field ≠ Dma1.ccr)
      (place : address = Dma1.register c field) (disabled : chip.channelEnabled c = false)
      (becomes : after = chip.poke (Dma1.register c field) value)

theorem StoreEffect.channel (effect : StoreEffect chip address value after) (c : Channel) :
    ChannelEffect chip c address value after := by
  cases effect with
  | lost => exact .same (.refl c chip)
  | output port => exact .same (.setOutput port _)
  | sent => exact .same ⟨rfl, fun _ _ => rfl⟩
  | cleared => exact .same (.poke_flags _)
  | control d place =>
    by_cases same : d = c
    · subst same
      exact .control place rfl
    · exact .same (.storeControl same value)
  | replaced plain =>
    by_cases own : ∃ field : Word, field.toNat < 0x14 ∧ address = Dma1.register c field
    · obtain ⟨field, small, rfl⟩ := own
      refine .programmed field small ?_ rfl (plain.unlocked c field small rfl) rfl
      rintro rfl
      exact plain.not_control c rfl
    · refine .same (.poke ?_ value)
      intro offset small place
      exact own ⟨offset, small, place⟩

/-- The registers of an enabled channel, except its control register, are locked. -/
theorem StoreEffect.locked (effect : StoreEffect chip address value after)
    (enabled : chip.channelEnabled c = true) {field : Word} (small : field.toNat < 0x14)
    (notControl : field ≠ Dma1.ccr) :
    after.peek (Dma1.register c field) = chip.peek (Dma1.register c field) := by
  cases effect.channel c with
  | same same => exact same.register field small
  | control place becomes =>
    rw [becomes, peek_storeControl, if_neg]
    exact Dma1.register_ne_register Dma1.ccr_inside small (.inr notControl.symm)
  | programmed _ _ _ _ disabled => rw [enabled] at disabled; cases disabled

theorem channelEnabled_storeControl (chip : Chip) (c : Channel) (value : Word) :
    (chip.storeControl c value).channelEnabled c = (value &&& Dma1.enable != 0) := by
  rw [channelEnabled, peek_storeControl, if_pos rfl]

/-- The latch after a store into the channel's control register. -/
theorem latch_storeControl (chip : Chip) (c : Channel) (value : Word) :
    (chip.storeControl c value).latch c =
      if value &&& Dma1.enable = 0 then { chip.latch c with active := false }
      else if chip.channelEnabled c then chip.latch c
      else ⟨true, chip.peek (Dma1.register c Dma1.cmar), chip.peek (Dma1.register c Dma1.cpar),
        chip.itemsLeft c⟩ := by
  have kept {field : Word} (small : field.toNat < 0x14) (notControl : field ≠ Dma1.ccr) :
      (chip.poke (Dma1.register c Dma1.ccr) value).peek (Dma1.register c field) =
        chip.peek (Dma1.register c field) := by
    rw [peek_poke, if_neg (Dma1.register_ne_register Dma1.ccr_inside small (.inr notControl.symm))]
  simp only [storeControl]
  split
  · rw [latch_setLatch, if_pos rfl]
    rfl
  split
  · rfl
  · rw [latch_setLatch, if_pos rfl, kept Dma1.cmar_inside (by decide),
      kept Dma1.cpar_inside (by decide),
      kept Dma1.cndtr_inside (by decide), itemsLeft]

/-! ## Turns -/

section Moved

variable (chip : Chip) (c : Channel) (byte : Byte)

/-- The latch of a channel right after its addresses were stepped for an item. -/
def stepped : Latch :=
  ((chip.stored c byte).latch c).step (chip.controlOf c)

/-- A moved item changes the latch, the flags and the count, besides what its store changed. -/
theorem moved_eq :
    chip.moved c byte =
      ((((chip.stored c byte).setLatch c (chip.stepped c byte)).flagged c
          (chip.itemsLeft c - 1)).setLatch c
        (((chip.stored c byte).setLatch c (chip.stepped c byte)).latchAfter c (chip.controlOf c)
          (chip.itemsLeft c - 1))).poke (Dma1.register c Dma1.cndtr)
        (((chip.stored c byte).setLatch c (chip.stepped c byte)).countAfter c (chip.controlOf c)
          (chip.itemsLeft c - 1)) :=
  countItem_eq _ c _ _

theorem peek_moved {address : Word} (notFlags : address ≠ Dma1.base + Dma1.isr)
    (notCount : address ≠ Dma1.register c Dma1.cndtr) :
    (chip.moved c byte).peek address = (chip.stored c byte).peek address := by
  rw [moved_eq, peek_poke, if_neg notCount.symm, peek_setLatch, flagged, peek_poke,
    if_neg notFlags.symm, peek_setLatch]

/-- The flags after an item, those of the counting added to what the store left. -/
theorem flags_moved :
    (chip.moved c byte).peek (Dma1.base + Dma1.isr) =
      (chip.stored c byte).peek (Dma1.base + Dma1.isr) |||
        ((chip.stored c byte).setLatch c (chip.stepped c byte)).flagsAfter c
          (chip.itemsLeft c - 1) := by
  rw [moved_eq, peek_poke, if_neg (Dma1.register_ne_flags c Dma1.cndtr_inside), peek_setLatch,
    flagged,
    peek_poke, if_pos rfl, peek_setLatch]

theorem itemsLeft_moved :
    (chip.moved c byte).itemsLeft c =
      if chip.itemsLeft c - 1 = 0 ∧ chip.controlOf c &&& Dma1.circular ≠ 0 then
        ((chip.stored c byte).latch c).reload
      else chip.itemsLeft c - 1 := by
  rw [itemsLeft, moved_eq, peek_poke, if_pos rfl, countAfter, latch_setLatch, if_pos rfl]
  rfl

theorem latch_moved :
    (chip.moved c byte).latch c =
      if chip.itemsLeft c - 1 = 0 ∧ chip.controlOf c &&& Dma1.circular ≠ 0 then
        { chip.stepped c byte with
          memory := (chip.stored c byte).peek (Dma1.register c Dma1.cmar)
          target := (chip.stored c byte).peek (Dma1.register c Dma1.cpar) }
      else chip.stepped c byte := by
  rw [moved_eq]
  change ((((chip.stored c byte).setLatch c (chip.stepped c byte)).flagged c _).setLatch c
    _).latch c = _
  rw [latch_setLatch, if_pos rfl, latchAfter, latch_setLatch, if_pos rfl]
  rfl

/-- What a moved item leaves as the store left it. -/
theorem hidden_moved :
    (chip.moved c byte).transmitted = (chip.stored c byte).transmitted ∧
      (chip.moved c byte).busy = (chip.stored c byte).busy ∧
      (chip.moved c byte).regions = (chip.stored c byte).regions ∧
      (chip.moved c byte).nextRegion = (chip.stored c byte).nextRegion ∧
      (chip.moved c byte).latency = (chip.stored c byte).latency := by
  rw [moved_eq]
  exact ⟨rfl, rfl, rfl, rfl, rfl⟩

theorem events_moved : (chip.moved c byte).events = (chip.stored c byte).events := by
  rw [moved_eq]
  rfl

theorem latch_moved_of_ne {d : Channel} (ne : d ≠ c) :
    (chip.moved c byte).latch d = (chip.stored c byte).latch d := by
  rw [moved_eq]
  change ((((chip.stored c byte).setLatch c (chip.stepped c byte)).flagged c _).setLatch c
    _).latch d = _
  rw [latch_setLatch, if_neg ne.symm]
  change ((chip.stored c byte).setLatch c (chip.stepped c byte)).latch d = _
  rw [latch_setLatch, if_neg ne.symm]

end Moved

theorem Turn.regions_eq (turn : Turn chip c after) :
    after.regions = chip.regions ∧ after.nextRegion = chip.nextRegion := by
  cases turn with
  | rest | failed => exact ⟨rfl, rfl⟩
  | moved byte =>
    have effect : StoreEffect chip _ _ (chip.stored c byte) := store_effect _ _ _
    obtain ⟨-, -, regions, next, -⟩ := chip.hidden_moved c byte
    exact ⟨regions.trans effect.regions_eq.1, next.trans effect.regions_eq.2⟩

/-- Besides the store of its item, a channel's turn leaves every other channel alone. -/
theorem SameChannel.moved (ne : d ≠ c) (byte : Byte) :
    SameChannel c (chip.stored d byte) (chip.moved d byte) := by
  rw [moved_eq]
  apply SameChannel.trans (SameChannel.setLatch ne _)
  apply SameChannel.trans (SameChannel.poke_flags _)
  apply SameChannel.trans (SameChannel.setLatch ne _)
  exact .poke_register ne Dma1.cndtr_inside _

theorem SameChannel.busError (ne : d ≠ c) (control : Word) :
    SameChannel c chip (chip.busError d control) := by
  apply SameChannel.trans (SameChannel.poke_flags _)
  apply SameChannel.trans (SameChannel.poke_register ne _ _)
  · exact .setLatch ne _
  · decide

/-! ## Bus errors -/

/-- A control value without the enable bit. -/
theorem and_not_and_self (control : Word) : control &&& ~~~Dma1.enable &&& Dma1.enable = 0 := by
  rw [BitVec.and_assoc, BitVec.not_and_self]
  exact BitVec.and_zero

/-- Clearing bits changes nothing where none of them is set. -/
theorem and_not_eq_self {a b : Word} (apart : a &&& b = 0) : a &&& ~~~b = a := by
  ext i inside
  have bit := congrArg (·.getLsbD i) apart
  simp only [BitVec.getLsbD_and] at bit
  grind

section BusError

variable (chip : Chip) (c : Channel) (control : Word)

/-- A bus error takes the channel's latch out of use. -/
theorem latch_busError :
    (chip.busError c control).latch c = { chip.latch c with active := false } := by
  rw [busError, latch_setLatch, if_pos rfl]
  rfl

/-- It takes the enable bit from the control value. -/
theorem controlOf_busError :
    (chip.busError c control).controlOf c = control &&& ~~~Dma1.enable := by
  rw [controlOf, busError, peek_setLatch, peek_poke, if_pos rfl]

/-- It raises the channel's error flag. -/
theorem flags_busError :
    (chip.busError c control).peek (Dma1.base + Dma1.isr) =
      chip.peek (Dma1.base + Dma1.isr) |||
        Dma1.flagsOf c (Dma1.errorFlag ||| Dma1.globalFlag) := by
  rw [busError, peek_setLatch, peek_poke, if_neg (Dma1.register_ne_flags c Dma1.ccr_inside), raise,
    peek_poke, if_pos rfl]

/-- It leaves every other register alone. -/
theorem peek_busError {address : Word} (notFlags : address ≠ Dma1.base + Dma1.isr)
    (notControl : address ≠ Dma1.register c Dma1.ccr) :
    (chip.busError c control).peek address = chip.peek address := by
  rw [busError, peek_setLatch, peek_poke, if_neg notControl.symm, raise, peek_poke,
    if_neg notFlags.symm]

theorem itemsLeft_busError : (chip.busError c control).itemsLeft c = chip.itemsLeft c := by
  apply peek_busError
  · exact Dma1.register_ne_flags c Dma1.cndtr_inside
  · exact Dma1.register_ne_register Dma1.cndtr_inside Dma1.ccr_inside (.inr (by decide))

end BusError

end Chip

end Peripherals
