import Peripherals.Proofs.MemoryLayout

/-! # The length of a pass

Drivers program counts of at most sixteen bits. While nothing else is written
into a count, no channel ever has more items left, and no pass has more: the
items that channels themselves store are bytes. -/

namespace Peripherals.Chip

/-- A program shares buffers of a length that addresses can count, and writes no count of more
than sixteen bits. Drivers keep to this, since configuring a channel refuses a larger count. -/
def Action.Counted : Action → Prop
  | .share bytes => bytes.size < 0x100000000
  | .write address value => ∀ c, address = Dma1.register c Dma1.cndtr → value.toNat ≤ 0xFFFF
  | _ => True

instance (address value : Word) : Decidable (Action.write address value).Counted :=
  inferInstanceAs (Decidable (∀ c, address = Dma1.register c Dma1.cndtr → value.toNat ≤ 0xFFFF))

theorem Action.Counted.addressable {action : Action} (counted : action.Counted) :
    action.Addressable := by
  cases action with
  | share => exact counted
  | _ => trivial

/-- A channel has at most as many items left as sixteen bits count, also in its next pass. -/
structure ShortPass (chip : Chip) (c : Channel) : Prop where
  left : (chip.itemsLeft c).toNat ≤ 0xFFFF
  reload : (chip.latch c).reload.toNat ≤ 0xFFFF

variable {chip after : Chip} {c d : Channel} {address value : Word}

theorem ShortPass.of_same (same : SameChannel c chip after) (short : chip.ShortPass c) :
    after.ShortPass c := by
  constructor
  · rw [same.itemsLeft]
    exact short.left
  · rw [same.latch]
    exact short.reload

theorem ShortPass.store (effect : StoreEffect chip address value after)
    (counted : address = Dma1.register c Dma1.cndtr → value.toNat ≤ 0xFFFF)
    (short : chip.ShortPass c) : after.ShortPass c := by
  cases effect.channel c with
  | same same => exact short.of_same same
  | control _ becomes =>
    rw [becomes]
    constructor
    · rw [itemsLeft, peek_storeControl, if_neg]
      · exact short.left
      · exact Dma1.register_ne_register Dma1.ccr_inside Dma1.cndtr_inside (.inr (by decide))
    · rw [latch_storeControl]
      split
      · exact short.reload
      split
      · exact short.reload
      · exact short.left
  | programmed field small _ place _ becomes =>
    rw [becomes]
    refine ⟨?_, short.reload⟩
    rw [itemsLeft, peek_poke]
    split
    · next count => exact counted (place.trans count)
    · exact short.left

theorem ShortPass.turn (turn : Turn chip d after) (short : chip.ShortPass c) :
    after.ShortPass c := by
  cases turn with
  | rest => exact short
  | failed =>
    by_cases same : d = c
    · subst same
      constructor
      · rw [itemsLeft_busError]
        exact short.left
      · rw [latch_busError]
        exact short.reload
    · exact short.of_same (.busError same _)
  | moved byte active able =>
    have stored : (chip.stored d byte).ShortPass c := by
      apply short.store (store_effect _ _ _)
      intro _
      rw [BitVec.toNat_setWidth]
      have := byte.isLt
      omega
    by_cases same : d = c
    · subst same
      have some_left : chip.itemsLeft d ≠ 0 := by
        simp only [canMove, Bool.and_eq_true, bne_iff_ne] at able
        exact able.1.1
      constructor
      · rw [itemsLeft_moved]
        split
        · exact stored.reload
        · have := short.left
          bv_omega
      · rw [latch_moved]
        split
        · exact stored.reload
        · exact stored.reload
    · exact stored.of_same (.moved same byte)

theorem shortPass_preserved : Preserved Action.Counted fun chip => ∀ c, chip.ShortPass c where
  unseen short same c := (short c).of_same ⟨same.latch c, fun _ _ => same.peek _⟩
  store short counted effect c := (short c).store effect (counted c)
  turn short turn c := .turn turn (short c)
  share short _ _ c := ⟨(short c).left, (short c).reload⟩

theorem Reachable.addressable (reachable : Reachable Action.Counted chip) :
    Reachable Action.Addressable chip :=
  reachable.mono fun _ counted => counted.addressable

theorem Reachable.shortPass (reachable : Reachable Action.Counted chip) (c : Channel) :
    chip.ShortPass c := by
  have every : ∀ c, chip.ShortPass c := by
    apply reachable.invariant _ shortPass_preserved
    intro c
    constructor
    · revert c
      decide +kernel
    · revert c
      decide +kernel
  exact every c

end Peripherals.Chip
