import Peripherals.Proofs.ChannelFrame
import Peripherals.Proofs.Reachability

/-! # The engine and its registers

A channel is described twice: by its registers, which software sees, and by its
latch, which the engine works with. In every reachable state the two agree. A
channel is active exactly while its enable bit is set, and while it is active
its pointers are as far from where they started as items were moved, so that
every byte it fetches lies in the buffer it was given. -/

namespace Peripherals.Chip

/-- The pointer went at most `most` items on from the start. -/
def WentAtMost (most : Nat) (start pointer : Word) : Prop :=
  start.toNat ≤ pointer.toNat ∧ pointer.toNat ≤ start.toNat + most

/-- The latch of a channel agrees with the channel's registers. -/
structure Consistent (chip : Chip) (c : Channel) : Prop where
  active_eq : (chip.latch c).active = chip.channelEnabled c
  count_le : (chip.latch c).active = true →
    (chip.itemsLeft c).toNat ≤ (chip.latch c).reload.toNat
  memory : (chip.latch c).active = true →
    WentAtMost ((chip.latch c).reload.toNat - (chip.itemsLeft c).toNat)
      (chip.peek (Dma1.register c Dma1.cmar)) (chip.latch c).memory
  target : (chip.latch c).active = true →
    WentAtMost ((chip.latch c).reload.toNat - (chip.itemsLeft c).toNat)
      (chip.peek (Dma1.register c Dma1.cpar)) (chip.latch c).target

variable {chip after : Chip} {c d : Channel} {address value : Word}

theorem WentAtMost.start (start : Word) (most : Nat) : WentAtMost most start start :=
  ⟨Nat.le_refl _, Nat.le_add_right _ _⟩

/-- One more item allows one more step. -/
theorem WentAtMost.step {start pointer mask : Word} {most : Nat}
    (went : WentAtMost most start pointer) (fits : mask ≠ 0 → pointer.toNat + 1 < 0x100000000) :
    WentAtMost (most + 1) start (if mask = 0 then pointer else pointer + 1) := by
  obtain ⟨low, high⟩ := went
  split
  · exact ⟨low, by omega⟩
  · next steps =>
    have stepped : (pointer + 1).toNat = pointer.toNat + 1 := by
      have := fits steps
      bv_omega
    rw [WentAtMost, stepped]
    exact ⟨by omega, by omega⟩

/-! ## One channel through every change -/

theorem Consistent.of_same (same : SameChannel c chip after) (holds : chip.Consistent c) :
    after.Consistent c := by
  have cmar := same.register Dma1.cmar Dma1.cmar_inside
  have cpar := same.register Dma1.cpar Dma1.cpar_inside
  constructor
  · rw [same.latch, same.enabled]
    exact holds.active_eq
  · rw [same.latch, same.itemsLeft]
    exact holds.count_le
  · rw [same.latch, same.itemsLeft, cmar]
    exact holds.memory
  · rw [same.latch, same.itemsLeft, cpar]
    exact holds.target

theorem Consistent.of_inactive (inactive : (after.latch c).active = false)
    (disabled : after.channelEnabled c = false) : after.Consistent c := by
  have never (active : (after.latch c).active = true) : False := by
    rw [inactive] at active
    cases active
  constructor
  · rw [inactive, disabled]
  · intro active
    exact (never active).elim
  · intro active
    exact (never active).elim
  · intro active
    exact (never active).elim

/-- Enabling a channel starts its pointers where its registers say. -/
theorem Consistent.storeControl (holds : chip.Consistent c) (value : Word) :
    (chip.storeControl c value).Consistent c := by
  have kept {field : Word} (small : field.toNat < 0x14) (notControl : field ≠ Dma1.ccr) :
      (chip.storeControl c value).peek (Dma1.register c field) =
        chip.peek (Dma1.register c field) := by
    rw [peek_storeControl, if_neg]
    exact Dma1.register_ne_register Dma1.ccr_inside small (.inr notControl.symm)
  have count : (chip.storeControl c value).itemsLeft c = chip.itemsLeft c :=
    kept Dma1.cndtr_inside (by decide)
  have cmar : (chip.storeControl c value).peek (Dma1.register c Dma1.cmar) =
      chip.peek (Dma1.register c Dma1.cmar) := kept Dma1.cmar_inside (by decide)
  have cpar : (chip.storeControl c value).peek (Dma1.register c Dma1.cpar) =
      chip.peek (Dma1.register c Dma1.cpar) := kept Dma1.cpar_inside (by decide)
  have latch := latch_storeControl chip c value
  have enabled := channelEnabled_storeControl chip c value
  by_cases off : value &&& Dma1.enable = 0
  · apply Consistent.of_inactive
    · rw [latch, if_pos off]
    · rw [enabled, off]
      rfl
  have on : (chip.storeControl c value).channelEnabled c = true := by
    rw [enabled, bne_iff_ne]
    exact off
  rw [if_neg off] at latch
  by_cases was : chip.channelEnabled c = true
  · rw [if_pos was] at latch
    constructor
    · rw [latch, on, holds.active_eq, was]
    · rw [latch, count]
      exact holds.count_le
    · rw [latch, count, cmar]
      exact holds.memory
    · rw [latch, count, cpar]
      exact holds.target
  · rw [if_neg was] at latch
    constructor
    · rw [latch, on]
    · intro _
      apply Nat.le_of_eq
      rw [latch, count]
    · intro _
      rw [latch, cmar]
      exact .start _ _
    · intro _
      rw [latch, cpar]
      exact .start _ _

theorem Consistent.store (effect : StoreEffect chip address value after)
    (holds : chip.Consistent c) : after.Consistent c := by
  cases effect.channel c with
  | same same => exact holds.of_same same
  | control _ becomes =>
    rw [becomes]
    exact holds.storeControl value
  | programmed field small notControl _ disabled becomes =>
    apply Consistent.of_inactive
    · rw [becomes]
      exact holds.active_eq.trans disabled
    · rw [becomes, channelEnabled, peek_poke, if_neg]
      · exact disabled
      · exact Dma1.register_ne_register small Dma1.ccr_inside (.inr notControl)

/-- A store can stop an active channel, and can do nothing else to its latch. -/
theorem StoreEffect.latch_of_active (effect : StoreEffect chip address value after)
    (holds : chip.Consistent c) (active : (chip.latch c).active = true) :
    after.latch c = { chip.latch c with active := after.channelEnabled c } := by
  have enabled : chip.channelEnabled c = true := holds.active_eq.symm.trans active
  cases effect.channel c with
  | same same => rw [same.latch, same.enabled, enabled, ← active]
  | control _ becomes =>
    rw [becomes, latch_storeControl, channelEnabled_storeControl]
    by_cases off : value &&& Dma1.enable = 0
    · rw [if_pos off, off]
      rfl
    · have on : (value &&& Dma1.enable != 0) = true := bne_iff_ne.mpr off
      rw [if_neg off, if_pos enabled, on, ← active]
  | programmed _ _ _ _ disabled =>
    rw [enabled] at disabled
    cases disabled

/-- A channel that moves an item steps its pointers with its count, or starts over. -/
theorem Consistent.moved (holds : chip.Consistent c) (active : (chip.latch c).active = true)
    (able : chip.canMove c = true) {byte : Byte}
    (steps : ((chip.stored c byte).latch c).Steps (chip.controlOf c)) :
    (chip.moved c byte).Consistent c := by
  have effect : StoreEffect chip _ _ (chip.stored c byte) := store_effect _ _ _
  have enabled : chip.channelEnabled c = true := holds.active_eq.symm.trans active
  have latch := effect.latch_of_active holds active
  have kept {field : Word} (small : field.toNat < 0x14) (notControl : field ≠ Dma1.ccr)
      (notCount : field ≠ Dma1.cndtr) :
      (chip.moved c byte).peek (Dma1.register c field) = chip.peek (Dma1.register c field) := by
    rw [peek_moved _ _ _ (Dma1.register_ne_flags c small)
      (Dma1.register_ne_register small Dma1.cndtr_inside (.inr notCount))]
    exact effect.locked enabled small notControl
  have cmar : (chip.moved c byte).peek (Dma1.register c Dma1.cmar) =
      chip.peek (Dma1.register c Dma1.cmar) := kept Dma1.cmar_inside (by decide) (by decide)
  have cpar : (chip.moved c byte).peek (Dma1.register c Dma1.cpar) =
      chip.peek (Dma1.register c Dma1.cpar) := kept Dma1.cpar_inside (by decide) (by decide)
  have control : (chip.moved c byte).channelEnabled c = (chip.stored c byte).channelEnabled c := by
    rw [channelEnabled, peek_moved _ _ _ (Dma1.register_ne_flags c Dma1.ccr_inside)
      (Dma1.register_ne_register Dma1.ccr_inside Dma1.cndtr_inside (.inr (by decide))),
      channelEnabled]
  have count := chip.itemsLeft_moved c byte
  have pointers := chip.latch_moved c byte
  have some_left : chip.itemsLeft c ≠ 0 := by
    simp only [canMove, Bool.and_eq_true, bne_iff_ne] at able
    exact able.1.1
  have before := holds.count_le active
  by_cases ended : chip.itemsLeft c - 1 = 0 ∧ chip.controlOf c &&& Dma1.circular ≠ 0
  · rw [if_pos ended] at count pointers
    rw [effect.locked enabled Dma1.cmar_inside (by decide),
      effect.locked enabled Dma1.cpar_inside (by decide),
      stepped, latch] at pointers
    rw [latch] at count
    constructor
    · rw [pointers, control]
      rfl
    · intro _
      rw [count, pointers]
      exact Nat.le_refl _
    · intro _
      rw [pointers, cmar]
      exact .start _ _
    · intro _
      rw [pointers, cpar]
      exact .start _ _
  · rw [if_neg ended] at count pointers
    rw [stepped, latch] at pointers
    rw [latch] at steps
    have gone : (chip.latch c).reload.toNat - (chip.itemsLeft c - 1).toNat =
        (chip.latch c).reload.toNat - (chip.itemsLeft c).toNat + 1 := by
      bv_omega
    constructor
    · rw [pointers, control]
      rfl
    · intro _
      rw [count, pointers]
      change (chip.itemsLeft c - 1).toNat ≤ (chip.latch c).reload.toNat
      bv_omega
    · intro _
      rw [count, pointers, cmar]
      change WentAtMost ((chip.latch c).reload.toNat - (chip.itemsLeft c - 1).toNat) _ _
      rw [gone]
      exact (holds.memory active).step steps.memory
    · intro _
      rw [count, pointers, cpar]
      change WentAtMost ((chip.latch c).reload.toNat - (chip.itemsLeft c - 1).toNat) _ _
      rw [gone]
      exact (holds.target active).step steps.target

theorem Consistent.turn (turn : Turn chip d after) (holds : chip.Consistent c) :
    after.Consistent c := by
  cases turn with
  | rest => exact holds
  | failed active able unmapped =>
    by_cases same : d = c
    · subst same
      apply Consistent.of_inactive
      · rw [latch_busError]
      · rw [channelEnabled, ← controlOf, controlOf_busError, and_not_and_self]
        rfl
    · exact holds.of_same (.busError same _)
  | moved byte active able mapped steps =>
    by_cases same : d = c
    · subst same
      exact holds.moved active able steps
    · exact (holds.store (store_effect _ _ _)).of_same (.moved same byte)

theorem consistent_preserved (allowed : Action → Prop) :
    Preserved allowed fun chip => ∀ c, chip.Consistent c where
  unseen holds same c := (holds c).of_same ⟨same.latch c, fun _ _ => same.peek _⟩
  store holds _ effect c := (holds c).store effect
  turn holds turn c := .turn turn (holds c)
  share holds _ _ c :=
    ⟨(holds c).active_eq, (holds c).count_le, (holds c).memory, (holds c).target⟩

theorem Reachable.consistent {allowed : Action → Prop} (reachable : Reachable allowed chip)
    (c : Channel) : chip.Consistent c := by
  have every : ∀ c, chip.Consistent c := by
    apply reachable.invariant _ (consistent_preserved allowed)
    intro c
    exact .of_inactive (by revert c; decide +kernel) (by revert c; decide +kernel)
  exact every c

/-! ## The flags -/

/-- DMA1's flag register holds the flags of the seven channels and nothing else. -/
def FlagsFit (chip : Chip) : Prop :=
  (chip.peek (Dma1.base + Dma1.isr)).toNat < 0x10000000

theorem toNat_or_lt {a b : Word} (ha : a.toNat < 0x10000000) (hb : b.toNat < 0x10000000) :
    (a ||| b).toNat < 0x10000000 := by
  rw [BitVec.toNat_or]
  exact Nat.or_lt_two_pow (n := 28) ha hb

theorem toNat_and_lt {a : Word} (ha : a.toNat < 0x10000000) (b : Word) :
    (a &&& b).toNat < 0x10000000 := by
  rw [BitVec.toNat_and]
  exact Nat.lt_of_le_of_lt Nat.and_le_left ha

theorem toNat_flagsOf_lt (c : Channel) {flags : Word} (small : flags.toNat < 0x10) :
    (Dma1.flagsOf c flags).toNat < 0x10000000 := by
  have bound := c.isLt
  rw [Dma1.flagsOf, BitVec.toNat_shiftLeft, Nat.shiftLeft_eq]
  calc flags.toNat * 2 ^ (4 * c.val) % 2 ^ 32
      ≤ flags.toNat * 2 ^ (4 * c.val) := Nat.mod_le _ _
    _ ≤ 0xF * 2 ^ 24 :=
      Nat.mul_le_mul (by omega) (Nat.pow_le_pow_right (by omega) (by omega))
    _ < 0x10000000 := by decide

theorem toNat_flagsAfter_lt (chip : Chip) (c : Channel) (left : Word) :
    (chip.flagsAfter c left).toNat < 0x10000000 := by
  apply toNat_or_lt
  · split
    · exact toNat_flagsOf_lt c (by decide)
    · decide
  · split
    · exact toNat_flagsOf_lt c (by decide)
    · decide

theorem FlagsFit.store (effect : StoreEffect chip address value after) (holds : chip.FlagsFit) :
    after.FlagsFit := by
  rw [FlagsFit]
  obtain kept | ⟨-, cleared⟩ := effect.flags
  · rw [kept]
    exact holds
  · rw [cleared]
    exact toNat_and_lt holds _

theorem FlagsFit.turn (turn : Turn chip c after) (holds : chip.FlagsFit) : after.FlagsFit := by
  cases turn with
  | rest => exact holds
  | failed =>
    rw [FlagsFit, flags_busError]
    exact toNat_or_lt holds (toNat_flagsOf_lt c (by decide))
  | moved byte =>
    rw [FlagsFit, flags_moved]
    exact toNat_or_lt (FlagsFit.store (store_effect _ _ _) holds) (toNat_flagsAfter_lt _ _ _)

theorem flagsFit_preserved (allowed : Action → Prop) : Preserved allowed FlagsFit where
  unseen holds same := by
    rw [FlagsFit, same.peek]
    exact holds
  store holds _ effect := holds.store effect
  turn holds turn := holds.turn turn
  share holds _ _ := holds

/-! ## Every reachable state -/

/-- What the engine guarantees about its channels. -/
structure EngineSound (chip : Chip) : Prop where
  consistent : ∀ c, chip.Consistent c
  /-- The byte that an active channel fetches next lies in the buffer it was given. -/
  fetches : ∀ c, (chip.latch c).active = true → chip.itemsLeft c ≠ 0 →
    (chip.peek (Dma1.register c Dma1.cmar)).toNat ≤ (chip.latch c).memory.toNat ∧
      (chip.latch c).memory.toNat <
        (chip.peek (Dma1.register c Dma1.cmar)).toNat + (chip.latch c).reload.toNat
  /-- No write of a program and no item of a channel changes what an enabled channel works on. -/
  locked : ∀ c, chip.channelEnabled c = true → ∀ field ∈ [Dma1.cndtr, Dma1.cpar, Dma1.cmar],
    (∀ address value, (chip.write address value).peek (Dma1.register c field) =
      chip.peek (Dma1.register c field)) ∧
    ∀ d byte, (chip.stored d byte).peek (Dma1.register c field) =
      chip.peek (Dma1.register c field)
  flags : chip.FlagsFit

theorem EngineSound.of_consistent (consistent : ∀ c, chip.Consistent c) (flags : chip.FlagsFit) :
    chip.EngineSound where
  consistent := consistent
  fetches c active some_left := by
    have count := (consistent c).count_le active
    obtain ⟨low, high⟩ := (consistent c).memory active
    refine ⟨low, ?_⟩
    bv_omega
  locked c enabled field listed := by
    have small : field.toNat < 0x14 ∧ field ≠ Dma1.ccr := by
      simp only [List.mem_cons, List.not_mem_nil, or_false] at listed
      obtain rfl | rfl | rfl := listed <;> decide
    have kept {address value : Word} (start : Chip) (same : SameEngine chip start) :
        (start.store address value).peek (Dma1.register c field) =
          chip.peek (Dma1.register c field) := by
      have enabled' : start.channelEnabled c = true := by
        rw [channelEnabled, same.peek]
        exact enabled
      rw [(store_effect start address value).locked enabled' small.1 small.2, same.peek]
    constructor
    · intro address value
      exact kept { chip with written := chip.written.insert address value } ⟨rfl, rfl, rfl, rfl⟩
    · intro d byte
      exact kept chip ⟨rfl, rfl, rfl, rfl⟩
  flags := flags

/-- The states that a tick goes through between the turns of its channels. -/
def BetweenTurns (chip now : Chip) : Prop :=
  chip.clocked (.dma1 0) = true ∧
    ∃ served, (forM (Channel.all.take served) serveChannel).run chip.countedDown = .ok () now

/-- The engine is sound in every reachable state, and also between the turns of every tick. -/
theorem Reachable.engineSound (reachable : Reachable (fun _ => True) chip) :
    chip.EngineSound ∧ ∀ now, chip.BetweenTurns now → now.EngineSound := by
  have consistent : ∀ c, chip.Consistent c := reachable.consistent
  have flags : chip.FlagsFit := by
    apply reachable.invariant _ (flagsFit_preserved _)
    change (Chip.reset.peek (Dma1.base + Dma1.isr)).toNat < 0x10000000
    decide +kernel
  refine ⟨.of_consistent consistent flags, ?_⟩
  rintro now ⟨-, served, returned⟩
  have same : SameEngine chip chip.countedDown := ⟨rfl, rfl, rfl, rfl⟩
  apply EngineSound.of_consistent
  · have preserved := consistent_preserved fun _ => True
    exact preserved.turns (preserved.unseen consistent same) returned
  · have preserved := flagsFit_preserved fun _ => True
    exact preserved.turns (preserved.unseen flags same) returned

/-- A channel with one of two items moved, as a run of actions leads to it. -/
theorem Reachable.engineSound_after_item :
    ∃ chip : Chip, (chip.latch 0).active = true ∧ chip.itemsLeft 0 = 1 ∧
      chip.EngineSound ∧ ∀ now, chip.BetweenTurns now → now.EngineSound := by
  have start : Reachable (fun _ => True) Chip.reset := .reset
  have shared := Reachable.perform (.share #[7, 8]) (start.write Rcc.ahb1enr 1 trivial) trivial rfl
  have started := ((shared.write (Dma1.register 0 Dma1.cmar) 0x20000000 trivial).write
    (Dma1.register 0 Dma1.cndtr) 2 trivial).write (Dma1.register 0 Dma1.ccr) 0x91 trivial
  have moved := Reachable.perform .nop started trivial rfl
  exact ⟨_, rfl, rfl, moved.engineSound⟩

end Peripherals.Chip
