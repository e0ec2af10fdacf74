import Peripherals.Driver.Serial
import Peripherals.Proofs.ChipContracts
import Peripherals.Proofs.ShortPasses

/-! # What driver calls keep

A call that only accesses registers keeps, when it returns, whatever each of its
accesses keeps. Configuring a channel refuses a count of more than sixteen bits
and no other driver writes a count, so that drivers stay among the states that
short counts lead to. -/

namespace Peripherals

open Bus Chip

variable {α β : Type} {P : Chip → Prop}

/-! ## Properties that accesses keep -/

namespace Chip

/-- A property that is kept by reads, where they return, and by writes of no count of more than
sixteen bits. -/
structure AccessStable (P : Chip → Prop) : Prop where
  read : ∀ {chip after : Chip} {address value : Word}, P chip →
    (Target.load address : EStateM Fault Chip Word).run chip = .ok value after → P after
  write : ∀ {chip : Chip} {address value : Word}, P chip →
    (Action.write address value).Counted → P (chip.write address value)

/-- A read lets a tick pass and takes at most a received byte. -/
theorem AccessStable.of_tick
    (tick : ∀ {chip after : Chip}, P chip → Chip.tick.run chip = .ok () after → P after)
    (received : ∀ {chip : Chip} {rest}, P chip → P { chip with received := rest })
    (write : ∀ {chip : Chip} {address value : Word}, P chip → P (chip.write address value)) :
    AccessStable P where
  read {chip after address value} holds loaded := by
    obtain ⟨ticked, passed, loads⟩ := run_seq_eq_ok_iff.mp loaded
    obtain ⟨_, _, result⟩ | ⟨_, result⟩ := load_effect ticked address
    · obtain ⟨-, rfl⟩ := EStateM.Result.ok.inj (result.symm.trans loads)
      exact received (tick holds passed)
    · rw [result] at loads
      cases loads
  write holds _ := write holds

/-- Accesses lead from reachable states to reachable states. -/
theorem Reachable.accessStable : AccessStable (Reachable Action.Counted) where
  read {chip after address value} reachable loaded := by
    have performed : (Action.read address).perform.run chip = .ok () after :=
      run_bind_eq_ok_iff.mpr ⟨value, after, loaded, rfl⟩
    exact .perform (.read address) reachable trivial performed
  write reachable counted := reachable.write _ _ counted

theorem Action.counted_write {address : Word}
    (apart : ∀ c, address ≠ Dma1.register c Dma1.cndtr) (value : Word) :
    (Action.write address value).Counted :=
  fun c same => absurd same (apart c)

end Chip

/-! ## Calls that are made of accesses -/

namespace Bus

/-- When a computation returns, it has kept what accesses keep. -/
def OnlyAccesses (m : BusM Chip α) : Prop :=
  ∀ P, AccessStable P → Leads P m (fun _ => P) fun _ => True

theorem OnlyAccesses.of_keeps {m : BusM Chip α} (keeps : ∀ P : Chip → Prop, Keeps P m) :
    OnlyAccesses m :=
  fun P _ => Ends.weaken (keeps P) (fun _ _ holds => holds) fun _ _ => trivial

theorem OnlyAccesses.bind {m : BusM Chip α} {f : α → BusM Chip β} (first : OnlyAccesses m)
    (rest : ∀ a, OnlyAccesses (f a)) : OnlyAccesses (m >>= f) :=
  fun P stable => Leads.bind (first P stable) fun a => rest a P stable

theorem OnlyAccesses.pure (a : α) : OnlyAccesses (Pure.pure a) :=
  .of_keeps fun _ => Keeps.pure a

theorem OnlyAccesses.untilTrue {round : BusM Chip Bool} (each : OnlyAccesses round) :
    OnlyAccesses (untilTrue round) :=
  fun P stable => Ends.untilTrue (each P stable) fun _ _ => trivial

theorem OnlyAccesses.read (address : Word) : OnlyAccesses (read address) := by
  apply OnlyAccesses.bind (.of_keeps fun _ => Keeps.require address)
  intro _
  apply OnlyAccesses.bind (.of_keeps fun _ => Keeps.spend)
  intro _
  apply OnlyAccesses.bind
  · intro P stable
    apply Leads.onDevice
    intro chip holds
    split
    · next loaded => exact stable.read holds loaded
    · trivial
  · intro value
    apply OnlyAccesses.bind (.of_keeps fun _ => Keeps.record _)
    intro _
    exact .pure value

theorem OnlyAccesses.write {address value : Word}
    (counted : (Action.write address value).Counted) : OnlyAccesses (write address value) :=
  fun _ stable => Leads.write fun _ holds => stable.write holds counted

theorem OnlyAccesses.anySet (address mask : Word) : OnlyAccesses (anySet address mask) := by
  apply OnlyAccesses.bind (.read address)
  intro value
  exact .pure _

theorem OnlyAccesses.waitClear (address mask : Word) : OnlyAccesses (waitClear address mask) := by
  apply OnlyAccesses.untilTrue
  apply OnlyAccesses.bind (.anySet address mask)
  intro pending
  exact .pure _

theorem OnlyAccesses.update {address : Word} (apart : ∀ c, address ≠ Dma1.register c Dma1.cndtr)
    (f : Word → Word) : OnlyAccesses (update address f) := by
  apply OnlyAccesses.bind (.read address)
  intro value
  exact .write (Action.counted_write apart _)

end Bus

/-! ## Channels -/

namespace Dma

theorem register_not_count (c : Channel) {field : Word} (small : field.toNat < 0x14)
    (notCount : field ≠ Dma1.cndtr) (d : Channel) :
    Dma1.register c field ≠ Dma1.register d Dma1.cndtr :=
  Dma1.register_ne_register small Dma1.cndtr_inside (.inr notCount)

theorem usart3_not_count {address offset : Word} (decoded : Block.decode address = .usart3 offset)
    (c : Channel) : address ≠ Dma1.register c Dma1.cndtr := by
  rintro rfl
  rw [Dma1.decode_register c Dma1.cndtr_inside] at decoded
  cases decoded

theorem clear_not_count (d : Channel) :
    Dma1.base + Dma1.ifcr ≠ Dma1.register d Dma1.cndtr :=
  (Dma1.register_ne_clear d Dma1.cndtr_inside).symm

theorem stop_accesses (c : Channel) : OnlyAccesses (stop c) := by
  apply OnlyAccesses.bind (.update (register_not_count c Dma1.ccr_inside (by decide)) _)
  intro _
  exact .waitClear _ _

theorem start_accesses (c : Channel) (config : ChannelConfig) : OnlyAccesses (start c config) :=
  .write (Action.counted_write (register_not_count c Dma1.ccr_inside (by decide)) _)

theorem wait_accesses (c : Channel) : OnlyAccesses (wait c) :=
  .untilTrue (.anySet _ _)

/-- What configuring writes into the count has passed the check of its length. -/
theorem configure_accesses (c : Channel) (target source length : Word) :
    OnlyAccesses (configure c target source length) := by
  rw [configure]
  split
  · exact fun _ _ _ _ => trivial
  next fits =>
  have short : length.toNat ≤ 0xFFFF := by
    have bound : Dma1.countMax.toNat = 0xFFFF := rfl
    bv_omega
  have writes : OnlyAccesses (do
      Bus.write (Dma1.register c Dma1.cpar) target
      Bus.write (Dma1.register c Dma1.cmar) source
      Bus.write (Dma1.register c Dma1.cndtr) length
      clearFlags c) := by
    apply OnlyAccesses.bind (.write (Action.counted_write
      (register_not_count c Dma1.cpar_inside (by decide)) _))
    intro _
    apply OnlyAccesses.bind (.write (Action.counted_write
      (register_not_count c Dma1.cmar_inside (by decide)) _))
    intro _
    apply OnlyAccesses.bind (.write fun _ _ => short)
    intro _
    exact .write (Action.counted_write clear_not_count _)
  apply OnlyAccesses.bind (.anySet _ _)
  intro enabled
  cases enabled with
  | true =>
    apply OnlyAccesses.bind (stop_accesses c)
    intro _
    exact writes
  | false => exact writes

end Dma

end Peripherals
