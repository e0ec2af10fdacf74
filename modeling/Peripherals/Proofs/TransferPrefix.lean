import Peripherals.Proofs.Bystanders
import Peripherals.Proofs.EngineConsistency
import Peripherals.Proofs.SingleTransfer

/-! # The prefix that a transfer has sent

A channel is configured and started on a shared buffer, and then anything goes
that has nothing to do with the line, in any order, and the channel may be
stopped at any time. At every point the channel has put exactly a prefix of its
buffer on the line, its count says which one, and its flags agree. -/

namespace Peripherals

open Bus Chip

variable {chip : Chip} {c : Channel} {region : Region} {before : List Byte}

/-! ## Configuring and starting -/

theorem Dma.configure_vacant (short : region.bytes.size ≤ 0xFFFF) :
    Settles 1 (Vacant before c region)
      (Dma.configure c Serial.target region.base (BitVec.ofNat 32 region.bytes.size))
      fun _ => Prepared before c region := by
  apply Dma.configure_disabled_settles (toNat_ofNat_le short)
  · intro chip vacant
    exact ⟨chip.countedDown, vacant.tick, vacant.countedDown⟩
  · intro chip vacant
    exact vacant.line.dmaClocked
  · intro chip vacant
    exact vacant.disabled
  · intro chip vacant
    exact vacant.prepared

theorem Dma.start_prepared {config : ChannelConfig} (nonempty : 1 ≤ region.bytes.size)
    (short : region.bytes.size ≤ 0xFFFF) (streams : Streams (config.bits ||| Dma1.enable)) :
    Settles 0 (Prepared before c region) (Dma.start c config) fun _ =>
      Sending before c region := by
  apply Settles.write
  intro chip prepared
  exact (prepared.start nonempty short config.control_enables streams
    (controlled prepared.vacant.line.dmaClocked _)).1

/-! ## Calls while the transfer is under way -/

/-- A call while a channel is sending: one beside the line, or one that stops the channel. -/
inductive TransferCall
  | beside (call : Bystander)
  | stop

/-- What a call does, for the channel that is sending. -/
def TransferCall.perform (c : Channel) : TransferCall → BusM Chip Unit
  | .beside call => call.perform
  | .stop => Dma.stop c

/-- Where calls leave the chip, each with the ticks that it gets. -/
def leavesAll (c : Channel) (calls : List (Nat × TransferCall)) (chip : Chip) : Chip :=
  calls.foldl (fun chip call => leaves (call.2.perform c) call.1 chip) chip

theorem Dma.stop_keeps : Keeps (Sending before c region) (Dma.stop c : BusM Chip Unit) := by
  have steady := Sending.steady before c region
  apply Keeps.bind
  · apply Keeps.bind (Keeps.read steady _)
    intro value
    apply Leads.write
    intro chip sending
    exact sending.of_stop (and_not_and_self value) (controlled sending.line.dmaClocked _)
  · intro _
    exact Keeps.waitClear steady _ _

theorem TransferCall.keeps (call : TransferCall) :
    Keeps (Sending before c region) (call.perform c) := by
  cases call with
  | beside call => exact call.keeps (Sending.steady before c region)
  | stop => exact Dma.stop_keeps

theorem leavesAll_keeps (calls : List (Nat × TransferCall))
    (sending : Sending before c region chip) :
    Sending before c region (leavesAll c calls chip) := by
  induction calls generalizing chip with
  | nil => exact sending
  | cons call rest ih => exact ih (call.2.keeps.leaves call.1 sending)

/-! ## What has been sent -/

/-- A channel put exactly a prefix of a buffer on the line, as its count and its flags say. -/
structure PrefixSent (before : List Byte) (c : Channel) (region : Region) (chip : Chip) : Prop where
  count_le : (chip.itemsLeft c).toNat ≤ region.bytes.size
  /-- Behind what had been transmitted before, there are the first bytes of the buffer. -/
  transmitted : chip.transmitted = before ++ region.bytes.toList.take (chip.movedCount c region)
  /-- Asking for the rest lets a tick pass, and the answer is what is left after that tick. -/
  remaining : ∀ ticks log, ∃ left after,
    (Dma.remaining c).run ⟨chip, ticks + 1, log⟩ = .ok left after ∧
      Chip.tick.run chip = .ok () after.device ∧
      left.toNat = region.bytes.size - after.device.movedCount c region
  complete : chip.FlagRaised c .complete ↔ chip.movedCount c region = region.bytes.size
  half : chip.FlagRaised c .half ↔ 1 ≤ chip.movedCount c region ∧
    region.bytes.size - chip.movedCount c region ≤ region.bytes.size / 2
  error : ¬ chip.FlagRaised c .error

theorem Chip.Sending.prefixSent (nonempty : 1 ≤ region.bytes.size)
    (sending : Sending before c region chip) : PrefixSent before c region chip where
  count_le := sending.feed.count_le
  transmitted := sending.transmitted
  remaining ticks log := by
    obtain ⟨after, passed, sending', -⟩ := sending.tick
    have count := sending'.feed.count_le
    have short := sending'.feed.short
    have loaded : (load (Dma1.register c Dma1.cndtr)).run after = .ok (after.itemsLeft c) after :=
      load_dma sending'.line.dmaClocked (Dma1.decode_register c Dma1.cndtr_inside)
    refine ⟨after.itemsLeft c &&& Dma1.countMax,
      ⟨after, ticks, log.push (.read (Dma1.register c Dma1.cndtr) (after.itemsLeft c))⟩,
      ?_, passed, ?_⟩
    · rw [Dma.remaining, EStateM.run_bind, run_read passed loaded]
      rfl
    · have low : (after.itemsLeft c &&& Dma1.countMax).toNat = (after.itemsLeft c).toNat := by
        rw [BitVec.toNat_and]
        exact (Nat.and_two_pow_sub_one_eq_mod _ 16).trans (Nat.mod_eq_of_lt (by omega))
      change (after.itemsLeft c &&& Dma1.countMax).toNat =
        region.bytes.size - after.movedCount c region
      rw [low, movedCount]
      omega
  complete := by
    have count := sending.feed.count_le
    rw [sending.tell.complete, movedCount]
    bv_omega
  half := by
    have count := sending.feed.count_le
    rw [sending.tell.half, movedCount]
    bv_omega
  error := sending.tell.error

/-- From when it is started, a channel that is alone on the line has sent exactly a prefix of its
buffer, at every point and in whatever order calls beside the line and stops follow. -/
theorem transfer_sends_prefix {first : Chip} {config : ChannelConfig}
    (reachable : Reachable Action.Addressable first) (ready : first.LineReady)
    (disabled : first.channelEnabled c = false)
    (alone : ∀ d, d ≠ c → (first.latch d).active = false) (shared : region ∈ first.regions)
    (nonempty : 1 ≤ region.bytes.size) (short : region.bytes.size ≤ 0xFFFF)
    (direction : config.direction = .fromMemory) (memory : config.memoryIncrement = true)
    (peripheral : config.peripheralIncrement = false) (once : config.circular = false)
    (ticks : Nat) (log : Array Access) :
    ∃ started, (do
        Dma.configure c Serial.target region.base (BitVec.ofNat 32 region.bytes.size)
        Dma.start c config : BusM Chip Unit).run ⟨first, ticks + 1, log⟩ = .ok () started ∧
      ∀ calls, PrefixSent first.transmitted c region (leavesAll c calls started.device) := by
  have vacant : Vacant first.transmitted c region first := by
    refine ⟨ready, reachable.layout, disabled, fun d => ?_, shared, rfl⟩
    by_cases same : d = c
    · rw [same, (reachable.consistent c).active_eq, disabled]
    · exact alone d same
  have streams := ChannelConfig.streams direction memory peripheral once
  have settles : Settles (1 + 0) (Vacant first.transmitted c region) (do
      Dma.configure c Serial.target region.base (BitVec.ofNat 32 region.bytes.size)
      Dma.start c config : BusM Chip Unit) fun _ => Sending first.transmitted c region :=
    Settles.bind (Dma.configure_vacant short) fun _ => Dma.start_prepared nonempty short streams
  have reached := settles ⟨first, ticks + 1, log⟩ vacant
  split at reached
  · next started ended =>
    refine ⟨started, ended, fun calls => ?_⟩
    exact (leavesAll_keeps calls reached.1).prefixSent nonempty
  · obtain ⟨-, few⟩ := reached
    change ticks + 1 < 1 at few
    omega

theorem transfer_sends_prefix_of_two :
    ∃ started, (do
        Dma.configure 2 Serial.target 0x20000000 2
        Dma.start 2 .default : BusM Chip Unit).run ⟨.broughtUp, 1, #[]⟩ = .ok () started ∧
      ∀ calls, PrefixSent [] 2 ⟨0x20000000, #[7, 8]⟩ (leavesAll 2 calls started.device) :=
  transfer_sends_prefix broughtUp_reachable.addressable broughtUp_ready (broughtUp_idle 2).1
    (fun d _ => (broughtUp_idle d).2) broughtUp_shares (by decide) (by decide) rfl rfl rfl rfl 0 #[]

end Peripherals
