import Peripherals.Proofs.PolledWrites
import Peripherals.Proofs.SharedLine

/-! # Histories of a shared line

A program shares buffers, gives them to channels, starts the channels and polls
bytes out, in any order and with anything in between that has nothing to do with
the line. At every point of such a history the line carries an interleaving of
what its producers produced. -/

namespace Peripherals

open Bus Chip

/-- What can have happened on a shared line since a first state, with the bytes that were polled
out and the buffers that channels were given. A call may stop in the middle, when its ticks run
out. Configuring counts when it returns: before that it only reads. -/
inductive Producing (first : Chip) : Chip → List Byte → (Channel → Option Region) → Prop
  | begin : Producing first first [] fun _ => none
  | beside {chip : Chip} {polled : List Byte} {feeds : Channel → Option Region}
      (call : Bystander) (ticks : Nat) (history : Producing first chip polled feeds) :
      Producing first (leaves call.perform ticks chip) polled feeds
  | share {chip : Chip} {polled : List Byte} {feeds : Channel → Option Region}
      {bytes : Array Byte} {address : Word} {after : Chip} (small : bytes.size < 0x100000000)
      (history : Producing first chip polled feeds)
      (returned : (Chip.share bytes).run chip = .ok address after) :
      Producing first after polled feeds
  | poll {chip : Chip} {polled : List Byte} {feeds : Channel → Option Region}
      (call : PolledCall) (ticks : Nat) (history : Producing first chip polled feeds) :
      Producing first (leaves call.perform ticks chip)
        (polled ++ Bus.polled (ends call.perform ticks chip).log) feeds
  | configure {chip : Chip} {polled : List Byte} {feeds : Channel → Option Region}
      {c : Channel} {region : Region} {ticks : Nat} {after : Session Chip} (free : feeds c = none)
      (shared : region ∈ chip.regions) (short : region.bytes.size ≤ 0xFFFF)
      (history : Producing first chip polled feeds)
      (returned : (Dma.configure c Serial.target region.base
        (BitVec.ofNat 32 region.bytes.size)).run ⟨chip, ticks, #[]⟩ = .ok () after) :
      Producing first after.device polled (Function.update feeds c (some region))
  | start {chip : Chip} {polled : List Byte} {feeds : Channel → Option Region}
      {c : Channel} {region : Region} (config : ChannelConfig) (ticks : Nat)
      (fed : feeds c = some region) (direction : config.direction = .fromMemory)
      (memory : config.memoryIncrement = true) (peripheral : config.peripheralIncrement = false)
      (once : config.circular = false) (history : Producing first chip polled feeds) :
      Producing first (leaves (Dma.start c config) ticks chip) polled feeds

variable {first chip : Chip} {c : Channel} {region : Region} {before polled : List Byte}
  {feeds : Channel → Option Region}

namespace Chip.Sharing

/-- Before anything is produced, the line is shared by nobody. -/
theorem begin (reachable : Reachable Action.Addressable first) (ready : first.LineReady)
    (idle : ∀ c, (first.latch c).active = false) :
    Sharing first.transmitted (fun _ => none) [] first where
  line := ready
  layout := reachable.layout
  idle c _ := by
    refine ⟨?_, idle c⟩
    rw [← (reachable.consistent c).active_eq]
    exact idle c
  feed c region given := by cases given
  ready c region given := by cases given
  merged := by
    refine ⟨[], (List.append_nil _).symm, .nil fun producer => ?_⟩
    cases producer <;> rfl

theorem configure_settles (free : feeds c = none) (short : region.bytes.size ≤ 0xFFFF) :
    Settles 1 (fun chip => Sharing before feeds polled chip ∧ region ∈ chip.regions)
      (Dma.configure c Serial.target region.base (BitVec.ofNat 32 region.bytes.size))
      fun _ => Sharing before (Function.update feeds c (some region)) polled := by
  apply Dma.configure_disabled_settles (toNat_ofNat_le short)
  · rintro chip ⟨sharing, member⟩
    obtain ⟨after, passed, sharing, regions⟩ := sharing.tick
    exact ⟨after, passed, sharing, regions ▸ member⟩
  · rintro chip ⟨sharing, -⟩
    exact sharing.line.dmaClocked
  · rintro chip ⟨sharing, -⟩
    exact (sharing.idle c free).1
  · rintro chip ⟨sharing, member⟩
    exact sharing.of_programmed free member short (programmed_spec sharing.line.dmaClocked
      (sharing.idle c free).1 Serial.target region.base (BitVec.ofNat 32 region.bytes.size))

end Chip.Sharing

theorem Chip.Sharing.poll (call : PolledCall) :
    Maintains (Accounted (Sharing before feeds) polled) call.perform :=
  call.accounted (Sharing.steady before feeds) (fun _ byte _ sharing => sharing.of_polled byte) _

/-- Every history leaves the line shared by what was produced in it. -/
theorem Producing.sharing (begun : Sharing first.transmitted (fun _ => none) [] first)
    (history : Producing first chip polled feeds) :
    Sharing first.transmitted feeds polled chip := by
  induction history with
  | begin => exact begun
  | beside call ticks history ih =>
    exact (call.keeps (Sharing.steady _ _ _)).leaves ticks ih
  | share small history returned ih =>
    rw [run_share] at returned
    split at returned
    · next next fits =>
      obtain ⟨-, rfl⟩ := EStateM.Result.ok.inj returned
      exact ih.of_shared small fits
    · cases returned
  | poll call ticks history ih =>
    apply (Sharing.poll call).ends ticks
    rw [Accounted]
    simpa [Bus.polled] using ih
  | configure free shared short history returned ih =>
    next chip _ _ _ _ ticks after =>
    have settled := Sharing.configure_settles free short ⟨chip, ticks, #[]⟩ ⟨ih, shared⟩
    rw [returned] at settled
    exact settled.1
  | start config ticks fed direction memory peripheral once history ih =>
    exact ih.of_started fed (ChannelConfig.control_enables _)
      (ChannelConfig.streams direction memory peripheral once) (controlled ih.line.dmaClocked _)

/-- At every point of a history, the bytes on the line are an interleaving of those that were
polled out and of the first bytes of every channel's buffer, as many as its count says. -/
theorem Producing.interleaved (reachable : Reachable Action.Addressable first)
    (ready : first.LineReady) (idle : ∀ c, (first.latch c).active = false)
    (history : Producing first chip polled feeds) :
    (∀ c region, feeds c = some region → (chip.itemsLeft c).toNat ≤ region.bytes.size) ∧
      (∃ out, chip.transmitted = first.transmitted ++ out ∧
        Interleaves (chip.produced feeds polled) out) ∧
      ∀ (call : PolledCall) ticks log after, call.perform.run ⟨chip, ticks, log⟩ = .ok () after →
        Bus.polled after.log = Bus.polled log ++ call.bytes := by
  have sharing := history.sharing (.begin reachable ready idle)
  refine ⟨fun c region given => (sharing.feed c region given).count_le, sharing.merged, ?_⟩
  intro call ticks log after returned
  have wrote := call.polls (Bus.polled log) ⟨chip, ticks, log⟩ rfl
  rw [returned] at wrote
  exact wrote

theorem Producing.interleaved_of_two : ∃ chip feeds,
    Producing .broughtUp chip [9] feeds ∧ feeds 2 = some ⟨0x20000000, #[7, 8]⟩ ∧
      (∀ c region, feeds c = some region → (chip.itemsLeft c).toNat ≤ region.bytes.size) ∧
      (∃ out, chip.transmitted = [] ++ out ∧ Interleaves (chip.produced feeds [9]) out) ∧
      ∀ (call : PolledCall) ticks log after, call.perform.run ⟨chip, ticks, log⟩ = .ok () after →
        Bus.polled after.log = Bus.polled log ++ call.bytes := by
  have begun : Producing .broughtUp .broughtUp [] fun _ => none := .begin
  have returned : (Dma.configure 2 Serial.target 0x20000000 2).run ⟨broughtUp, 1, #[]⟩ =
      .ok () _ := rfl
  have configured : Producing .broughtUp _ [] (Function.update (fun _ => none) 2
      (some ⟨0x20000000, #[7, 8]⟩)) :=
    .configure rfl broughtUp_shares (by decide) begun returned
  have started := Producing.start .default 0 (Function.update_self _ _ _) rfl rfl rfl rfl configured
  have history := Producing.poll (.sendByte 9) 1 started
  have idle (c : Channel) : (broughtUp.latch c).active = false := (broughtUp_idle c).2
  exact ⟨_, _, history, rfl,
    history.interleaved broughtUp_reachable.addressable broughtUp_ready idle⟩

end Peripherals
