import Peripherals.Proofs.ChannelProgress
import Peripherals.Proofs.GatedBlocks

/-! # A channel that is set up again

Setting up a disabled channel replaces everything that the channel works with
and clears its flags. So nothing is left of what the channel did before: two
chips that differ only in what the channel left behind become one and the same,
whether it came to the end of its buffer, was stopped, or failed. -/

namespace Peripherals

open Bus

namespace Chip

variable {chip other : Chip} {c d : Channel} {config : ChannelConfig}
  {target source length address : Word}

/-- The four registers of a channel. -/
def channelRegisters (c : Channel) : List Word :=
  [Dma1.register c Dma1.ccr, Dma1.register c Dma1.cndtr, Dma1.register c Dma1.cpar,
    Dma1.register c Dma1.cmar]

/-- Both chips are the same, except for a channel's registers, flags and latch. -/
structure SameBeside (c : Channel) (chip other : Chip) : Prop where
  registers : ∀ address ∉ channelRegisters c, address ≠ Dma1.base + Dma1.isr →
    other.peek address = chip.peek address
  flags : other.peek (Dma1.base + Dma1.isr) &&&
      ~~~Dma1.flagsOf c (Dma1.channelFlags ||| Dma1.globalFlag) =
    chip.peek (Dma1.base + Dma1.isr) &&&
      ~~~Dma1.flagsOf c (Dma1.channelFlags ||| Dma1.globalFlag)
  latches : ∀ d, d ≠ c → other.latch d = chip.latch d
  rest : other = { chip with registers := other.registers, channels := other.channels }

/-! ## What the writes leave alone -/

/-- A write into DMA1 changes its own register or the flags. -/
theorem peek_write_dma {place offset : Word} (decoded : Block.decode place = .dma1 offset)
    (notOwn : place ≠ address) (notFlags : address ≠ Dma1.base + Dma1.isr) (chip : Chip)
    (value : Word) : (chip.write place value).peek address = chip.peek address := by
  have effect : StoreEffect (chip.noted place value) place value (chip.write place value) :=
    store_effect _ _ _
  refine Gated.peek_of_store effect notOwn ?_ fun _ => notFlags.symm
  intro port field lies inside _
  rw [lies, Block.decode_eq_gpio_iff.mpr ⟨rfl, inside⟩] at decoded
  cases decoded

/-- A write into DMA1 changes registers and latches, and what was last written there. -/
theorem write_dma_rest {place offset : Word} (decoded : Block.decode place = .dma1 offset)
    (chip : Chip) (value : Word) : ∃ registers channels, chip.write place value =
      { chip with
        written := chip.written.insert place value
        registers := registers
        channels := channels } := by
  have effect : StoreEffect (chip.noted place value) place value (chip.write place value) :=
    store_effect _ _ _
  generalize chip.write place value = after at effect ⊢
  cases effect with
  | lost => exact ⟨_, _, rfl⟩
  | output port field _ lies inside =>
    rw [lies, Block.decode_eq_gpio_iff.mpr ⟨rfl, inside⟩] at decoded
    cases decoded
  | sent lies =>
    rw [lies, decode_data] at decoded
    cases decoded
  | cleared | replaced => exact ⟨_, _, rfl⟩
  | control d =>
    obtain ⟨registers, channels, same⟩ := Gated.storeControl_eq (chip.noted place value) d value
    exact ⟨registers, channels, same⟩

theorem decode_clear : Block.decode (Dma1.base + Dma1.ifcr) = .dma1 Dma1.ifcr := rfl

/-- A write into the clear register changes only flags, not even that register. -/
theorem peek_write_clear (notFlags : address ≠ Dma1.base + Dma1.isr) (chip : Chip) (value : Word) :
    (chip.write (Dma1.base + Dma1.ifcr) value).peek address = chip.peek address := by
  by_cases clocked : chip.clocked (.dma1 0) = true
  · rw [write_clear clocked, peek_poke, if_neg notFlags.symm]
    rfl
  · have frozen : (chip.noted (Dma1.base + Dma1.ifcr) value).clocked (.dma1 Dma1.ifcr) ≠ true :=
      clocked
    change ((chip.noted (Dma1.base + Dma1.ifcr) value).store _ value).peek address = _
    rw [store, decode_clear, if_neg frozen]
    rfl

/-- Setting up a channel changes the channel's registers, and flags. -/
theorem peek_setUp (outside : address ∉ channelRegisters c)
    (notFlags : address ≠ Dma1.base + Dma1.isr) (chip : Chip) (target source length : Word)
    (config : ChannelConfig) :
    (chip.setUp c target source length config).peek address = chip.peek address := by
  simp only [channelRegisters, List.mem_cons, List.not_mem_nil, or_false, not_or] at outside
  obtain ⟨control, count, peripheral, memory⟩ := outside
  rw [Chip.setUp, programmed,
    peek_write_dma (Dma1.decode_register c Dma1.ccr_inside) (Ne.symm control) notFlags,
    peek_write_clear notFlags,
    peek_write_dma (Dma1.decode_register c Dma1.cndtr_inside) (Ne.symm count) notFlags,
    peek_write_dma (Dma1.decode_register c Dma1.cmar_inside) (Ne.symm memory) notFlags,
    peek_write_dma (Dma1.decode_register c Dma1.cpar_inside) (Ne.symm peripheral) notFlags]

/-- Setting up a channel remembers five written values, whatever was stored of them. -/
theorem setUp_rest (chip : Chip) (c : Channel) (target source length : Word)
    (config : ChannelConfig) : ∃ registers channels,
      chip.setUp c target source length config =
        { chip with
          written := ((((chip.written.insert (Dma1.register c Dma1.cpar) target).insert
            (Dma1.register c Dma1.cmar) source).insert (Dma1.register c Dma1.cndtr) length).insert
            (Dma1.base + Dma1.ifcr) (Dma1.flagsOf c (Dma1.channelFlags ||| Dma1.globalFlag))).insert
            (Dma1.register c Dma1.ccr) (config.bits ||| Dma1.enable)
          registers := registers
          channels := channels } := by
  rw [Chip.setUp, programmed]
  obtain ⟨_, _, first⟩ := write_dma_rest (Dma1.decode_register c Dma1.cpar_inside) chip target
  rw [first]
  obtain ⟨_, _, second⟩ := write_dma_rest (Dma1.decode_register c Dma1.cmar_inside) _ source
  rw [second]
  obtain ⟨_, _, third⟩ := write_dma_rest (Dma1.decode_register c Dma1.cndtr_inside) _ length
  rw [third]
  obtain ⟨_, _, fourth⟩ := write_dma_rest decode_clear _
    (Dma1.flagsOf c (Dma1.channelFlags ||| Dma1.globalFlag))
  rw [fourth]
  obtain ⟨registers, channels, last⟩ := write_dma_rest (Dma1.decode_register c Dma1.ccr_inside) _
    (config.bits ||| Dma1.enable)
  rw [last]
  exact ⟨registers, channels, rfl⟩

/-! ## What is left of the past -/

theorem channelRegisters_decode (member : address ∈ channelRegisters c) :
    ∃ offset, Block.decode address = .dma1 offset := by
  simp only [channelRegisters, List.mem_cons, List.not_mem_nil, or_false] at member
  obtain rfl | rfl | rfl | rfl := member
  · exact ⟨_, Dma1.decode_register c Dma1.ccr_inside⟩
  · exact ⟨_, Dma1.decode_register c Dma1.cndtr_inside⟩
  · exact ⟨_, Dma1.decode_register c Dma1.cpar_inside⟩
  · exact ⟨_, Dma1.decode_register c Dma1.cmar_inside⟩

theorem SameBeside.clocked_dma (same : SameBeside c chip other) :
    other.clocked (.dma1 0) = chip.clocked (.dma1 0) := by
  have gate : other.peek Rcc.ahb1enr = chip.peek Rcc.ahb1enr := by
    apply same.registers _ _ (by decide)
    intro member
    obtain ⟨_, decoded⟩ := channelRegisters_decode member
    cases decoded
  rw [Chip.clocked, gate]
  rfl

/-- A chip is known by its registers, its latches and the rest. -/
theorem eq_of_parts {first second : Chip} (registers : ∀ address, first.peek address =
    second.peek address) (latches : ∀ d, first.latch d = second.latch d)
    (rest : first = { second with registers := first.registers, channels := first.channels }) :
    first = second := by
  have contents : first.registers = second.registers := Registers.ext registers
  have channels : first.channels = second.channels := Vector.ext fun i inside =>
    latches ⟨i, inside⟩
  rw [rest, contents, channels]

/-- Setting up a disabled channel leaves nothing of what the channel did before. -/
theorem SameBeside.setUp_eq (same : SameBeside c chip other)
    (clocked : chip.clocked (.dma1 0) = true) (disabled : chip.channelEnabled c = false)
    (disabled' : other.channelEnabled c = false) (target source length : Word)
    (config : ChannelConfig) :
    other.setUp c target source length config = chip.setUp c target source length config := by
  have renewed := renewed_setUp clocked disabled target source length config
  have renewed' := renewed_setUp (same.clocked_dma.trans clocked) disabled' target source length
    config
  apply eq_of_parts
  · intro address
    by_cases flags : address = Dma1.base + Dma1.isr
    · rw [flags, renewed.flags, renewed'.flags, same.flags]
    by_cases own : address ∈ channelRegisters c
    · simp only [channelRegisters, List.mem_cons, List.not_mem_nil, or_false] at own
      obtain rfl | rfl | rfl | rfl := own
      · exact renewed'.control.trans renewed.control.symm
      · exact renewed'.left.trans renewed.left.symm
      · exact renewed'.target.trans renewed.target.symm
      · exact renewed'.source.trans renewed.source.symm
    · rw [peek_setUp own flags, peek_setUp own flags, same.registers address own flags]
  · intro d
    by_cases own : d = c
    · rw [own, renewed'.latch, renewed.latch]
    · rw [(renewed'.confined.others d own).latch, (renewed.confined.others d own).latch,
        same.latches d own]
  · obtain ⟨_, _, left⟩ := setUp_rest chip c target source length config
    obtain ⟨_, _, left'⟩ := setUp_rest other c target source length config
    rw [left, left', same.rest]

theorem SameBeside.countedDown (same : SameBeside c chip other) :
    SameBeside c chip.countedDown other.countedDown where
  registers := same.registers
  flags := same.flags
  latches := same.latches
  rest := congrArg Chip.countedDown same.rest

/-- Setting up a channel takes a tick and returns, after which the channel is at its first item, and
the chip is the same as if the channel had been idle before. -/
def Renewable (c : Channel) (chip : Chip) : Prop :=
  ∀ other, SameBeside c chip other → (other.latch c).active = false →
    other.channelEnabled c = false →
    ∀ target source n config ticks log, n ≤ 0xFFFF → ∃ after log₁ log₂,
      (Dma.setUp c target source (BitVec.ofNat 32 n) config).run ⟨chip, ticks + 1, log⟩ =
        .ok () ⟨after, ticks, log₁⟩ ∧
      (Dma.setUp c target source (BitVec.ofNat 32 n) config).run ⟨other, ticks + 1, log⟩ =
        .ok () ⟨after, ticks, log₂⟩ ∧
      (1 ≤ n → Progress c config target source n 0 after)

/-- A disabled channel can be set up again where no channel works. -/
theorem renewable_of_idle (clocked : chip.clocked (.dma1 0) = true)
    (idle : ∀ d, (chip.latch d).active = false) (disabled : chip.channelEnabled c = false) :
    Renewable c chip := by
  intro other same inactive disabled' target source n config ticks log short
  have small : (BitVec.ofNat 32 n).toNat ≤ 0xFFFF := by bv_omega
  have idle' (d : Channel) : (other.latch d).active = false := by
    by_cases own : d = c
    · rw [own]
      exact inactive
    · rw [same.latches d own]
      exact idle d
  obtain ⟨log₁, ran⟩ := Dma.run_setUp_idle clocked idle disabled target source _ small config
    ticks log
  obtain ⟨log₂, ran'⟩ := Dma.run_setUp_idle (same.clocked_dma.trans clocked) idle' disabled' target
    source _ small config ticks log
  rw [same.countedDown.setUp_eq clocked disabled disabled'] at ran'
  have on : chip.countedDown.clocked (.dma1 0) = true := clocked
  have renewed := renewed_setUp on disabled target source (BitVec.ofNat 32 n) config
  exact ⟨_, log₁, log₂, ran, ran', renewed.progress⟩

end Chip

/-! ## A chip to start from -/

/-- On the chip that was brought up, any channel can be set up, and then is the only one that
works. -/
theorem Dma.setUp_broughtUp (c : Channel) (target source length : Word)
    (short : length.toNat ≤ 0xFFFF) (config : ChannelConfig) :
    ∃ started log, (Dma.setUp c target source length config).run ⟨Chip.broughtUp, 1, #[]⟩ =
        .ok () ⟨started, 0, log⟩ ∧
      started.LineReady ∧ (∀ d, d ≠ c → (started.latch d).active = false) ∧
      ⟨0x20000000, #[7, 8]⟩ ∈ started.regions ∧ started.transmitted = [] ∧ started.busy = 0 ∧
      started.latency = 0 := by
  have disabled : Chip.broughtUp.countedDown.channelEnabled c = false := (Chip.broughtUp_idle c).1
  have inactive (d : Channel) : (Chip.broughtUp.latch d).active = false :=
    (Chip.broughtUp_idle d).2
  have ready : Chip.broughtUp.countedDown.LineReady :=
    Chip.broughtUp_ready.of_same Chip.broughtUp.countedDown_undisturbed.line
  obtain ⟨log, ran⟩ := Dma.run_setUp_idle Chip.broughtUp_ready.dmaClocked inactive disabled target
    source length short config 0 #[]
  have renewed := Chip.renewed_setUp ready.dmaClocked disabled target source length config
  have confined := renewed.confined
  obtain ⟨_, _, rest⟩ := Chip.broughtUp.countedDown.setUp_rest c target source length config
  generalize Chip.broughtUp.countedDown.setUp c target source length config = started at *
  refine ⟨started, log, ran, ready.of_same confined.line, fun d ne => ?_, ?_, ?_, ?_⟩
  · rw [(confined.others d ne).latch]
    exact inactive d
  · rw [confined.memory.1]
    exact Chip.broughtUp_shares
  · rw [confined.transmitted]
    decide +kernel
  · rw [rest]
    exact ⟨rfl, rfl⟩

end Peripherals
