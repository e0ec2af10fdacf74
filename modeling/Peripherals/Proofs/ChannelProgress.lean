import Peripherals.Proofs.LinePacing
import Peripherals.Proofs.SingleTransfer
import Peripherals.Proofs.StreamLaunch

/-! # How far a channel has come

Programming a channel and starting it, when it returns, leads to a channel at
its first item, whatever the channel did before. From then on its latch, its
count and its flags are functions of the number of items that it has moved, for
every target and every configuration, and whether or not the buffer is as long
as the count says. -/

namespace Peripherals

open Bus Chip

namespace Chip

variable {chip after : Chip} {c : Channel} {config : ChannelConfig} {target source : Word}
  {n k : Nat} {byte : Byte}

/-! ## One item more -/

/-- The channel has moved `k` items since it was started on `n` items. -/
structure Progress (c : Channel) (config : ChannelConfig) (target source : Word) (n k : Nat)
    (chip : Chip) : Prop where
  latch : chip.latch c = ⟨true, source + BitVec.ofNat 32 (config.sourceAt n k),
    target + BitVec.ofNat 32 (config.targetAt n k), BitVec.ofNat 32 n⟩
  left : chip.itemsLeft c = BitVec.ofNat 32 (n - config.place n k)
  control : chip.controlOf c = config.bits ||| Dma1.enable
  source : chip.peek (Dma1.register c Dma1.cmar) = source
  target : chip.peek (Dma1.register c Dma1.cpar) = target
  complete : chip.FlagRaised c .complete ↔ n ≤ k
  half : chip.FlagRaised c .half ↔ n ≤ 2 * k ∧ 1 ≤ k
  error : ¬ chip.FlagRaised c .error
  few : config.circular = false → k ≤ n

/-- Only what belongs to the channel matters. -/
theorem Progress.of_same (progress : Progress c config target source n k chip)
    (same : SameChannel c chip after)
    (flags : ∀ flag, after.FlagRaised c flag ↔ chip.FlagRaised c flag) :
    Progress c config target source n k after where
  latch := same.latch.trans progress.latch
  left := same.itemsLeft.trans progress.left
  control := same.controlOf.trans progress.control
  source := (same.register _ Dma1.cmar_inside).trans progress.source
  target := (same.register _ Dma1.cpar_inside).trans progress.target
  complete := (flags .complete).trans progress.complete
  half := (flags .half).trans progress.half
  error raised := progress.error ((flags .error).mp raised)
  few := progress.few

theorem Progress.place_le (progress : Progress c config target source n k chip)
    (nonempty : 1 ≤ n) : config.place n k ≤ n := by
  cases circular : config.circular with
  | true => exact Nat.le_of_lt (ChannelConfig.place_lt circular nonempty k)
  | false =>
    rw [ChannelConfig.place, circular]
    exact progress.few circular

theorem flagRaised_iff_of_eq
    (same : after.peek (Dma1.base + Dma1.isr) = chip.peek (Dma1.base + Dma1.isr))
    (flag : TransferFlag) : after.FlagRaised c flag ↔ chip.FlagRaised c flag := by
  rw [FlagRaised, same, FlagRaised]

/-- The first item after the middle of the first pass is the one that leaves half of it. -/
theorem half_succ (inside : config.place n k < n) :
    (n ≤ 2 * k ∧ 1 ≤ k) ∨ n - (config.place n k + 1) = n / 2 ↔ n ≤ 2 * (k + 1) ∧ 1 ≤ k + 1 := by
  by_cases first : k < n
  · rw [ChannelConfig.place_of_lt first]
    omega
  · omega

/-- A moved item is one item more, if its store leaves the channel and the flags alone. -/
theorem Progress.moved (progress : Progress c config target source n k chip)
    (short : n ≤ 0xFFFF) (inside : config.place n k < n)
    (own : SameChannel c chip (chip.stored c byte))
    (flags : (chip.stored c byte).peek (Dma1.base + Dma1.isr) =
      chip.peek (Dma1.base + Dma1.isr)) :
    Progress c config target source n (k + 1) (chip.moved c byte) := by
  have control := progress.control
  have left := progress.left
  have less : chip.itemsLeft c - 1 = BitVec.ofNat 32 (n - (config.place n k + 1)) := by
    rw [left]
    bv_omega
  have last : chip.itemsLeft c - 1 = 0 ↔ config.place n k + 1 = n := by
    rw [less]
    bv_omega
  have middle : chip.itemsLeft c - 1 = BitVec.ofNat 32 n / 2 ↔
      n - (config.place n k + 1) = n / 2 := by
    have half : (BitVec.ofNat 32 n / 2).toNat = n / 2 := by
      rw [BitVec.toNat_udiv, BitVec.toNat_ofNat, Nat.mod_eq_of_lt (by omega)]
      rfl
    rw [less, ← BitVec.toNat_inj, half, BitVec.toNat_ofNat, Nat.mod_eq_of_lt (by omega)]
  have wraps : (chip.itemsLeft c - 1 = 0 ∧ chip.controlOf c &&& Dma1.circular ≠ 0) ↔
      (config.place n k + 1 = n ∧ config.circular = true) := by
    rw [last, control, ChannelConfig.control_circular_iff]
  have memory (pointer : Word) : (if (config.bits ||| Dma1.enable) &&& Dma1.memoryIncrement = 0
      then pointer else pointer + 1) =
      pointer + BitVec.ofNat 32 (if config.memoryIncrement then 1 else 0) := by
    have set := config.control_memoryIncrement_iff
    cases increments : config.memoryIncrement <;> simp_all
  have peripheral (pointer : Word) :
      (if (config.bits ||| Dma1.enable) &&& Dma1.peripheralIncrement = 0
        then pointer else pointer + 1) =
      pointer + BitVec.ofNat 32 (if config.peripheralIncrement then 1 else 0) := by
    have set := config.control_peripheralIncrement_iff
    cases increments : config.peripheralIncrement <;> simp_all
  have register {field : Word} (small : field.toNat < 0x14) (ne : Dma1.cndtr ≠ field) :
      (chip.moved c byte).peek (Dma1.register c field) = chip.peek (Dma1.register c field) := by
    rw [peek_moved _ _ _ (Dma1.register_ne_flags c small)
      (Dma1.register_ne_register small Dma1.cndtr_inside (.inr ne.symm)), own.register _ small]
  have reload : (((chip.stored c byte).setLatch c (chip.stepped c byte)).latch c).reload =
      BitVec.ofNat 32 n := by
    rw [latch_setLatch, if_pos rfl]
    change ((chip.stored c byte).latch c).reload = _
    rw [own.latch, progress.latch]
  have raised (flag : TransferFlag) : (chip.moved c byte).FlagRaised c flag ↔
      chip.FlagRaised c flag ∨
        ((chip.stored c byte).setLatch c (chip.stepped c byte)).flagsAfter c
          (chip.itemsLeft c - 1) &&& Dma1.flagsOf c flag.bit ≠ 0 := by
    rw [FlagRaised, flags_moved, or_and_ne_zero_iff, flags, ← FlagRaised]
  constructor
  · rw [latch_moved, Chip.stepped, own.latch, progress.latch, control,
      own.register _ Dma1.cmar_inside, own.register _ Dma1.cpar_inside, progress.source,
      progress.target, ChannelConfig.sourceAt_succ inside, ChannelConfig.targetAt_succ inside,
      ← control]
    by_cases wrap : config.place n k + 1 = n ∧ config.circular = true
    · rw [if_pos (wraps.mpr wrap), if_pos wrap, if_pos wrap]
      simp [Latch.step]
    · rw [if_neg (fun h => wrap (wraps.mp h)), if_neg wrap, if_neg wrap, Latch.step, control,
        memory, peripheral, BitVec.ofNat_add, BitVec.ofNat_add, BitVec.add_assoc,
        BitVec.add_assoc]
  · rw [itemsLeft_moved, own.latch, progress.latch, ChannelConfig.place_succ inside]
    by_cases wrap : config.place n k + 1 = n ∧ config.circular = true
    · rw [if_pos (wraps.mpr wrap), if_pos wrap, Nat.sub_zero]
    · rw [if_neg (fun h => wrap (wraps.mp h)), if_neg wrap, less]
  · exact (register Dma1.ccr_inside (by decide)).trans control
  · exact (register Dma1.cmar_inside (by decide)).trans progress.source
  · exact (register Dma1.cpar_inside (by decide)).trans progress.target
  · rw [raised, flagsAfter_and_ne_zero_iff, progress.complete, last]
    exact config.complete_succ _ _
  · rw [raised, flagsAfter_and_ne_zero_iff, reload, progress.half, middle]
    exact half_succ inside
  · rw [raised, flagsAfter_and_ne_zero_iff]
    exact fun h => h.elim progress.error id
  · intro once
    rw [ChannelConfig.place, once] at inside
    exact inside

end Chip

/-! ## Setting up a channel -/

/-- Program a channel and start it. -/
def Dma.setUp (c : Channel) (target source length : Word) (config : ChannelConfig) :
    BusM Chip Unit := do
  Dma.configure c target source length
  Dma.start c config

/-- The chip after the writes that program a channel and start it. -/
def Chip.setUp (chip : Chip) (c : Channel) (target source length : Word)
    (config : ChannelConfig) : Chip :=
  (chip.programmed c target source length).write (Dma1.register c Dma1.ccr)
    (config.bits ||| Dma1.enable)

section SetUp

variable {c : Channel} {config : ChannelConfig} {target source length : Word} {n : Nat}

/-- A look at a channel's control register leads to a reachable state, and shows what is in the
register if DMA1 is clocked then. -/
theorem Dma.read_leads (c : Channel) :
    Leads (Reachable Action.Addressable) (Bus.read (Dma1.register c Dma1.ccr))
      (fun value chip => Reachable Action.Addressable chip ∧
        (chip.clocked (.dma1 0) = true → value = chip.controlOf c)) fun _ => True := by
  rintro ⟨chip, ticks, log⟩ reachable
  cases ticks with
  | zero => trivial
  | succ ticks =>
    rw [run_read_load]
    cases loaded : (Target.load (Dma1.register c Dma1.ccr) : EStateM Fault Chip Word).run chip with
    | error fault after => trivial
    | ok value after =>
      have performed : (Action.read (Dma1.register c Dma1.ccr)).perform.run chip =
          .ok () after := run_bind_eq_ok_iff.mpr ⟨value, after, loaded, rfl⟩
      refine ⟨.perform (.read _) reachable trivial performed, fun clocked => ?_⟩
      obtain ⟨ticked, -, shown⟩ := run_seq_eq_ok_iff.mp loaded
      obtain ⟨_, rest, result⟩ | ⟨_, result⟩ :=
        load_effect ticked (Dma1.register c Dma1.ccr)
      · obtain ⟨-, rfl⟩ := EStateM.Result.ok.inj (result.symm.trans shown)
        have clocked' : ticked.clocked (.dma1 0) = true := clocked
        rw [load_dma clocked' (Dma1.decode_register c Dma1.ccr_inside)] at shown
        exact (EStateM.Result.ok.inj shown).1.symm
      · rw [result] at shown
        cases shown

/-- The state is reachable, and the channel is disabled if DMA1 is clocked. -/
def Chip.Halted (c : Channel) (chip : Chip) : Prop :=
  Reachable Action.Addressable chip ∧
    (chip.clocked (.dma1 0) = true → chip.channelEnabled c = false)

/-- A look at the enable bit that finds it clear finds the channel disabled. -/
theorem Dma.anySet_leads (c : Channel) :
    Leads (Reachable Action.Addressable) (Bus.anySet (Dma1.register c Dma1.ccr) Dma1.enable)
      (fun enabled chip => if enabled then Reachable Action.Addressable chip else Halted c chip)
      fun _ => True := by
  apply Leads.bind (Dma.read_leads c)
  rintro value ⟨chip, ticks, log⟩ ⟨reachable, shows⟩
  change if (value &&& Dma1.enable != 0) = true then _ else _
  split
  · exact reachable
  · next clear =>
    refine ⟨reachable, fun clocked => ?_⟩
    rw [channelEnabled, ← controlOf, ← shows clocked]
    exact Bool.eq_false_iff.mpr clear

/-- Stopping a channel returns when it found the channel disabled. -/
theorem Dma.stop_leads (c : Channel) :
    Leads (Reachable Action.Addressable) (Dma.stop c) (fun _ => Halted c) fun _ => True := by
  apply Leads.bind (R := fun _ => Reachable Action.Addressable)
  · apply Leads.bind (Dma.read_leads c)
    intro value
    exact Leads.write fun chip reachable => reachable.1.write _ _ trivial
  · intro _
    apply Ends.untilDone _ fun _ _ => trivial
    apply Ends.bind (Dma.anySet_leads c)
    rintro (_ | _) session reached
    · exact reached
    · exact reached

/-- Programming a channel, when it returns, writes its registers while it is disabled. -/
theorem Dma.configure_leads (c : Channel) (target source length : Word) :
    Leads (Reachable Action.Addressable) (Dma.configure c target source length)
      (fun _ after => ∃ chip, Halted c chip ∧ after = chip.programmed c target source length)
      fun _ => True := by
  have writes : Leads (Halted c) (do
      Bus.write (Dma1.register c Dma1.cpar) target
      Bus.write (Dma1.register c Dma1.cmar) source
      Bus.write (Dma1.register c Dma1.cndtr) length
      Dma.clearFlags c : BusM Chip Unit)
      (fun _ after => ∃ chip, Halted c chip ∧ after = chip.programmed c target source length)
      fun _ => True :=
    fun session halted => ⟨session.device, halted, rfl⟩
  rw [Dma.configure]
  split
  · exact fun _ _ => trivial
  · apply Leads.bind (Dma.anySet_leads c)
    rintro (_ | _)
    · exact writes
    · exact Leads.bind (Dma.stop_leads c) fun _ => writes

/-- Setting up a channel, when it returns, writes the channel's registers while it is disabled. -/
theorem Dma.setUp_leads (c : Channel) (target source length : Word) (config : ChannelConfig) :
    Leads (Reachable Action.Addressable) (Dma.setUp c target source length config)
      (fun _ after => ∃ chip, Halted c chip ∧ after = chip.setUp c target source length config)
      fun _ => True := by
  apply Leads.bind (Dma.configure_leads c target source length)
  rintro ⟨⟩ session ⟨chip, halted, same⟩
  exact ⟨chip, halted, congrArg (Chip.write · _ _) same⟩

end SetUp

namespace Chip

variable {chip : Chip} {c : Channel} {config : ChannelConfig} {target source : Word} {n : Nat}

theorem Reachable.setUp (reachable : Reachable Action.Addressable chip) (c : Channel)
    (target source length : Word) (config : ChannelConfig) :
    Reachable Action.Addressable (chip.setUp c target source length config) :=
  ((((reachable.write _ _ trivial).write _ _ trivial).write _ _ trivial).write _ _ trivial).write
    _ _ trivial

/-- Setting up a channel leaves the clock of DMA1 alone. -/
theorem clocked_setUp (chip : Chip) (c : Channel) (target source length : Word)
    (config : ChannelConfig) :
    (chip.setUp c target source length config).clocked (.dma1 0) = chip.clocked (.dma1 0) := by
  have gate : Block.decode Rcc.ahb1enr = .other := rfl
  have apart : Apart Rcc.ahb1enr := ⟨by simp [gate], by decide⟩
  have only : OnlyTransfers chip (chip.setUp c target source length config) :=
    (OnlyTransfers.programmed chip c target source length).trans
      (.write_dma (Dma1.decode_register c Dma1.ccr_inside) _ _)
  rw [clocked, clocked, only.kept _ apart]

/-- A disabled channel was set up: it works with what it was given, and nothing else is left of
what it did before. -/
structure Renewed (c : Channel) (config : ChannelConfig) (target source length : Word)
    (chip after : Chip) : Prop where
  confined : Confined c chip after
  latch : after.latch c = ⟨true, source, target, length⟩
  left : after.itemsLeft c = length
  control : after.controlOf c = config.bits ||| Dma1.enable
  source : after.peek (Dma1.register c Dma1.cmar) = source
  target : after.peek (Dma1.register c Dma1.cpar) = target
  flags : after.peek (Dma1.base + Dma1.isr) =
    chip.peek (Dma1.base + Dma1.isr) &&& ~~~Dma1.flagsOf c (Dma1.channelFlags ||| Dma1.globalFlag)

theorem renewed_setUp (clocked : chip.clocked (.dma1 0) = true)
    (disabled : chip.channelEnabled c = false) (target source length : Word)
    (config : ChannelConfig) :
    Renewed c config target source length chip (chip.setUp c target source length config) := by
  have programmed := programmed_spec clocked disabled target source length
  have wrote := controlled (c := c) (programmed.confined.line.dmaClocked clocked)
    (config.bits ||| Dma1.enable)
  constructor
  · exact programmed.confined.trans wrote.confined
  · rw [Chip.setUp, wrote.latch, if_neg config.control_enables, programmed.disabled disabled,
      if_neg Bool.false_ne_true, programmed.source, programmed.target, programmed.length]
  · exact wrote.itemsLeft.trans programmed.length
  · exact wrote.control
  · exact (wrote.fields _ Dma1.cmar_inside (by decide)).trans programmed.source
  · exact (wrote.fields _ Dma1.cpar_inside (by decide)).trans programmed.target
  · exact wrote.flags.trans programmed.flags

/-- A disabled channel that is set up is at its first item. -/
theorem Renewed.progress {after : Chip}
    (renewed : Renewed c config target source (BitVec.ofNat 32 n) chip after) (nonempty : 1 ≤ n) :
    Progress c config target source n 0 after := by
  have clear (flag : TransferFlag) : ¬ after.FlagRaised c flag := by
    rw [FlagRaised, renewed.flags, not_not]
    exact cleared_and_flag _ c flag
  constructor
  · rw [renewed.latch, ChannelConfig.sourceAt, ChannelConfig.targetAt, ChannelConfig.place_zero]
    simp
  · rw [ChannelConfig.place_zero, Nat.sub_zero]
    exact renewed.left
  · exact renewed.control
  · exact renewed.source
  · exact renewed.target
  · exact ⟨fun raised => (clear _ raised).elim, fun none_left => by omega⟩
  · exact ⟨fun raised => (clear _ raised).elim, fun some_items => by omega⟩
  · exact clear .error
  · exact fun _ => Nat.zero_le n

end Chip

/-- Setting up a channel takes one tick where no channel works and the channel is disabled. -/
theorem Dma.run_setUp_idle {chip : Chip} {c : Channel}
    (clocked : chip.clocked (.dma1 0) = true) (idle : ∀ d, (chip.latch d).active = false)
    (disabled : chip.channelEnabled c = false) (target source length : Word)
    (short : length.toNat ≤ 0xFFFF) (config : ChannelConfig) (ticks : Nat) (log : Array Access) :
    ∃ log', (Dma.setUp c target source length config).run ⟨chip, ticks + 1, log⟩ =
      .ok () ⟨chip.countedDown.setUp c target source length config, ticks, log'⟩ := by
  have fits : ¬ Dma1.countMax < length := by
    have bound : Dma1.countMax.toNat = 0xFFFF := rfl
    bv_omega
  have passed : Chip.tick.run chip = .ok () chip.countedDown := by
    rw [tick_eq, if_pos clocked]
    exact serve_inactive fun d _ => idle d
  have loaded : (load (Dma1.register c Dma1.ccr)).run chip.countedDown =
      .ok (chip.controlOf c) chip.countedDown :=
    load_dma clocked (Dma1.decode_register c Dma1.ccr_inside)
  have looked : (anySet (Dma1.register c Dma1.ccr) Dma1.enable : BusM Chip Bool).run
      ⟨chip, ticks + 1, log⟩ = .ok false ⟨chip.countedDown, ticks,
        log.push (.read (Dma1.register c Dma1.ccr) (chip.controlOf c))⟩ := by
    rw [anySet, EStateM.run_bind, run_read passed loaded, ← disabled]
    rfl
  rw [Dma.setUp, Dma.configure, if_neg fits, EStateM.run_bind, EStateM.run_bind, looked]
  exact ⟨_, rfl⟩

/-- Where setting up a channel returned and DMA1 is clocked, the channel is at its first item. -/
theorem Dma.setUp_returned {first started : Chip} {c : Channel} {config : ChannelConfig}
    {target source : Word} {n ticks left : Nat} {log log' : Array Access}
    (reachable : Reachable Action.Addressable first)
    (returned : (Dma.setUp c target source (BitVec.ofNat 32 n) config).run ⟨first, ticks, log⟩ =
      .ok () ⟨started, left, log'⟩)
    (clocked : started.clocked (.dma1 0) = true) (nonempty : 1 ≤ n) :
    Reachable Action.Addressable started ∧ Progress c config target source n 0 started := by
  have led := Dma.setUp_leads c target source (BitVec.ofNat 32 n) config ⟨first, ticks, log⟩
    reachable
  rw [returned] at led
  obtain ⟨chip, ⟨reached, halted⟩, rfl⟩ := led
  rw [clocked_setUp] at clocked
  have renewed := renewed_setUp clocked (halted clocked) target source (BitVec.ofNat 32 n) config
  exact ⟨reached.setUp _ _ _ _ _, renewed.progress nonempty⟩

end Peripherals
