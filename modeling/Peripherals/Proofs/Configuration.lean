import Peripherals.Bench.Perform
import Peripherals.Proofs.PlainMemory

/-! # Configuration on the chip and on plain memory

A driver function that configures something makes the same accesses on the chip
as on plain memory, once the blocks that it accesses are clocked: none of what
the chip gates, locks or derives is met on the way. This is so for all
arguments, also for those that fault. -/

namespace Peripherals

open Bus Chip

/-! ## The same computation on both targets -/

variable {α β : Type} {valid : Prop} {needs enables more : List Gated} {address : Word}

/-- A computation that returned leaves targets that agree while a list of blocks is clocked. One
that faulted was not called validly, and leaves targets that agree all the same. -/
def Agreed (valid : Prop) (awake : List Gated) : Except Fault α → Chip → FlatMemory → Prop
  | .ok _, chip, memory => Alike awake chip memory
  | .error _, chip, memory => ¬valid ∧ Alike [] chip memory

theorem Agreed.fault {awake : List Gated} {chip : Chip} {memory : FlatMemory} {fault : Fault}
    (sound : valid → ∃ a : α, Except.error fault = .ok a) (alike : Alike awake chip memory) :
    Agreed valid needs (.error fault : Except Fault β) chip memory := by
  refine ⟨fun called => ?_, alike.mono nofun⟩
  obtain ⟨a, same⟩ := sound called
  cases same

/-- On targets that agree while some blocks are clocked, the needed ones among them, a computation
on the chip and one on memory make the same accesses and end in the same way, with a fault only if
they were not called validly. They leave targets that agree while the blocks that they enable are
clocked, too. -/
def Mirrors (valid : Prop) (needs : List Gated) (x : BusM Chip α) (y : BusM FlatMemory α)
    (enables : List Gated) : Prop :=
  ∀ awake chip memory, (∀ gated ∈ needs, gated ∈ awake) → Alike awake chip memory →
    ∃ spent entries outcome after left, Yields x chip spent entries outcome after ∧
      Yields y memory spent entries outcome left ∧
      Agreed valid (enables ++ awake) outcome after left

namespace Mirrors

variable {x : BusM Chip α} {y : BusM FlatMemory α} {f : α → BusM Chip β} {g : α → BusM FlatMemory β}

/-- Checked arithmetic faults on both targets or on none. -/
theorem lift (checked : Except Fault α) (sound : valid → ∃ a, checked = .ok a) :
    Mirrors valid needs (liftM checked) (liftM checked) [] := by
  intro awake chip memory _ alike
  refine ⟨0, #[], checked, chip, memory, Yields.lift checked, Yields.lift checked, ?_⟩
  cases checked with
  | ok a => exact alike
  | error fault => exact .fault sound alike

theorem pure (value : α) : Mirrors valid needs (Pure.pure value) (Pure.pure value) [] :=
  lift (.ok value) fun _ => ⟨value, rfl⟩

theorem bind (first : Mirrors valid needs x y enables)
    (second : ∀ a, Mirrors valid (enables ++ needs) (f a) (g a) more) :
    Mirrors valid needs (x >>= f) (y >>= g) (more ++ enables) := by
  intro awake chip memory available alike
  obtain ⟨spent, entries, outcome, middle, left, onChip, onMemory, agreed⟩ :=
    first awake chip memory available alike
  cases outcome with
  | error fault =>
    exact ⟨spent, entries, .error fault, middle, left, onChip.stop, onMemory.stop, agreed⟩
  | ok a =>
    have available' : ∀ gated ∈ enables ++ needs, gated ∈ enables ++ awake := by
      intro gated member
      obtain new | old := List.mem_append.mp member
      · exact List.mem_append_left _ new
      · exact List.mem_append_right _ (available gated old)
    obtain ⟨spent', entries', outcome, after, left', onChip', onMemory', agreed'⟩ :=
      second a (enables ++ awake) middle left available' agreed
    rw [← List.append_assoc] at agreed'
    exact ⟨spent' + spent, entries ++ entries', outcome, after, left', onChip.bind onChip',
      onMemory.bind onMemory', agreed'⟩

/-- The same after a computation that enables no block. -/
theorem seq (first : Mirrors valid needs x y [])
    (second : ∀ a, Mirrors valid needs (f a) (g a) enables) :
    Mirrors valid needs (x >>= f) (y >>= g) enables := by
  have both := bind first second
  rwa [List.append_nil] at both

/-- A computation that continues from what checked arithmetic gives. -/
theorem lift_bind (checked : Except Fault α) (sound : valid → ∃ a, checked = .ok a)
    (rest : ∀ a, checked = .ok a → Mirrors valid needs (f a) (g a) enables) :
    Mirrors valid needs (liftM checked >>= f) (liftM checked >>= g) enables := by
  cases checked with
  | ok a => exact rest a rfl
  | error fault =>
    intro awake chip memory _ alike
    exact ⟨0, #[], .error fault, chip, memory, (Yields.lift (.error fault)).stop,
      (Yields.lift (.error fault)).stop, .fault sound alike⟩

theorem mono {valid' : Prop} {needs' : List Gated} (mirrors : Mirrors valid needs x y enables)
    (calls : valid' → valid) (available : ∀ gated ∈ needs, gated ∈ needs') :
    Mirrors valid' needs' x y enables := by
  intro awake chip memory available' alike
  obtain ⟨spent, entries, outcome, after, left, onChip, onMemory, agreed⟩ :=
    mirrors awake chip memory (fun gated member => available' gated (available gated member)) alike
  refine ⟨spent, entries, outcome, after, left, onChip, onMemory, ?_⟩
  cases outcome with
  | ok a => exact agreed
  | error fault => exact ⟨fun called => agreed.1 (calls called), agreed.2⟩

theorem update {f : Word → Word} (opened : Opened needs address)
    (notControl : ∀ c, address ≠ Dma1.register c Dma1.ccr)
    (wakes : ∀ gated ∈ enables, address = gated.register ∧ ∀ old, f old &&& gated.mask ≠ 0)
    (keeps : ∀ gated : Gated, address = gated.register → ∀ old, old &&& gated.mask ≠ 0 →
      f old &&& gated.mask ≠ 0) :
    Mirrors valid needs (Bus.update address f) (Bus.update address f) enables := by
  intro awake chip memory available alike
  -- The tick of the read comes before the write, but it changes no register.
  have open' : Opened awake address := opened.mono available
  obtain ⟨ticked, later, onChip, onMemory⟩ := alike.read open'
  refine ⟨_, _, .ok (), _, _, onChip.bind (Alike.write_yields _ _ _),
    onMemory.bind (Alike.write_yields_memory _ opened.mapped _), later.write open' notControl ?_⟩
  intro gated member
  split
  · next same =>
    obtain new | old := List.mem_append.mp member
    · exact (wakes gated new).2 _
    · apply keeps gated same
      rw [same]
      exact alike.clocks gated old
  · next differ =>
    obtain new | old := List.mem_append.mp member
    · exact (differ (wakes gated new).1).elim
    · exact old

/-- Changing a register that is no clock gate enables no block. -/
theorem change (settable : Settable needs address) (f : Word → Word) :
    Mirrors valid needs (Bus.update address f) (Bus.update address f) [] :=
  update settable.toOpened settable.notControl nofun
    fun gated same => (settable.notGate gated same.symm).elim

theorem write (settable : Settable needs address) (value : Word) :
    Mirrors valid needs (Bus.write address value) (Bus.write address value) [] := by
  intro awake chip memory available alike
  refine ⟨_, _, .ok (), _, _, Alike.write_yields _ _ _,
    Alike.write_yields_memory _ settable.mapped _,
    alike.write (settable.toOpened.mono available) settable.notControl fun gated member => ?_⟩
  rw [if_neg (settable.notGate gated).symm]
  exact member

theorem writeField (settable : Settable needs address) {shift : Byte}
    (inside : valid → shift.toNat < 32) (width : Byte) (value : Word) :
    Mirrors valid needs (Bus.writeField address shift width value)
      (Bus.writeField address shift width value) [] :=
  lift_bind _ (fun called => ⟨_, Checked.shiftLeft_eq_ok (inside called)⟩)
    fun _ _ => change settable _

end Mirrors

/-! ## Clock gates -/

/-- The clock gate of a block, if it has one. -/
def Block.gate? : Block → Option Gated
  | .gpio port _ => some (.gpio port)
  | .usart3 _ => some .serial
  | .dma1 _ => some .dma
  | .other => none

namespace Gated

theorem holds_iff (gated : Gated) :
    gated.Holds address ↔ (Block.decode address).gate? = some gated := by
  cases gated <;> cases decoded : Block.decode address <;> simp [Holds, Block.gate?, decoded]

/-- A register of a block with a clock gate that can be used as memory while the block is
clocked. -/
theorem settable {gated : Gated} (gate : (Block.decode address).gate? = some gated)
    (mapped : FlatMemory.mapped address = true)
    (retained : retains (Block.decode address) = true)
    (notControl : ∀ c, address ≠ Dma1.register c Dma1.ccr) : Settable [gated] address where
  mapped := mapped
  retained := retained
  clocked other holds := by
    rw [Option.some.inj (gate.symm.trans (other.holds_iff.mp holds))]
    exact List.mem_singleton_self other
  notControl := notControl
  notGate := by
    rintro other rfl
    rw [other.decode_register] at gate
    cases gate

/-- The same outside of DMA1, where no channel's control register lies. -/
theorem settable_of_decode {gated : Gated} {block : Block}
    (decoded : Block.decode address = block) (gate : block.gate? = some gated)
    (mapped : FlatMemory.mapped address = true) (retained : retains block = true)
    (notDma : gated ≠ .dma) : Settable [gated] address := by
  subst decoded
  apply settable gate mapped retained
  rintro c rfl
  rw [Dma1.decode_register c Dma1.ccr_inside] at gate
  exact notDma (Option.some.inj gate).symm

theorem mapped_register (gated : Gated) : FlatMemory.mapped gated.register = true := by
  cases gated with
  | gpio port => exact (by decide : FlatMemory.mapped Rcc.ahb2enr = true)
  | serial | dma => decide

theorem register_ne_kernelClock (gated : Gated) : gated.register ≠ Rcc.ccipr1 := by
  cases gated with
  | gpio port => exact (by decide : Rcc.ahb2enr ≠ Rcc.ccipr1)
  | serial | dma => decide

theorem mask_ne_zero (gated : Gated) : gated.mask &&& gated.mask ≠ 0 := by
  cases gated with
  | gpio port => cases port <;> decide
  | serial | dma => decide

/-- Setting a block's clock enable bit. -/
theorem setBits_mirrors (gated : Gated) :
    Mirrors valid needs (Bus.setBits gated.register gated.mask)
      (Bus.setBits gated.register gated.mask) [gated] := by
  have decoded := gated.decode_register
  have opened : Opened needs gated.register :=
    ⟨gated.mapped_register, by rw [decoded]; rfl,
      fun other holds => (not_holds_register other gated holds).elim⟩
  refine Mirrors.update opened (fun c same => ?_) ?_ ?_
  · rw [same, Dma1.decode_register c Dma1.ccr_inside] at decoded
    cases decoded
  · intro other member
    obtain rfl := List.mem_singleton.mp member
    exact ⟨rfl, fun old => or_and_ne_zero_iff.mpr (.inr other.mask_ne_zero)⟩
  · exact fun other _ old on => or_and_ne_zero_iff.mpr (.inl on)

end Gated

theorem Gate.selectKernelClock_mirrors (clock : KernelClock) :
    Mirrors valid needs (Gate.selectKernelClock clock) (Gate.selectKernelClock clock) [] := by
  have settable : Settable needs Rcc.ccipr1 :=
    { mapped := by decide
      retained := by decide
      clocked := fun gated holds => by cases gated.holds_iff.mp holds
      notControl := by decide
      notGate := Gated.register_ne_kernelClock }
  exact .writeField settable (fun _ => by decide) _ _

/-! ## Pins -/

/-- The registers in which pins are configured. -/
def Gpio.configuration : List Word := [moder, otyper, ospeedr, pupdr, afrl, afrh]

theorem settable_port (port : Port) :
    ∀ offset ∈ Gpio.configuration, Settable [.gpio port] (port.base + offset) := by
  intro offset member
  obtain ⟨inside, retained, mapped⟩ : offset.toNat < 0x400 ∧
      retains (.gpio port offset) = true ∧ FlatMemory.mapped (port.base + offset) = true := by
    simp only [Gpio.configuration, List.mem_cons, List.not_mem_nil, or_false] at member
    obtain rfl | rfl | rfl | rfl | rfl | rfl := member <;>
      exact ⟨by decide, rfl, by cases port <;> decide⟩
  exact Gated.settable_of_decode (Block.decode_eq_gpio_iff.mpr ⟨rfl, inside⟩) rfl mapped retained
    (by simp)

namespace PinId

variable {pin : PinId}

/-- A field of a pin, at a position that is computed from a small number. -/
theorem field_mirrors {number factor width : Byte} {offset : Word}
    (member : offset ∈ Gpio.configuration)
    (inside : valid → number.toNat * factor.toNat < 32) (value : Word) :
    Mirrors valid [.gpio pin.port] (do
        let shift ← liftM (Checked.mul number factor)
        Bus.writeField (pin.port.base + offset) shift width value)
      (do
        let shift ← liftM (Checked.mul number factor)
        Bus.writeField (pin.port.base + offset) shift width value) [] := by
  have product (called : valid) : Checked.mul number factor = .ok (number * factor) := by
    have small := inside called
    apply Checked.mul_eq_ok
    rw [BitVec.umulOverflow, decide_eq_false_iff_not]
    omega
  refine .lift_bind _ (fun called => ⟨_, product called⟩) fun shift computed =>
    .writeField (settable_port pin.port offset member) (fun called => ?_) width value
  obtain rfl := Except.ok.inj (computed.symm.trans (product called))
  have small := inside called
  rw [BitVec.toNat_mul, Nat.mod_eq_of_lt]
  · exact small
  · omega

/-- A register with two bits for each pin. -/
theorem writePair_mirrors {offset : Word} (member : offset ∈ Gpio.configuration)
    (value : Word) :
    Mirrors (pin.number.toNat < 16) [.gpio pin.port] (pin.writePair offset value)
      (pin.writePair offset value) [] := by
  refine field_mirrors member (fun small => ?_) value
  have two : (2 : Byte).toNat = 2 := rfl
  rw [two]
  omega

theorem setAlternate_mirrors (function : Fin 16) :
    Mirrors (pin.number.toNat < 16) [.gpio pin.port] (pin.setAlternate function)
      (pin.setAlternate function) [] := by
  have four : (4 : Byte).toNat = 4 := rfl
  rw [setAlternate, setAlternate]
  by_cases low : pin.number < 8
  · simp only [if_pos low]
    refine field_mirrors (by simp [Gpio.configuration]) (fun _ => ?_) _
    bv_omega
  · simp only [if_neg low]
    refine field_mirrors (by simp [Gpio.configuration]) (fun small => ?_) _
    bv_omega

theorem setMode_mirrors (mode : PinMode) :
    Mirrors (pin.number.toNat < 16) [.gpio pin.port] (pin.setMode mode) (pin.setMode mode)
      [] := by
  have moder : Gpio.moder ∈ Gpio.configuration := by simp [Gpio.configuration]
  cases mode with
  | alternate function =>
    exact .seq (setAlternate_mirrors function) fun _ => writePair_mirrors moder _
  | input | output | analog => exact writePair_mirrors moder _

theorem setOutputType_mirrors (type : OutputType) :
    Mirrors (pin.number.toNat < 16) [.gpio pin.port] (pin.setOutputType type)
      (pin.setOutputType type) [] :=
  .writeField (settable_port pin.port _ (by simp [Gpio.configuration])) (fun small => by omega) 1 _

theorem setOutputSpeed_mirrors (speed : OutputSpeed) :
    Mirrors (pin.number.toNat < 16) [.gpio pin.port] (pin.setOutputSpeed speed)
      (pin.setOutputSpeed speed) [] :=
  writePair_mirrors (by simp [Gpio.configuration]) _

theorem setPull_mirrors (pull : Pull) :
    Mirrors (pin.number.toNat < 16) [.gpio pin.port] (pin.setPull pull) (pin.setPull pull) [] :=
  writePair_mirrors (by simp [Gpio.configuration]) _

theorem configureOutput_mirrors :
    Mirrors (pin.number.toNat < 16) [.gpio pin.port] pin.configureOutput pin.configureOutput [] :=
  .seq (setMode_mirrors _) fun _ => .seq (setOutputType_mirrors _) fun _ =>
    .seq (setOutputSpeed_mirrors _) fun _ => setPull_mirrors _

theorem configureInputPullUp_mirrors :
    Mirrors (pin.number.toNat < 16) [.gpio pin.port] pin.configureInputPullUp
      pin.configureInputPullUp [] :=
  .seq (setMode_mirrors _) fun _ => setPull_mirrors _

theorem claim_returns (small : pin.number.toNat < 16) : ∃ a, pin.claim = .ok a :=
  ⟨(), if_pos small⟩

/-- The blocks that setting a pin up accesses. Only claiming it accesses none. -/
def setUpNeeds (pin : PinId) : Bench.PinSetUp → List Gated
  | .unconfigured => []
  | .inMode _ | .output | .inputPullUp => [.gpio pin.port]

/-- Setting a pin up claims it first. -/
theorem setUp_mirrors (setUp : Bench.PinSetUp) :
    Mirrors (pin.number.toNat < 16) (pin.setUpNeeds setUp) (setUp.perform pin)
      (setUp.perform pin) [] := by
  cases setUp with
  | unconfigured => exact .lift _ claim_returns
  | inMode mode => exact .lift_bind _ claim_returns fun _ _ => setMode_mirrors mode
  | output => exact .lift_bind _ claim_returns fun _ _ => configureOutput_mirrors
  | inputPullUp => exact .lift_bind _ claim_returns fun _ _ => configureInputPullUp_mirrors

end PinId

/-! ## USART3 -/

/-- The registers in which USART3 is configured. -/
def Usart3.configuration : List Word := [cr1, cr2, cr3, brr]

theorem settable_serial :
    ∀ offset ∈ Usart3.configuration, Settable [.serial] (Usart3.base + offset) := by
  intro offset member
  obtain ⟨inside, retained, mapped⟩ : offset.toNat < 0x400 ∧
      retains (.usart3 offset) = true ∧ FlatMemory.mapped (Usart3.base + offset) = true := by
    simp only [Usart3.configuration, List.mem_cons, List.not_mem_nil, or_false] at member
    obtain rfl | rfl | rfl | rfl := member <;> exact ⟨by decide, rfl, by decide⟩
  exact Gated.settable_of_decode (Block.decode_eq_usart3_iff.mpr ⟨rfl, inside⟩) rfl mapped retained
    (by simp)

namespace Serial

theorem setUp_mirrors (config : SerialConfig) :
    Mirrors (config.divisor ≠ 0) [.serial] (setUp config) (setUp config) [] := by
  have write (offset : Word) (member : offset ∈ Usart3.configuration) (value : Word) :
      Mirrors (config.divisor ≠ 0) [.serial] (Bus.write (Usart3.base + offset) value)
        (Bus.write (Usart3.base + offset) value) [] :=
    .write (settable_serial offset member) value
  have cr1 := write Usart3.cr1 (by simp [Usart3.configuration])
  have cr2 := write Usart3.cr2 (by simp [Usart3.configuration])
  have cr3 := write Usart3.cr3 (by simp [Usart3.configuration])
  have brr := write Usart3.brr (by simp [Usart3.configuration])
  have rate : Mirrors (config.divisor ≠ 0) [.serial]
      (do
        let _ ← liftM (BaudRate.ofDivisor BaudRate.kernelClock config.divisor)
        pure ⟨config⟩ : BusM Chip Serial)
      (do
        let _ ← liftM (BaudRate.ofDivisor BaudRate.kernelClock config.divisor)
        pure ⟨config⟩) [] :=
    .lift_bind _ (fun nonzero => ⟨_, Checked.div_eq_ok nonzero⟩) fun _ _ => .pure _
  refine .seq (cr1 _) fun _ => .seq (cr2 _) fun _ => .seq (cr3 _) fun _ => .seq (brr _) fun _ => ?_
  cases config.dmaTransmit with
  | true => exact .seq (cr3 _) fun _ => .seq (cr1 _) fun _ => rate
  | false => exact .seq (cr1 _) fun _ => rate

theorem enableDma_mirrors :
    Mirrors valid [.serial] (Bus.setBits (Usart3.base + Usart3.cr3) Usart3.dmaTransmit)
      (Bus.setBits (Usart3.base + Usart3.cr3) Usart3.dmaTransmit) [] :=
  .change (settable_serial _ (by simp [Usart3.configuration])) _

end Serial

/-! ## DMA1 -/

theorem retains_register (c : Channel) {field : Word} (small : field.toNat < 0x14) :
    retains (Block.decode (Dma1.register c field)) = true := by
  obtain ⟨notFlags, notClear⟩ := register_not_shared c small
  rw [Dma1.decode_register c small, retains, Bool.and_eq_true, bne_iff_ne, bne_iff_ne]
  exact ⟨notFlags, notClear⟩

theorem settable_channel (c : Channel) {field : Word} (small : field.toNat < 0x14)
    (notControl : field ≠ Dma1.ccr) (mapped : FlatMemory.mapped (Dma1.register c field) = true) :
    Settable [.dma] (Dma1.register c field) := by
  apply Gated.settable (by rw [Dma1.decode_register c small]; rfl) mapped (retains_register c small)
  intro d same
  exact notControl ((Dma1.register_eq_register_iff small Dma1.ccr_inside).mp same).2

/-- No channel is found enabled. -/
theorem Mirrors.unless_enabled {f : Bool → BusM Chip β} {g : Bool → BusM FlatMemory β}
    (c : Channel) (rest : Mirrors valid [.dma] (f false) (g false) enables) :
    Mirrors valid [.dma] (Bus.anySet (Dma1.register c Dma1.ccr) Dma1.enable >>= f)
      (Bus.anySet (Dma1.register c Dma1.ccr) Dma1.enable >>= g) enables := by
  intro awake chip memory available alike
  have opened : Opened [.dma] (Dma1.register c Dma1.ccr) :=
    { mapped := by revert c; decide
      retained := retains_register c Dma1.ccr_inside
      clocked := fun gated holds => by
        rw [gated.holds_iff, Dma1.decode_register c Dma1.ccr_inside] at holds
        cases holds
        exact List.mem_singleton_self _ }
  obtain ⟨ticked, later, onChip, onMemory⟩ := alike.read (opened.mono available)
  have off : (chip.peek (Dma1.register c Dma1.ccr) &&& Dma1.enable != 0) = false :=
    alike.disabled c
  have looked {δ : Type} {device after : δ} [Target δ]
      (reads : Yields (Bus.read (Dma1.register c Dma1.ccr)) device 1
        #[.read (Dma1.register c Dma1.ccr) (chip.peek (Dma1.register c Dma1.ccr))]
        (.ok (chip.peek (Dma1.register c Dma1.ccr))) after) :
      Yields (Bus.anySet (Dma1.register c Dma1.ccr) Dma1.enable) device 1
        #[.read (Dma1.register c Dma1.ccr) (chip.peek (Dma1.register c Dma1.ccr))]
        (.ok false) after := by
    have seen : Yields (Bus.anySet (Dma1.register c Dma1.ccr) Dma1.enable) device (0 + 1) _ _
        after :=
      reads.bind (Yields.lift (.ok (chip.peek (Dma1.register c Dma1.ccr) &&& Dma1.enable != 0)))
    rw [off] at seen
    exact seen
  obtain ⟨spent, entries, outcome, after, left, onChip', onMemory', agreed⟩ :=
    rest awake ticked memory available later
  exact ⟨_, _, outcome, after, left, (looked onChip).bind onChip', (looked onMemory).bind onMemory',
    agreed⟩

namespace Dma

theorem clear_mirrors (c : Channel) (flags : Word) :
    Mirrors valid [.dma] (clear c flags) (clear c flags) [] := by
  intro awake chip memory available alike
  exact ⟨_, _, .ok (), _, _, Alike.write_yields _ _ _,
    Alike.write_yields_memory _ (by decide) _, alike.clear (available .dma (by simp))⟩

theorem configure_mirrors (c : Channel) (target source length : Word) :
    Mirrors (length ≤ Dma1.countMax) [.dma] (configure c target source length)
      (configure c target source length) [] := by
  have mapped : ∀ c : Channel, FlatMemory.mapped (Dma1.register c Dma1.cpar) = true ∧
      FlatMemory.mapped (Dma1.register c Dma1.cmar) = true ∧
      FlatMemory.mapped (Dma1.register c Dma1.cndtr) = true := by decide
  have target_set := settable_channel c Dma1.cpar_inside (by decide) (mapped c).1
  have source_set := settable_channel c Dma1.cmar_inside (by decide) (mapped c).2.1
  have count_set := settable_channel c Dma1.cndtr_inside (by decide) (mapped c).2.2
  rw [configure, configure]
  by_cases long : Dma1.countMax < length
  · rw [if_pos long, if_pos long]
    exact .lift_bind (.error .transferTooLong) (fun short => (BitVec.not_lt.mpr short long).elim)
      fun _ failed => by cases failed
  · rw [if_neg long, if_neg long]
    exact .unless_enabled c <| .seq (.write target_set _) fun _ =>
      .seq (.write source_set _) fun _ => .seq (.write count_set _) fun _ => clear_mirrors c _

end Dma

/-! ## The board -/

namespace Board

theorem connectConsolePin_mirrors {pin : PinId} (pull : Pull) :
    Mirrors (pin.number.toNat < 16) [.gpio pin.port] (connectConsolePin pin pull)
      (connectConsolePin pin pull) [] :=
  .seq (pin.setOutputType_mirrors _) fun _ => .seq (pin.setOutputSpeed_mirrors _) fun _ =>
    .seq (pin.setPull_mirrors _) fun _ => pin.setMode_mirrors _

theorem setUpLeds_mirrors :
    Mirrors valid [] setUpLeds setUpLeds
      [.gpio redLed.port, .gpio yellowLed.port, .gpio greenLed.port] := by
  have output (pin : PinId) {awake : List Gated} (small : pin.number.toNat < 16)
      (available : .gpio pin.port ∈ awake) :
      Mirrors valid awake pin.configureOutput pin.configureOutput [] :=
    pin.configureOutput_mirrors.mono (fun _ => small) (by simpa using available)
  have all : Mirrors valid [] (setUpLeds : BusM Chip Leds) setUpLeds _ :=
    .bind (Gated.setBits_mirrors (.gpio greenLed.port)) fun _ =>
      .bind (Gated.setBits_mirrors (.gpio yellowLed.port)) fun _ =>
      .bind (Gated.setBits_mirrors (.gpio redLed.port)) fun _ =>
      .seq (output greenLed (by decide) (by simp)) fun _ =>
      .seq (output yellowLed (by decide) (by simp)) fun _ =>
      .seq (output redLed (by decide) (by simp)) fun _ => .pure _
  exact all

theorem setUpButton_mirrors :
    Mirrors valid [] setUpButton setUpButton [.gpio userButton.port] := by
  have all : Mirrors valid [] (setUpButton : BusM Chip PinId) setUpButton _ :=
    .bind (Gated.setBits_mirrors (.gpio userButton.port)) fun _ =>
      .seq (userButton.configureInputPullUp_mirrors.mono (fun _ => by decide) (by simp)) fun _ =>
        .pure _
  exact all

theorem setUpConsole_mirrors (config : SerialConfig) :
    Mirrors (config.divisor ≠ 0) [] (setUpConsole config) (setUpConsole config)
      [.serial, .gpio .d] := by
  have all : Mirrors (config.divisor ≠ 0) [] (setUpConsole config : BusM Chip Serial)
      (setUpConsole config) _ :=
    .bind (Gated.setBits_mirrors (.gpio .d)) fun _ =>
      .bind (Gated.setBits_mirrors .serial) fun _ =>
      .seq (Gate.selectKernelClock_mirrors _) fun _ =>
      .seq ((connectConsolePin_mirrors _).mono (fun _ => by decide) (by decide)) fun _ =>
      .seq ((connectConsolePin_mirrors _).mono (fun _ => by decide) (by decide)) fun _ =>
      (Serial.setUp_mirrors config).mono id (by simp)
  exact all

end Board

end Peripherals
