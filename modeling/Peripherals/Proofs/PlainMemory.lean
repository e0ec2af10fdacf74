import Peripherals.FlatMemory
import Peripherals.Proofs.BringUp
import Peripherals.Proofs.GatedBlocks
import Peripherals.Proofs.Programming

/-! # The chip beside plain memory

The chip gates, locks and derives what plain memory just stores. Most registers
hold what was stored all the same, as long as their block is clocked and no
channel is enabled. While two targets agree on those registers, an access to one
of them gives the same on both, takes the same ticks, and leaves them agreeing;
so does every computation that makes such accesses only. -/

namespace Peripherals

open Bus Chip

deriving instance DecidableEq for Gated

/-! ## What a computation does -/

namespace Bus

variable {δ α β : Type} {device middle after : δ} {spent more : Nat} {entries rest : Array Access}

/-- Given the ticks that it spends, a computation makes a list of accesses and ends with a value
or a fault, whatever was logged before and however many ticks are left. -/
def Yields (x : BusM δ α) (device : δ) (spent : Nat) (entries : Array Access)
    (outcome : Except Fault α) (after : δ) : Prop :=
  ∀ ticks log, x.run ⟨device, ticks + spent, log⟩ =
    match outcome with
    | .ok value => .ok value ⟨after, ticks, log ++ entries⟩
    | .error fault => .error fault ⟨after, ticks, log ++ entries⟩

theorem Yields.lift (outcome : Except Fault α) :
    Yields (liftM outcome : BusM δ α) device 0 #[] outcome device := by
  intro ticks log
  cases outcome <;> rfl

theorem Yields.bind {x : BusM δ α} {f : α → BusM δ β} {value : α} {outcome : Except Fault β}
    (first : Yields x device spent entries (.ok value) middle)
    (second : Yields (f value) middle more rest outcome after) :
    Yields (x >>= f) device (more + spent) (entries ++ rest) outcome after := by
  intro ticks log
  rw [EStateM.run_bind, ← Nat.add_assoc, first, ← Array.append_assoc]
  exact second ticks (log ++ entries)

theorem Yields.stop {x : BusM δ α} {f : α → BusM δ β} {fault : Fault}
    (first : Yields x device spent entries (.error fault) after) :
    Yields (x >>= f) device spent entries (.error fault) after := by
  intro ticks log
  rw [EStateM.run_bind, first]

end Bus

namespace Chip

variable {chip : Chip} {address : Word}

/-- Whether a register holds what was last stored into it, while its block is clocked and no
channel is enabled. -/
def retains : Block → Bool
  | .dma1 offset => offset != Dma1.isr && offset != Dma1.ifcr
  | block => Amendment.storage block

theorem storage_of_retained (retained : retains (Block.decode address) = true)
    (notDma : ∀ offset, Block.decode address ≠ .dma1 offset) :
    Amendment.storage (Block.decode address) = true := by
  generalize Block.decode address = block at retained notDma ⊢
  cases block with
  | dma1 offset => exact (notDma offset rfl).elim
  | gpio _ _ | usart3 _ | other => exact retained

/-- A register that holds what was stored shows it. -/
theorem load_retained (retained : retains (Block.decode address) = true)
    (clocked : chip.clocked (Block.decode address) = true) :
    (load address).run chip = .ok (chip.peek address) chip := by
  cases decoded : Block.decode address with
  | dma1 offset =>
    rw [decoded] at clocked
    exact load_dma clocked decoded
  | gpio _ _ | usart3 _ | other =>
    have storage := storage_of_retained retained (by simp [decoded])
    exact shows_storage storage clocked chip.busy chip.written

/-- Storing into such a register replaces its value, unless it enables a channel. -/
theorem write_retained (retained : retains (Block.decode address) = true)
    (clocked : chip.clocked (Block.decode address) = true)
    (disabled : ∀ c, chip.channelEnabled c = false)
    (notControl : ∀ c, address ≠ Dma1.register c Dma1.ccr) (value : Word) :
    chip.write address value = (chip.noted address value).poke address value := by
  cases decoded : Block.decode address with
  | dma1 offset =>
    rw [decoded] at retained clocked
    simp only [retains, Bool.and_eq_true, bne_iff_ne] at retained
    obtain ⟨place, -⟩ := Block.decode_eq_dma1_iff.mp decoded
    rw [write_dma clocked decoded, storeDma, if_neg retained.1, if_neg retained.2, ← place]
    split
    · next c field found =>
      obtain ⟨same, -⟩ := Dma1.channelAt?_eq_some_iff.mp found
      have other : field ≠ Dma1.ccr := by
        rintro rfl
        apply notControl c
        rw [place, same, Dma1.register]
      have off : (chip.noted address value).channelEnabled c = false := disabled c
      simp only [if_neg other, off, Bool.false_eq_true, if_false]
    · rfl
  | gpio _ _ | usart3 _ | other =>
    have storage := storage_of_retained retained (by simp [decoded])
    have clock : (chip.noted address value).clocked (Block.decode address) = true :=
      (clocked_timed chip chip.busy _ _).trans clocked
    exact store_storage storage clock value

end Chip

/-! ## Agreeing targets -/

variable {awake needs : List Gated} {chip : Chip} {memory : FlatMemory} {address : Word}

/-- No channel of the chip is enabled, the blocks of a list are clocked, and memory has the value
of every register that holds what was stored. -/
structure Alike (awake : List Gated) (chip : Chip) (memory : FlatMemory) : Prop where
  inactive : ∀ c, (chip.latch c).active = false
  disabled : ∀ c, chip.channelEnabled c = false
  clocks : ∀ gated ∈ awake, ¬gated.Off chip
  registers : ∀ address, retains (Block.decode address) = true →
    memory.cells.get address = chip.peek address

/-- After reset the chip agrees with memory full of zeros. -/
theorem Alike.start : Alike [] .reset .zeroed where
  inactive := inactive_fresh 0
  disabled c := by
    have fresh : Chip.reset.peek = fun _ => 0 := peek_fresh 0
    rw [channelEnabled, fresh]
    exact (by decide : ((0 : Word) &&& Dma1.enable != 0) = false)
  clocks := nofun
  registers address _ := by
    have fresh : Chip.reset.peek = fun _ => 0 := peek_fresh 0
    rw [fresh]
    exact Registers.get_zero address

/-- A register that can be used as memory while the blocks of a list are clocked. -/
structure Opened (needs : List Gated) (address : Word) : Prop where
  mapped : FlatMemory.mapped address = true
  retained : retains (Block.decode address) = true
  clocked : ∀ gated, gated.Holds address → gated ∈ needs

/-- A register that configuration may change without touching a clock gate or a channel's
control. -/
structure Settable (needs : List Gated) (address : Word) : Prop extends Opened needs address where
  notControl : ∀ c, address ≠ Dma1.register c Dma1.ccr
  notGate : ∀ gated : Gated, gated.register ≠ address

theorem Opened.mono (opened : Opened needs address) (available : ∀ gated ∈ needs, gated ∈ awake) :
    Opened awake address :=
  ⟨opened.mapped, opened.retained, fun gated holds => available gated (opened.clocked gated holds)⟩

namespace Alike

theorem mono (alike : Alike awake chip memory) (fewer : ∀ gated ∈ needs, gated ∈ awake) :
    Alike needs chip memory :=
  ⟨alike.inactive, alike.disabled, fun gated member => alike.clocks gated (fewer gated member),
    alike.registers⟩

theorem clocked (alike : Alike awake chip memory) (opened : Opened awake address) :
    chip.clocked (Block.decode address) = true := by
  have on (gated : Gated) (holds : gated.Holds address) :
      chip.clocked (Block.decode address) = true :=
    (Gated.clocked_of_holds holds).mpr (alike.clocks gated (opened.clocked gated holds))
  cases decoded : Block.decode address with
  | gpio port offset => exact decoded ▸ on (.gpio port) (by simp [Gated.Holds, decoded])
  | usart3 offset => exact decoded ▸ on .serial (by simp [Gated.Holds, decoded])
  | dma1 offset => exact decoded ▸ on .dma (by simp [Gated.Holds, decoded])
  | other => rfl

/-- A read gives the same value on both targets. -/
theorem read (alike : Alike awake chip memory) (opened : Opened awake address) :
    ∃ after, Alike awake after memory ∧
      Yields (Bus.read address) chip 1 #[.read address (chip.peek address)]
        (.ok (chip.peek address)) after ∧
      Yields (Bus.read address) memory 1 #[.read address (chip.peek address)]
        (.ok (chip.peek address)) memory := by
  have passed : Chip.tick.run chip = .ok () (chip.timed (chip.busy - 1) chip.written) :=
    Quiet.tick (.of_inactive alike.inactive) chip.busy chip.written
  have later : Alike awake (chip.timed (chip.busy - 1) chip.written) memory :=
    ⟨alike.inactive, alike.disabled, alike.clocks, alike.registers⟩
  refine ⟨_, later, fun ticks log => ?_, fun ticks log => ?_⟩
  · rw [run_read passed (load_retained opened.retained (later.clocked opened)),
      Array.push_eq_append]
    rfl
  · rw [← alike.registers address opened.retained, ← Array.push_eq_append]
    have accepted : (require address).run ⟨memory, ticks + 1, log⟩ =
        .ok () ⟨memory, ticks + 1, log⟩ := if_pos opened.mapped
    rw [Bus.read, EStateM.run_bind, accepted]
    rfl

theorem write_yields (chip : Chip) (address value : Word) :
    Yields (Bus.write address value) chip 0 #[.write address value] (.ok ())
      (chip.write address value) := by
  intro ticks log
  rw [← Array.push_eq_append]
  rfl

theorem write_yields_memory (memory : FlatMemory) (mapped : FlatMemory.mapped address = true)
    (value : Word) :
    Yields (Bus.write address value) memory 0 #[.write address value] (.ok ())
      ⟨memory.cells.set address value, memory.nextHome⟩ := by
  intro ticks log
  have accepted : (require address).run ⟨memory, ticks, log⟩ = .ok () ⟨memory, ticks, log⟩ :=
    if_pos mapped
  rw [← Array.push_eq_append, Nat.add_zero, Bus.write, EStateM.run_bind, accepted]
  rfl

/-- A write of a value that keeps the clocks leaves the targets agreeing. -/
theorem write {wakes : List Gated} {value : Word} (alike : Alike awake chip memory)
    (opened : Opened awake address) (notControl : ∀ c, address ≠ Dma1.register c Dma1.ccr)
    (clocks : ∀ gated ∈ wakes, if address = gated.register then value &&& gated.mask ≠ 0
      else gated ∈ awake) :
    Alike wakes (chip.write address value) ⟨memory.cells.set address value, memory.nextHome⟩ := by
  rw [write_retained opened.retained (alike.clocked opened) alike.disabled notControl]
  have peek (other : Word) : ((chip.noted address value).poke address value).peek other =
      if address = other then value else chip.peek other := peek_poke _ _ _ _
  constructor
  · exact alike.inactive
  · intro c
    rw [channelEnabled, peek, if_neg (notControl c)]
    exact alike.disabled c
  · intro gated member
    have clock := clocks gated member
    rw [Gated.Off, peek]
    split
    · next same =>
      rw [if_pos same] at clock
      exact clock
    · next differ =>
      rw [if_neg differ] at clock
      exact alike.clocks gated clock
  · intro other retained
    rw [peek, Registers.get_set, alike.registers other retained]

/-- A write to the register that clears flags concerns no register on which the targets agree. -/
theorem clear {value : Word} (alike : Alike awake chip memory) (dma : .dma ∈ awake) :
    Alike awake (chip.write (Dma1.base + Dma1.ifcr) value)
      ⟨memory.cells.set (Dma1.base + Dma1.ifcr) value, memory.nextHome⟩ := by
  have clocked : chip.clocked (.dma1 0) = true := by
    have on := (Gated.clocked_of_holds (Gated.dma_holds_register 0 Dma1.ccr_inside)).mpr
      (alike.clocks .dma dma)
    rw [Dma1.decode_register 0 Dma1.ccr_inside] at on
    exact on
  rw [write_clear clocked]
  have peek {other : Word} (differ : Dma1.base + Dma1.isr ≠ other) :
      ((chip.noted (Dma1.base + Dma1.ifcr) value).poke (Dma1.base + Dma1.isr)
        (chip.peek (Dma1.base + Dma1.isr) &&& ~~~value)).peek other = chip.peek other := by
    rw [peek_poke, if_neg differ]
    rfl
  constructor
  · exact alike.inactive
  · intro c
    rw [channelEnabled, peek (Dma1.register_ne_flags c Dma1.ccr_inside).symm]
    exact alike.disabled c
  · intro gated member
    rw [Gated.Off, peek]
    · exact alike.clocks gated member
    · intro same
      have decoded := gated.decode_register
      rw [← same] at decoded
      cases decoded
  · intro other retained
    rw [Registers.get_set_of_ne, peek, alike.registers other retained]
    · rintro rfl
      cases retained
    · rintro rfl
      cases retained

end Alike

end Peripherals
