import Peripherals.Proofs.ChannelRenewal
import Peripherals.Proofs.FlagHistory

/-! # Transfers from memory to memory

A channel whose target keeps what is stored there moves one item in each tick.
So everything about it is a function of the number of ticks: which bytes it has
stored and where, how many items are left, and which flags are raised. Programs
may do anything meanwhile that leaves the channel and its flags alone and starts
no other channel. -/

namespace Peripherals

open Bus Chip

/-! ## Items -/

namespace ChannelConfig

variable {config : ChannelConfig} {n k t : Nat}

/-- How many items a channel has moved after some ticks, one in each of them. -/
def movedIn (config : ChannelConfig) (n t : Nat) : Nat :=
  if config.circular then t else min t n

/-- Where a channel stores the item that follows `i` others, and which byte it stores. -/
def item (config : ChannelConfig) (target : Word) (bytes : Array Byte) (i : Nat) : Word × Byte :=
  (target + BitVec.ofNat 32 (if config.peripheralIncrement then i % bytes.size else 0),
    bytes.getD (if config.memoryIncrement then i % bytes.size else 0) 0)

theorem movedIn_zero (n : Nat) : config.movedIn n 0 = 0 := by
  rw [movedIn, Nat.zero_min]
  exact ite_self 0

/-- What a tick makes of the number of moved items: one more, until a last pass is over. -/
def advance (config : ChannelConfig) (n k : Nat) : Nat :=
  if config.place n k < n then k + 1 else k

/-- The items that a tick moves. -/
def due (config : ChannelConfig) (target : Word) (bytes : Array Byte) (k : Nat) :
    List (Word × Byte) :=
  if config.place bytes.size k < bytes.size then [config.item target bytes k] else []

/-- The items that a channel has moved. -/
def items (config : ChannelConfig) (target : Word) (bytes : Array Byte) (k : Nat) :
    List (Word × Byte) :=
  (List.range k).map (config.item target bytes)

theorem movedIn_succ (nonempty : 1 ≤ n) (t : Nat) :
    config.movedIn n (t + 1) = config.advance n (config.movedIn n t) := by
  rw [advance]
  cases circular : config.circular with
  | true =>
    rw [if_pos (place_lt circular nonempty _)]
    simp only [movedIn, circular, if_true]
  | false =>
    simp only [movedIn, place, circular, Bool.false_eq_true, if_false]
    split <;> omega

theorem items_advance (target : Word) (bytes : Array Byte) (k : Nat) :
    config.items target bytes (config.advance bytes.size k) =
      config.items target bytes k ++ config.due target bytes k := by
  rw [advance, due]
  split
  · rw [items, List.range_succ, List.map_append, List.map_singleton, items]
  · rw [List.append_nil]

/-- In a pass that is not over, the place of an item is its number within the pass. -/
theorem place_eq_mod (inside : config.place n k < n) : config.place n k = k % n := by
  rw [place] at inside ⊢
  split
  · rfl
  · next once =>
    rw [if_neg once] at inside
    exact (Nat.mod_eq_of_lt inside).symm

theorem item_eq {target : Word} {bytes : Array Byte} {byte : Byte}
    (inside : config.place bytes.size k < bytes.size)
    (next : bytes[config.sourceAt bytes.size k]? = some byte) :
    config.item target bytes k =
      (target + BitVec.ofNat 32 (config.targetAt bytes.size k), byte) := by
  have place := place_eq_mod inside
  rw [sourceAt, place] at next
  rw [item, targetAt, place, Array.getD_eq_getD_getElem?, next]
  rfl

end ChannelConfig

/-- What an address holds after some items were stored: the last of them for it, or what it held
before. -/
def lastAt (address : Word) (items : List (Word × Byte)) (before : Word) : Word :=
  items.foldl (fun value item => if item.1 = address then item.2.setWidth 32 else value) before

theorem lastAt_append (address : Word) (first second : List (Word × Byte)) (before : Word) :
    lastAt address (first ++ second) before =
      lastAt address second (lastAt address first before) :=
  List.foldl_append

/-- The item that a channel stores in its turn, with its address. -/
def Chip.item? (chip : Chip) (c : Channel) : Option (Word × Byte) :=
  if (chip.latch c).active ∧ chip.canMove c then
    (chip.memoryByte? (chip.latch c).memory).map fun byte => ((chip.latch c).target, byte)
  else none

/-- The item that a moment stores. -/
def Chip.Moment.stored? (moment : Chip.Moment) : Option (Word × Byte) :=
  match moment.part with
  | .turn c => moment.chip.item? c
  | .countDown | .countNop | .load _ | .whole _ => none

namespace Chip

/-! ## Targets that keep what is stored -/

/-- An address that keeps what is stored there and does nothing else: it belongs to no block of
registers, and DMA1's clock is not enabled there. -/
structure PlainTarget (address : Word) : Prop where
  other : Block.decode address = .other
  gate : address ≠ Rcc.ahb1enr

variable {chip after : Chip} {c d : Channel} {config : ChannelConfig} {target address : Word}
  {region : Region} {k : Nat} {byte : Byte}

theorem PlainTarget.store (plain : PlainTarget address) (chip : Chip) (value : Word) :
    chip.store address value = chip.poke address value := by
  rw [Chip.store, plain.other]
  exact if_pos rfl

theorem PlainTarget.not_dma (plain : PlainTarget address) (offset : Word) :
    Block.decode address ≠ .dma1 offset := by
  rw [plain.other]
  exact nofun

/-- A buffer is to be moved to addresses that keep what is stored there. -/
structure PlainTransfer (config : ChannelConfig) (target : Word) (region : Region) : Prop where
  reads : config.direction = .fromMemory
  nonempty : 1 ≤ region.bytes.size
  short : region.bytes.size ≤ 0xFFFF
  within : target.toNat + region.bytes.size < 0x100000000
  plain : ∀ j < region.bytes.size, PlainTarget (target + BitVec.ofNat 32 j)

/-- A channel that has moved `k` items of a buffer, and is the only one that works. -/
structure Carrying (c : Channel) (config : ChannelConfig) (target : Word) (region : Region)
    (k : Nat) (chip : Chip) : Prop where
  clocked : chip.clocked (.dma1 0) = true
  alone : ∀ d, d ≠ c → (chip.latch d).active = false
  layout : chip.Layout
  shared : region ∈ chip.regions
  progress : Progress c config target region.base region.bytes.size k chip

/-! ## One turn -/

section Turn

variable (transfer : PlainTransfer config target region)

include transfer

/-- While a pass is not over, the target of the next item keeps what is stored there. -/
theorem Carrying.plain (carrying : Carrying c config target region k chip)
    (inside : config.place region.bytes.size k < region.bytes.size) :
    PlainTarget (chip.latch c).target := by
  rw [carrying.progress.latch]
  exact transfer.plain _ (Nat.lt_of_le_of_lt (config.targetAt_le _ _) inside)

theorem Carrying.canMove_iff (carrying : Carrying c config target region k chip) :
    chip.canMove c = true ↔ config.place region.bytes.size k < region.bytes.size := by
  have short := transfer.short
  have within := carrying.progress.place_le transfer.nonempty
  have count : chip.peek (Dma1.register c Dma1.cndtr) ≠ 0 ↔
      config.place region.bytes.size k < region.bytes.size := by
    rw [← itemsLeft, carrying.progress.left]
    bv_omega
  have reads : chip.peek (Dma1.register c Dma1.ccr) &&& Dma1.fromMemory ≠ 0 := by
    rw [← controlOf, carrying.progress.control]
    exact config.control_fromMemory_iff.mpr transfer.reads
  have notData (inside : config.place region.bytes.size k < region.bytes.size) :
      (chip.latch c).target ≠ Usart3.base + Usart3.tdr := by
    have plain := (carrying.plain transfer inside).other
    intro same
    rw [same, decode_data] at plain
    cases plain
  simp only [canMove, Bool.and_eq_true, Bool.or_eq_true, bne_iff_ne, count, reads, ne_eq,
    not_false_eq_true, and_true]
  exact ⟨fun able => able.1, fun inside => ⟨inside, .inl (notData inside)⟩⟩

omit transfer in
theorem Carrying.fetches (carrying : Carrying c config target region k chip)
    (inside : config.place region.bytes.size k < region.bytes.size) :
    ∃ byte, chip.memoryByte? (chip.latch c).memory = some byte ∧
      config.item target region.bytes k = ((chip.latch c).target, byte) := by
  have source : config.sourceAt region.bytes.size k < region.bytes.size :=
    Nat.lt_of_le_of_lt (config.sourceAt_le _ _) inside
  refine ⟨region.bytes[config.sourceAt region.bytes.size k], ?_, ?_⟩
  · rw [carrying.progress.latch]
    exact carrying.layout.memoryByte?_add carrying.shared source
  · rw [carrying.progress.latch]
    exact ChannelConfig.item_eq inside (Array.getElem?_eq_getElem source)

theorem Carrying.stored (carrying : Carrying c config target region k chip)
    (inside : config.place region.bytes.size k < region.bytes.size) (byte : Byte) :
    chip.stored c byte = chip.poke (chip.latch c).target (byte.setWidth 32) :=
  (carrying.plain transfer inside).store chip _

/-- The next item takes the channel on by one. -/
theorem Carrying.moved (carrying : Carrying c config target region k chip)
    (inside : config.place region.bytes.size k < region.bytes.size) (byte : Byte) :
    Carrying c config target region (k + 1) (chip.moved c byte) := by
  have stored := carrying.stored transfer inside byte
  have plain := carrying.plain transfer inside
  have outside := store_outside plain.not_dma chip (byte.setWidth 32)
  have hidden := chip.hidden_moved c byte
  constructor
  · have gate : (chip.moved c byte).peek Rcc.ahb1enr = chip.peek Rcc.ahb1enr := by
      rw [peek_moved _ _ _ (by decide) (fun same => ?_), stored, peek_poke, if_neg plain.gate]
      have decoded := Dma1.decode_register c Dma1.cndtr_inside
      rw [← same] at decoded
      cases decoded
    rw [Chip.clocked, gate]
    exact carrying.clocked
  · intro d ne
    rw [latch_moved_of_ne _ _ _ ne, stored]
    exact carrying.alone d ne
  · apply carrying.layout.of_same
    rw [hidden.2.2.1, hidden.2.2.2.1, stored]
    exact ⟨rfl, rfl⟩
  · rw [hidden.2.2.1, stored]
    exact carrying.shared
  · exact carrying.progress.moved transfer.short inside (outside.1 c) outside.2

/-- What a turn of the channel does: it moves the next item if one is due, and the item is what
changes outside of DMA1. -/
structure Carried (c : Channel) (config : ChannelConfig) (target : Word) (region : Region) (k : Nat)
    (chip after : Chip) : Prop where
  turn : Turn chip c after
  carrying : Carrying c config target region (config.advance region.bytes.size k) after
  item : (chip.item? c).toList = config.due target region.bytes k
  kept : ∀ address, (∀ offset, Block.decode address ≠ .dma1 offset) →
    after.peek address = lastAt address (config.due target region.bytes k) (chip.peek address)

theorem Carrying.carried (carrying : Carrying c config target region k chip) :
    ∃ after, Carried c config target region k chip after := by
  have able := carrying.canMove_iff transfer
  have active : (chip.latch c).active = true := by rw [carrying.progress.latch]
  by_cases inside : config.place region.bytes.size k < region.bytes.size
  · obtain ⟨byte, mapped, item⟩ := carrying.fetches inside
    have stored := carrying.stored transfer inside byte
    have within := transfer.within
    have steps : ((chip.stored c byte).latch c).Steps (chip.controlOf c) := by
      rw [stored]
      refine ⟨fun _ => carrying.layout.room mapped, fun _ => ?_⟩
      have near := config.targetAt_le region.bytes.size k
      change (chip.latch c).target.toNat + 1 < 0x100000000
      rw [carrying.progress.latch]
      bv_omega
    refine ⟨chip.moved c byte, .moved byte active (able.mpr inside) mapped steps, ?_, ?_, ?_⟩
    · rw [ChannelConfig.advance, if_pos inside]
      exact carrying.moved transfer inside byte
    · rw [item?, if_pos ⟨active, able.mpr inside⟩, mapped, ChannelConfig.due,
        if_pos inside, item]
      rfl
    · intro address outside
      rw [ChannelConfig.due, if_pos inside, item, peek_moved, stored, peek_poke]
      · rfl
      · rintro rfl
        exact outside _ decode_flags
      · rintro rfl
        exact outside _ (Dma1.decode_register c Dma1.cndtr_inside)
  · refine ⟨chip, .rest fun _ => ?_, ?_, ?_, ?_⟩
    · exact Bool.eq_false_iff.mpr fun can => inside (able.mp can)
    · rw [ChannelConfig.advance, if_neg inside]
      exact carrying
    · rw [item?, if_neg fun can => inside (able.mp can.2), ChannelConfig.due,
        if_neg inside]
      rfl
    · intro address _
      rw [ChannelConfig.due, if_neg inside]
      rfl

end Turn

/-! ## Actions -/

/-- An action leaves a channel and its flags alone, keeps DMA1 clocked and starts no other
channel. -/
def Action.Spares (c : Channel) : Action → Prop
  | .write address value =>
    (∀ field : Word, field.toNat < 0x14 → address ≠ Dma1.register c field) ∧
    (address = Dma1.base + Dma1.ifcr →
      value &&& Dma1.flagsOf c Dma1.channelFlags = 0) ∧
    (address = Rcc.ahb1enr → value &&& Rcc.dma1Enable ≠ 0) ∧
    ∀ d, address = Dma1.register d Dma1.ccr → value &&& Dma1.enable = 0
  | .share bytes => bytes.size < 0x100000000
  | .read _ | .nop | .breakpoint | .drive _ _ | .release _ | .connect _ _ | .pushReceived _
  | .setLatency _ | .clearEvents => True

/-- A write may change a register: it is written itself, or it is the output register of a port
in which the write lies. -/
def Action.Reaches (address : Word) : Action → Prop
  | .write place _ =>
    place = address ∨
      ∃ port offset, Block.decode place = .gpio port offset ∧ address = port.base + Gpio.odr
  | .read _ | .nop | .breakpoint | .share _ | .drive _ _ | .release _ | .connect _ _
  | .pushReceived _ | .setLatency _ | .clearEvents => False

theorem Carrying.of_same (carrying : Carrying c config target region k chip)
    (same : SameEngine chip after) : Carrying c config target region k after where
  clocked := by
    rw [Chip.clocked, same.peek]
    exact carrying.clocked
  alone d ne := by
    rw [same.latch]
    exact carrying.alone d ne
  layout := carrying.layout.of_same ⟨same.regions, same.nextRegion⟩
  shared := by
    rw [same.regions]
    exact carrying.shared
  progress := carrying.progress.of_same ⟨same.latch c, fun _ _ => same.peek _⟩
    (flagRaised_iff_of_eq (same.peek _))

/-- Clearing flags of other channels clears none of a channel's own. -/
theorem flag_of_cleared {flags value : Word}
    (spares : value &&& Dma1.flagsOf c Dma1.channelFlags = 0) (flag : TransferFlag) :
    flags &&& ~~~value &&& Dma1.flagsOf c flag.bit = flags &&& Dma1.flagsOf c flag.bit := by
  have inside : Dma1.flagsOf c Dma1.channelFlags &&& Dma1.flagsOf c flag.bit =
      Dma1.flagsOf c flag.bit := channelFlags_and c (.only flag)
  have apart : value &&& Dma1.flagsOf c flag.bit = 0 := by
    rw [← inside, ← BitVec.and_assoc, spares]
    exact BitVec.zero_and
  rw [BitVec.and_comm] at apart
  rw [BitVec.and_assoc, BitVec.and_comm (~~~value), and_not_eq_self apart]

/-- The clock of DMA1 changes only with its own register. -/
theorem StoreEffect.clocked_dma {value : Word} (effect : StoreEffect chip address value after)
    (other : address ≠ Rcc.ahb1enr) :
    after.clocked (.dma1 0) = chip.clocked (.dma1 0) := by
  have kept : after.peek Rcc.ahb1enr = chip.peek Rcc.ahb1enr := by
    refine Gated.peek_of_store effect other ?_ ?_
    · intro port _ _ _ same
      have decoded := decode_output port
      rw [same] at decoded
      cases decoded
    · exact fun _ => by decide
  rw [Chip.clocked, kept]
  rfl

theorem Carrying.write {value : Word} (carrying : Carrying c config target region k chip)
    (spares : (Action.write address value).Spares c) :
    Carrying c config target region k (chip.write address value) := by
  obtain ⟨ownRegisters, ownFlags, gate, others⟩ := spares
  have begun : Carrying c config target region k (chip.noted address value) :=
    carrying.of_same ⟨rfl, rfl, rfl, rfl⟩
  have effect : StoreEffect (chip.noted address value) address value
      (chip.write address value) := store_effect _ _ _
  have own : SameChannel c (chip.noted address value) (chip.write address value) := by
    cases effect.channel c with
    | same same => exact same
    | control place => exact (ownRegisters _ Dma1.ccr_inside place).elim
    | programmed _ small _ place => exact (ownRegisters _ small place).elim
  constructor
  · by_cases same : address = Rcc.ahb1enr
    · subst same
      have wrote := Gated.peek_write_register .dma chip value Rcc.ahb1enr
      rw [Chip.clocked]
      refine bne_iff_ne.mpr ?_
      rw [show (chip.write Rcc.ahb1enr value).peek Rcc.ahb1enr = value from wrote]
      exact gate rfl
    · rw [effect.clocked_dma same]
      exact begun.clocked
  · intro d ne
    cases effect.channel d with
    | same same => rw [same.latch]; exact begun.alone d ne
    | control place becomes =>
      rw [becomes, latch_storeControl, if_pos (others d place)]
    | programmed _ _ _ _ _ becomes => rw [becomes]; exact begun.alone d ne
  · exact begun.layout.of_same effect.regions_eq
  · rw [effect.regions_eq.1]
    exact begun.shared
  · apply begun.progress.of_same own
    intro flag
    obtain same | ⟨place, cleared⟩ := effect.flags
    · exact flagRaised_iff_of_eq same flag
    · rw [FlagRaised, cleared, flag_of_cleared (ownFlags place), FlagRaised]

/-- Another buffer changes nothing for a channel. -/
theorem Carrying.share {bytes : Array Byte} (carrying : Carrying c config target region k chip)
    (small : bytes.size < 0x100000000) :
    Carrying c config target region k (stateAfter (Action.share bytes).perform chip) := by
  rw [stateAfter_perform_share, stateAfter, run_share]
  cases fits : regionAfter chip.nextRegion bytes.size with
  | error fault => exact carrying
  | ok next =>
    exact
      { clocked := carrying.clocked
        alone := carrying.alone
        layout := carrying.layout.shared small fits
        shared := List.mem_append_left _ carrying.shared
        progress := carrying.progress.of_same ⟨rfl, fun _ _ => rfl⟩ fun _ => Iff.rfl }

/-- Whatever takes no time and leaves a channel alone takes it neither on nor back. -/
theorem Carrying.instant {action : Action} (carrying : Carrying c config target region k chip)
    (instant : action.instant = true) (spares : action.Spares c) :
    Carrying c config target region k (stateAfter action.perform chip) := by
  cases action with
  | read | nop => cases instant
  | write address value => exact carrying.write spares
  | share bytes => exact carrying.share spares
  | breakpoint | drive | release | connect | pushReceived | setLatency | clearEvents =>
    exact carrying.of_same ⟨rfl, rfl, rfl, rfl⟩

/-- Outside of DMA1, a register changes only by a write that reaches it. -/
theorem peek_instant {action : Action} (instant : action.instant = true)
    (outside : ∀ offset, Block.decode address ≠ .dma1 offset) (spared : ¬action.Reaches address) :
    (stateAfter action.perform chip).peek address = chip.peek address := by
  cases action with
  | read | nop => cases instant
  | write place value =>
    have effect : StoreEffect (chip.noted place value) place value
        (chip.write place value) := store_effect _ _ _
    refine Gated.peek_of_store effect ?_ ?_ ?_
    · exact fun same => spared (.inl same)
    · intro port offset lies inside same
      exact spared (.inr ⟨port, offset, Block.decode_eq_gpio_iff.mpr ⟨lies, inside⟩, same.symm⟩)
    · rintro _ rfl
      exact outside _ decode_flags
  | share bytes =>
    obtain ⟨regions, next, shared⟩ := stateAfter_share chip bytes
    rw [shared]
    rfl
  | breakpoint | drive | release | connect | pushReceived | setLatency | clearEvents => rfl

end Chip

/-! ## Recorded runs -/

namespace Recorded

open Chip

variable {r : Recorded} {part : Part} {c : Channel} {config : ChannelConfig} {target : Word}
  {region : Region} {free : Word → Prop} {started : Chip} {k t : Nat}

/-- The items that were stored, in order. -/
def items (r : Recorded) : List (Word × Byte) :=
  r.moments.filterMap Moment.stored?

/-- No turn of a channel faulted. -/
def Smooth (r : Recorded) : Prop :=
  ∀ moment ∈ r.moments, ∀ d, moment.part = .turn d →
    (serveChannel d).run moment.chip = .ok () moment.after

/-- A recorded channel has moved `k` items, and the free registers show nothing else. -/
structure Carries (c : Channel) (config : ChannelConfig) (target : Word) (region : Region)
    (free : Word → Prop) (started : Chip) (k : Nat) (r : Recorded) : Prop where
  carrying : Carrying c config target region k r.chip
  items : r.items = config.items target region.bytes k
  kept : ∀ address, free address →
    r.chip.peek address = lastAt address r.items (started.peek address)
  smooth : r.Smooth

theorem items_extend (r : Recorded) (part : Part) :
    (r.extend part).items = r.items ++ (Moment.stored? ⟨part, r.chip⟩).toList := by
  rw [items, extend, List.filterMap_append, items]
  cases found : Moment.stored? ⟨part, r.chip⟩ <;> simp [found]

theorem Smooth.extend (smooth : r.Smooth)
    (returned : ∀ d, part = .turn d → (serveChannel d).run r.chip = .ok () (part.after r.chip)) :
    (r.extend part).Smooth :=
  List.forall_mem_append.mpr ⟨smooth, List.forall_mem_singleton.mpr returned⟩

/-- A part that stores no item and leaves the free registers alone. -/
theorem Carries.quiet (carries : Carries c config target region free started k r)
    (carrying : Carrying c config target region k (part.after r.chip))
    (none : Moment.stored? ⟨part, r.chip⟩ = none)
    (same : ∀ address, free address → (part.after r.chip).peek address = r.chip.peek address)
    (returned : ∀ d, part = .turn d → (serveChannel d).run r.chip = .ok () (part.after r.chip)) :
    Carries c config target region free started k (r.extend part) := by
  have items : (r.extend part).items = r.items := by
    rw [items_extend, none]
    exact List.append_nil _
  refine ⟨carrying, items.trans carries.items, ?_, carries.smooth.extend returned⟩
  intro address isFree
  rw [items]
  exact (same address isFree).trans (carries.kept address isFree)

theorem Carries.of_same (carries : Carries c config target region free started k r)
    (timeless : ∀ d, part ≠ .turn d) (same : SameEngine r.chip (part.after r.chip)) :
    Carries c config target region free started k (r.extend part) := by
  apply carries.quiet (carries.carrying.of_same same)
  · cases part with
    | turn d => exact (timeless d rfl).elim
    | countDown | countNop | load | whole => rfl
  · exact fun address _ => same.peek address
  · exact fun d turn => (timeless d turn).elim

/-! ### Ticks -/

/-- A recorded turn that returns extends the record. -/
theorem run_turn (returned : (serveChannel c).run r.chip = .ok () (Part.after r.chip (.turn c))) :
    (note (.turn c) (serveChannel c)).run r = .ok () (r.extend (.turn c)) := by
  rw [run_note, returned]
  rfl

/-- The channels that are not active change nothing in their turns. -/
theorem Carries.rest {cs : List Channel} (carries : Carries c config target region free started k r)
    (others : ∀ d ∈ cs, d ≠ c) :
    ∃ after, (forM cs fun d => note (.turn d) (serveChannel d)).run r = .ok () after ∧
      Carries c config target region free started k after := by
  induction cs generalizing r with
  | nil => exact ⟨r, rfl, carries⟩
  | cons d rest ih =>
    obtain ⟨ne, others⟩ := List.forall_mem_cons.mp others
    have inactive := carries.carrying.alone d ne
    have rested : (serveChannel d).run r.chip = .ok () r.chip :=
      serveChannel_eq_ok_iff.mpr (Rests.of_inactive inactive).turn
    have same : Part.after r.chip (.turn d) = r.chip := stateAfter_of_ok rested
    have returned : (serveChannel d).run r.chip = .ok () (Part.after r.chip (.turn d)) := by
      rw [same]
      exact rested
    have next : Carries c config target region free started k (r.extend (.turn d)) := by
      apply carries.quiet
      · rw [same]
        exact carries.carrying
      · change r.chip.item? d = none
        rw [item?, inactive]
        exact if_neg fun both => Bool.false_ne_true both.1
      · exact fun _ _ => by rw [same]
      · rintro _ ⟨⟩
        exact returned
    obtain ⟨after, ran, reached⟩ := ih next others
    refine ⟨after, ?_, reached⟩
    rw [List.forM_cons, run_seq_eq_ok_iff]
    exact ⟨_, run_turn returned, ran⟩

/-- A load gives a byte away, which changes nothing for a channel. -/
theorem Carries.load (carries : Carries c config target region free started k r)
    (address : Word) :
    Carries c config target region free started k (r.extend (.load address)) := by
  refine carries.of_same ?_ ?_
  · rintro _ ⟨⟩
  · obtain ⟨rest, loaded⟩ := stateAfter_load r.chip address
    rw [Part.after, loaded]
    exact ⟨rfl, rfl, rfl, rfl⟩

theorem Carries.instant {action : Action}
    (carries : Carries c config target region free started k r)
    (instant : action.instant = true)
    (outside : ∀ address, free address → ∀ offset, Block.decode address ≠ .dma1 offset)
    (spares : action.Spares c) (spared : ∀ address, free address → ¬action.Reaches address) :
    Carries c config target region free started k (r.extend (.whole action)) := by
  refine carries.quiet ?_ rfl ?_ ?_
  · exact carries.carrying.instant instant spares
  · exact fun address isFree =>
      peek_instant instant (outside address isFree) (spared address isFree)
  · rintro _ ⟨⟩

section Steps

variable (transfer : PlainTransfer config target region)
  (outside : ∀ address, free address → ∀ offset, Block.decode address ≠ .dma1 offset)

include transfer outside

/-- In its turn, the channel moves the item that is due. -/
theorem Carries.turn (carries : Carries c config target region free started k r) :
    (note (.turn c) (serveChannel c)).run r = .ok () (r.extend (.turn c)) ∧
      Carries c config target region free started (config.advance region.bytes.size k)
        (r.extend (.turn c)) := by
  obtain ⟨after, carried⟩ := carries.carrying.carried transfer
  have served := serveChannel_eq_ok_iff.mpr carried.turn
  have left : Part.after r.chip (.turn c) = after := stateAfter_of_ok served
  have returned : (serveChannel c).run r.chip = .ok () (Part.after r.chip (.turn c)) := by
    rw [left]
    exact served
  have stored : (Moment.stored? ⟨.turn c, r.chip⟩).toList = config.due target region.bytes k :=
    carried.item
  refine ⟨run_turn returned, ?_, ?_, ?_, ?_⟩
  · change Carrying _ _ _ _ _ (Part.after r.chip (.turn c))
    rw [left]
    exact carried.carrying
  · rw [items_extend, stored, carries.items, ChannelConfig.items_advance]
  · intro address isFree
    change (Part.after r.chip (.turn c)).peek address = _
    rw [left, items_extend, stored, lastAt_append, ← carries.kept address isFree]
    exact carried.kept address (outside address isFree)
  · apply carries.smooth.extend
    rintro _ ⟨⟩
    exact returned

/-- In each tick, the channel moves the item that is due. -/
theorem Carries.tick (carries : Carries c config target region free started k r) :
    ∃ after, Recorded.tick.run r = .ok () after ∧
      Carries c config target region free started (config.advance region.bytes.size k) after := by
  have begun : Carries c config target region free started k (r.extend .countDown) :=
    carries.of_same (fun _ => nofun) ⟨rfl, rfl, rfl, rfl⟩
  -- the channels before this one and those after it have nothing to do in their turns
  obtain ⟨earlier, later, split⟩ := List.append_of_mem (List.mem_finRange c)
  have nodup := List.nodup_finRange 7
  rw [split, List.nodup_append, List.nodup_cons] at nodup
  obtain ⟨-, ⟨notLater, -⟩, apart⟩ := nodup
  obtain ⟨first, ran, carries⟩ := begun.rest fun d member => apart d member c List.mem_cons_self
  obtain ⟨served, carries⟩ := carries.turn transfer outside
  have others : ∀ d ∈ later, d ≠ c := fun d member same => notLater (same ▸ member)
  obtain ⟨last, ran', carries⟩ := carries.rest others
  refine ⟨last, ?_, carries⟩
  rw [run_tick, if_pos begun.carrying.clocked, Channel.all, split, List.forM_append,
    run_seq_eq_ok_iff]
  refine ⟨first, ran, ?_⟩
  rw [List.forM_cons, run_seq_eq_ok_iff]
  exact ⟨_, served, ran'⟩

/-! ### Actions -/

/-- What an action makes of the number of moved items: it takes time, or it does not. -/
theorem Carries.act {action : Action} (carries : Carries c config target region free started k r)
    (spares : action.Spares c) (spared : ∀ address, free address → ¬action.Reaches address) :
    Carries c config target region free started
      (if action.instant then k else config.advance region.bytes.size k)
      (stateAfter (Recorded.act action) r) := by
  have single (instant : action.instant = true) :
      Upholds (Carries c config target region free started k)
        (note (.whole action) action.perform) :=
    note_upholds (fun _ => rfl) fun r carries => carries.instant instant outside spares spared
  cases action with
  | read address =>
    -- the load may fault, but by then the tick has passed
    obtain ⟨ticked, passed, carries⟩ := carries.tick transfer outside
    have loads : Upholds (Carries c config target region free started
        (config.advance region.bytes.size k))
        (note (.load address) (Chip.load address)) :=
      note_upholds (fun _ => rfl) fun r carries => carries.load address
    have left : stateAfter (Recorded.act (.read address)) r =
        stateAfter (note (.load address) (Chip.load address)) ticked :=
      (stateAfter_dropped _ r).trans (stateAfter_bind_of_ok passed)
    rw [left]
    exact loads ticked carries
  | nop =>
    have counted : Carries c config target region free started k (r.extend .countNop) :=
      carries.of_same (fun _ => nofun) ⟨rfl, rfl, rfl, rfl⟩
    obtain ⟨ticked, passed, carries⟩ := counted.tick transfer outside
    have ran : (Recorded.act .nop).run r = .ok () ticked := passed
    rw [stateAfter_of_ok ran]
    exact carries
  | write | breakpoint | share | drive | release | connect | pushReceived | setLatency
  | clearEvents =>
    exact single rfl r carries

end Steps

/-! ### Runs -/

theorem Carries.run {actions : List Action} (transfer : PlainTransfer config target region)
    (outside : ∀ address, free address → ∀ offset, Block.decode address ≠ .dma1 offset)
    (spares : ∀ action ∈ actions, action.Spares c)
    (spared : ∀ action ∈ actions, ∀ address, free address → ¬action.Reaches address)
    (carries : Carries c config target region free started
      (config.movedIn region.bytes.size t) r) :
    Carries c config target region free started
      (config.movedIn region.bytes.size (t + Action.ticksOf actions))
      ((actions.map Move.act).foldl Move.note r) := by
  induction actions generalizing r t with
  | nil => exact carries
  | cons action rest ih =>
    obtain ⟨spares, spares'⟩ := List.forall_mem_cons.mp spares
    obtain ⟨spared, spared'⟩ := List.forall_mem_cons.mp spared
    have next := carries.act transfer outside spares spared
    rw [← ChannelConfig.movedIn_succ transfer.nonempty, ← apply_ite] at next
    rw [Action.ticksOf_cons]
    exact ih spares' spared' next

/-- What a recorded run shows after `k` items of a transfer that was set up at its start. -/
structure Transferred (c : Channel) (config : ChannelConfig) (target : Word) (bytes : Array Byte)
    (free : Word → Prop) (started : Chip) (k : Nat) (r : Recorded) : Prop where
  /-- The items were stored in order, each in its place. -/
  items : r.items = (List.range k).map (config.item target bytes)
  /-- A free register holds the last item stored to it, or what it held at the start. -/
  registers : ∀ address, free address →
    r.chip.peek address = lastAt address r.items (started.peek address)
  left : (r.chip.itemsLeft c).toNat =
    if config.circular then bytes.size - k % bytes.size else bytes.size - k
  half : r.chip.FlagRaised c .half ↔ bytes.size ≤ 2 * k ∧ 1 ≤ k
  complete : r.chip.FlagRaised c .complete ↔ bytes.size ≤ k
  error : ¬ r.chip.FlagRaised c .error
  smooth : r.Smooth

theorem Carries.transferred (carries : Carries c config target region free started k r)
    (short : region.bytes.size ≤ 0xFFFF) :
    Transferred c config target region.bytes free started k r where
  items := carries.items
  registers := carries.kept
  left := by
    rw [carries.carrying.progress.left, BitVec.toNat_ofNat,
      Nat.mod_eq_of_lt (by omega), ChannelConfig.place]
    split <;> rfl
  half := carries.carrying.progress.half
  complete := carries.carrying.progress.complete
  error := carries.carrying.progress.error
  smooth := carries.smooth

end Recorded

/-- Once a channel is set up to move a buffer to addresses that keep what is stored there, and no
other channel works, everything about the transfer is a function of the number of ticks. This
holds whatever else is done meanwhile, as long as it spares the channel. -/
theorem Dma.setUp_transfers {first started : Chip} {c : Channel} {config : ChannelConfig}
    {target : Word} {region : Region} {ticks left : Nat} {log log' : Array Access}
    {actions : List Chip.Action} (reachable : Reachable Action.Addressable first)
    (returned : (Dma.setUp c target region.base (BitVec.ofNat 32 region.bytes.size) config).run
      ⟨first, ticks, log⟩ = .ok () ⟨started, left, log'⟩)
    (clocked : started.clocked (.dma1 0) = true)
    (alone : ∀ d, d ≠ c → (started.latch d).active = false) (shared : region ∈ started.regions)
    (transfer : PlainTransfer config target region)
    (spares : ∀ action ∈ actions, action.Spares c) :
    (Move.record started (actions.map .act)).chip =
        (actions.map Move.act).foldl Move.apply started ∧
      Chip.Linked started (Move.record started (actions.map .act)).moments
        (Move.record started (actions.map .act)).chip ∧
      (Move.record started (actions.map .act)).Transferred c config target region.bytes
        (fun address => (∀ offset, Block.decode address ≠ .dma1 offset) ∧
          ∀ action ∈ actions, ¬action.Reaches address)
        started (config.movedIn region.bytes.size (Action.ticksOf actions)) := by
  obtain ⟨reached, progress⟩ := Dma.setUp_returned reachable returned clocked transfer.nonempty
  have carrying : Carrying c config target region 0 started :=
    ⟨clocked, alone, reached.layout, shared, progress⟩
  have start : Recorded.Carries c config target region
      (fun address => (∀ offset, Block.decode address ≠ .dma1 offset) ∧
        ∀ action ∈ actions, ¬action.Reaches address)
      started (config.movedIn region.bytes.size 0) ⟨started, []⟩ := by
    rw [ChannelConfig.movedIn_zero]
    exact ⟨carrying, rfl, fun _ _ => rfl, List.forall_mem_nil _⟩
  have carries := start.run transfer (fun _ isFree => isFree.1) spares
    fun action member _ isFree => isFree.2 action member
  rw [Nat.zero_add] at carries
  exact ⟨Move.record_chip _ _, Move.record_linked _ _, carries.transferred transfer.short⟩

/-- Bytes of a buffer go round to addresses that follow each other. -/
def ChannelConfig.roundTrip : ChannelConfig :=
  { ChannelConfig.default with circular := true, peripheralIncrement := true }

theorem Dma.setUp_transfers_roundTrip :
    ∃ started log, Reachable Action.Addressable broughtUp ∧
      (Dma.setUp 3 0x30000000 0x20000000 2 .roundTrip).run ⟨broughtUp, 1, #[]⟩ =
        .ok () ⟨started, 0, log⟩ ∧
      started.clocked (.dma1 0) = true ∧ (∀ d, d ≠ 3 → (started.latch d).active = false) ∧
      ⟨0x20000000, #[7, 8]⟩ ∈ started.regions ∧
      PlainTransfer .roundTrip 0x30000000 ⟨0x20000000, #[7, 8]⟩ ∧
      (∀ action ∈ [.nop, .read 0x30000000, .nop], Action.Spares 3 action) ∧
      (Move.record started ([.nop, .read 0x30000000, .nop].map .act)).items =
        [(0x30000000, 7), (0x30000001, 8), (0x30000000, 7)] := by
  obtain ⟨started, log, ran, line, alone, shares, -⟩ :=
    Dma.setUp_broughtUp 3 0x30000000 0x20000000 2 (by decide) .roundTrip
  have transfer : PlainTransfer .roundTrip 0x30000000 ⟨0x20000000, #[7, 8]⟩ := by
    have others : ∀ j < 2, Block.decode (0x30000000 + BitVec.ofNat 32 j) = .other := by decide
    have gates : ∀ j < 2, 0x30000000 + BitVec.ofNat 32 j ≠ Rcc.ahb1enr := by decide
    exact ⟨rfl, by decide, by decide, by decide, fun j few => ⟨others j few, gates j few⟩⟩
  have spares : ∀ action ∈ [.nop, .read 0x30000000, .nop], Action.Spares 3 action := by
    simp [Action.Spares]
  obtain ⟨-, -, transferred⟩ := Dma.setUp_transfers broughtUp_reachable.addressable ran
    line.dmaClocked alone shares transfer spares
  exact ⟨started, log, broughtUp_reachable.addressable, ran, line.dmaClocked, alone, shares,
    transfer, spares, transferred.items⟩

end Peripherals
