import Peripherals.Proofs.ChannelAims
import Peripherals.Proofs.GatedBlocks

/-! # Chips that are alike beside one channel

Two chips may differ in the registers, the latch and the flags of one channel, in
what was last written, and in storage on which nothing depends. Whatever is done
to both of them beside that channel keeps them alike, a turn of another channel
included. And they stay alike while only one of them has a turn of the channel
that stores where nothing depends on it. So no other channel can tell them
apart. -/

namespace Peripherals

namespace Chip

variable {chip middle other after : Chip} {c d : Channel} {address value : Word}

/-! ## What may differ -/

/-- An address belongs to a channel. -/
def Owns (c : Channel) (address : Word) : Prop :=
  ∃ field : Word, field.toNat < 0x14 ∧ address = Dma1.register c field

/-- Storage on which nothing depends: it belongs to no block and enables no clock. -/
structure Storage (address : Word) : Prop where
  decoded : Block.decode address = .other
  not_gate : ∀ gated : Gated, address ≠ gated.register

/-- What is left of a chip without its registers, its latches and its counts of what was done. -/
def around (chip : Chip) : Chip :=
  { chip with
    registers := .zero
    channels := Vector.replicate 7 ⟨false, 0, 0, 0⟩
    written := .empty
    nops := 0 }

/-- Both chips are the same, except for a channel and for storage. -/
structure AlikeBeside (c : Channel) (chip other : Chip) : Prop where
  registers : ∀ address, ¬Owns c address → ¬Storage address → address ≠ Dma1.base + Dma1.isr →
    other.peek address = chip.peek address
  flags : ∀ d, d ≠ c → other.flagGroup d = chip.flagGroup d
  latches : ∀ d, d ≠ c → other.latch d = chip.latch d
  around : other.around = chip.around

theorem Owns.decode (owns : Owns c address) : ∃ offset, Block.decode address = .dma1 offset := by
  obtain ⟨field, small, rfl⟩ := owns
  exact ⟨_, Dma1.decode_register c small⟩

theorem not_owns_of_decode (outside : ∀ offset, Block.decode address ≠ .dma1 offset) :
    ¬Owns c address := by
  intro owns
  obtain ⟨offset, decoded⟩ := owns.decode
  exact outside offset decoded

theorem not_owns_register (ne : d ≠ c) {field : Word} (small : field.toNat < 0x14) :
    ¬Owns c (Dma1.register d field) := by
  rintro ⟨other, small', same⟩
  exact Dma1.register_ne_register small small' (.inl ne) same

theorem storage_of_decode (decoded : Block.decode address = .other)
    (notGate : address ∉ [Rcc.ahb2enr, Rcc.apb1lenr, Rcc.ahb1enr]) : Storage address := by
  simp only [List.mem_cons, List.not_mem_nil, or_false, not_or] at notGate
  obtain ⟨ports, serial, dma⟩ := notGate
  refine ⟨decoded, fun gated => ?_⟩
  cases gated with
  | gpio => exact ports
  | serial => exact serial
  | dma => exact dma

theorem not_storage_of_decode (inside : Block.decode address ≠ .other) : ¬Storage address :=
  fun storage => inside storage.decoded

namespace AlikeBeside

theorem refl (c : Channel) (chip : Chip) : AlikeBeside c chip chip :=
  ⟨fun _ _ _ _ => rfl, fun _ _ => rfl, fun _ _ => rfl, rfl⟩

theorem trans (first : AlikeBeside c chip middle) (second : AlikeBeside c middle other) :
    AlikeBeside c chip other where
  registers address owns storage notFlags :=
    (second.registers address owns storage notFlags).trans
      (first.registers address owns storage notFlags)
  flags d ne := (second.flags d ne).trans (first.flags d ne)
  latches d ne := (second.latches d ne).trans (first.latches d ne)
  around := second.around.trans first.around

theorem symm (alike : AlikeBeside c chip other) : AlikeBeside c other chip where
  registers address owns storage notFlags := (alike.registers address owns storage notFlags).symm
  flags d ne := (alike.flags d ne).symm
  latches d ne := (alike.latches d ne).symm
  around := alike.around.symm

section Reading

variable (alike : AlikeBeside c chip other)

include alike

/-- What a chip has beside its registers and latches is the same. -/
theorem of_around {α : Type} (f : Chip → α) (reads : ∀ chip, f chip.around = f chip) :
    f other = f chip := by
  rw [← reads other, alike.around, reads]

theorem peek_gate (gated : Gated) : other.peek gated.register = chip.peek gated.register := by
  have decoded := gated.decode_register
  apply alike.registers
  · apply not_owns_of_decode
    simp [decoded]
  · exact fun storage => storage.not_gate gated rfl
  · intro flags
    rw [flags] at decoded
    cases decoded

theorem clocked (block : Block) : other.clocked block = chip.clocked block := by
  cases block with
  | gpio port _ => exact congrArg (· &&& Rcc.portEnable port != 0) (alike.peek_gate (.gpio port))
  | usart3 _ => exact congrArg (· &&& Rcc.usart3Enable != 0) (alike.peek_gate .serial)
  | dma1 _ => exact congrArg (· &&& Rcc.dma1Enable != 0) (alike.peek_gate .dma)
  | other => rfl

theorem peek_block (inside : Block.decode address ≠ .other)
    (outside : ∀ offset, Block.decode address ≠ .dma1 offset) :
    other.peek address = chip.peek address := by
  apply alike.registers _ (not_owns_of_decode outside) (not_storage_of_decode inside)
  rintro rfl
  exact outside _ decode_flags

theorem peek_gpio (decoded : Block.decode address = .gpio port offset) :
    other.peek address = chip.peek address := by
  apply alike.peek_block <;> simp [decoded]

theorem peek_usart (decoded : Block.decode address = .usart3 offset) :
    other.peek address = chip.peek address := by
  apply alike.peek_block <;> simp [decoded]

theorem peek_register (ne : d ≠ c) {field : Word} (small : field.toNat < 0x14) :
    other.peek (Dma1.register d field) = chip.peek (Dma1.register d field) := by
  have decoded := Dma1.decode_register d small
  apply alike.registers _ (not_owns_register ne small)
  · apply not_storage_of_decode
    rw [decoded]
    exact nofun
  · exact Dma1.register_ne_flags d small

/-- Every other channel is the same in both chips. -/
theorem sameState (ne : d ≠ c) : SameState d chip other where
  latch := alike.latches d ne
  register _ small := alike.peek_register ne small
  flags := alike.flags d ne

theorem usartHas (mask : Word) : other.usartHas mask = chip.usartHas mask := by
  have decoded : Block.decode (Usart3.base + Usart3.cr1) = .usart3 Usart3.cr1 := rfl
  rw [Chip.usartHas, alike.peek_usart decoded]
  rfl

theorem requestsData : other.requestsData = chip.requestsData := by
  have decoded : Block.decode (Usart3.base + Usart3.cr3) = .usart3 Usart3.cr3 := rfl
  rw [Chip.requestsData, alike.clocked, alike.of_around Chip.busy fun _ => rfl,
    alike.peek_usart decoded]
  rfl

theorem canMove (ne : d ≠ c) : other.canMove d = chip.canMove d := by
  rw [Chip.canMove, alike.peek_register ne Dma1.cndtr_inside,
    alike.peek_register ne Dma1.ccr_inside, alike.latches d ne, alike.requestsData]
  rfl

theorem memoryByte? (address : Word) : other.memoryByte? address = chip.memoryByte? address := by
  rw [Chip.memoryByte?, alike.of_around Chip.regions fun _ => rfl, Chip.memoryByte?]

end Reading

/-! ## What is done to one chip -/

theorem of_engine (same : SameEngine chip other) (around : other.around = chip.around) :
    AlikeBeside c chip other where
  registers _ _ _ _ := same.peek _
  flags _ _ := (SameState.of_engine same).flags
  latches d _ := same.latch d
  around := around

/-- A register of the channel, or storage, may change in one chip alone. -/
theorem poke_one (free : Owns c address ∨ Storage address) (value : Word) :
    AlikeBeside c chip (chip.poke address value) where
  registers place owns storage _ := by
    rw [peek_poke, if_neg]
    rintro rfl
    exact free.elim owns storage
  flags d _ := by
    have notFlags : address ≠ Dma1.base + Dma1.isr := by
      rintro rfl
      obtain ⟨field, small, same⟩ | storage := free
      · exact Dma1.register_ne_flags c small same.symm
      · exact not_storage_of_decode (by rw [decode_flags]; exact nofun) storage
    rw [flagGroup, peek_poke, if_neg notFlags, flagGroup]
  latches _ _ := rfl
  around := rfl

theorem setLatch_one (latch : Latch) : AlikeBeside c chip (chip.setLatch c latch) where
  registers _ _ _ _ := rfl
  flags _ _ := rfl
  latches d ne := by rw [latch_setLatch, if_neg ne.symm]
  around := rfl

/-- So may the channel's own flags. -/
theorem poke_flags_one (kept : ∀ d, d ≠ c → value &&& Dma1.flagsOf d Dma1.channelFlags =
    chip.flagGroup d) : AlikeBeside c chip (chip.poke (Dma1.base + Dma1.isr) value) where
  registers place _ _ notFlags := by rw [peek_poke, if_neg notFlags.symm]
  flags d ne := by rw [flagGroup, peek_poke, if_pos rfl, kept d ne]
  latches _ _ := rfl
  around := rfl

theorem raise_one {mask : Word}
    (apart : ∀ d, d ≠ c → mask &&& Dma1.flagsOf d Dma1.channelFlags = 0) :
    AlikeBeside c chip (chip.poke (Dma1.base + Dma1.isr)
      (chip.peek (Dma1.base + Dma1.isr) ||| mask)) := by
  apply poke_flags_one
  intro d ne
  rw [BitVec.and_or_distrib_right, apart d ne, flagGroup]
  exact BitVec.or_zero

theorem storeControl_one (value : Word) : AlikeBeside c chip (chip.storeControl c value) := by
  have poked : AlikeBeside c chip (chip.poke (Dma1.register c Dma1.ccr) value) :=
    .poke_one (.inl ⟨_, Dma1.ccr_inside, rfl⟩) value
  rw [Chip.storeControl]
  split
  · exact poked.trans (.setLatch_one _)
  split
  · exact poked
  · exact poked.trans (.setLatch_one _)

/-- What is written into the channel's registers is seen in the channel alone. -/
theorem store_one (owns : Owns c address) (value : Word) :
    AlikeBeside c chip (chip.store address value) := by
  have effect := store_effect chip address value
  obtain ⟨field, small, rfl⟩ := owns
  generalize chip.store (Dma1.register c field) value = after at effect ⊢
  cases effect with
  | lost => exact .refl c chip
  | output port offset level place inside =>
    have decoded := Dma1.decode_register c small
    rw [place, Block.decode_eq_gpio_iff.mpr ⟨rfl, inside⟩] at decoded
    cases decoded
  | sent place =>
    have decoded := Dma1.decode_register c small
    rw [place, decode_data] at decoded
    cases decoded
  | cleared place => exact (Dma1.register_ne_clear c small place).elim
  | control d place =>
    obtain ⟨rfl, -⟩ := (Dma1.register_eq_register_iff small Dma1.ccr_inside).mp place
    exact .storeControl_one value
  | replaced => exact .poke_one (.inl ⟨_, small, rfl⟩) value

/-- So is what is cleared of the channel's flags. -/
theorem clear_one {flags : Word} (clearable : Clearable flags) :
    AlikeBeside c chip (chip.store (Dma1.base + Dma1.ifcr) (Dma1.flagsOf c flags)) := by
  have decoded : Block.decode (Dma1.base + Dma1.ifcr) = .dma1 Dma1.ifcr := rfl
  have notFlags : Dma1.ifcr ≠ Dma1.isr := by decide
  rw [Chip.store, decoded]
  split
  · simp only [storeDma, if_neg notFlags, if_true]
    refine .poke_flags_one fun d ne => ?_
    rw [BitVec.and_assoc, cleared_group clearable ne.symm, flagGroup]
  · exact .refl c chip

/-- A turn of the channel that stores where nothing depends on it. -/
theorem turn_one (turn : Turn chip c after)
    (stores : ∀ address, chip.Aims c address → Storage address) : AlikeBeside c chip after := by
  cases turn with
  | rest => exact .refl c chip
  | failed =>
    refine .trans (.raise_one fun d ne => raised_and_group ne.symm .error) (.trans ?_
      (.setLatch_one _))
    exact .poke_one (.inl ⟨_, Dma1.ccr_inside, rfl⟩) _
  | moved byte active able =>
    have storage := stores _ (.target active able)
    have stored : chip.stored c byte = chip.poke (chip.latch c).target (byte.setWidth 32) := by
      rw [Chip.stored, store, storage.decoded]
      exact if_pos rfl
    rw [moved_eq, stored]
    apply trans (poke_one (.inr storage) (byte.setWidth 32))
    apply trans (setLatch_one (chip.stepped c byte))
    apply trans (raise_one fun d ne => flagsAfter_group _ ne.symm (chip.itemsLeft c - 1))
    exact .trans (.setLatch_one _) (.poke_one (.inl ⟨_, Dma1.cndtr_inside, rfl⟩) _)

/-! ## What is done to both chips -/

section Both

variable (alike : AlikeBeside c chip other)

include alike

theorem poke (notFlags : address ≠ Dma1.base + Dma1.isr) (value : Word) :
    AlikeBeside c (chip.poke address value) (other.poke address value) where
  registers place owns storage flags := by
    rw [peek_poke, peek_poke, alike.registers place owns storage flags]
  flags d ne := by
    rw [flagGroup, peek_poke, if_neg notFlags, flagGroup, peek_poke, if_neg notFlags]
    exact alike.flags d ne
  latches := alike.latches
  around := alike.around

/-- The flags become what a function makes of those of every channel. -/
theorem pokeFlags {f : Word → Word}
    (groups : ∀ flags d, f flags &&& Dma1.flagsOf d Dma1.channelFlags =
      f (flags &&& Dma1.flagsOf d Dma1.channelFlags) &&& Dma1.flagsOf d Dma1.channelFlags) :
    AlikeBeside c
      (chip.poke (Dma1.base + Dma1.isr) (f (chip.peek (Dma1.base + Dma1.isr))))
      (other.poke (Dma1.base + Dma1.isr) (f (other.peek (Dma1.base + Dma1.isr)))) where
  registers place owns storage flags := by
    rw [peek_poke, if_neg flags.symm, peek_poke, if_neg flags.symm]
    exact alike.registers place owns storage flags
  flags d ne := by
    have same := alike.flags d ne
    rw [flagGroup, flagGroup] at same
    rw [flagGroup, peek_poke, if_pos rfl, groups, same, ← groups, flagGroup, peek_poke, if_pos rfl]
  latches := alike.latches
  around := alike.around

theorem raiseFlags (mask : Word) :
    AlikeBeside c
      (chip.poke (Dma1.base + Dma1.isr) (chip.peek (Dma1.base + Dma1.isr) ||| mask))
      (other.poke (Dma1.base + Dma1.isr) (other.peek (Dma1.base + Dma1.isr) ||| mask)) := by
  refine alike.pokeFlags (f := (· ||| mask)) fun flags d => ?_
  rw [BitVec.and_or_distrib_right, BitVec.and_or_distrib_right, BitVec.and_assoc, BitVec.and_self]

theorem clearFlags (mask : Word) :
    AlikeBeside c
      (chip.poke (Dma1.base + Dma1.isr) (chip.peek (Dma1.base + Dma1.isr) &&& ~~~mask))
      (other.poke (Dma1.base + Dma1.isr) (other.peek (Dma1.base + Dma1.isr) &&& ~~~mask)) := by
  refine alike.pokeFlags (f := (· &&& ~~~mask)) fun flags d => ?_
  generalize Dma1.flagsOf d Dma1.channelFlags = group
  rw [BitVec.and_assoc flags group, BitVec.and_comm group, ← BitVec.and_assoc flags,
    BitVec.and_assoc (flags &&& ~~~mask), BitVec.and_self]

theorem setLatch (d : Channel) (latch : Latch) :
    AlikeBeside c (chip.setLatch d latch) (other.setLatch d latch) where
  registers := alike.registers
  flags := alike.flags
  latches e ne := by rw [latch_setLatch, latch_setLatch, alike.latches e ne]
  around := alike.around

theorem observe (events : List Event) :
    AlikeBeside c (chip.observe events) (other.observe events) where
  registers := alike.registers
  flags := alike.flags
  latches := alike.latches
  around := congrArg (Chip.observe · events) alike.around

theorem transmit (byte : Byte) : AlikeBeside c (chip.transmit byte) (other.transmit byte) where
  registers := alike.registers
  flags := alike.flags
  latches := alike.latches
  around := congrArg (Chip.transmit · byte) alike.around

theorem setOutput (port : Port) (value : Word) :
    AlikeBeside c (chip.setOutput port value) (other.setOutput port value) := by
  have output : other.peek (port.base + Gpio.odr) = chip.peek (port.base + Gpio.odr) :=
    alike.peek_gpio (decode_output port)
  have notFlags : port.base + Gpio.odr ≠ Dma1.base + Dma1.isr := by
    intro same
    have decoded := decode_output port
    rw [same, decode_flags] at decoded
    cases decoded
  rw [Chip.setOutput, Chip.setOutput, output]
  exact (alike.observe _).poke notFlags value

theorem storeControl (ne : d ≠ c) (value : Word) :
    AlikeBeside c (chip.storeControl d value) (other.storeControl d value) := by
  have enabled : other.channelEnabled d = chip.channelEnabled d :=
    (alike.sameState ne).toSameChannel.enabled
  have poked := alike.poke (Dma1.register_ne_flags d Dma1.ccr_inside) value
  rw [Chip.storeControl, Chip.storeControl, enabled]
  by_cases off : value &&& Dma1.enable = 0
  · rw [if_pos off, if_pos off, poked.latches d ne]
    exact poked.setLatch d _
  · rw [if_neg off, if_neg off]
    cases chip.channelEnabled d with
    | true => exact poked
    | false =>
      rw [poked.peek_register ne Dma1.cmar_inside, poked.peek_register ne Dma1.cpar_inside,
        poked.peek_register ne Dma1.cndtr_inside]
      exact poked.setLatch d _

theorem storeGpio {port : Port} {offset : Word}
    (decoded : Block.decode (port.base + offset) = .gpio port offset) (value : Word) :
    AlikeBeside c (chip.storeGpio port offset value) (other.storeGpio port offset value) := by
  have output : other.peek (port.base + Gpio.odr) = chip.peek (port.base + Gpio.odr) :=
    alike.peek_gpio (decode_output port)
  rw [Chip.storeGpio, Chip.storeGpio, output]
  split
  · exact alike.setOutput port _
  split
  · exact alike.setOutput port _
  split
  · exact alike.setOutput port _
  split
  · exact alike
  · refine alike.poke (fun same => ?_) value
    rw [same, decode_flags] at decoded
    cases decoded

theorem storeUsart {offset : Word}
    (decoded : Block.decode (Usart3.base + offset) = .usart3 offset) (value : Word) :
    AlikeBeside c (chip.storeUsart offset value) (other.storeUsart offset value) := by
  rw [Chip.storeUsart, Chip.storeUsart, alike.usartHas]
  split
  · split
    · exact alike.transmit _
    · exact alike
  split
  · exact alike
  · refine alike.poke (fun same => ?_) value
    rw [same, decode_flags] at decoded
    cases decoded

theorem storeDma {offset : Word} (outside : ¬Owns c (Dma1.base + offset)) (value : Word) :
    AlikeBeside c (chip.storeDma offset value) (other.storeDma offset value) := by
  rw [Chip.storeDma, Chip.storeDma]
  split
  · exact alike
  next notFlags =>
  have elsewhere : Dma1.base + offset ≠ Dma1.base + Dma1.isr :=
    fun same => notFlags (BitVec.add_right_inj _ |>.mp same)
  split
  · exact alike.clearFlags value
  split
  · next d field found =>
    obtain ⟨same, small⟩ := Dma1.channelAt?_eq_some_iff.mp found
    have ne : d ≠ c := by
      rintro rfl
      exact outside ⟨field, small, by rw [same, Dma1.register]⟩
    rw [(alike.sameState ne).toSameChannel.enabled]
    split
    · exact alike.storeControl ne value
    split
    · exact alike
    · exact alike.poke elsewhere value
  · exact alike.poke elsewhere value

/-- A store that does not reach the channel. -/
theorem store (outside : ¬Owns c address) (value : Word) :
    AlikeBeside c (chip.store address value) (other.store address value) := by
  rw [Chip.store, Chip.store, alike.clocked]
  split
  · split
    · next port offset decoded =>
      obtain ⟨rfl, -⟩ := Block.decode_eq_gpio_iff.mp decoded
      exact alike.storeGpio decoded value
    · next offset decoded =>
      obtain ⟨rfl, -⟩ := Block.decode_eq_usart3_iff.mp decoded
      exact alike.storeUsart decoded value
    · next offset decoded =>
      obtain ⟨rfl, -⟩ := Block.decode_eq_dma1_iff.mp decoded
      exact alike.storeDma outside value
    · next decoded =>
      refine alike.poke (fun same => ?_) value
      rw [same, decode_flags] at decoded
      cases decoded
  · exact alike

theorem noted (address value : Word) :
    AlikeBeside c (chip.noted address value) (other.noted address value) where
  registers := alike.registers
  flags := alike.flags
  latches := alike.latches
  around := alike.around

theorem write (outside : ¬Owns c address) (value : Word) :
    AlikeBeside c (chip.write address value) (other.write address value) :=
  (alike.noted address value).store outside value

theorem shared (bytes : Array Byte) (next : Word) :
    AlikeBeside c (chip.shared bytes next) (other.shared bytes next) where
  registers := alike.registers
  flags := alike.flags
  latches := alike.latches
  around := by
    have base : other.nextRegion = chip.nextRegion := alike.of_around Chip.nextRegion fun _ => rfl
    have same := congrArg (Chip.shared · bytes next) alike.around
    simpa only [Chip.shared, Chip.around, base] using same

theorem countedDown : AlikeBeside c chip.countedDown other.countedDown where
  registers := alike.registers
  flags := alike.flags
  latches := alike.latches
  around := congrArg Chip.countedDown alike.around

/-! ### Turns of other channels -/

variable (ne : d ≠ c)

include ne

theorem busError (control : Word) :
    AlikeBeside c (chip.busError d control) (other.busError d control) := by
  have raised := alike.raiseFlags (Dma1.flagsOf d (Dma1.errorFlag ||| Dma1.globalFlag))
  have disabled := raised.poke (Dma1.register_ne_flags d Dma1.ccr_inside)
    (control &&& ~~~Dma1.enable)
  have latch := disabled.latches d ne
  rw [Chip.busError, Chip.busError, raise, raise, latch]
  exact disabled.setLatch d _

theorem countItem (control left : Word) :
    AlikeBeside c (chip.countItem d control left) (other.countItem d control left) := by
  have state := alike.sameState ne
  have flags : other.flagsAfter d left = chip.flagsAfter d left := by
    rw [flagsAfter, state.latch, flagsAfter]
  have latch : other.latchAfter d control left = chip.latchAfter d control left := by
    rw [latchAfter, state.latch, state.register _ Dma1.cmar_inside,
      state.register _ Dma1.cpar_inside, latchAfter]
  have count : other.countAfter d control left = chip.countAfter d control left := by
    rw [countAfter, state.latch, countAfter]
  rw [countItem_eq, countItem_eq, flagged, flagged, flags, latch, count]
  exact ((alike.raiseFlags _).setLatch d _).poke (Dma1.register_ne_flags d Dma1.cndtr_inside) _

/-- A turn of another channel ends the same way in both. -/
theorem turn (spares : Moment.spares ⟨.turn d, chip⟩ = true) (turn : Turn chip d after) :
    ∃ after', Turn other d after' ∧ AlikeBeside c after after' := by
  have state := alike.sameState ne
  have able := alike.canMove ne
  have active : (other.latch d).active = (chip.latch d).active := congrArg _ state.latch
  have byte : other.memoryByte? (other.latch d).memory =
      chip.memoryByte? (chip.latch d).memory := by
    rw [state.latch, alike.memoryByte?]
  cases turn with
  | rest idle =>
    refine ⟨other, .rest fun on => ?_, alike⟩
    exact able.trans (idle (active.symm.trans on))
  | failed on moves unmapped =>
    refine ⟨_, .failed (active.trans on) (able.trans moves) (byte.trans unmapped), ?_⟩
    rw [state.controlOf]
    exact alike.busError ne _
  | moved item on moves mapped steps =>
    obtain ⟨outside, -⟩ := target_of_spares spares on moves mapped
    have stored : AlikeBeside c (chip.stored d item) (other.stored d item) := by
      rw [stored, stored, state.latch]
      exact alike.store (not_owns_of_decode outside) _
    have latch : (other.stored d item).latch d = (chip.stored d item).latch d :=
      stored.latches d ne
    refine ⟨_, .moved item (active.trans on) (able.trans moves) (byte.trans mapped) ?_, ?_⟩
    · rw [latch, state.controlOf]
      exact steps
    · rw [Chip.moved, Chip.moved, latch, state.controlOf, state.itemsLeft]
      exact (stored.setLatch d _).countItem ne _ _

end Both

end AlikeBeside

end Chip

end Peripherals
