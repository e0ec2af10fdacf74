import Mathlib.Algebra.Group.Nat.Defs
import Peripherals.Proofs.PinFields
import Peripherals.Proofs.PlainMemory

/-! # Fields of a register

Reading and writing a field of a word are a lens: what was written is read back
as far as it fits, writing what was read changes nothing, the last write counts,
and disjoint fields do not see each other. A field may be empty or reach past
the last bit. On a target where a register is plain storage the two operations
of the bus are this lens, and a field that begins behind the register is refused. -/

namespace Peripherals

open Bus Chip

/-! ## Fields of a word -/

/-- A place in a register: where it begins and how many bits it has, some of which may lie behind
the register's last. -/
structure BitField where
  shift : Byte
  width : Byte

namespace BitField

variable {field other : BitField} {bit : Nat}

/-- A bit of the register lies in the field. -/
def Covers (field : BitField) (bit : Nat) : Prop :=
  field.shift.toNat ≤ bit ∧ bit < min 32 (field.shift.toNat + field.width.toNat)

instance (field : BitField) (bit : Nat) : Decidable (field.Covers bit) :=
  inferInstanceAs (Decidable (_ ∧ _))

/-- No bit of the register lies in both fields. -/
def Disjoint (field other : BitField) : Prop :=
  ∀ bit, field.Covers bit → ¬other.Covers bit

/-- The field's value in a word. -/
def get (field : BitField) (word : Word) : Word :=
  word >>> field.shift.toNat &&& fieldMask field.width

/-- A word with the field's value replaced. -/
def put (field : BitField) (value word : Word) : Word :=
  (word &&& ~~~(fieldMask field.width <<< field.shift.toNat)) |||
    ((value <<< field.shift.toNat) &&& (fieldMask field.width <<< field.shift.toNat))

theorem covers_add {i : Nat} (narrow : i < field.width.toNat)
    (within : field.shift.toNat + i < 32) : field.Covers (field.shift.toNat + i) := by
  simp only [Covers]
  omega

theorem getLsbD_get (field : BitField) (word : Word) (i : Nat) :
    (field.get word).getLsbD i =
      (decide (i < field.width.toNat) && word.getLsbD (field.shift.toNat + i)) := by
  rw [get, BitVec.getLsbD_and, BitVec.getLsbD_ushiftRight, getLsbD_fieldMask]
  by_cases small : i < 32
  · rw [decide_eq_true small, Bool.true_and, Bool.and_comm]
  · rw [BitVec.getLsbD_of_ge word _ (by omega), Bool.false_and, Bool.and_false]

theorem getLsbD_put (field : BitField) (value word : Word) (small : bit < 32) :
    (field.put value word).getLsbD bit =
      if field.Covers bit then value.getLsbD (bit - field.shift.toNat) else word.getLsbD bit := by
  have inside : field.Covers bit ↔ field.shift.toNat ≤ bit ∧
      bit < field.shift.toNat + field.width.toNat := by
    simp only [Covers]
    omega
  simp only [inside]
  exact Amendment.getLsbD_field 0 value word field.shift field.width small

/-- Bits outside the field stay, also those that no register has. -/
theorem getLsbD_put_outside (field : BitField) (outside : ¬field.Covers bit) (value word : Word) :
    (field.put value word).getLsbD bit = word.getLsbD bit := by
  by_cases small : bit < 32
  · rw [getLsbD_put _ _ _ small, if_neg outside]
  · rw [BitVec.getLsbD_of_ge _ _ (Nat.not_lt.mp small),
      BitVec.getLsbD_of_ge _ _ (Nat.not_lt.mp small)]

/-- What was written is read back, as far as it fits into the field and the register. -/
theorem toNat_get_put (field : BitField) (value word : Word) :
    (field.get (field.put value word)).toNat =
      value.toNat % 2 ^ min field.width.toNat (32 - field.shift.toNat) := by
  apply Nat.eq_of_testBit_eq
  intro i
  rw [Nat.testBit_mod_two_pow, BitVec.testBit_toNat, BitVec.testBit_toNat, getLsbD_get]
  by_cases narrow : i < field.width.toNat
  · by_cases within : field.shift.toNat + i < 32
    · rw [getLsbD_put _ _ _ within, if_pos (covers_add narrow within), Nat.add_sub_cancel_left]
      congr 2
      simp only [eq_iff_iff]
      omega
    · have outside : ¬i < min field.width.toNat (32 - field.shift.toNat) := by omega
      rw [BitVec.getLsbD_of_ge _ _ (Nat.not_lt.mp within), decide_eq_false outside,
        Bool.and_false, Bool.false_and]
  · have outside : ¬i < min field.width.toNat (32 - field.shift.toNat) := by omega
    rw [decide_eq_false narrow, decide_eq_false outside, Bool.false_and, Bool.false_and]

theorem put_get (field : BitField) (word : Word) : field.put (field.get word) word = word := by
  apply BitVec.eq_of_getLsbD_eq
  intro bit small
  rw [getLsbD_put _ _ _ small]
  split
  · next covered =>
    have narrow : bit - field.shift.toNat < field.width.toNat := by
      simp only [Covers] at covered
      omega
    rw [getLsbD_get, decide_eq_true narrow, Bool.true_and, Nat.add_sub_cancel' covered.1]
  · rfl

theorem put_put (field : BitField) (first second word : Word) :
    field.put second (field.put first word) = field.put second word := by
  apply BitVec.eq_of_getLsbD_eq
  intro bit small
  simp only [getLsbD_put _ _ _ small]
  split <;> rfl

theorem put_comm (disjoint : field.Disjoint other) (first second word : Word) :
    other.put second (field.put first word) = field.put first (other.put second word) := by
  apply BitVec.eq_of_getLsbD_eq
  intro bit small
  simp only [getLsbD_put _ _ _ small]
  by_cases covered : field.Covers bit
  · rw [if_neg (disjoint bit covered), if_pos covered, if_pos covered]
  · rw [if_neg covered, if_neg covered]

theorem get_put_of_disjoint (disjoint : field.Disjoint other) (value word : Word) :
    other.get (field.put value word) = other.get word := by
  apply BitVec.eq_of_getLsbD_eq
  intro i _
  rw [getLsbD_get, getLsbD_get]
  by_cases narrow : i < other.width.toNat
  · by_cases within : other.shift.toNat + i < 32
    · have covered : other.Covers (other.shift.toNat + i) := covers_add narrow within
      rw [getLsbD_put _ _ _ within, if_neg fun both => disjoint _ both covered]
    · rw [BitVec.getLsbD_of_ge _ _ (Nat.not_lt.mp within),
        BitVec.getLsbD_of_ge _ _ (Nat.not_lt.mp within)]
  · rw [decide_eq_false narrow, Bool.false_and, Bool.false_and]

end BitField

/-! ## Registers that are plain storage -/

section Storage

variable {δ α β : Type} [Target δ] {P : δ → Prop} {address : Word}

/-- Among the devices with a property a register is plain storage: it is answered, a load gives its
content and leaves it, and a store replaces it. Both keep the property, which can also say what the
device holds elsewhere. -/
structure PlainStorage (P : δ → Prop) (address : Word) : Prop where
  answered : ∀ device, P device → Target.accepts device address = true
  load : ∀ device, P device → ∃ after,
    (Target.load address).run device = .ok (Target.peek device address) after ∧
      P after ∧ Target.peek after address = Target.peek device address
  store : ∀ device value, P device → ∃ after,
    (Target.store address value).run device = .ok () after ∧
      P after ∧ Target.peek after address = value

/-- From every device with a property that holds `old` in a register, a computation that gets the
ticks it needs returns a value and leaves such a device that holds `new`. -/
def Bus.Turns (P : δ → Prop) (address old : Word) (x : BusM δ α) (value : α) (new : Word) : Prop :=
  ∀ device, P device → Target.peek device address = old →
    ∃ spent accesses after, Yields x device spent accesses (.ok value) after ∧
      P after ∧ Target.peek after address = new

theorem Bus.Turns.bind {x : BusM δ α} {f : α → BusM δ β} {a : α} {b : β} {old middle new : Word}
    (first : Turns P address old x a middle) (second : Turns P address middle (f a) b new) :
    Turns P address old (x >>= f) b new := by
  intro device holds content
  obtain ⟨spent, accesses, between, starts, holds', content'⟩ := first device holds content
  obtain ⟨more, others, after, ends, holds'', content''⟩ := second between holds' content'
  exact ⟨_, _, after, starts.bind ends, holds'', content''⟩

/-- What needs no device can be done with any. -/
theorem Bus.Turns.lift {outcome : Except Fault α} {a : α} (returned : outcome = .ok a)
    (word : Word) : Turns P address word (liftM outcome : BusM δ α) a word := by
  subst returned
  exact fun device holds content => ⟨_, _, device, Yields.lift _, holds, content⟩

theorem Bus.Turns.pure (a : α) (word : Word) :
    Turns P address word (Pure.pure a : BusM δ α) a word :=
  fun device holds content => ⟨0, #[], device, Yields.lift (.ok a), holds, content⟩

namespace PlainStorage

variable {device : δ} {word : Word}

/-- A read takes a tick and gives the content. -/
theorem yields_read (plain : PlainStorage P address) (holds : P device) :
    ∃ after, Yields (Bus.read address) device 1 #[.read address (Target.peek device address)]
        (.ok (Target.peek device address)) after ∧
      P after ∧ Target.peek after address = Target.peek device address := by
  obtain ⟨after, loaded, kept, same⟩ := plain.load device holds
  refine ⟨after, fun ticks log => ?_, kept, same⟩
  have accepted : (require address).run ⟨device, ticks + 1, log⟩ =
      .ok () ⟨device, ticks + 1, log⟩ := if_pos (plain.answered device holds)
  have given : (onDevice (Target.load address)).run ⟨device, ticks, log⟩ =
      .ok (Target.peek device address) ⟨after, ticks, log⟩ := by
    rw [run_onDevice, loaded]
  rw [← Array.push_eq_append, Bus.read, EStateM.run_bind, accepted]
  change (onDevice (Target.load address) >>= fun value => do
    record (.read address value)
    pure value : BusM δ Word).run ⟨device, ticks, log⟩ = _
  rw [EStateM.run_bind, given]
  rfl

theorem yields_write (plain : PlainStorage P address) (holds : P device) (value : Word) :
    ∃ after, Yields (Bus.write address value) device 0 #[.write address value] (.ok ()) after ∧
      P after ∧ Target.peek after address = value := by
  obtain ⟨after, stored, kept, content⟩ := plain.store device value holds
  refine ⟨after, fun ticks log => ?_, kept, content⟩
  have accepted : (require address).run ⟨device, ticks, log⟩ = .ok () ⟨device, ticks, log⟩ :=
    if_pos (plain.answered device holds)
  have done : (onDevice (Target.store address value)).run
      ⟨device, ticks, log.push (.write address value)⟩ =
        .ok () ⟨after, ticks, log.push (.write address value)⟩ := by
    rw [run_onDevice, stored]
  rw [← Array.push_eq_append, Nat.add_zero, Bus.write, EStateM.run_bind, accepted]
  exact done

theorem turns_read (plain : PlainStorage P address) (word : Word) :
    Turns P address word (Bus.read address) word word := by
  rintro device holds rfl
  obtain ⟨after, reads, kept, same⟩ := plain.yields_read holds
  exact ⟨1, _, after, reads, kept, same⟩

theorem turns_write (plain : PlainStorage P address) (old new : Word) :
    Turns P address old (Bus.write address new) () new := by
  intro device holds _
  obtain ⟨after, writes, kept, content⟩ := plain.yields_write holds new
  exact ⟨0, _, after, writes, kept, content⟩

variable {field : BitField}

theorem turns_readField (plain : PlainStorage P address) (inside : field.shift.toNat < 32)
    (word : Word) :
    Turns P address word (readField address field.shift field.width) (field.get word) word := by
  apply (plain.turns_read word).bind
  apply (Turns.lift (Checked.shiftRight_eq_ok inside) word).bind
  exact Turns.pure _ word

theorem turns_writeField (plain : PlainStorage P address) (inside : field.shift.toNat < 32)
    (value word : Word) :
    Turns P address word (writeField address field.shift field.width value) ()
      (field.put value word) := by
  apply (Turns.lift (Checked.shiftLeft_eq_ok inside) word).bind
  exact (plain.turns_read word).bind (plain.turns_write word _)

/-- A field behind the register is not written, and the register is not even read for it. -/
theorem yields_writeField_beyond (far : 32 ≤ field.shift.toNat) (address value : Word)
    (device : δ) :
    Yields (writeField address field.shift field.width value) device 0 #[]
      (.error .shiftLeftOverflow) device := by
  rw [writeField, Checked.shiftLeft, if_neg (Nat.not_lt.mpr far)]
  exact (Yields.lift (.error _)).stop

/-- Nor is it read, but this is found out only after the register was. -/
theorem yields_readField_beyond (plain : PlainStorage P address) (far : 32 ≤ field.shift.toNat)
    (holds : P device) :
    ∃ after, Yields (readField address field.shift field.width) device 1
        #[.read address (Target.peek device address)] (.error .shiftRightOverflow) after ∧
      P after ∧ Target.peek after address = Target.peek device address := by
  obtain ⟨after, reads, kept, same⟩ := plain.yields_read holds
  refine ⟨after, ?_, kept, same⟩
  have stops (value : Word) : Yields (do
      let low ← liftM (Checked.shiftRight value field.shift)
      pure (low &&& fieldMask field.width) : BusM δ Word) after 0 #[]
        (.error .shiftRightOverflow) after := by
    rw [Checked.shiftRight, if_neg (Nat.not_lt.mpr far)]
    exact (Yields.lift (.error _)).stop
  change Yields (Bus.read address >>= _) device (0 + 1) (#[_] ++ #[]) _ after
  exact reads.bind (stops _)

end PlainStorage

end Storage

/-! ## Plain storage on both targets -/

/-- Every mapped register of plain memory is plain storage, and no access changes another. -/
theorem FlatMemory.plainStorage {address : Word} (mapped : FlatMemory.mapped address = true)
    (values : Word → Word) :
    PlainStorage (fun memory : FlatMemory =>
      ∀ other, other ≠ address → memory.cells.get other = values other) address where
  answered _ _ := mapped
  load memory kept := ⟨memory, rfl, kept, rfl⟩
  store memory value kept := by
    refine ⟨⟨memory.cells.set address value, memory.nextHome⟩, rfl, ?_,
      Registers.get_set_self _ _ _⟩
    intro other differs
    exact (Registers.get_set_of_ne _ value differs.symm).trans (kept other differs)

namespace Chip

variable {chip : Chip} {address : Word} {values : Word → Word}

/-- No channel is active, the block of a register is clocked, and every other register has a value
that is given for it. -/
structure Storing (values : Word → Word) (address : Word) (chip : Chip) : Prop where
  inactive : ∀ c, (chip.latch c).active = false
  clocked : chip.clocked (Block.decode address) = true
  elsewhere : ∀ other, other ≠ address → chip.peek other = values other

/-- A block's own registers do not hold its clock gate. -/
theorem clocked_poke_self (chip : Chip) (address value : Word) :
    (chip.poke address value).clocked (Block.decode address) =
      chip.clocked (Block.decode address) := by
  have other (gated : Gated) (holds : gated.Holds address) : address ≠ gated.register :=
    (Gated.ne_of_holds holds (gated.not_holds_register gated)).symm
  cases decoded : Block.decode address with
  | gpio port offset =>
    have gate : address ≠ Rcc.ahb2enr := other (.gpio port) (by simp [Gated.Holds, decoded])
    rw [clocked, peek_poke, if_neg gate, clocked]
  | usart3 offset =>
    have gate : address ≠ Rcc.apb1lenr := other .serial (by simp [Gated.Holds, decoded])
    rw [clocked, peek_poke, if_neg gate, clocked]
  | dma1 offset =>
    have gate : address ≠ Rcc.ahb1enr := other .dma (by simp [Gated.Holds, decoded])
    rw [clocked, peek_poke, if_neg gate, clocked]
  | other => rfl

/-- Where no channel is active, a register that only holds what is stored is plain storage. -/
theorem plainStorage (storage : Amendment.storage (Block.decode address) = true)
    (values : Word → Word) : PlainStorage (Storing values address) address where
  answered _ _ := rfl
  load chip holds := by
    have passed : Chip.tick.run chip = .ok () (chip.timed (chip.busy - 1) chip.written) :=
      Quiet.tick (.of_inactive holds.inactive) chip.busy chip.written
    have shown := shows_storage storage holds.clocked (chip.busy - 1) chip.written
    refine ⟨chip.timed (chip.busy - 1) chip.written, ?_,
      ⟨holds.inactive, holds.clocked, holds.elsewhere⟩, rfl⟩
    rw [run_load, passed]
    exact shown
  store chip value holds := by
    have clocked : (chip.noted address value).clocked (Block.decode address) = true :=
      (clocked_timed chip chip.busy _ _).trans holds.clocked
    refine ⟨(chip.noted address value).poke address value, ?_, ?_, ?_⟩
    · rw [← store_storage storage clocked]
      rfl
    · refine ⟨holds.inactive, (clocked_poke_self _ _ _).trans clocked, fun other differs => ?_⟩
      rw [peek_poke, if_neg differs.symm]
      exact holds.elsewhere other differs
    · exact (peek_poke _ _ _ _).trans (if_pos rfl)

end Chip

/-! ## The laws -/

section Laws

variable {δ : Type} [Target δ] {P : δ → Prop} {address : Word}

/-- On every target on which a register is plain storage, and for every field that begins in it: a
write changes no bit outside the field, and what is read then is what was written, as far as it
fits; writing what was read changes nothing, and of two writes the last counts. Writes to disjoint
fields can be made in either order, and none changes what is read from the other. A field that
begins behind the register is refused, a write before any access and a read after one. -/
theorem PlainStorage.field_laws (plain : PlainStorage P address) :
    (∀ (field : BitField) (old : Word), field.shift.toNat < 32 →
      (∀ value, ∃ new got,
        Turns P address old (writeField address field.shift field.width value) () new ∧
        (∀ bit, ¬field.Covers bit → new.getLsbD bit = old.getLsbD bit) ∧
        Turns P address new (readField address field.shift field.width) got new ∧
        got.toNat = value.toNat % 2 ^ min field.width.toNat (32 - field.shift.toNat)) ∧
      Turns P address old
        (do
          let found ← readField address field.shift field.width
          writeField address field.shift field.width found) () old ∧
      ∀ first second, ∃ new,
        Turns P address old
          (do
            writeField address field.shift field.width first
            writeField address field.shift field.width second) () new ∧
        Turns P address old (writeField address field.shift field.width second) () new) ∧
    (∀ (one other : BitField) (old : Word), one.shift.toNat < 32 → other.shift.toNat < 32 →
      one.Disjoint other → ∀ first second, ∃ once got both,
        Turns P address old
          (do
            writeField address one.shift one.width first
            writeField address other.shift other.width second) () both ∧
        Turns P address old
          (do
            writeField address other.shift other.width second
            writeField address one.shift one.width first) () both ∧
        Turns P address old (readField address other.shift other.width) got old ∧
        Turns P address old (writeField address one.shift one.width first) () once ∧
        Turns P address once (readField address other.shift other.width) got once) ∧
    (∀ field : BitField, 32 ≤ field.shift.toNat →
      (∀ (device : δ) value, Yields (writeField address field.shift field.width value) device 0 #[]
        (.error .shiftLeftOverflow) device) ∧
      ∀ device, P device → ∃ after,
        Yields (readField address field.shift field.width) device 1
          #[.read address (Target.peek device address)] (.error .shiftRightOverflow) after ∧
        P after ∧ Target.peek after address = Target.peek device address) := by
  refine ⟨?_, ?_, ?_⟩
  · intro field old inside
    refine ⟨fun value => ?_, ?_, fun first second => ?_⟩
    · refine ⟨field.put value old, _, plain.turns_writeField inside value old, ?_,
        plain.turns_readField inside _, field.toNat_get_put value old⟩
      intro bit outside
      exact field.getLsbD_put_outside outside value old
    · have rewritten := plain.turns_writeField inside (field.get old) old
      rw [field.put_get] at rewritten
      exact (plain.turns_readField inside old).bind rewritten
    · have again := plain.turns_writeField inside second (field.put first old)
      rw [field.put_put] at again
      exact ⟨_, (plain.turns_writeField inside first old).bind again,
        plain.turns_writeField inside second old⟩
  · intro one other old inside inside' disjoint first second
    have swapped := plain.turns_writeField inside first (other.put second old)
    rw [← BitField.put_comm disjoint] at swapped
    have untouched := plain.turns_readField inside' (one.put first old)
    rw [BitField.get_put_of_disjoint disjoint] at untouched
    exact ⟨_, _, _,
      (plain.turns_writeField inside first old).bind (plain.turns_writeField inside' second _),
      (plain.turns_writeField inside' second old).bind swapped,
      plain.turns_readField inside' old, plain.turns_writeField inside first old, untouched⟩
  · intro field far
    exact ⟨fun device value => yields_writeField_beyond far address value device,
      fun device holds => plain.yields_readField_beyond far holds⟩

end Laws

/-- On the chip, the last four bits of a register are a field that reaches behind it, and a field
that begins behind it is refused. On plain memory, a field that is written back leaves the register
as it was. -/
theorem PlainStorage.field_laws_at_clock_select :
    (∃ chip : Chip, Storing (fun _ => 0) Rcc.ccipr1 chip ∧ chip.peek Rcc.ccipr1 = 0xFFFFFFFF ∧
      PlainStorage (Storing (fun _ => 0) Rcc.ccipr1) Rcc.ccipr1 ∧
      (∃ new got, Turns (Storing (fun _ => 0) Rcc.ccipr1) Rcc.ccipr1 0xFFFFFFFF
          (writeField Rcc.ccipr1 28 8 0x15) () new ∧
        Turns (Storing (fun _ => 0) Rcc.ccipr1) Rcc.ccipr1 new
          (readField Rcc.ccipr1 28 8) got new ∧ got.toNat = 5) ∧
      ∃ after, Yields (readField Rcc.ccipr1 32 1) chip 1 #[.read Rcc.ccipr1 0xFFFFFFFF]
        (.error .shiftRightOverflow) after) ∧
    Turns (fun memory : FlatMemory => ∀ other, other ≠ Rcc.ccipr1 → memory.cells.get other = 0)
      Rcc.ccipr1 0xFF
      (do
        let found ← readField Rcc.ccipr1 Rcc.usart3SelectShift Rcc.usart3SelectWidth
        writeField Rcc.ccipr1 Rcc.usart3SelectShift Rcc.usart3SelectWidth found) () 0xFF := by
  constructor
  · have plain : PlainStorage (Storing (fun _ => 0) Rcc.ccipr1) Rcc.ccipr1 :=
      Chip.plainStorage rfl _
    have storing : Storing (fun _ => 0) Rcc.ccipr1 (Chip.reset.poke Rcc.ccipr1 0xFFFFFFFF) := by
      refine ⟨inactive_fresh 0, rfl, fun other differs => ?_⟩
      rw [peek_poke, if_neg differs.symm]
      exact congrFun (peek_fresh 0) other
    have content : (Chip.reset.poke Rcc.ccipr1 0xFFFFFFFF).peek Rcc.ccipr1 = 0xFFFFFFFF :=
      (peek_poke _ _ _ _).trans (if_pos rfl)
    obtain ⟨inside, -, beyond⟩ := plain.field_laws
    refine ⟨_, storing, content, plain, ?_, ?_⟩
    · obtain ⟨new, got, written, -, read, value⟩ := (inside ⟨28, 8⟩ 0xFFFFFFFF (by decide)).1 0x15
      exact ⟨new, got, written, read, value⟩
    · obtain ⟨after, refused, -⟩ := (beyond ⟨32, 1⟩ (by decide)).2 _ storing
      rw [← content]
      exact ⟨after, refused⟩
  · have plain := FlatMemory.plainStorage (rfl : FlatMemory.mapped Rcc.ccipr1 = true) fun _ => 0
    have field : Rcc.usart3SelectShift.toNat < 32 := by decide
    exact (plain.field_laws.1 ⟨Rcc.usart3SelectShift, Rcc.usart3SelectWidth⟩ 0xFF field).2.1

end Peripherals
