import Peripherals.Proofs.AddressDecoding
import Peripherals.Proofs.Outcomes

/-! # The address map

Addresses are computed forward from a block, a port or channel, and a register,
and divided back by the chip. Both directions determine each other over the
whole address space, so that no two registers that the drivers use share an
address. Neither relies on a word that wraps or is cut: each step fits, in the
order in which it is computed and in the width in which its result is kept. -/

namespace Peripherals

/-! ## Steps that fit -/

/-- A word as a byte, if it fits one. -/
def narrow? (word : Word) : Option Byte :=
  if word.toNat < 0x100 then some (word.setWidth 8) else none

theorem narrow?_eq_some {word : Word} (fits : word.toNat < 0x100) :
    narrow? word = some (word.setWidth 8) :=
  if_pos fits

namespace Checked

variable {a b difference : Word}

theorem sub_eq_ok_iff :
    sub a b = .ok difference ↔ b.toNat ≤ a.toNat ∧ difference = a - b := by
  rw [sub, BitVec.usubOverflow]
  by_cases fits : b.toNat ≤ a.toNat
  · rw [if_neg (by simpa using fits)]
    simp [fits, eq_comm]
  · rw [if_pos (by simpa using fits)]
    simp [fits]

theorem toOption_sub (fits : b.toNat ≤ a.toNat) : (sub a b).toOption = some (a - b) := by
  rw [sub_eq_ok_iff.mpr ⟨fits, rfl⟩]
  rfl

theorem toOption_add (fits : a.toNat + b.toNat < 0x100000000) :
    (add a b).toOption = some (a + b) := by
  rw [add_eq_ok_iff.mpr ⟨fits, rfl⟩]
  rfl

end Checked

/-! ## Blocks -/

namespace Block

variable {address offset base : Word} {block neighbour : Block}

/-- A block with an offset into it lies at an address, and nothing but plain storage lies where no
block does. The sums are those of numbers, so that no block wraps around. -/
def Lies (address : Word) : Block → Prop
  | .gpio port offset => address.toNat = port.base.toNat + offset.toNat ∧ offset.toNat < 0x400
  | .usart3 offset => address.toNat = Usart3.base.toNat + offset.toNat ∧ offset.toNat < 0x400
  | .dma1 offset => address.toNat = Dma1.base.toNat + offset.toNat ∧ offset.toNat < 0x400
  | .other => ∀ offset : Word, offset.toNat < 0x400 →
    (∀ port : Port, address.toNat ≠ port.base.toNat + offset.toNat) ∧
      address.toNat ≠ Usart3.base.toNat + offset.toNat ∧
      address.toNat ≠ Dma1.base.toNat + offset.toNat

/-- A block that ends before the address space does holds no sum that wraps. -/
theorem eq_add_iff (fits : base.toNat + 0x400 ≤ 0x100000000) (small : offset.toNat < 0x400) :
    address = base + offset ↔ address.toNat = base.toNat + offset.toNat := by
  bv_omega

theorem port_fits (port : Port) : port.base.toNat + 0x400 ≤ 0x100000000 := by
  have below := port.index_lt
  have start := port.toNat_base
  omega

theorem decode_eq_iff : decode address = block ↔ Lies address block := by
  have gpio (port : Port) (offset : Word) :
      decode address = .gpio port offset ↔ Lies address (.gpio port offset) := by
    rw [decode_eq_gpio_iff, Lies]
    exact and_congr_left (eq_add_iff (port_fits port))
  have usart3 (offset : Word) :
      decode address = .usart3 offset ↔ Lies address (.usart3 offset) := by
    rw [decode_eq_usart3_iff, Lies]
    exact and_congr_left (eq_add_iff (by decide))
  have dma1 (offset : Word) : decode address = .dma1 offset ↔ Lies address (.dma1 offset) := by
    rw [decode_eq_dma1_iff, Lies]
    exact and_congr_left (eq_add_iff (by decide))
  cases block with
  | gpio port offset => exact gpio port offset
  | usart3 offset => exact usart3 offset
  | dma1 offset => exact dma1 offset
  | other =>
    constructor
    · intro decoded offset small
      refine ⟨fun port place => ?_, fun place => ?_, fun place => ?_⟩
      · cases decoded.symm.trans ((gpio port offset).mpr ⟨place, small⟩)
      · cases decoded.symm.trans ((usart3 offset).mpr ⟨place, small⟩)
      · cases decoded.symm.trans ((dma1 offset).mpr ⟨place, small⟩)
    · intro outside
      cases decoded : decode address with
      | gpio port offset =>
        obtain ⟨place, small⟩ := (gpio port offset).mp decoded
        exact absurd place ((outside offset small).1 port)
      | usart3 offset =>
        obtain ⟨place, small⟩ := (usart3 offset).mp decoded
        exact absurd place (outside offset small).2.1
      | dma1 offset =>
        obtain ⟨place, small⟩ := (dma1 offset).mp decoded
        exact absurd place (outside offset small).2.2
      | other => rfl

/-- At most one block lies at an address. -/
theorem Lies.unique (lies : Lies address block) (lies' : Lies address neighbour) :
    block = neighbour :=
  (decode_eq_iff.mpr lies).symm.trans (decode_eq_iff.mpr lies')

/-- The registers of the clock control lie behind all blocks. -/
theorem decode_clock (small : offset.toNat < 0x400) : decode (Rcc.base + offset) = .other := by
  have start : Rcc.base.toNat = 0x44020C00 := rfl
  have place : (Rcc.base + offset).toNat = 0x44020C00 + offset.toNat := by
    rw [BitVec.toNat_add, start, Nat.mod_eq_of_lt (by omega)]
  have serial : Usart3.base.toNat = 0x40004800 := rfl
  have engine : Dma1.base.toNat = 0x40020000 := rfl
  refine decode_eq_iff.mpr fun other small' => ⟨fun port => ?_, by omega, by omega⟩
  have below := port.index_lt
  rw [port.toNat_base]
  omega

/-- Decoding as it is computed: each block's ends are compared before the distance from its base is
taken, and a port's position is kept in a byte. There is no result if a step does not fit. -/
def decodeExactly? (address : Word) : Option Block :=
  if Gpio.base ≤ address ∧ address < Gpio.base + Gpio.stride * 9 then do
    let distance ← (Checked.sub address Gpio.base).toOption
    let position ← narrow? (distance / Gpio.stride)
    match Port.ofIndex? position.toNat with
    | some port => pure (.gpio port (distance % Gpio.stride))
    | none => pure .other
  else if Usart3.base ≤ address ∧ address < Usart3.base + size then do
    let offset ← (Checked.sub address Usart3.base).toOption
    pure (.usart3 offset)
  else if Dma1.base ≤ address ∧ address < Dma1.base + size then do
    let offset ← (Checked.sub address Dma1.base).toOption
    pure (.dma1 offset)
  else
    pure .other

/-- Comparing both ends of a block is comparing the distance from its base. -/
theorem between_iff {length : Word} (fits : base.toNat + length.toNat < 0x100000000) :
    base ≤ address ∧ address < base + length ↔ address - base < length := by
  bv_omega

theorem between_ports_iff :
    Gpio.base ≤ address ∧ address < Gpio.base + Gpio.stride * 9 ↔
      Port.ofIndex? ((address - Gpio.base) / Gpio.stride).toNat ≠ none := by
  rw [between_iff (by decide), ne_eq, ofIndex?_distance_eq_none_iff, Nat.not_le]
  exact BitVec.lt_def

/-- No step of decoding overflows, and no port's position is cut. -/
theorem decodeExactly?_eq (address : Word) : decodeExactly? address = some (decode address) := by
  rw [decodeExactly?, decode]
  cases selected : Port.ofIndex? ((address - Gpio.base) / Gpio.stride).toNat with
  | some port =>
    have inside := between_ports_iff.mpr (selected ▸ Option.some_ne_none port)
    have position : ((address - Gpio.base) / Gpio.stride).toNat < 9 := by
      rw [Port.ofIndex?_eq_some_iff.mp selected]
      exact port.index_lt
    have kept : (((address - Gpio.base) / Gpio.stride).setWidth 8).toNat =
        ((address - Gpio.base) / Gpio.stride).toNat := by
      rw [BitVec.toNat_setWidth, Nat.mod_eq_of_lt (by omega)]
    rw [if_pos inside, Checked.toOption_sub inside.1, Option.bind_eq_bind, Option.bind_some,
      narrow?_eq_some (by omega), Option.bind_eq_bind, Option.bind_some, kept, selected]
    rfl
  | none =>
    have usart3 : Usart3.base ≤ address ∧ address < Usart3.base + size ↔
        address - Usart3.base < size := between_iff (by decide)
    have dma1 : Dma1.base ≤ address ∧ address < Dma1.base + size ↔
        address - Dma1.base < size := between_iff (by decide)
    rw [if_neg (mt between_ports_iff.mp (not_not.mpr selected))]
    by_cases serial : address - Usart3.base < size
    · rw [if_pos (usart3.mpr serial), Checked.toOption_sub (usart3.mpr serial).1]
      simp only [serial, if_true]
      rfl
    by_cases engine : address - Dma1.base < size
    · rw [if_neg (mt usart3.mp serial), if_pos (dma1.mpr engine),
        Checked.toOption_sub (dma1.mpr engine).1]
      simp only [serial, engine, if_false, if_true]
      rfl
    · rw [if_neg (mt usart3.mp serial), if_neg (mt dma1.mp engine)]
      simp only [serial, engine, if_false]
      rfl

end Block

/-! ## Channels -/

namespace Channel

theorem toNat_number (c : Channel) : c.number.toNat = c.val + 1 := by
  have bound := c.isLt
  rw [Channel.number, BitVec.toNat_ofNat]
  omega

theorem exists_number {number : Byte} (first : 1 ≤ number.toNat) (last : number.toNat ≤ 7) :
    ∃ c : Channel, c.number = number := by
  refine ⟨⟨number.toNat - 1, by omega⟩, BitVec.eq_of_toNat_eq ?_⟩
  rw [toNat_number]
  exact Nat.sub_add_cancel first

end Channel

namespace Dma1

variable {offset field : Word} {number : Byte}

/-- The number of the channel and the register that a DMA1 offset names, if it is a channel's. -/
def numberedAt? (offset : Word) : Option (Byte × Word) :=
  (channelAt? offset).map fun (c, field) => (c.number, field)

/-- A register of the channel with a number from one to seven has an offset, in checked steps. -/
structure Names (number : Byte) (field offset : Word) : Prop where
  first : 1 ≤ number.toNat
  last : number.toNat ≤ 7
  inside : field.toNat < 0x14
  computed : (registerAt base number field >>= fun address => Checked.sub address base) = .ok offset

/-- A channel's register is computed without a fault, and its offset is the distance to it. -/
theorem names_number_iff (c : Channel) :
    Names c.number field offset ↔ base + offset = register c field ∧ field.toNat < 0x14 := by
  constructor
  · rintro ⟨-, -, inside, computed⟩
    rw [registerAt_number c inside] at computed
    obtain ⟨-, rfl⟩ := Checked.sub_eq_ok_iff.mp computed
    exact ⟨by bv_omega, inside⟩
  · rintro ⟨same, inside⟩
    have bound := c.isLt
    have number := Channel.toNat_number c
    have place := toNat_register c inside
    have origin : base.toNat = 0x40020000 := rfl
    refine ⟨by omega, by omega, inside, ?_⟩
    rw [registerAt_number c inside]
    exact Checked.sub_eq_ok_iff.mpr ⟨by omega, by bv_omega⟩

/-- Every register of every channel has an offset. -/
theorem exists_names (first : 1 ≤ number.toNat) (last : number.toNat ≤ 7)
    (inside : field.toNat < 0x14) : ∃ offset, Names number field offset := by
  obtain ⟨c, rfl⟩ := Channel.exists_number first last
  exact ⟨register c field - base, (names_number_iff c).mpr ⟨by bv_omega, inside⟩⟩

theorem numberedAt?_eq_some_iff :
    numberedAt? offset = some (number, field) ↔ Names number field offset := by
  rw [numberedAt?, Option.map_eq_some_iff]
  constructor
  · rintro ⟨⟨c, found⟩, located, same⟩
    obtain ⟨rfl, rfl⟩ := Prod.mk.inj same
    exact (names_number_iff c).mpr (channelAt?_eq_some_iff.mp located)
  · intro names
    obtain ⟨c, rfl⟩ := Channel.exists_number names.first names.last
    exact ⟨(c, field), channelAt?_eq_some_iff.mpr ((names_number_iff c).mp names), rfl⟩

/-- The number and the register as they are computed: what lies below the first channel or behind
the last belongs to none, and a channel's number is kept in a byte. There is no result if a step
does not fit. -/
def numberedExactly? (offset : Word) : Option (Option (Byte × Word)) :=
  if offset < channelBase then
    pure none
  else do
    let distance ← (Checked.sub offset channelBase).toOption
    let number ← (Checked.add (distance / channelStride) 1).toOption
    if channelCount.setWidth 32 < number then
      pure none
    else do
      let kept ← narrow? number
      pure (some (kept, distance % channelStride))

theorem toNat_position (offset : Word) :
    ((offset - channelBase) / channelStride).toNat = (offset - channelBase).toNat / 0x14 :=
  BitVec.toNat_udiv

theorem channelAt?_of_lt (below : offset.toNat < 0x08) : channelAt? offset = none := by
  have quotient := toNat_position offset
  have first : channelBase.toNat = 8 := rfl
  exact dif_neg (by bv_omega)

/-- A position and one, cut to a byte, is the number of the channel at the position. -/
theorem setWidth_add_one {position : Word} (few : position.toNat < 7) :
    (position + 1).setWidth 8 = Channel.number ⟨position.toNat, few⟩ := by
  apply BitVec.eq_of_toNat_eq
  rw [Channel.toNat_number, BitVec.toNat_setWidth, BitVec.toNat_add]
  change (position.toNat + 1) % _ % _ = position.toNat + 1
  omega

/-- No step of finding a channel overflows, and no channel's number is cut. -/
theorem numberedExactly?_eq (offset : Word) :
    numberedExactly? offset = some (numberedAt? offset) := by
  have quotient := toNat_position offset
  rw [numberedExactly?, numberedAt?]
  split
  · next below =>
    rw [channelAt?_of_lt below]
    rfl
  · next above =>
    have fits : channelBase.toNat ≤ offset.toNat := Nat.not_lt.mp above
    have one : (1 : Word).toNat = 1 := rfl
    have sum : ((offset - channelBase) / channelStride).toNat + (1 : Word).toNat < 0x100000000 := by
      omega
    rw [Checked.toOption_sub fits, Option.bind_eq_bind, Option.bind_some, Checked.toOption_add sum,
      Option.bind_eq_bind, Option.bind_some, channelAt?]
    generalize (offset - channelBase) / channelStride = position at *
    have next : (position + 1).toNat = position.toNat + 1 := by
      rw [BitVec.toNat_add]
      exact Nat.mod_eq_of_lt sum
    have count : (channelCount.setWidth 32).toNat = 7 := rfl
    by_cases few : position.toNat < 7
    · have inside : ¬channelCount.setWidth 32 < position + 1 := by
        rw [BitVec.lt_def]
        omega
      rw [if_neg inside, dif_pos few, narrow?_eq_some (by omega), setWidth_add_one few]
      rfl
    · have behind : channelCount.setWidth 32 < position + 1 := by
        rw [BitVec.lt_def]
        omega
      rw [if_pos behind, dif_neg few]
      rfl

end Dma1

/-! ## Registers -/

/-- A register by its block, its port or channel, and its offset there. -/
inductive RegisterId
  | clock (offset : Word)
  | gpio (port : Port) (offset : Word)
  | usart3 (offset : Word)
  | dma1 (offset : Word)
  | channel (c : Channel) (offset : Word)
  deriving DecidableEq

namespace RegisterId

variable {id other : RegisterId}

/-- The registers that drivers use. -/
def Used : RegisterId → Prop
  | .clock offset =>
    Rcc.base + offset ∈ [Rcc.ahb1enr, Rcc.ahb2enr, Rcc.apb1lenr, Rcc.ccipr1]
  | .gpio _ offset =>
    offset ∈ [Gpio.moder, Gpio.otyper, Gpio.ospeedr, Gpio.pupdr, Gpio.idr, Gpio.odr, Gpio.bsrr,
      Gpio.afrl, Gpio.afrh]
  | .usart3 offset =>
    offset ∈ [Usart3.cr1, Usart3.cr2, Usart3.cr3, Usart3.brr, Usart3.isr, Usart3.icr, Usart3.rdr,
      Usart3.tdr]
  | .dma1 offset => offset ∈ [Dma1.isr, Dma1.ifcr]
  | .channel _ offset => offset ∈ [Dma1.ccr, Dma1.cndtr, Dma1.cpar, Dma1.cmar]

/-- The offset stays within the block, before the first channel, or within the channel. -/
def Inside : RegisterId → Prop
  | .clock offset | .gpio _ offset | .usart3 offset => offset.toNat < 0x400
  | .dma1 offset => offset.toNat < 0x08
  | .channel _ offset => offset.toNat < 0x14

theorem Used.inside (used : id.Used) : id.Inside := by
  cases id with
  | clock offset =>
    have offsets : offset = 0x088 ∨ offset = 0x08C ∨ offset = 0x09C ∨ offset = 0x0D8 := by
      simpa only [Used, Rcc.ahb1enr, Rcc.ahb2enr, Rcc.apb1lenr, Rcc.ccipr1, List.mem_cons,
        List.not_mem_nil, or_false, BitVec.add_right_inj] using used
    change offset.toNat < 0x400
    rcases offsets with rfl | rfl | rfl | rfl <;> decide
  | gpio port offset =>
    simp only [Used, List.mem_cons, List.not_mem_nil, or_false] at used
    change offset.toNat < 0x400
    rcases used with rfl | rfl | rfl | rfl | rfl | rfl | rfl | rfl | rfl <;> decide
  | usart3 offset =>
    simp only [Used, List.mem_cons, List.not_mem_nil, or_false] at used
    change offset.toNat < 0x400
    rcases used with rfl | rfl | rfl | rfl | rfl | rfl | rfl | rfl <;> decide
  | dma1 offset =>
    simp only [Used, List.mem_cons, List.not_mem_nil, or_false] at used
    change offset.toNat < 0x08
    rcases used with rfl | rfl <;> decide
  | channel c offset =>
    simp only [Used, List.mem_cons, List.not_mem_nil, or_false] at used
    rcases used with rfl | rfl | rfl | rfl
    · exact Dma1.ccr_inside
    · exact Dma1.cndtr_inside
    · exact Dma1.cpar_inside
    · exact Dma1.cmar_inside

/-- The address under which drivers access a register. -/
def address : RegisterId → Word
  | .clock offset => Rcc.base + offset
  | .gpio port offset => port.base + offset
  | .usart3 offset => Usart3.base + offset
  | .dma1 offset => Dma1.base + offset
  | .channel c offset => Dma1.register c offset

/-- The same address in checked steps. -/
def computed : RegisterId → Except Fault Word
  | .clock offset => Checked.add Rcc.base offset
  | .gpio port offset => do
    let distance ← Checked.mul Gpio.stride (BitVec.ofNat 32 port.index)
    let base ← Checked.add Gpio.base distance
    Checked.add base offset
  | .usart3 offset => Checked.add Usart3.base offset
  | .dma1 offset => Checked.add Dma1.base offset
  | .channel c offset => Dma1.registerAt Dma1.base c.number offset

theorem computed_eq (inside : id.Inside) : id.computed = .ok id.address := by
  have added {base offset : Word} (fits : base.toNat + 0x400 ≤ 0x100000000)
      (small : offset.toNat < 0x400) : Checked.add base offset = .ok (base + offset) :=
    Checked.add_eq_ok_iff.mpr ⟨by omega, rfl⟩
  cases id with
  | clock offset => exact added (by decide) inside
  | gpio port offset =>
    have base : (Checked.mul Gpio.stride (BitVec.ofNat 32 port.index) >>= fun distance =>
        Checked.add Gpio.base distance) = .ok port.base := by
      cases port <;> rfl
    rw [computed, ← bind_assoc, base]
    exact added (Block.port_fits port) inside
  | usart3 offset => exact added (by decide) inside
  | dma1 offset => exact added (by decide) (Nat.lt_trans inside (by decide))
  | channel c offset => exact Dma1.registerAt_number c inside

/-- The register at an address, as the chip finds it. -/
def ofAddress (address : Word) : RegisterId :=
  match Block.decode address with
  | .gpio port offset => .gpio port offset
  | .usart3 offset => .usart3 offset
  | .dma1 offset =>
    match Dma1.channelAt? offset with
    | some (c, field) => .channel c field
    | none => .dma1 offset
  | .other => .clock (address - Rcc.base)

/-- The chip finds the register whose address a driver computed. -/
theorem ofAddress_address (inside : id.Inside) : ofAddress id.address = id := by
  cases id with
  | clock offset =>
    have decoded : Block.decode (Rcc.base + offset) = .other := Block.decode_clock inside
    have same : Rcc.base + offset - Rcc.base = offset := by bv_omega
    simp only [ofAddress, address, decoded, same]
  | gpio port offset =>
    simp only [ofAddress, address, Block.decode_eq_gpio_iff.mpr ⟨rfl, inside⟩]
  | usart3 offset =>
    simp only [ofAddress, address, Block.decode_eq_usart3_iff.mpr ⟨rfl, inside⟩]
  | dma1 offset =>
    have decoded : Block.decode (Dma1.base + offset) = .dma1 offset :=
      Block.decode_eq_dma1_iff.mpr ⟨rfl, Nat.lt_trans inside (by decide)⟩
    simp only [ofAddress, address, decoded, Dma1.channelAt?_of_lt inside]
  | channel c offset =>
    simp only [ofAddress, address, Dma1.decode_register c inside,
      Dma1.channelAt?_register c inside]

theorem address_inj (inside : id.Inside) (inside' : other.Inside) :
    id.address = other.address ↔ id = other := by
  constructor
  · intro same
    rw [← ofAddress_address inside, same, ofAddress_address inside']
  · rintro rfl
    rfl

end RegisterId

/-- Decoding and addressing are inverse over the whole address space: each address belongs to
exactly the block that lies there, and each DMA1 offset to exactly the channel register that it
names, if there is one. All of it is computed in steps that fit, and no two registers that drivers
use share an address. -/
theorem decode_inverts_addresses :
    (∀ address block, Block.decode address = block ↔ Block.Lies address block) ∧
    (∀ address block neighbour, Block.Lies address block → Block.Lies address neighbour →
      block = neighbour) ∧
    (∀ address, Block.decodeExactly? address = some (Block.decode address)) ∧
    (∀ offset number field,
      Dma1.numberedAt? offset = some (number, field) ↔ Dma1.Names number field offset) ∧
    (∀ offset, Dma1.numberedAt? offset = none ↔
      ∀ number field, ¬Dma1.Names number field offset) ∧
    (∀ (number : Byte) (field : Word), 1 ≤ number.toNat → number.toNat ≤ 7 → field.toNat < 0x14 →
      ∃ offset, Dma1.Names number field offset) ∧
    (∀ offset, Dma1.numberedExactly? offset = some (Dma1.numberedAt? offset)) ∧
    (∀ id : RegisterId, id.Used → id.Inside) ∧
    (∀ id : RegisterId, id.Inside → id.computed = .ok id.address) ∧
    (∀ id other : RegisterId, id.Inside → other.Inside → id.address = other.address →
      id = other) := by
  refine ⟨fun _ _ => Block.decode_eq_iff, fun _ _ _ => Block.Lies.unique, Block.decodeExactly?_eq,
    fun _ _ _ => Dma1.numberedAt?_eq_some_iff, fun offset => ?_, fun _ _ => Dma1.exists_names,
    Dma1.numberedExactly?_eq, fun _ => RegisterId.Used.inside, fun _ => RegisterId.computed_eq,
    fun _ _ inside inside' => (RegisterId.address_inj inside inside').mp⟩
  simp only [Option.eq_none_iff_forall_ne_some, ne_eq, Prod.forall, Dma1.numberedAt?_eq_some_iff]

/-- The last address of the last port, the last register of the last channel, and two registers at
the same offset in neighbouring blocks. -/
theorem decode_inverts_addresses_at_ends :
    (Block.Lies 0x420223FF (.gpio .i 0x3FF) ∧ Block.decode 0x420223FF = .gpio .i 0x3FF) ∧
    (Dma1.Names 7 0x13 0x93 ∧ Dma1.numberedAt? 0x93 = some (7, 0x13)) ∧
    (RegisterId.gpio .a Gpio.otyper).Inside ∧ (RegisterId.gpio .b Gpio.otyper).Inside ∧
    (RegisterId.gpio .a Gpio.otyper).address ≠ (RegisterId.gpio .b Gpio.otyper).address := by
  obtain ⟨located, -, -, numbered, -, -, -, inside, -, apart⟩ := decode_inverts_addresses
  have last : Block.Lies 0x420223FF (.gpio .i 0x3FF) := ⟨rfl, by decide⟩
  have names : Dma1.Names 7 0x13 0x93 := ⟨by decide, by decide, by decide, rfl⟩
  have first := inside (.gpio .a Gpio.otyper) (.tail _ (.head _))
  have second := inside (.gpio .b Gpio.otyper) (.tail _ (.head _))
  refine ⟨⟨last, (located _ _).mpr last⟩, ⟨names, (numbered _ _ _).mpr names⟩, first, second, ?_⟩
  intro same
  cases apart _ _ first second same

end Peripherals
