import Peripherals.Proofs.ChannelFrame
import Peripherals.Proofs.Reachability

/-! # The memory that transfers read

Shared buffers lie behind each other with gaps between them, so an address
belongs to at most one buffer and finds the byte that was put there. Sharing
another buffer takes no byte away. -/

namespace Peripherals

namespace Region

variable {region : Region} {address : Word} {byte : Byte}

theorem byte?_add {j : Nat} (h : j < region.bytes.size)
    (fits : region.base.toNat + region.bytes.size < 0x100000000) :
    region.byte? (region.base + BitVec.ofNat 32 j) = some region.bytes[j] := by
  have distance : (region.base + BitVec.ofNat 32 j - region.base).toNat = j := by bv_omega
  have above : region.base ≤ region.base + BitVec.ofNat 32 j := by bv_omega
  rw [byte?, if_pos above, distance, Array.getElem?_eq_getElem h]

theorem bounds_of_byte? (h : region.byte? address = some byte) :
    region.base.toNat ≤ address.toNat ∧
      address.toNat < region.base.toNat + region.bytes.size := by
  rw [byte?] at h
  split at h
  · next above =>
    obtain ⟨inside, -⟩ := Array.getElem?_eq_some_iff.mp h
    bv_omega
  · cases h

end Region

namespace Chip

/-- A shared buffer has a length that addresses can count, as every buffer has that fits into an
address space of 32 bits. -/
def Action.Addressable : Action → Prop
  | .share bytes => bytes.size < 0x100000000
  | _ => True

/-- The buffers follow each other, all of them below where the next one goes. -/
structure Layout (chip : Chip) : Prop where
  ordered : chip.regions.Pairwise fun first second =>
    first.base.toNat + first.bytes.size ≤ second.base.toNat
  below : ∀ region ∈ chip.regions,
    region.base.toNat + region.bytes.size ≤ chip.nextRegion.toNat

variable {chip after : Chip} {region : Region} {address : Word} {byte : Byte}

/-! ## Sharing -/

theorem toNat_le_aligned (address : Word) : address.toNat ≤ (address &&& ~~~3).toNat + 3 := by
  have disjoint : (address &&& ~~~3) &&& (address &&& 3) = 0 := by
    rw [BitVec.and_comm address 3, BitVec.and_assoc, ← BitVec.and_assoc (~~~3),
      BitVec.not_and_self]
    simp
  have parts : (address &&& ~~~3) + (address &&& 3) = address := by
    rw [BitVec.add_eq_or_of_and_eq_zero _ _ disjoint, ← BitVec.and_or_distrib_left,
      BitVec.not_or_self, BitVec.and_allOnes]
  have low : (address &&& 3).toNat ≤ 3 := by
    rw [BitVec.toNat_and]
    exact Nat.and_le_right
  bv_omega

/-- The next buffer goes sixteen bytes or more behind the end of this one. -/
theorem regionAfter_eq_ok {base next : Word} {length : Nat} (small : length < 0x100000000)
    (h : regionAfter base length = .ok next) : base.toNat + length + 0x10 ≤ next.toNat := by
  simp only [regionAfter, bind, Except.bind] at h
  split at h
  · cases h
  next last ends =>
  split at h
  · cases h
  next gap apart =>
  split at h
  · cases h
  next padded rounded =>
  obtain rfl := Except.ok.inj h
  obtain ⟨_, rfl⟩ := Checked.add_eq_ok_iff.mp ends
  obtain ⟨_, rfl⟩ := Checked.add_eq_ok_iff.mp apart
  obtain ⟨_, rfl⟩ := Checked.add_eq_ok_iff.mp rounded
  have aligned := toNat_le_aligned (base + BitVec.ofNat 32 length + 0x10 + 3)
  bv_omega

theorem Layout.shared {bytes : Array Byte} {next : Word} (layout : chip.Layout)
    (small : bytes.size < 0x100000000) (fits : regionAfter chip.nextRegion bytes.size = .ok next) :
    (chip.shared bytes next).Layout := by
  have far := regionAfter_eq_ok small fits
  constructor
  · rw [Chip.shared, List.pairwise_append]
    refine ⟨layout.ordered, List.pairwise_singleton _ _, ?_⟩
    intro first member second last
    obtain rfl := List.mem_singleton.mp last
    exact layout.below first member
  · intro region member
    change region.base.toNat + region.bytes.size ≤ next.toNat
    obtain member | last := List.mem_append.mp member
    · have := layout.below region member
      omega
    · obtain rfl := List.mem_singleton.mp last
      change chip.nextRegion.toNat + bytes.size ≤ next.toNat
      omega

theorem Layout.of_same (layout : chip.Layout)
    (same : after.regions = chip.regions ∧ after.nextRegion = chip.nextRegion) : after.Layout := by
  constructor
  · rw [same.1]
    exact layout.ordered
  · rw [same.1, same.2]
    exact layout.below

theorem layout_preserved {allowed : Action → Prop} (small : ∀ a, allowed a → a.Addressable) :
    Preserved allowed Layout where
  unseen layout same := layout.of_same ⟨same.regions, same.nextRegion⟩
  store layout _ effect := layout.of_same effect.regions_eq
  turn layout turn := layout.of_same turn.regions_eq
  share layout permitted fits := layout.shared (small _ permitted) fits

theorem Reachable.layout (reachable : Reachable Action.Addressable chip) : chip.Layout := by
  apply reachable.invariant _ (layout_preserved fun _ addressable => addressable)
  exact ⟨List.Pairwise.nil, fun _ member => (List.not_mem_nil member).elim⟩

/-! ## Looking up -/

theorem memoryByte?_shared {bytes : Array Byte} {next : Word}
    (h : chip.memoryByte? address = some byte) :
    (chip.shared bytes next).memoryByte? address = some byte := by
  rw [memoryByte?] at h
  rw [memoryByte?, shared, List.findSome?_append, h]
  rfl

/-- An address that finds a byte is not the last one. -/
theorem Layout.room (layout : chip.Layout) (h : chip.memoryByte? address = some byte) :
    address.toNat + 1 < 0x100000000 := by
  obtain ⟨region, member, found⟩ := List.exists_of_findSome?_eq_some h
  have inside := Region.bounds_of_byte? found
  have below := layout.below region member
  omega

/-- An address in a buffer finds the byte that was put there. -/
theorem Layout.memoryByte?_add (layout : chip.Layout) (member : region ∈ chip.regions) {j : Nat}
    (h : j < region.bytes.size) :
    chip.memoryByte? (region.base + BitVec.ofNat 32 j) = some region.bytes[j] := by
  have below := layout.below region member
  have found : region.byte? (region.base + BitVec.ofNat 32 j) = some region.bytes[j] :=
    Region.byte?_add h (by omega)
  obtain ⟨before, others, split⟩ := List.append_of_mem member
  have ordered := layout.ordered
  rw [split, List.pairwise_append] at ordered
  have earlier : before.findSome? (·.byte? (region.base + BitVec.ofNat 32 j)) = none := by
    rw [List.findSome?_eq_none_iff]
    intro first early
    have apart := ordered.2.2 first early region List.mem_cons_self
    cases miss : first.byte? (region.base + BitVec.ofNat 32 j) with
    | none => rfl
    | some byte =>
      have inside := Region.bounds_of_byte? miss
      bv_omega
  rw [memoryByte?, split, List.findSome?_append, earlier, List.findSome?_cons, found]
  rfl

end Chip

end Peripherals
