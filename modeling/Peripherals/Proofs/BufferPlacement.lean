import Peripherals.Proofs.MemoryLayout
import Peripherals.Proofs.PartEffects
import Peripherals.Proofs.RecordedMoves

/-! # Where buffers are placed

Sharing a buffer places it behind all earlier ones, at a multiple of four and
with a gap of sixteen bytes or more in between, and fails without a trace where
the address space ends. Nothing else that is done to the chip touches the memory
of buffers. So whenever a channel has its turn, it fetches from a buffer the
bytes that were shared, and anywhere else it finds nothing. -/

namespace Peripherals

/-! ## One more buffer -/

/-- A checked sum fails exactly if it does not fit. -/
theorem Checked.add_eq (a b : Word) :
    Checked.add a b =
      if a.toNat + b.toNat < 0x100000000 then .ok (a + b) else .error .addOverflow := by
  split
  · next fits => exact Checked.add_eq_ok_iff.mpr ⟨fits, rfl⟩
  · next wide =>
    rw [Checked.add, BitVec.uaddOverflow, if_pos]
    simpa using wide

namespace Region

/-- An address lies in a buffer. -/
def Covers (region : Region) (address : Word) : Prop :=
  region.base.toNat ≤ address.toNat ∧ address.toNat < region.base.toNat + region.bytes.size

theorem byte?_eq_none {region : Region} {address : Word} (outside : ¬region.Covers address) :
    region.byte? address = none := by
  cases found : region.byte? address with
  | none => rfl
  | some byte => exact (outside (bounds_of_byte? found)).elim

end Region

namespace Chip

variable {chip : Chip} {base next : Word} {length : Nat} {buffers : List Region} {c : Channel}

theorem toNat_aligned_mod (address : Word) : (address &&& ~~~3).toNat % 4 = 0 := by
  have low : (address &&& ~~~3) &&& 3 = 0 := by
    rw [BitVec.and_assoc, BitVec.not_and_self]
    exact BitVec.and_zero
  have rest : ((address &&& ~~~3) &&& 3).toNat = (address &&& ~~~3).toNat % 4 := by
    rw [BitVec.toNat_and]
    exact Nat.and_two_pow_sub_one_eq_mod _ 2
  rw [← rest, low]
  rfl

/-- There is room for a buffer exactly if its end and the gap behind it fit into the address
space. -/
theorem regionAfter_eq (base : Word) (small : length < 0x100000000) :
    regionAfter base length =
      if base.toNat + length + 0x13 < 0x100000000 then
        .ok ((base + BitVec.ofNat 32 length + 0x13) &&& ~~~3)
      else .error .addOverflow := by
  have size : (BitVec.ofNat 32 length).toNat = length := Nat.mod_eq_of_lt small
  have sixteen : (0x10 : Word).toNat = 0x10 := rfl
  have three : (3 : Word).toNat = 3 := rfl
  have joined :
      base + BitVec.ofNat 32 length + 0x10 + 3 = base + BitVec.ofNat 32 length + 0x13 := by
    rw [BitVec.add_assoc]
    rfl
  simp only [regionAfter, Checked.add_eq, bind, Except.bind, size, sixteen, three, pure,
    Except.pure]
  by_cases ends : base.toNat + length < 0x100000000
  · have last : (base + BitVec.ofNat 32 length).toNat = base.toNat + length := by bv_omega
    by_cases apart : base.toNat + length + 0x10 < 0x100000000
    · have gap : (base + BitVec.ofNat 32 length + 0x10).toNat = base.toNat + length + 0x10 := by
        bv_omega
      simp only [ends, last, apart, gap, if_true, joined]
      split_ifs <;> rfl
    · rw [if_neg (by omega : ¬base.toNat + length + 0x13 < 0x100000000)]
      simp only [ends, last, apart, if_true, if_false]
  · rw [if_neg ends, if_neg (by omega)]

/-- Sharing gives the next place, or fails and changes nothing. -/
theorem run_share_eq (chip : Chip) {bytes : Array Byte} (small : bytes.size < 0x100000000) :
    (share bytes).run chip =
      if chip.nextRegion.toNat + bytes.size + 0x13 < 0x100000000 then
        .ok chip.nextRegion
          (chip.shared bytes ((chip.nextRegion + BitVec.ofNat 32 bytes.size + 0x13) &&& ~~~3))
      else .error .addOverflow chip := by
  rw [run_share, regionAfter_eq _ small]
  split_ifs <;> rfl

/-! ## All buffers -/

/-- Buffers in the order in which they were placed, with the place for the next one. -/
structure Spaced (buffers : List Region) (next : Word) : Prop where
  first : (buffers.map Region.base ++ [next]).head? = some memoryBase
  aligned : ∀ base ∈ buffers.map Region.base ++ [next], base.toNat % 4 = 0
  apart : buffers.Pairwise fun earlier later =>
    earlier.base.toNat + earlier.bytes.size + 0x10 ≤ later.base.toNat
  below : ∀ buffer ∈ buffers, buffer.base.toNat + buffer.bytes.size + 0x10 ≤ next.toNat

theorem spaced_nil : Spaced [] memoryBase where
  first := rfl
  aligned base member := by
    obtain rfl := List.mem_singleton.mp member
    decide
  apart := .nil
  below _ member := (List.not_mem_nil member).elim

/-- The next buffer goes behind all others. -/
theorem Spaced.concat (spaced : Spaced buffers base) {bytes : Array Byte}
    (room : base.toNat + bytes.size + 0x13 < 0x100000000) :
    Spaced (buffers ++ [⟨base, bytes⟩])
      ((base + BitVec.ofNat 32 bytes.size + 0x13) &&& ~~~3) := by
  have far : base.toNat + bytes.size + 0x10 ≤
      ((base + BitVec.ofNat 32 bytes.size + 0x13) &&& ~~~3).toNat := by
    have rounded := toNat_le_aligned (base + BitVec.ofNat 32 bytes.size + 0x13)
    bv_omega
  constructor
  · rw [List.map_append, List.append_assoc, List.map_singleton, List.singleton_append,
      List.append_cons, List.head?_append, spaced.first]
    rfl
  · intro place member
    rw [List.map_append, List.map_singleton] at member
    obtain old | new := List.mem_append.mp member
    · exact spaced.aligned place old
    · obtain rfl := List.mem_singleton.mp new
      exact toNat_aligned_mod _
  · rw [List.pairwise_append]
    refine ⟨spaced.apart, List.pairwise_singleton _ _, ?_⟩
    intro earlier member later last
    obtain rfl := List.mem_singleton.mp last
    exact spaced.below earlier member
  · intro buffer member
    obtain old | new := List.mem_append.mp member
    · have := spaced.below buffer old
      omega
    · obtain rfl := List.mem_singleton.mp new
      exact far

theorem Spaced.layout (spaced : Spaced chip.regions chip.nextRegion) : chip.Layout where
  ordered := spaced.apart.imp fun h => by omega
  below buffer member := by
    have := spaced.below buffer member
    omega

/-- Of two buffers, the gap behind one holds no byte of the other. -/
theorem Spaced.gap_apart (spaced : Spaced buffers next) {buffer other : Region}
    (member : buffer ∈ buffers) (member' : other ∈ buffers) {address : Word}
    (behind : buffer.base.toNat + buffer.bytes.size ≤ address.toNat)
    (near : address.toNat < buffer.base.toNat + buffer.bytes.size + 0x10) :
    ¬other.Covers address := by
  rintro ⟨low, high⟩
  obtain ⟨i, inside, rfl⟩ := List.getElem_of_mem member
  obtain ⟨j, inside', rfl⟩ := List.getElem_of_mem member'
  obtain less | rfl | more := Nat.lt_trichotomy i j
  · have := List.pairwise_iff_getElem.mp spaced.apart i j inside inside' less
    omega
  · omega
  · have := List.pairwise_iff_getElem.mp spaced.apart j i inside' inside more
    omega

/-! ## What a chip with placed buffers does -/

/-- The memory of a chip consists of some buffers, placed in this order. -/
structure Places (chip : Chip) (buffers : List Region) : Prop where
  first : ∀ buffer, buffers.head? = some buffer → buffer.base = memoryBase
  aligned : ∀ buffer ∈ buffers, buffer.base.toNat % 4 = 0
  increasing : (buffers.map (·.base.toNat)).Pairwise (· < ·)
  apart : buffers.Pairwise fun earlier later =>
    earlier.base.toNat + earlier.bytes.size + 0x10 ≤ later.base.toNat
  /-- The next place is behind all buffers, each with its gap. -/
  next : chip.nextRegion.toNat % 4 = 0 ∧ (buffers = [] → chip.nextRegion = memoryBase) ∧
    ∀ buffer ∈ buffers, buffer.base.toNat + buffer.bytes.size + 0x10 ≤ chip.nextRegion.toNat
  holds : ∀ buffer ∈ buffers, ∀ (j : Nat) (inside : j < buffer.bytes.size),
    chip.memoryByte? (buffer.base + BitVec.ofNat 32 j) = some buffer.bytes[j]
  lost : ∀ address, (∀ buffer ∈ buffers, ¬buffer.Covers address) → chip.memoryByte? address = none
  gap : ∀ buffer ∈ buffers, ∀ k < 0x10,
    chip.memoryByte? (buffer.base + BitVec.ofNat 32 (buffer.bytes.size + k)) = none
  /-- A channel that can move stores the byte of the buffer that it is at. -/
  carries : ∀ c, (chip.latch c).active = true → chip.canMove c = true →
    ∀ buffer ∈ buffers, ∀ (j : Nat) (inside : j < buffer.bytes.size),
      (chip.latch c).memory = buffer.base + BitVec.ofNat 32 j →
        Booked c (chip.stored c buffer.bytes[j]) (stateAfter (serveChannel c) chip)
  /-- A channel that can move and is at no buffer ends in a bus error. -/
  fails : ∀ c, (chip.latch c).active = true → chip.canMove c = true →
    (∀ buffer ∈ buffers, ¬buffer.Covers (chip.latch c).memory) →
      (serveChannel c).run chip = .ok () (chip.busError c (chip.controlOf c))
  /-- One more buffer gets the next place, or there is no room for it and nothing changes. -/
  shares : ∀ bytes : Array Byte, bytes.size < 0x100000000 →
    (chip.nextRegion.toNat + bytes.size + 0x13 ≤ 0xFFFFFFFF ∧
        (∃ next, (share bytes).run chip = .ok chip.nextRegion (chip.shared bytes next))) ∨
      (0xFFFFFFFF < chip.nextRegion.toNat + bytes.size + 0x13 ∧
        (share bytes).run chip = .error .addOverflow chip)

theorem memoryByte?_eq_none {address : Word}
    (outside : ∀ region ∈ chip.regions, ¬region.Covers address) :
    chip.memoryByte? address = none :=
  List.findSome?_eq_none_iff.mpr fun region member => Region.byte?_eq_none (outside region member)

theorem Spaced.places (spaced : Spaced chip.regions chip.nextRegion) :
    chip.Places chip.regions where
  first buffer head := by
    have first := spaced.first
    rw [List.head?_append, List.head?_map, head] at first
    exact Option.some.inj first
  aligned buffer member :=
    spaced.aligned _ (List.mem_append_left _ (List.mem_map_of_mem member))
  increasing := List.pairwise_map.mpr (spaced.apart.imp fun h => by omega)
  apart := spaced.apart
  next := by
    refine ⟨spaced.aligned _ (List.mem_append_right _ List.mem_cons_self), ?_, spaced.below⟩
    intro empty
    have first := spaced.first
    rw [empty] at first
    exact Option.some.inj first
  holds buffer member j inside := spaced.layout.memoryByte?_add member inside
  lost _ := memoryByte?_eq_none
  gap buffer member k near := by
    have below := spaced.below buffer member
    apply memoryByte?_eq_none
    intro other member'
    apply spaced.gap_apart member member' <;> bv_omega
  carries c active able buffer member j inside at_item := by
    have mapped := spaced.layout.memoryByte?_add member inside
    rw [← at_item] at mapped
    rw [stateAfter, run_serveChannel, run_stepChannel, if_pos active, if_pos able, mapped]
    exact moveItem_books c chip _ _ _
  fails c active able outside := by
    rw [run_serveChannel, run_stepChannel, if_pos active, if_pos able,
      memoryByte?_eq_none outside]
  shares bytes small := by
    rw [run_share_eq chip small]
    by_cases room : chip.nextRegion.toNat + bytes.size + 0x13 < 0x100000000
    · rw [if_pos room]
      exact .inl ⟨by omega, _, rfl⟩
    · rw [if_neg room]
      exact .inr ⟨by omega, rfl⟩

/-! ## What changes the memory of buffers -/

/-- Both chips have the same buffers. -/
def SameBuffers (chip after : Chip) : Prop :=
  after.regions = chip.regions ∧ after.nextRegion = chip.nextRegion

theorem serveChannel_sameBuffers (first : Chip) (c : Channel) :
    Upholds (SameBuffers first) (serveChannel c) := by
  refine serveChannel_upholds (fun _ _ same => same) (fun chip control left same => ?_)
    (fun chip byte same => ?_) fun _ same => same
  · rw [countItem_eq]
    exact same
  · have kept := (store_effect chip (chip.latch c).target (byte.setWidth 32)).regions_eq
    exact ⟨kept.1.trans same.1, kept.2.trans same.2⟩

/-- Where a moment placed a buffer, if it placed one. -/
def Moment.placed? (moment : Moment) : Option Region :=
  match moment.part with
  | .whole (.share bytes) =>
    match (share bytes).run moment.chip with
    | .ok address _ => some ⟨address, bytes⟩
    | .error _ _ => none
  | _ => none

/-- The buffers that were placed in a run, in order. -/
def placed (moments : List Moment) : List Region :=
  moments.filterMap Moment.placed?

theorem placed_concat (moments : List Moment) (moment : Moment) :
    placed (moments ++ [moment]) = placed moments ++ moment.placed?.toList := by
  rw [placed, List.filterMap_append, placed]
  cases found : moment.placed? <;> simp [found]

end Chip

namespace Recorded

open Chip

/-- The chip's buffers are those that were placed, with gaps between them. -/
def Tidy (r : Recorded) : Prop :=
  r.chip.regions = placed r.moments ∧ Spaced r.chip.regions r.chip.nextRegion

/-- The same whenever a part began. -/
structure AlwaysTidy (r : Recorded) : Prop where
  now : r.Tidy
  began : ∀ earlier moment later, r.moments = earlier ++ moment :: later →
    Tidy ⟨moment.chip, earlier⟩

variable {r : Recorded} {part : Part}

theorem AlwaysTidy.extend (always : AlwaysTidy r) (tidy : Tidy (r.extend part)) :
    AlwaysTidy (r.extend part) where
  now := tidy
  began earlier moment later split := by
    change r.moments ++ [⟨part, r.chip⟩] = _ at split
    obtain rfl | ⟨rest, last, rfl⟩ := List.eq_nil_or_concat later
    · obtain ⟨rfl, same⟩ := List.append_inj' split rfl
      obtain rfl := List.head_eq_of_cons_eq same
      exact always.now
    · rw [List.concat_eq_append, ← List.cons_append, ← List.append_assoc] at split
      obtain ⟨old, -⟩ := List.append_inj' split rfl
      exact always.began earlier moment rest old

/-- A part that shares nothing keeps the buffers as they are. -/
theorem AlwaysTidy.extend_same (always : AlwaysTidy r)
    (none : Moment.placed? ⟨part, r.chip⟩ = none) (same : SameBuffers r.chip (part.after r.chip)) :
    AlwaysTidy (r.extend part) := by
  apply always.extend
  obtain ⟨buffers, spaced⟩ := always.now
  constructor
  · change (part.after r.chip).regions = placed (r.moments ++ [⟨part, r.chip⟩])
    rw [placed_concat, none, same.1, buffers]
    exact (List.append_nil _).symm
  · change Spaced (part.after r.chip).regions (part.after r.chip).nextRegion
    rw [same.1, same.2]
    exact spaced

theorem AlwaysTidy.lasting : Lasting AlwaysTidy where
  countDown _ always := always.extend_same rfl ⟨rfl, rfl⟩
  countNop _ always := always.extend_same rfl ⟨rfl, rfl⟩
  load r address always := by
    obtain ⟨rest, loaded⟩ := stateAfter_load r.chip address
    refine always.extend_same rfl ?_
    rw [Part.after, loaded]
    exact ⟨rfl, rfl⟩
  turn _ r c _ _ _ always :=
    always.extend_same rfl (serveChannel_sameBuffers r.chip c r.chip ⟨rfl, rfl⟩)

theorem AlwaysTidy.extend_share (always : AlwaysTidy r) {bytes : Array Byte}
    (small : bytes.size < 0x100000000) : AlwaysTidy (r.extend (.whole (.share bytes))) := by
  have left : Part.after r.chip (.whole (.share bytes)) = stateAfter (share bytes) r.chip :=
    stateAfter_perform_share r.chip bytes
  have shares := run_share_eq r.chip small
  by_cases room : r.chip.nextRegion.toNat + bytes.size + 0x13 < 0x100000000
  · rw [if_pos room] at shares
    rw [stateAfter_of_ok shares] at left
    have found : Moment.placed? ⟨.whole (.share bytes), r.chip⟩ =
        some ⟨r.chip.nextRegion, bytes⟩ := by
      simp only [Moment.placed?, shares]
    obtain ⟨buffers, spaced⟩ := always.now
    apply always.extend
    constructor
    · change (Part.after r.chip (.whole (.share bytes))).regions =
        placed (r.moments ++ [⟨.whole (.share bytes), r.chip⟩])
      rw [placed_concat, found, left, ← buffers]
      rfl
    · change Spaced (Part.after r.chip (.whole (.share bytes))).regions
        (Part.after r.chip (.whole (.share bytes))).nextRegion
      rw [left]
      exact spaced.concat room
  · rw [if_neg room] at shares
    rw [stateAfter, shares] at left
    apply always.extend_same
    · simp only [Moment.placed?, shares]
    · rw [left]
      exact ⟨rfl, rfl⟩

/-- Of all actions that take no time, only sharing places a buffer. -/
theorem AlwaysTidy.instant (always : AlwaysTidy r) {action : Action}
    (instant : action.instant = true) (addressable : action.Addressable) :
    AlwaysTidy (r.extend (.whole action)) := by
  cases action with
  | read | nop => cases instant
  | share bytes => exact always.extend_share addressable
  | write address value =>
    exact always.extend_same rfl
      (store_effect { r.chip with written := r.chip.written.insert address value } _ _).regions_eq
  | breakpoint | drive | release | connect | pushReceived | setLatency | clearEvents =>
    exact always.extend_same rfl ⟨rfl, rfl⟩

theorem Tidy.places {moments : List Moment} {chip : Chip} (tidy : Tidy ⟨chip, moments⟩) :
    chip.Places (placed moments) := by
  obtain ⟨buffers, spaced⟩ := tidy
  have places := spaced.places
  rwa [buffers] at places

end Recorded

/-- From reset on, and whatever is done to the chip, its memory consists at every moment of the
buffers shared so far: each at a multiple of four behind the one before it with a gap between them,
readable to channels as it was shared, and with nothing else readable. Sharing fails exactly where
the address space ends, and then changes nothing. -/
theorem Move.record_places (moves : List Move)
    (addressable : ∀ action, .act action ∈ moves → action.Addressable) :
    (record Chip.reset moves).chip = moves.foldl apply Chip.reset ∧
      Chip.Linked Chip.reset (record Chip.reset moves).moments (record Chip.reset moves).chip ∧
      (∀ earlier moment later,
        (record Chip.reset moves).moments = earlier ++ moment :: later →
          moment.chip.Places (Chip.placed earlier)) ∧
      (record Chip.reset moves).chip.Places (Chip.placed (record Chip.reset moves).moments) := by
  have always : (record Chip.reset moves).AlwaysTidy := by
    apply record_keeps
    · intro action member
      exact Recorded.act_upholds Recorded.AlwaysTidy.lasting fun instant r always =>
        always.instant instant (addressable action member)
    · exact Recorded.sendByte_keeps Recorded.AlwaysTidy.lasting fun value r always =>
        always.instant rfl trivial
    · refine ⟨⟨rfl, Chip.spaced_nil⟩, fun earlier _ _ split => ?_⟩
      simp at split
  refine ⟨record_chip _ _, record_linked _ _, ?_, always.now.places⟩
  exact fun earlier moment later split => (always.began earlier moment later split).places

/-- Three buffers, one of them empty, with time and a store in between. -/
def Move.threeBuffers : List Move :=
  [.act (.share #[7, 8]), .act .nop, .act (.share #[]), .act (.write Rcc.ahb1enr 1),
    .act (.share #[9])]

theorem Move.record_places_three :
    (∀ action, .act action ∈ threeBuffers → action.Addressable) ∧
      (record Chip.reset threeBuffers).chip.Places
        [⟨0x20000000, #[7, 8]⟩, ⟨0x20000014, #[]⟩, ⟨0x20000024, #[9]⟩] := by
  have addressable : ∀ action, .act action ∈ threeBuffers → action.Addressable := by
    intro action member
    simp only [threeBuffers, List.mem_cons, Move.act.injEq, List.not_mem_nil, or_false] at member
    obtain rfl | rfl | rfl | rfl | rfl := member <;> simp [Chip.Action.Addressable]
  exact ⟨addressable, (record_places threeBuffers addressable).2.2.2⟩

end Peripherals
