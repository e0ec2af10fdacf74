import Mathlib.Data.List.Nodup
import Mathlib.Logic.Function.Basic
import Peripherals.Proofs.Programming

/-! # The queue of the line

A channel that streams to the line has a list of bytes left to send, whether it
was just started or is somewhere in its buffer. The bytes that all channels have
left form a queue, in the order of the channels. While a byte takes time on the
line, and also while only one channel has bytes left, every tick either brings
the transmitter closer to its next byte or takes the first byte of the queue. -/

namespace Peripherals.Chip

variable {chip after : Chip} {c : Channel} {byte : Byte} {rest : List Byte}
  {left : Channel → List Byte}

/-! ## What one channel has left -/

/-- A channel streams to the line and has these bytes of memory left to send. -/
structure HasLeft (chip : Chip) (c : Channel) (rest : List Byte) : Prop where
  active : (chip.latch c).active = true
  target : (chip.latch c).target = Serial.target
  streams : Streams (chip.controlOf c)
  count : (chip.itemsLeft c).toNat = rest.length
  mapped : ∀ i byte, rest[i]? = some byte →
    chip.memoryByte? ((chip.latch c).memory + BitVec.ofNat 32 i) = some byte

theorem memoryByte?_of_same (memory : after.regions = chip.regions) (address : Word) :
    after.memoryByte? address = chip.memoryByte? address := by
  rw [memoryByte?, memory, memoryByte?]

namespace HasLeft

theorem of_same (same : SameChannel c chip after) (memory : after.regions = chip.regions)
    (has : chip.HasLeft c rest) : after.HasLeft c rest where
  active := by
    rw [same.latch]
    exact has.active
  target := by
    rw [same.latch]
    exact has.target
  streams := by
    rw [same.controlOf]
    exact has.streams
  count := by
    rw [same.itemsLeft]
    exact has.count
  mapped i byte next := by
    rw [same.latch, memoryByte?_of_same memory]
    exact has.mapped i byte next

/-- A channel on a shared buffer has left what lies behind its memory address, as far as its count
goes. -/
theorem of_region {region : Region} (layout : chip.Layout) (member : region ∈ chip.regions)
    (active : (chip.latch c).active = true) (target : (chip.latch c).target = Serial.target)
    (streams : Streams (chip.controlOf c)) {k : Nat}
    (place : (chip.latch c).memory = region.base + BitVec.ofNat 32 k)
    (inside : k + (chip.itemsLeft c).toNat ≤ region.bytes.size) :
    chip.HasLeft c ((region.bytes.toList.drop k).take (chip.itemsLeft c).toNat) where
  active := active
  target := target
  streams := streams
  count := by
    rw [List.length_take, List.length_drop, Array.length_toList]
    omega
  mapped i byte next := by
    rw [List.getElem?_take] at next
    split at next
    · rw [List.getElem?_drop, Array.getElem?_toList] at next
      obtain ⟨within, rfl⟩ := Array.getElem?_eq_some_iff.mp next
      rw [place, BitVec.add_assoc, ← BitVec.ofNat_add]
      exact layout.memoryByte?_add member within
    · cases next

/-- With no byte left, the channel rests. -/
theorem rests (has : chip.HasLeft c []) : chip.Rests c :=
  fun _ => .inl (BitVec.eq_of_toNat_eq has.count)

theorem some_left (has : chip.HasLeft c (byte :: rest)) : chip.itemsLeft c ≠ 0 := by
  intro none_left
  have count := has.count
  rw [none_left] at count
  cases count

/-- While the transmitter is free, the turn of such a channel moves its next byte. -/
theorem turn (layout : chip.Layout) (line : chip.LineReady) (free : chip.busy = 0)
    (has : chip.HasLeft c (byte :: rest)) : Turn chip c (chip.moved c byte) := by
  have mapped : chip.memoryByte? (chip.latch c).memory = some byte := by
    have first := has.mapped 0 byte rfl
    rwa [BitVec.add_zero] at first
  exact turn_streaming has.target has.streams layout line has.active has.some_left free mapped

/-- While the transmitter is busy, the channel waits. -/
theorem waits (line : chip.LineReady) (busy : chip.busy ≠ 0) (has : chip.HasLeft c rest) :
    Turn chip c chip := by
  refine .rest fun _ => ?_
  by_contra able
  rw [Bool.not_eq_false, canMove_streaming_iff has.target has.streams line] at able
  exact busy able.2

/-- A byte that went out is left no more. -/
theorem delivered (delivered : Delivered chip c byte after)
    (has : chip.HasLeft c (byte :: rest)) : after.HasLeft c rest where
  active := by
    rw [delivered.latch]
    exact has.active
  target := by
    rw [delivered.latch]
    exact has.target
  streams := by
    rw [delivered.control]
    exact has.streams
  count := by
    have count := has.count
    rw [List.length_cons] at count
    rw [delivered.itemsLeft]
    bv_omega
  mapped i next found := by
    have later := has.mapped (i + 1) next found
    rw [Nat.add_comm, BitVec.ofNat_add, ← BitVec.add_assoc] at later
    rw [delivered.latch, memoryByte?_of_same delivered.memory.1]
    exact later

end HasLeft

/-- A channel that stands at the beginning of a shared buffer has the whole buffer left. -/
theorem HasLeft.of_whole {region : Region} {reload : Word} (layout : chip.Layout)
    (member : region ∈ chip.regions)
    (latch : chip.latch c = ⟨true, region.base, Serial.target, reload⟩)
    (length : chip.itemsLeft c = BitVec.ofNat 32 region.bytes.size)
    (streams : Streams (chip.controlOf c)) : chip.HasLeft c region.bytes.toList := by
  have count : (chip.itemsLeft c).toNat = region.bytes.size := by
    have below := layout.below region member
    rw [length]
    bv_omega
  have inside : 0 + (chip.itemsLeft c).toNat ≤ region.bytes.size := by omega
  have has : chip.HasLeft c ((region.bytes.toList.drop 0).take (chip.itemsLeft c).toNat) := by
    apply HasLeft.of_region layout member _ _ streams _ inside
    · rw [latch]
    · rw [latch]
    · rw [latch, BitVec.add_zero]
  rwa [count, List.drop_zero, ← Array.length_toList, List.take_length] at has

/-- So has a channel that was just started there. -/
theorem Ready.hasLeft {region : Region} {value : Word} (ready : chip.Ready c region)
    (layout : chip.Layout) (member : region ∈ chip.regions) (on : value &&& Dma1.enable ≠ 0)
    (streams : Streams value) (wrote : Controlled c value chip after) :
    after.HasLeft c region.bytes.toList := by
  have latch : after.latch c = ⟨true, region.base, Serial.target,
      BitVec.ofNat 32 region.bytes.size⟩ := by
    rw [wrote.latch, if_neg on, ready.disabled, if_neg Bool.false_ne_true, ready.source,
      ready.target, ready.length]
  have memory := wrote.confined.memory
  refine .of_whole (layout.of_same memory) (memory.1 ▸ member) latch ?_ ?_
  · rw [wrote.itemsLeft, ready.length]
  · rw [wrote.control]
    exact streams

/-! ## What all channels have left -/

/-- The bytes that all channels have left, those of the lower channels first. -/
def queue (left : Channel → List Byte) : List Byte :=
  Channel.all.flatMap left

theorem queue_eq_nil_iff : queue left = [] ↔ ∀ c, left c = [] := by
  simp [queue, Channel.all]

/-- The first channel of a list that has bytes left. -/
theorem exists_first {cs : List Channel} (some_left : cs.flatMap left ≠ []) :
    ∃ earlier c later, cs = earlier ++ c :: later ∧ (∀ d ∈ earlier, left d = []) ∧ left c ≠ [] := by
  induction cs with
  | nil => exact absurd rfl some_left
  | cons c others ih =>
    by_cases none_left : left c = []
    · rw [List.flatMap_cons, none_left, List.nil_append] at some_left
      obtain ⟨earlier, first, later, split, empty, has⟩ := ih some_left
      refine ⟨c :: earlier, first, later, congrArg (c :: ·) split, ?_, has⟩
      exact List.forall_mem_cons.mpr ⟨none_left, empty⟩
    · exact ⟨[], c, others, rfl, List.forall_mem_nil _, none_left⟩

/-- What a channel has left stands in the queue between what the others have. -/
theorem queue_around {earlier later : List Channel} (split : Channel.all = earlier ++ c :: later)
    (own : List Byte) : queue (Function.update left c own) =
      earlier.flatMap left ++ (own ++ later.flatMap left) := by
  have nodup : Channel.all.Nodup := List.nodup_finRange 7
  rw [split, List.nodup_append, List.nodup_cons] at nodup
  obtain ⟨-, ⟨notLater, -⟩, apart⟩ := nodup
  have before : earlier.flatMap (Function.update left c own) = earlier.flatMap left := by
    refine List.flatMap_congr fun d member => ?_
    rw [Function.update_of_ne (apart d member c List.mem_cons_self)]
  have behind : later.flatMap (Function.update left c own) = later.flatMap left := by
    refine List.flatMap_congr fun d member => ?_
    rw [Function.update_of_ne]
    rintro rfl
    exact notLater member
  rw [queue, split, List.flatMap_append, List.flatMap_cons, before, behind, Function.update_self]

theorem exists_queue_around (left : Channel → List Byte) (c : Channel) :
    ∃ lower higher, ∀ own, queue (Function.update left c own) = lower ++ (own ++ higher) := by
  obtain ⟨earlier, later, split⟩ := List.append_of_mem (List.mem_finRange c)
  exact ⟨_, _, queue_around split⟩

/-- The first byte of the first channel with bytes left is the first byte of the queue. -/
theorem queue_first {earlier later : List Channel} (split : Channel.all = earlier ++ c :: later)
    (empty : ∀ d ∈ earlier, left d = []) (next : left c = byte :: rest) :
    queue left = byte :: queue (Function.update left c rest) := by
  have none_before : earlier.flatMap left = [] := List.flatMap_eq_nil_iff.mpr empty
  have whole : queue (Function.update left c (left c)) = _ := queue_around split (left c)
  rw [Function.update_eq_self, none_before, next] at whole
  rw [whole, queue_around split, none_before]
  rfl

/-- Every channel rests, or it streams to the line and has its bytes left. -/
structure Queued (left : Channel → List Byte) (chip : Chip) : Prop where
  line : chip.LineReady
  layout : chip.Layout
  rests : ∀ c, left c = [] → chip.Rests c
  works : ∀ c, left c ≠ [] → chip.HasLeft c (left c)

/-- A byte takes time on the line, or only one channel has bytes left for it. -/
def Spread (left : Channel → List Byte) (chip : Chip) : Prop :=
  1 ≤ chip.latency ∨ ∃ c, ∀ d, d ≠ c → left d = []

/-- Nothing that a channel or the memory depends on changed. -/
theorem Queued.of_channels (line : after.LineReady) (channels : ∀ c, SameChannel c chip after)
    (memory : after.regions = chip.regions ∧ after.nextRegion = chip.nextRegion)
    (queued : chip.Queued left) : after.Queued left where
  line := line
  layout := queued.layout.of_same memory
  rests c none_left := (queued.rests c none_left).of_same (channels c)
  works c some_left := (queued.works c some_left).of_same (channels c) memory.1

theorem Queued.of_same (channels : ∀ c, SameChannel c chip after) (line : SameLine chip after)
    (memory : after.regions = chip.regions ∧ after.nextRegion = chip.nextRegion)
    (queued : chip.Queued left) : after.Queued left :=
  queued.of_channels (queued.line.of_same line) channels memory

theorem Queued.of_undisturbed (queued : chip.Queued left) (undisturbed : Undisturbed chip after) :
    after.Queued left :=
  queued.of_same undisturbed.channels undisturbed.line undisturbed.memory

/-- One channel has other bytes left than before, and nothing changed for the others. -/
theorem Queued.update (queued : chip.Queued left) (others : ∀ d, d ≠ c → SameChannel d chip after)
    (line : SameLine chip after)
    (memory : after.regions = chip.regions ∧ after.nextRegion = chip.nextRegion)
    (rests : rest = [] → after.Rests c) (works : rest ≠ [] → after.HasLeft c rest) :
    after.Queued (Function.update left c rest) where
  line := queued.line.of_same line
  layout := queued.layout.of_same memory
  rests d none_left := by
    by_cases same : d = c
    · rw [same, Function.update_self] at none_left
      rw [same]
      exact rests none_left
    · rw [Function.update_of_ne same] at none_left
      exact (queued.rests d none_left).of_same (others d same)
  works d some_left := by
    by_cases same : d = c
    · rw [same, Function.update_self] at some_left ⊢
      exact works some_left
    · rw [Function.update_of_ne same] at some_left ⊢
      exact (queued.works d some_left).of_same (others d same) memory.1

/-- A channel that delivered its byte is further on, and no other channel has moved. -/
theorem Queued.delivered (queued : chip.Queued left) (next : left c = byte :: rest)
    (delivered : Delivered chip c byte after) : after.Queued (Function.update left c rest) := by
  have has : chip.HasLeft c (byte :: rest) := next ▸ queued.works c (next ▸ List.cons_ne_nil _ _)
  have has' := has.delivered delivered
  apply queued.update delivered.others delivered.line delivered.memory
  · rintro rfl
    exact has'.rests
  · exact fun _ => has'

/-! ## A tick -/

/-- What a tick can do while channels stream to the line: bring the transmitter closer to its next
byte, or let the first channel with bytes left deliver its next one. -/
inductive Tended (left : Channel → List Byte) (chip : Chip) : (Channel → List Byte) → Chip → Prop
  | waited (idle : 1 < chip.busy ∨ queue left = []) : Tended left chip left chip.countedDown
  | sent (c : Channel) (byte : Byte) (rest : List Byte) (after : Chip) (free : chip.busy ≤ 1)
      (next : left c = byte :: rest)
      (first : queue left = byte :: queue (Function.update left c rest))
      (delivered : Delivered chip c byte after) :
      Tended left chip (Function.update left c rest) after

/-- The turns of all channels after the first one with bytes left has delivered its byte. -/
theorem Queued.serve (queued : chip.Queued left) (spread : Spread left chip)
    (free : chip.busy = 0) {earlier later : List Channel}
    (split : Channel.all = earlier ++ c :: later) (empty : ∀ d ∈ earlier, left d = [])
    (next : left c = byte :: rest) :
    (forM Channel.all serveChannel).run chip = .ok () (chip.moved c byte) := by
  have some_left : left c ≠ [] := next ▸ List.cons_ne_nil _ _
  have has : chip.HasLeft c (byte :: rest) := next ▸ queued.works c some_left
  have delivered := queued.line.toLineOn.delivered has.target has.streams byte
  have nodup : Channel.all.Nodup := List.nodup_finRange 7
  rw [split, List.nodup_append, List.nodup_cons] at nodup
  obtain ⟨-, ⟨notLater, -⟩, -⟩ := nodup
  rw [split, List.forM_append, run_seq_eq_ok_iff]
  refine ⟨chip, serve_resting fun d member => queued.rests d (empty d member), ?_⟩
  rw [List.forM_cons, run_seq_eq_ok_iff]
  refine ⟨_, serveChannel_eq_ok_iff.mpr (has.turn queued.layout queued.line free), ?_⟩
  refine serve_waiting fun d member => ?_
  have other : d ≠ c := by
    rintro rfl
    exact notLater member
  have after := queued.delivered next delivered
  by_cases none_left : left d = []
  · exact ((queued.rests d none_left).of_same (delivered.others d other)).turn
  · -- With bytes left behind the first channel's, the byte that went out takes time.
    have slow : 1 ≤ chip.latency := by
      obtain slow | ⟨only, alone⟩ := spread
      · exact slow
      · by_cases same : c = only
        · exact absurd (alone d (same ▸ other)) none_left
        · exact absurd (alone c same) some_left
    have busy : (chip.moved c byte).busy ≠ 0 := by
      rw [delivered.busy.1]
      omega
    exact ((queued.works d none_left).of_same (delivered.others d other)
      delivered.memory.1).waits after.line busy

theorem Queued.tick (queued : chip.Queued left) (spread : Spread left chip) :
    ∃ left' after, Chip.tick.run chip = .ok () after ∧ Tended left chip left' after ∧
      after.Queued left' := by
  have begun := queued.of_undisturbed chip.countedDown_undisturbed
  have clocked : chip.clocked (.dma1 0) = true := queued.line.dmaClocked
  rw [tick_eq, if_pos clocked]
  by_cases idle : 1 < chip.busy ∨ queue left = []
  · refine ⟨left, chip.countedDown, serve_waiting fun d _ => ?_, .waited idle, begun⟩
    by_cases none_left : left d = []
    · exact (begun.rests d none_left).turn
    · have some_time : chip.busy - 1 ≠ 0 := by
        obtain busy | empty := idle
        · omega
        · exact absurd (queue_eq_nil_iff.mp empty d) none_left
      exact (begun.works d none_left).waits begun.line some_time
  · rw [not_or] at idle
    obtain ⟨earlier, c, later, split, empty, some_left⟩ := exists_first idle.2
    obtain ⟨byte, rest, next⟩ := List.exists_cons_of_ne_nil some_left
    have has : chip.countedDown.HasLeft c (left c) := begun.works c some_left
    have delivered : Delivered chip.countedDown c byte (chip.countedDown.moved c byte) :=
      begun.line.toLineOn.delivered has.target has.streams byte
    have free : chip.busy - 1 = 0 := by omega
    have sent : Delivered chip c byte (chip.countedDown.moved c byte) := by
      obtain ⟨latch, control, count, transmitted, others, line, flags, memory, busy⟩ := delivered
      exact ⟨latch, control, count, transmitted, fun d ne => ⟨(others d ne).latch,
        (others d ne).register⟩, line, flags, memory, busy⟩
    exact ⟨Function.update left c rest, _, begun.serve spread free split empty next,
      .sent c byte rest _ (by omega) next (queue_first split empty next) sent,
      begun.delivered next delivered⟩

end Peripherals.Chip
