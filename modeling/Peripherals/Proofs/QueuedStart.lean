import Peripherals.Proofs.DrainedQueue
import Peripherals.Proofs.FlushedTransfer

/-! # Starting a buffer among others

A buffer can be handed to a channel while other channels still have bytes left
for the line, and also while the channel itself has. What the channel had left is
dropped, the others go on, and the buffer takes its place in the queue between
them. Polled bytes that follow go out behind all of it. -/

namespace Peripherals

open Bus Chip

variable {home first chip after : Chip} {c : Channel} {left : Channel → List Byte}
  {before whole : List Byte} {limit latency : Nat} {region : Region} {value : Word}

/-! ## Channels at work -/

namespace Chip

/-- How far into a buffer the memory address of a channel is. -/
def offsetIn (chip : Chip) (c : Channel) (region : Region) : Nat :=
  ((chip.latch c).memory - region.base).toNat

/-- The bytes of a buffer that a channel has not sent yet. -/
def unsent (chip : Chip) (c : Channel) (region : Region) : List Byte :=
  (region.bytes.toList.drop (chip.offsetIn c region)).take (chip.itemsLeft c).toNat

/-- A channel was started towards the data register on a shared buffer, and what it has left lies
in the buffer. -/
structure Underway (chip : Chip) (c : Channel) (region : Region) : Prop where
  registered : region ∈ chip.regions
  active : (chip.latch c).active = true
  target : (chip.latch c).target = Serial.target
  streams : Streams (chip.controlOf c)
  inside : chip.offsetIn c region + (chip.itemsLeft c).toNat ≤ region.bytes.size

/-- What channels have not sent yet, of which some are at work on a buffer. -/
def unsentBy (chip : Chip) (atWork : Channel → Option Region) (c : Channel) : List Byte :=
  match atWork c with
  | some region => chip.unsent c region
  | none => []

theorem Underway.hasLeft (underway : chip.Underway c region) (layout : chip.Layout) :
    chip.HasLeft c (chip.unsent c region) := by
  have place : (chip.latch c).memory = region.base + BitVec.ofNat 32 (chip.offsetIn c region) := by
    rw [offsetIn, BitVec.ofNat_toNat, BitVec.setWidth_eq]
    bv_omega
  exact .of_region layout underway.registered underway.active underway.target underway.streams
    place underway.inside

/-- Channels at work on buffers, and others that are not active, make up a queue. -/
theorem queued_of_underway (layout : chip.Layout) (line : chip.LineReady)
    {atWork : Channel → Option Region}
    (idle : ∀ c, atWork c = none → (chip.latch c).active = false)
    (working : ∀ c region, atWork c = some region → chip.Underway c region) :
    chip.Queued (chip.unsentBy atWork) where
  line := line
  layout := layout
  rests c none_left := by
    cases work : atWork c with
    | none => exact .of_inactive (idle c work)
    | some region =>
      have has := (working c region work).hasLeft layout
      rw [unsentBy, work] at none_left
      simp only at none_left
      rw [none_left] at has
      exact has.rests
  works c some_left := by
    rw [unsentBy] at some_left ⊢
    cases work : atWork c with
    | none =>
      rw [work] at some_left
      exact absurd rfl some_left
    | some region => exact (working c region work).hasLeft layout

/-! ## On the way through a queue -/

/-- A list is another one with a stretch of it left out. -/
def LeavesOut (whole gap rest : List Byte) : Prop :=
  ∃ front back, whole = front ++ gap ++ back ∧ rest = front ++ back

/-- Some bytes joined a queue in one piece, and an end of other bytes was dropped from it. -/
def Joins (whole mine own joined : List Byte) : Prop :=
  ∃ gap earlier later, gap <:+ mine ∧ LeavesOut whole gap (earlier ++ later) ∧
    joined = earlier ++ own ++ later

/-- The chip is somewhere on its way through a queue: what it has sent since a moment, followed by
what is left, is the same list all the time. -/
structure Onward (home : Chip) (before whole : List Byte) (limit latency : Nat)
    (left : Channel → List Byte) (chip : Chip) : Prop where
  queued : chip.Queued left
  course : ∃ sent, chip.transmitted = before ++ sent ∧ sent ++ queue left = whole
  agrees : ∀ c, (chip.latch c).active = chip.channelEnabled c
  paced : Paced limit latency chip
  memory : chip.regions = home.regions ∧ chip.nextRegion = home.nextRegion

/-- If the enabled channels are those at work, and one is changed accordingly, they still are. -/
theorem agrees_of_confined (agrees : ∀ d, (chip.latch d).active = chip.channelEnabled d)
    (confined : Confined c chip after) (own : (after.latch c).active = after.channelEnabled c)
    (d : Channel) : (after.latch d).active = after.channelEnabled d := by
  by_cases same : d = c
  · rw [same]
    exact own
  · rw [(confined.others d same).latch, (confined.others d same).enabled]
    exact agrees d

namespace Onward

/-- A tick leads further on the way, and no channel gets more bytes. -/
theorem tick (onward : Onward home before whole limit latency left chip) (slow : 1 ≤ latency)
    (bound : latency ≤ limit) :
    ∃ left' after, Chip.tick.run chip = .ok () after ∧
      Onward home before whole limit latency left' after ∧ (∀ c, left' c <:+ left c) ∧
      ∀ c, after.controlOf c = chip.controlOf c := by
  obtain ⟨sent, transmitted, course⟩ := onward.course
  have spread : Spread left chip := .inl (onward.paced.latency ▸ slow)
  obtain ⟨left', after, passed, tended, queued⟩ := onward.queued.tick spread
  have paced := onward.paced.tick passed bound
  refine ⟨left', after, passed, ?_⟩
  cases tended with
  | waited =>
    exact ⟨⟨queued, ⟨sent, transmitted, course⟩, onward.agrees, paced, onward.memory⟩,
      fun _ => List.suffix_rfl, fun _ => rfl⟩
  | sent d byte rest _ free next first delivered =>
    have control (e : Channel) : after.controlOf e = chip.controlOf e := by
      by_cases same : e = d
      · rw [same]
        exact delivered.control
      · exact (delivered.others e same).controlOf
    refine ⟨⟨queued, ⟨sent ++ [byte], ?_, ?_⟩, fun e => ?_, paced, ?_⟩, fun e => ?_, control⟩
    · rw [delivered.transmitted, transmitted, List.append_assoc]
    · rw [List.append_assoc, ← course, first]
      rfl
    · rw [channelEnabled, ← controlOf, control e]
      by_cases same : e = d
      · rw [same, delivered.latch]
        exact onward.agrees d
      · rw [(delivered.others e same).latch]
        exact onward.agrees e
    · exact ⟨delivered.memory.1.trans onward.memory.1, delivered.memory.2.trans onward.memory.2⟩
    · by_cases same : e = d
      · rw [same, Function.update_self, next]
        exact List.suffix_cons byte rest
      · simp only [Function.update_of_ne same, List.suffix_rfl]

/-- Whoever is at work only sends what is queued, whatever else changes. -/
theorem of_channels (onward : Onward home before whole limit latency left chip)
    (line : after.LineReady) (channels : ∀ c, SameChannel c chip after)
    (transmitted : after.transmitted = chip.transmitted)
    (memory : after.regions = chip.regions ∧ after.nextRegion = chip.nextRegion)
    (paced : Paced limit latency after) : Onward home before whole limit latency left after where
  queued := onward.queued.of_channels line channels memory
  course := by
    rw [transmitted]
    exact onward.course
  agrees c := by
    rw [(channels c).latch, (channels c).enabled]
    exact onward.agrees c
  paced := paced
  memory := ⟨memory.1.trans onward.memory.1, memory.2.trans onward.memory.2⟩

/-- The bytes that are queued are sent from memory to which buffers are only added. -/
theorem shared (onward : Onward home before whole limit latency left chip) {bytes : Array Byte}
    {next : Word} (small : bytes.size < 0x100000000)
    (fits : regionAfter chip.nextRegion bytes.size = .ok next) :
    Onward (home.shared bytes next) before whole limit latency left (chip.shared bytes next) where
  queued := by
    have line : SameLine chip (chip.shared bytes next) := fun _ _ => rfl
    constructor
    · exact onward.queued.line.of_same line
    · exact onward.queued.layout.shared small fits
    · exact onward.queued.rests
    · intro c some_left
      obtain ⟨active, target, streams, count, mapped⟩ := onward.queued.works c some_left
      exact ⟨active, target, streams, count, fun i byte next =>
        memoryByte?_shared (mapped i byte next)⟩
  course := onward.course
  agrees := onward.agrees
  paced := ⟨onward.paced.busy, onward.paced.latency⟩
  memory := by
    obtain ⟨regions, nextRegion⟩ := onward.memory
    refine ⟨?_, rfl⟩
    change chip.regions ++ [⟨chip.nextRegion, bytes⟩] = home.regions ++ [⟨home.nextRegion, bytes⟩]
    rw [regions, nextRegion]

/-- A channel that is taken out of use drops what it had left. -/
theorem dropped (onward : Onward home before whole limit latency left chip)
    (confined : Confined c chip after) (disabled : after.channelEnabled c = false)
    (inactive : (after.latch c).active = false) (paced : Paced limit latency after) :
    ∃ whole', LeavesOut whole (left c) whole' ∧
      Onward home before whole' limit latency (Function.update left c []) after := by
  obtain ⟨sent, transmitted, course⟩ := onward.course
  obtain ⟨lower, higher, around⟩ := exists_queue_around left c
  have mine : queue left = lower ++ (left c ++ higher) := by
    rw [← around (left c), Function.update_eq_self]
  refine ⟨sent ++ lower ++ higher, ⟨sent ++ lower, higher, ?_, rfl⟩, ?_, ⟨sent, ?_, ?_⟩, ?_, paced,
    ?_⟩
  · rw [← course, mine]
    simp only [List.append_assoc]
  · exact onward.queued.update confined.others confined.line confined.memory
      (fun _ => .of_inactive inactive) fun some_left => absurd rfl some_left
  · exact confined.transmitted.trans transmitted
  · rw [around, List.nil_append, List.append_assoc]
  · exact agrees_of_confined onward.agrees confined (inactive.trans disabled.symm)
  · exact ⟨confined.memory.1.trans onward.memory.1, confined.memory.2.trans onward.memory.2⟩

/-- A channel that is started on a buffer puts it into the queue. -/
theorem started (onward : Onward home before whole limit latency left chip)
    (none_left : left c = []) (ready : chip.Ready c region) (member : region ∈ home.regions)
    (on : value &&& Dma1.enable ≠ 0) (streams : Streams value)
    (wrote : Controlled c value chip after) (paced : Paced limit latency after) :
    ∃ earlier later, earlier ++ later = whole ∧
      Onward home before (earlier ++ region.bytes.toList ++ later) limit latency
        (Function.update left c region.bytes.toList) after := by
  obtain ⟨sent, transmitted, course⟩ := onward.course
  obtain ⟨lower, higher, around⟩ := exists_queue_around left c
  have mine : queue left = lower ++ higher := by
    rw [← Function.update_eq_self c left, none_left, around, List.nil_append]
  have confined := wrote.confined
  have has : after.HasLeft c region.bytes.toList :=
    ready.hasLeft onward.queued.layout (onward.memory.1 ▸ member) on streams wrote
  refine ⟨sent ++ lower, higher, ?_, ?_, ⟨sent, ?_, ?_⟩, ?_, paced, ?_⟩
  · rw [← course, mine, List.append_assoc]
  · exact onward.queued.update confined.others confined.line confined.memory
      (fun none_left => (none_left ▸ has : after.HasLeft c []).rests) fun _ => has
  · exact confined.transmitted.trans transmitted
  · rw [around]
    simp only [List.append_assoc]
  · apply agrees_of_confined onward.agrees confined
    rw [has.active, wrote.enabled]
    exact (bne_iff_ne.mpr on).symm
  · exact ⟨confined.memory.1.trans onward.memory.1, confined.memory.2.trans onward.memory.2⟩

/-- So everything is out after some ticks, and the whole list has followed what was sent before. -/
theorem backlog (onward : Onward home before whole limit latency left chip) :
    Backlog (before ++ whole) latency (whole.length * (latency + 1) + limit) chip := by
  obtain ⟨sent, transmitted, course⟩ := onward.course
  refine ⟨⟨left, onward.queued, ?_, ?_⟩, onward.paced.latency⟩
  · rw [transmitted, List.append_assoc, course]
  · have few : (queue left).length ≤ whole.length := by
      rw [← course, List.length_append]
      omega
    exact Nat.add_le_add (Nat.mul_le_mul_right _ few) onward.paced.busy

end Onward

/-! ## Up to the start of a channel -/

/-- The chip is on its way through a queue, and one channel has an end of some bytes left. -/
def Approaching (home : Chip) (before whole : List Byte) (limit latency : Nat) (c : Channel)
    (mine : List Byte) (chip : Chip) : Prop :=
  ∃ left, Onward home before whole limit latency left chip ∧ left c <:+ mine

/-- The chip is on its way through a queue without an end of some bytes, which one channel dropped
when it was taken out of use. -/
def Released (home : Chip) (before whole : List Byte) (limit latency : Nat) (c : Channel)
    (mine : List Byte) (chip : Chip) : Prop :=
  ∃ gap rest left, gap <:+ mine ∧ LeavesOut whole gap rest ∧
    Onward home before rest limit latency left chip ∧ left c = [] ∧ chip.channelEnabled c = false

variable {mine : List Byte}

theorem Approaching.tick (slow : 1 ≤ latency) (bound : latency ≤ limit)
    (approaching : Approaching home before whole limit latency c mine chip) :
    ∃ after, Chip.tick.run chip = .ok () after ∧
      Approaching home before whole limit latency c mine after := by
  obtain ⟨left, onward, part⟩ := approaching
  obtain ⟨left', after, passed, onward', fewer, -⟩ := onward.tick slow bound
  exact ⟨after, passed, left', onward', (fewer c).trans part⟩

theorem Released.tick (slow : 1 ≤ latency) (bound : latency ≤ limit)
    (released : Released home before whole limit latency c mine chip) :
    ∃ after, Chip.tick.run chip = .ok () after ∧
      Released home before whole limit latency c mine after := by
  obtain ⟨gap, rest, left, part, without, onward, none_left, disabled⟩ := released
  obtain ⟨left', after, passed, onward', fewer, control⟩ := onward.tick slow bound
  have none_left' : left' c = [] := List.suffix_nil.mp (none_left ▸ fewer c)
  refine ⟨after, passed, gap, rest, left', part, without, onward', none_left', ?_⟩
  rw [channelEnabled, ← controlOf, control]
  exact disabled

/-- A channel that is taken out of use releases what it had left. -/
theorem Approaching.released (approaching : Approaching home before whole limit latency c mine chip)
    (confined : Confined c chip after) (disabled : after.channelEnabled c = false)
    (inactive : (after.latch c).active = false) (paced : Paced limit latency after) :
    Released home before whole limit latency c mine after := by
  obtain ⟨left, onward, part⟩ := approaching
  obtain ⟨rest, without, onward'⟩ := onward.dropped confined disabled inactive paced
  exact ⟨_, rest, _, part, without, onward', Function.update_self _ _ _, disabled⟩

/-- A channel that is not enabled has no byte left to release. -/
theorem Approaching.disabled (approaching : Approaching home before whole limit latency c mine chip)
    (disabled : chip.channelEnabled c = false) :
    Released home before whole limit latency c mine chip ∧ (chip.latch c).active = false := by
  obtain ⟨left, onward, -⟩ := id approaching
  have inactive : (chip.latch c).active = false := (onward.agrees c).trans disabled
  have confined : Confined c chip chip := ⟨fun _ _ => .refl _ _, .refl _, rfl, rfl, rfl⟩
  exact ⟨approaching.released confined disabled inactive onward.paced, inactive⟩

/-- A channel that is disabled by a write is released. -/
theorem Approaching.stopped (approaching : Approaching home before whole limit latency c mine chip)
    (bound : latency ≤ limit) (off : value &&& Dma1.enable = 0) :
    Released home before whole limit latency c mine (chip.write (Dma1.register c Dma1.ccr) value) ∧
      ((chip.write (Dma1.register c Dma1.ccr) value).latch c).active = false := by
  obtain ⟨left, onward, -⟩ := id approaching
  have wrote := controlled (c := c) onward.queued.line.dmaClocked value
  have inactive : ((chip.write (Dma1.register c Dma1.ccr) value).latch c).active = false := by
    rw [wrote.latch, if_pos off]
  refine ⟨approaching.released wrote.confined ?_ inactive (onward.paced.write bound _ _), inactive⟩
  rw [wrote.enabled, off]
  rfl

/-- Programming makes a released channel ready for a buffer. -/
theorem Released.programmed (released : Released home before whole limit latency c mine chip)
    (bound : latency ≤ limit) (inactive : (chip.latch c).active = false) (region : Region) :
    Released home before whole limit latency c mine (chip.programmed c Serial.target region.base
      (BitVec.ofNat 32 region.bytes.size)) ∧
    (chip.programmed c Serial.target region.base (BitVec.ofNat 32 region.bytes.size)).Ready c
      region := by
  obtain ⟨gap, rest, left, part, without, onward, none_left, disabled⟩ := released
  have programmed := programmed_spec onward.queued.line.dmaClocked disabled Serial.target
    region.base (BitVec.ofNat 32 region.bytes.size)
  have ready := programmed.ready disabled inactive
  have paced : Paced limit latency (chip.programmed c Serial.target region.base
      (BitVec.ofNat 32 region.bytes.size)) := by
    rw [Chip.programmed]
    exact (((onward.paced.write bound _ _).write bound _ _).write bound _ _).write bound _ _
  obtain ⟨rest', ⟨front, back, whole', rest''⟩, onward'⟩ :=
    onward.dropped programmed.confined ready.disabled ready.inactive paced
  rw [none_left, List.append_nil, ← rest''] at whole'
  rw [← whole'] at onward'
  exact ⟨⟨gap, rest, _, part, without, onward', Function.update_self _ _ _, ready.disabled⟩, ready⟩

end Chip

section Calls

variable {buffer : Buffer} {next : Word} {config : ChannelConfig} {mine : List Byte}
  (slow : 1 ≤ latency) (bound : latency ≤ limit)

include slow bound

/-- Requests stay enabled while they are enabled again. -/
theorem Serial.request_settles :
    Settles 1 (Approaching home before whole limit latency c mine)
      (Bus.setBits (Usart3.base + Usart3.cr3) Usart3.dmaTransmit)
      fun _ => Approaching home before whole limit latency c mine := by
  change Settles (1 + 0) _ _ _
  refine Settles.bind (R := fun _ => Approaching home before whole limit latency c mine) ?_
    fun value => ?_
  · apply Settles.read
    intro chip approaching
    obtain ⟨after, passed, reached⟩ := approaching.tick slow bound
    obtain ⟨left, onward, -⟩ := id reached
    exact ⟨after, passed, onward.queued.line.toLineOn.load_requests, reached⟩
  · apply Settles.write
    rintro chip ⟨left, onward, part⟩
    have line := onward.queued.line.toLineOn
    have on : (value ||| Usart3.dmaTransmit) &&& Usart3.dmaTransmit ≠ 0 :=
      or_and_ne_zero_iff.mpr (.inr (by decide))
    obtain ⟨ready, channels⟩ := line.requested on
    have paced := onward.paced.write bound (Usart3.base + Usart3.cr3) (value ||| Usart3.dmaTransmit)
    refine ⟨left, onward.of_channels ready channels ?_ ?_ paced, part⟩
    · rw [line.write_requests]
      rfl
    · rw [line.write_requests]
      exact ⟨rfl, rfl⟩

omit slow in
/-- Clearing a flag of USART3 changes nothing. -/
theorem Serial.clear_settles (value : Word) :
    Settles 0 (Approaching home before whole limit latency c mine)
      (Bus.write (Usart3.base + Usart3.icr) value)
      fun _ => Approaching home before whole limit latency c mine := by
  apply Settles.write
  rintro chip ⟨left, onward, part⟩
  have same : SameLine chip (chip.noted (Usart3.base + Usart3.icr) value) := fun _ _ => rfl
  have lost : chip.write (Usart3.base + Usart3.icr) value =
      chip.noted (Usart3.base + Usart3.icr) value :=
    (onward.queued.line.toLineOn.of_same same).store_clear value
  have paced := onward.paced.write bound (Usart3.base + Usart3.icr) value
  rw [lost] at paced ⊢
  exact ⟨left, onward.of_channels (onward.queued.line.of_same same) (fun _ => ⟨rfl, fun _ _ => rfl⟩)
    rfl ⟨rfl, rfl⟩ paced, part⟩

omit slow bound in
theorem Bus.share_settles (fits : regionAfter home.nextRegion buffer.bytes.size = .ok next)
    (small : buffer.bytes.size < 0x100000000) :
    Settles 0 (Approaching home before whole limit latency c mine) (Bus.share buffer)
      fun source chip => source = home.nextRegion ∧
        Approaching (home.shared buffer.bytes next) before whole limit latency c mine chip := by
  rintro ⟨chip, ticks, log⟩ ⟨left, onward, part⟩
  have fits' : regionAfter chip.nextRegion buffer.bytes.size = .ok next := by
    rw [onward.memory.2]
    exact fits
  rw [share_fits chip ticks log fits']
  exact ⟨⟨onward.memory.2, left, onward.shared small fits', part⟩, Nat.le_refl _⟩

/-- Configuring takes the channel out of use, and programs it for a buffer. -/
theorem Dma.configure_approaching (region : Region) (short : region.bytes.size ≤ 0xFFFF) :
    Settles 3 (Approaching home before whole limit latency c mine)
      (Dma.configure c Serial.target region.base (BitVec.ofNat 32 region.bytes.size))
      fun _ chip => Released home before whole limit latency c mine chip ∧ chip.Ready c region := by
  change Settles (1 + 2) _ _ _
  apply Dma.configure_settles (B := Approaching home before whole limit latency c mine)
    (R := fun chip => Released home before whole limit latency c mine chip ∧
      (chip.latch c).active = false)
  · exact toNat_ofNat_le short
  · have check := Dma.check_settles c (P := Approaching home before whole limit latency c mine)
      (fun chip approaching => approaching.tick slow bound)
      fun chip ⟨left, onward, part⟩ => onward.queued.line.dmaClocked
    apply check.weaken (Nat.le_refl 1) (fun _ holds => holds)
    rintro enabled chip ⟨approaching, same⟩
    cases enabled with
    | true => exact approaching
    | false => exact approaching.disabled same.symm
  · apply Dma.stop_settles (B := Approaching home before whole limit latency c mine)
    · intro chip approaching
      exact approaching.tick slow bound
    · rintro chip ⟨left, onward, -⟩
      exact onward.queued.line.dmaClocked
    · intro chip approaching
      exact approaching.stopped bound (and_not_and_self _)
    · rintro chip ⟨released, -⟩
      obtain ⟨after, passed, reached⟩ := released.tick slow bound
      obtain ⟨_, _, left, _, _, onward, _, disabled⟩ := id reached
      exact ⟨after, passed, reached, (onward.agrees c).trans disabled⟩
    · rintro chip ⟨⟨_, _, left, _, _, onward, _, disabled⟩, -⟩
      exact ⟨onward.queued.line.dmaClocked, disabled⟩
  · rintro chip ⟨released, inactive⟩
    exact released.programmed bound inactive region

omit slow in
/-- Starting puts the buffer into the queue. -/
theorem Dma.start_released (forward : config.Forward) (member : region ∈ home.regions) :
    Settles 0 (fun chip => Released home before whole limit latency c mine chip ∧
        chip.Ready c region) (Dma.start c config)
      fun _ chip => ∃ joined, Joins whole mine region.bytes.toList joined ∧
        Backlog (before ++ joined) latency
          ((whole.length + region.bytes.size) * (latency + 1) + limit) chip := by
  apply Settles.write
  rintro chip ⟨⟨gap, rest, left, part, without, onward, none_left, -⟩, ready⟩
  have wrote := controlled (c := c) onward.queued.line.dmaClocked (config.bits ||| Dma1.enable)
  have streams := ChannelConfig.streams forward.reads forward.memory forward.peripheral forward.once
  obtain ⟨earlier, later, parts, joined⟩ := onward.started none_left ready member
    config.control_enables streams wrote (onward.paced.write bound _ _)
  have few : (earlier ++ region.bytes.toList ++ later).length ≤
      whole.length + region.bytes.size := by
    obtain ⟨front, back, rfl, rfl⟩ := without
    have lengths := congrArg List.length parts
    simp only [List.length_append, Array.length_toList] at lengths ⊢
    omega
  obtain ⟨out, latency'⟩ := joined.backlog
  obtain ⟨left', queued, total, soon⟩ := out
  refine ⟨_, ⟨gap, earlier, later, part, parts ▸ without, rfl⟩, ⟨left', queued, total, ?_⟩,
    latency'⟩
  exact Nat.le_trans soon (Nat.add_le_add_right (Nat.mul_le_mul_right _ few) _)

/-- Handing a buffer to a channel puts it into the queue. -/
theorem Serial.launch_settles (forward : config.Forward) (short : buffer.bytes.size ≤ 0xFFFF)
    (fits : regionAfter home.nextRegion buffer.bytes.size = .ok next) :
    Settles 4 (Approaching home before whole limit latency c mine) (Serial.launch buffer c config)
      fun _ chip => ∃ joined, Joins whole mine buffer.bytes.toList joined ∧
        Backlog (before ++ joined) latency
          ((whole.length + buffer.bytes.size) * (latency + 1) + limit) chip := by
  have member : ⟨home.nextRegion, buffer.bytes⟩ ∈ (home.shared buffer.bytes next).regions :=
    List.mem_append_right _ (List.mem_singleton_self _)
  have starts : Settles (3 + 0)
      (Approaching (home.shared buffer.bytes next) before whole limit latency c mine) (do
        Dma.configure c Serial.target home.nextRegion (BitVec.ofNat 32 buffer.bytes.size)
        Dma.start c config) _ :=
    Settles.bind (Dma.configure_approaching slow bound ⟨_, _⟩ short) fun _ =>
      Dma.start_released bound forward member
  change Settles (1 + (0 + (0 + (3 + 0)))) _ _ _
  refine Settles.bind (Serial.request_settles slow bound) fun _ => ?_
  refine Settles.bind (Serial.clear_settles bound _) fun _ => ?_
  refine Settles.bind (Bus.share_settles fits (by omega)) fun source => ?_
  rintro session ⟨rfl, approaching⟩
  exact starts session approaching

/-- Polled bytes that follow a buffer go out behind it. -/
theorem Serial.launch_send_settles (forward : config.Forward) (short : buffer.bytes.size ≤ 0xFFFF)
    (fits : regionAfter home.nextRegion buffer.bytes.size = .ok next) {data : List Byte}
    (nonempty : data ≠ []) :
    ∃ enough, Settles enough (Approaching home before whole limit latency c mine) (do
        Serial.launch buffer c config
        Serial.send data)
      fun _ chip => ∃ joined, Joins whole mine buffer.bytes.toList joined ∧
        Emptied (before ++ joined ++ data) latency chip :=
  ⟨_, Settles.bind (Serial.launch_settles slow bound forward short fits) fun _ =>
    Settles.any fun _ => Serial.send_settles slow nonempty⟩

end Calls

/-! ## Polling behind channels at work -/

/-- On a line on which bytes take time, polled bytes go out behind everything that channels at work
have left, channel by channel. A buffer that is handed to a channel right before them joins that
queue in one piece, and they go out behind it. -/
theorem Serial.send_drains (reachable : Reachable Action.Addressable first)
    (line : first.LineReady) (slow : 1 ≤ first.latency) {atWork : Channel → Option Region}
    (idle : ∀ c, atWork c = none → (first.latch c).active = false)
    (working : ∀ c region, atWork c = some region → first.Underway c region) {data : List Byte}
    (nonempty : data ≠ []) (log : Array Access) :
    ReturnsInTime (fun ticks => (Serial.send data).run ⟨first, ticks, log⟩)
      (fun _ session => session.device.transmitted =
        first.transmitted ++ queue (first.unsentBy atWork) ++ data) ∧
    ∀ (buffer : Buffer) (c : Channel) (config : ChannelConfig) (next : Word) (serial : Serial),
      config.Forward → buffer.bytes.size ≤ 0xFFFF →
      regionAfter first.nextRegion buffer.bytes.size = .ok next →
      ReturnsInTime
        (fun ticks => (do
          Serial.sendBuffer buffer c config
          Held.onBus (Serial.send data) : HeldM Chip Serial Unit).run ⟨⟨first, ticks, log⟩, serial⟩)
        fun _ held => ∃ joined,
          Joins (queue (first.unsentBy atWork)) (first.unsentBy atWork c) buffer.bytes.toList
            joined ∧
          held.session.device.transmitted = first.transmitted ++ joined ++ data := by
  have queued := queued_of_underway reachable.layout line idle working
  have agrees (c : Channel) : (first.latch c).active = first.channelEnabled c :=
    (reachable.consistent c).active_eq
  refine ⟨?_, fun buffer c config next serial forward short fits => ?_⟩
  · have backlog : Backlog (first.transmitted ++ queue (first.unsentBy atWork)) first.latency _
        first := ⟨⟨_, queued, rfl, Nat.le_refl _⟩, rfl⟩
    exact ((Serial.send_settles slow nonempty).returnsInTime backlog log).mono
      fun _ _ emptied => emptied.transmitted
  · have paced : Paced (max first.busy first.latency) first.latency first :=
      ⟨Nat.le_max_left _ _, rfl⟩
    have approaching : Approaching first first.transmitted (queue (first.unsentBy atWork))
        (max first.busy first.latency) first.latency c (first.unsentBy atWork c) first :=
      ⟨_, ⟨queued, ⟨[], (List.append_nil _).symm, List.nil_append _⟩, agrees, paced, rfl, rfl⟩,
        List.suffix_rfl⟩
    obtain ⟨enough, settles⟩ := Serial.launch_send_settles (c := c) slow (Nat.le_max_right _ _)
      forward short fits nonempty
    have onBus := settles.returnsInTime approaching log
    have acts : Held.Acts serial (do
        Serial.sendBuffer buffer c config
        Held.onBus (Serial.send data) : HeldM Chip Serial Unit) _ _ :=
      .bind (Serial.sendBuffer_acts serial buffer c config) fun _ => .onBus _ _
    refine (acts.returnsInTime onBus).mono ?_
    rintro _ held ⟨⟨joined, joins, emptied⟩, -⟩
    exact ⟨joined, joins, emptied.transmitted⟩

/-- Two channels were started on the two bytes, on a line on which a byte takes three ticks. -/
def Chip.startedTwice (c d : Channel) : Chip :=
  (((startedUp c).programmed d Serial.target 0x20000000 2).write
    (Dma1.register d Dma1.ccr) 0x91).setLatency 3

/-- The channels that were started, with their buffer. -/
def Chip.twoAtWork (c d e : Channel) : Option Region :=
  if e = c ∨ e = d then some ⟨0x20000000, #[7, 8]⟩ else none

theorem Chip.startedTwice_reachable (d : Channel) :
    Reachable Action.Addressable (startedTwice 2 d) := by
  apply Reachable.perform (.setLatency 3) _ trivial rfl
  have programmed := startedUp_reachable.addressable.programmed (fun _ _ => trivial) d
    Serial.target 0x20000000 2
  exact programmed.write _ _ trivial

theorem Chip.startedTwice_shares (c d : Channel) :
    ⟨0x20000000, #[7, 8]⟩ ∈ (startedTwice c d).regions := by
  have latency (chip : Chip) : (chip.setLatency 3).regions = chip.regions := rfl
  rw [startedTwice, latency, regions_write, regions_programmed, startedUp, regions_write,
    regions_programmed]
  exact broughtUp_shares

theorem Chip.startedTwice_underway (c : Channel) (region : Region)
    (work : twoAtWork 2 4 c = some region) : (startedTwice 2 4).Underway c region := by
  have either : c = 2 ∨ c = 4 := by
    by_contra neither
    rw [twoAtWork, if_neg neither] at work
    cases work
  obtain rfl : ⟨0x20000000, #[7, 8]⟩ = region := by
    rw [twoAtWork, if_pos either] at work
    exact Option.some.inj work
  obtain rfl | rfl := either
  · exact ⟨startedTwice_shares 2 4, by decide +kernel, by decide +kernel,
      ⟨by decide +kernel, by decide +kernel, by decide +kernel, by decide +kernel⟩,
      by decide +kernel⟩
  · exact ⟨startedTwice_shares 2 4, by decide +kernel, by decide +kernel,
      ⟨by decide +kernel, by decide +kernel, by decide +kernel, by decide +kernel⟩,
      by decide +kernel⟩

theorem Serial.send_drains_two_channels :
    Reachable Action.Addressable (startedTwice 2 4) ∧ (startedTwice 2 4).LineReady ∧
    1 ≤ (startedTwice 2 4).latency ∧
    (∀ c, twoAtWork 2 4 c = none → ((startedTwice 2 4).latch c).active = false) ∧
    (∀ c region, twoAtWork 2 4 c = some region → (startedTwice 2 4).Underway c region) ∧
    ReturnsInTime (fun ticks => (Serial.send [1, 2]).run ⟨startedTwice 2 4, ticks, #[]⟩)
      fun _ session => session.device.transmitted = [7, 8, 7, 8, 1, 2] := by
  have reachable := startedTwice_reachable 4
  have line : (startedTwice 2 4).LineReady :=
    ⟨⟨by decide +kernel, by decide +kernel, by decide +kernel⟩, by decide +kernel⟩
  have idle : ∀ c, twoAtWork 2 4 c = none → ((startedTwice 2 4).latch c).active = false := by
    decide +kernel
  have slow : 1 ≤ (startedTwice 2 4).latency := by decide
  have nonempty : ([1, 2] : List Byte) ≠ [] := by decide
  have silent : (startedTwice 2 4).transmitted = [] := by decide +kernel
  have unsent : queue ((startedTwice 2 4).unsentBy (twoAtWork 2 4)) = [7, 8, 7, 8] := by
    decide +kernel
  obtain ⟨sends, -⟩ := Serial.send_drains reachable line slow idle startedTwice_underway nonempty
    #[]
  rw [silent, unsent] at sends
  exact ⟨reachable, line, slow, idle, startedTwice_underway, sends⟩

end Peripherals
