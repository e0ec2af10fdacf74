import Peripherals.Proofs.PolledWrites

/-! # The chip at rest

While every channel rests, a tick only brings the transmitter closer to its next
byte. What a program does then is told by what it does to the chip at one
moment: how busy the transmitter is decides how long a polled byte waits, and
nothing else. Every driver call that is made at rest gets an exact contract. -/

namespace Peripherals

open Bus

namespace Chip

variable {base chip : Chip} {address value : Word} {busy limit : Nat} {written : WordMap}

/-! ## Moments -/

/-- The chip with its transmitter busy for another time, and with other written values
remembered. -/
def timed (chip : Chip) (busy : Nat) (written : WordMap) : Chip :=
  { chip with busy := busy, written := written }

@[simp] theorem peek_timed (chip : Chip) (busy : Nat) (written : WordMap) (address : Word) :
    (chip.timed busy written).peek address = chip.peek address := rfl

@[simp] theorem clocked_timed (chip : Chip) (busy : Nat) (written : WordMap) (block : Block) :
    (chip.timed busy written).clocked block = chip.clocked block := by
  cases block <;> rfl

@[simp] theorem events_timed (chip : Chip) (busy : Nat) (written : WordMap) :
    (chip.timed busy written).events = chip.events := rfl

@[simp] theorem nextRegion_timed (chip : Chip) (busy : Nat) (written : WordMap) :
    (chip.timed busy written).nextRegion = chip.nextRegion := rfl

theorem poke_timed (chip : Chip) (busy : Nat) (written : WordMap) (address value : Word) :
    (chip.timed busy written).poke address value = (chip.poke address value).timed busy written :=
  rfl

theorem setOutput_timed (chip : Chip) (busy : Nat) (written : WordMap) (port : Port)
    (value : Word) :
    (chip.timed busy written).setOutput port value =
      (chip.setOutput port value).timed busy written :=
  rfl

theorem storeGpio_timed (chip : Chip) (busy : Nat) (written : WordMap) (port : Port)
    (offset value : Word) :
    (chip.timed busy written).storeGpio port offset value =
      (chip.storeGpio port offset value).timed busy written := by
  simp only [storeGpio, peek_timed, setOutput_timed, poke_timed]
  split_ifs <;> rfl

theorem storeControl_timed (chip : Chip) (busy : Nat) (written : WordMap) (c : Channel)
    (value : Word) :
    (chip.timed busy written).storeControl c value =
      (chip.storeControl c value).timed busy written := by
  have same : (chip.timed busy written).channelEnabled c = chip.channelEnabled c := rfl
  simp only [storeControl, poke_timed]
  by_cases off : value &&& Dma1.enable = 0
  · simp only [if_pos off]
    rfl
  cases enabled : chip.channelEnabled c with
  | true =>
    rw [enabled] at same
    simp only [if_neg off, same, if_true]
  | false =>
    rw [enabled] at same
    simp only [if_neg off, same, Bool.false_eq_true, if_false]
    rfl

theorem storeDma_timed (chip : Chip) (busy : Nat) (written : WordMap) (offset value : Word) :
    (chip.timed busy written).storeDma offset value =
      (chip.storeDma offset value).timed busy written := by
  simp only [storeDma, peek_timed, storeControl_timed, poke_timed]
  split_ifs
  · rfl
  · rfl
  split
  · next c field _ =>
    have same : (chip.timed busy written).channelEnabled c = chip.channelEnabled c := rfl
    by_cases control : field = Dma1.ccr
    · simp only [if_pos control]
    cases enabled : chip.channelEnabled c with
    | true =>
      rw [enabled] at same
      simp only [if_neg control, same, if_true]
    | false =>
      rw [enabled] at same
      simp only [if_neg control, same, Bool.false_eq_true, if_false]
  · rfl

/-- Except in the data register, what a store does does not depend on the moment. -/
theorem store_timed (chip : Chip) (busy : Nat) (written : WordMap) (value : Word)
    (notData : address ≠ Serial.target) :
    (chip.timed busy written).store address value =
      (chip.store address value).timed busy written := by
  simp only [store, clocked_timed]
  split
  · split
    · exact storeGpio_timed ..
    · next offset decoded =>
      have other : offset ≠ Usart3.tdr := by
        rintro rfl
        exact notData (Block.decode_eq_usart3_iff.mp decoded).1
      simp only [storeUsart, if_neg other]
      split <;> rfl
    · exact storeDma_timed ..
    · rfl
  · rfl

/-- A load gives a value at every moment, and changes nothing. -/
def Shows (base : Chip) (address value : Word) : Prop :=
  ∀ busy written, (load address).run (base.timed busy written) =
    .ok value (base.timed busy written)

/-- No tick moves an item, since DMA1 has no clock or every channel rests. -/
def Quiet (chip : Chip) : Prop :=
  chip.clocked (.dma1 0) = true → ∀ c, chip.Rests c

theorem Quiet.of_inactive (inactive : ∀ c, (chip.latch c).active = false) : chip.Quiet :=
  fun _ c => .of_inactive (inactive c)

/-- A tick at rest only counts down. -/
theorem Quiet.tick (quiet : base.Quiet) (busy : Nat) (written : WordMap) :
    Chip.tick.run (base.timed busy written) = .ok () (base.timed (busy - 1) written) := by
  rw [tick_eq, clocked_timed]
  split
  · next clocked => exact serve_resting fun c _ => quiet clocked c
  · rfl

theorem Quiet.timed (quiet : base.Quiet) (busy : Nat) (written : WordMap) :
    (base.timed busy written).Quiet :=
  quiet

/-- The chip after a number of `nop`s. -/
def idled (chip : Chip) (n : Nat) : Chip :=
  { chip with nops := chip.nops + n }

theorem Quiet.idled (quiet : base.Quiet) (n : Nat) : (base.idled n).Quiet :=
  quiet

/-- The chip after some bytes were put on the line. -/
def spoke (chip : Chip) (bytes : List Byte) : Chip :=
  chip.observe (bytes.map .transmitted)

@[simp] theorem spoke_nil (chip : Chip) : chip.spoke [] = chip := by
  simp [spoke, observe]

theorem spoke_spoke (chip : Chip) (first second : List Byte) :
    (chip.spoke first).spoke second = chip.spoke (first ++ second) := by
  have joined : chip.events ++ first.map Event.transmitted ++ second.map Event.transmitted =
      chip.events ++ (first ++ second).map Event.transmitted :=
    Array.toList_inj.mp (by simp)
  rw [spoke, spoke, spoke, observe, observe, observe, ← joined]

theorem transmitted_spoke (chip : Chip) (bytes : List Byte) :
    (chip.spoke bytes).transmitted = chip.transmitted ++ bytes := by
  rw [spoke, transmitted_observe, filterMap_byte?_map]

theorem Quiet.spoke (quiet : base.Quiet) (bytes : List Byte) : (base.spoke bytes).Quiet :=
  quiet

theorem TransmitterOn.spoke (on : base.TransmitterOn) (bytes : List Byte) :
    (base.spoke bytes).TransmitterOn :=
  ⟨on.serialClocked, on.transmits⟩

theorem TransmitterOn.timed (on : base.TransmitterOn) (busy : Nat) (written : WordMap) :
    (base.timed busy written).TransmitterOn :=
  ⟨on.serialClocked, on.transmits⟩

/-- Both flags of the transmitter show whether it is free. -/
theorem shows_free_iff (chip : Chip) {flag : Word}
    (transmitter : flag = Usart3.txe ∨ flag = Usart3.tc) :
    (chip.usartStatus &&& flag != 0) = true ↔ chip.busy = 0 := by
  rw [bne_iff_ne, usartStatus]
  obtain rfl | rfl := transmitter <;> split <;> split <;>
    simp_all [Usart3.txe, Usart3.tc, Usart3.rxne]

/-- A program that looks at the status finds the transmitter ready exactly if it is. -/
theorem ready_iff (chip : Chip) :
    (chip.usartStatus &&& Usart3.txe != 0) = true ↔ chip.busy = 0 :=
  chip.shows_free_iff (.inl rfl)

theorem TransmitterOn.load_status (on : chip.TransmitterOn) :
    (load (Usart3.base + Usart3.isr)).run chip = .ok chip.usartStatus chip := by
  have clock : chip.clocked (.usart3 Usart3.isr) = true := on.serialClocked
  have decoded : Block.decode (Usart3.base + Usart3.isr) = .usart3 Usart3.isr := rfl
  simp only [load, EStateM.run, decoded, clock, if_true]

end Chip

namespace Bus

open Chip

variable {base : Chip} {address value : Word} {limit : Nat} {wrote : List Byte}
  {E : Session Chip → Prop}

/-! ## Accesses -/

/-- The device of a session is a base at some moment, its transmitter busy for a bounded time, and
the program has written some bytes into the data register. -/
structure StandsAt (base : Chip) (limit : Nat) (wrote : List Byte) (session : Session Chip) :
    Prop where
  device : ∃ busy written, busy ≤ limit ∧ session.device = base.timed busy written
  polled : Bus.polled session.log = wrote

theorem StandsAt.mono {session : Session Chip} {most : Nat}
    (stands : StandsAt base limit wrote session) (more : limit ≤ most) :
    StandsAt base most wrote session := by
  obtain ⟨⟨busy, written, bound, same⟩, polled⟩ := stands
  exact ⟨⟨busy, written, Nat.le_trans bound more, same⟩, polled⟩

/-- A chip stands at itself. -/
theorem StandsAt.self (session : Session Chip) :
    StandsAt session.device session.device.busy (Bus.polled session.log) session :=
  ⟨⟨_, _, Nat.le_refl _, rfl⟩, rfl⟩

/-- So it does within the time that its transmitter is ever busy. -/
theorem StandsAt.start (chip : Chip) (ticks : Nat) (log : Array Access) :
    StandsAt chip (max chip.busy chip.latency) (Bus.polled log) ⟨chip, ticks, log⟩ :=
  (StandsAt.self ⟨chip, ticks, log⟩).mono (Nat.le_max_left _ _)

section Accesses

variable (kept : ∀ session, StandsAt base limit wrote session → E session)

include kept

/-- A read lets a tick pass and gives what the register shows then. -/
theorem Runs.read_shown (shown : Chip → Word) (quiet : base.Quiet)
    (loads : ∀ busy written, (load address).run (base.timed busy written) =
      .ok (shown (base.timed busy written)) (base.timed busy written)) :
    Runs 1 (StandsAt base limit wrote) (Bus.read address) (fun value session =>
      value = shown session.device ∧ StandsAt base (limit - 1) wrote session) E := by
  rintro ⟨chip, ticks, log⟩ stands
  cases ticks with
  | zero => exact ⟨kept _ stands, rfl, Nat.one_pos⟩
  | succ ticks =>
    obtain ⟨⟨busy, written, bound, same⟩, polled⟩ := stands
    obtain rfl : chip = base.timed busy written := same
    rw [run_read (quiet.tick busy written) (loads _ _)]
    refine ⟨⟨rfl, ⟨busy - 1, written, by omega, rfl⟩, ?_⟩, Nat.le_refl _⟩
    exact (polled_push log _).trans ((List.append_nil _).trans polled)

theorem Executes.read (quiet : base.Quiet) (shows : base.Shows address value) :
    Executes 1 (StandsAt base limit wrote) (Bus.read address) value (StandsAt base limit wrote)
      E :=
  (Runs.read_shown kept (fun _ => value) quiet shows).weaken (Nat.le_refl 1)
    (fun _ stands => stands) (fun _ _ reached => ⟨reached.1, reached.2.mono (Nat.sub_le _ _)⟩)
    fun _ left => left

theorem Executes.anySet (quiet : base.Quiet) (shows : base.Shows address value) (mask : Word) :
    Executes 1 (StandsAt base limit wrote) (Bus.anySet address mask) (value &&& mask != 0)
      (StandsAt base limit wrote) E := by
  change Executes (1 + 0) _ _ _ _ _
  exact Executes.bind (Executes.read kept quiet shows) (Executes.pure _ fun _ stands => stands)

theorem Executes.nop (quiet : base.Quiet) :
    Executes 1 (StandsAt base limit wrote) Bus.nop () (StandsAt (base.idled 1) limit wrote) E := by
  rintro ⟨chip, ticks, log⟩ stands
  cases ticks with
  | zero => exact ⟨kept _ stands, rfl, Nat.one_pos⟩
  | succ ticks =>
    obtain ⟨⟨busy, written, bound, same⟩, polled⟩ := stands
    obtain rfl : chip = base.timed busy written := same
    have passed : (Target.nop : EStateM Fault Chip Unit).run (base.timed busy written) =
        .ok () ((base.idled 1).timed (busy - 1) written) := (quiet.idled 1).tick busy written
    have ran : (Bus.nop : BusM Chip Unit).run ⟨base.timed busy written, ticks + 1, log⟩ =
        .ok () ⟨(base.idled 1).timed (busy - 1) written, ticks, log.push .nop⟩ := by
      change (onDevice Target.nop : BusM Chip Unit).run
        ⟨base.timed busy written, ticks, log.push .nop⟩ = _
      rw [run_onDevice, passed]
    rw [ran]
    refine ⟨⟨rfl, ⟨busy - 1, written, by omega, rfl⟩, ?_⟩, Nat.le_refl _⟩
    exact (polled_push log _).trans ((List.append_nil _).trans polled)

end Accesses

theorem Executes.write (notData : address ≠ Serial.target) :
    Executes 0 (StandsAt base limit wrote) (Bus.write address value) ()
      (StandsAt (base.store address value) limit wrote) E := by
  rintro ⟨chip, ticks, log⟩ ⟨⟨busy, written, bound, same⟩, polled⟩
  obtain rfl : chip = base.timed busy written := same
  refine ⟨⟨rfl, ⟨busy, written.insert address value, bound, ?_⟩, ?_⟩, Nat.le_refl _⟩
  · exact store_timed base busy (written.insert address value) value notData
  · change Bus.polled (log.push (.write address value)) = wrote
    rw [polled_push, Access.polled?, if_neg notData]
    exact (List.append_nil _).trans polled

/-- The same with the written value remembered. -/
theorem Executes.write_noted (notData : address ≠ Serial.target) :
    Executes 0 (StandsAt base limit wrote) (Bus.write address value) ()
      (StandsAt (base.write address value) limit wrote) E := by
  refine (Executes.write notData).weaken (Nat.le_refl 0) (fun _ stands => stands) ?_
    fun _ left => left
  rintro session ⟨⟨busy, written, bound, same⟩, polled⟩
  have noted : base.write address value =
      (base.store address value).timed base.busy (base.written.insert address value) :=
    store_timed base base.busy (base.written.insert address value) value notData
  refine ⟨⟨busy, written, bound, ?_⟩, polled⟩
  rw [noted]
  exact same

/-- Putting a byte on the line makes the transmitter busy for its latency. -/
theorem Executes.write_data (on : base.TransmitterOn) (byte : Byte) :
    Executes 0 (StandsAt base limit wrote) (Bus.write Serial.target (byte.setWidth 32)) ()
      (StandsAt (base.spoke [byte]) base.latency (wrote ++ [byte])) E := by
  rintro ⟨chip, ticks, log⟩ ⟨⟨busy, written, bound, same⟩, polled⟩
  obtain rfl : chip = base.timed busy written := same
  have narrow : (byte.setWidth 32).setWidth 8 = byte := by simp
  refine ⟨⟨rfl, ⟨base.latency, written.insert Serial.target (byte.setWidth 32), Nat.le_refl _, ?_⟩,
    ?_⟩, Nat.le_refl _⟩
  · exact (on.timed busy (written.insert Serial.target (byte.setWidth 32))).store_data byte
  · change Bus.polled (log.push (.write Serial.target (byte.setWidth 32))) = _
    rw [polled_push, Access.polled?, if_pos rfl, narrow, polled]
    rfl

theorem Executes.breakpoint :
    Executes 0 (StandsAt base limit wrote) Bus.breakpoint () (StandsAt base.breakpoint limit wrote)
      E := by
  rintro ⟨chip, ticks, log⟩ ⟨⟨busy, written, bound, same⟩, polled⟩
  obtain rfl : chip = base.timed busy written := same
  refine ⟨⟨rfl, ⟨busy, written, bound, rfl⟩, ?_⟩, Nat.le_refl _⟩
  exact (polled_push log _).trans ((List.append_nil _).trans polled)

theorem Executes.share {buffer : Buffer} {next : Word}
    (fits : regionAfter base.nextRegion buffer.bytes.size = .ok next) :
    Executes 0 (StandsAt base limit wrote) (Bus.share buffer) base.nextRegion
      (StandsAt (base.shared buffer.bytes next) limit wrote) E := by
  rintro ⟨chip, ticks, log⟩ ⟨⟨busy, written, bound, same⟩, polled⟩
  obtain rfl : chip = base.timed busy written := same
  rw [share_fits (base.timed busy written) ticks log fits]
  refine ⟨⟨rfl, ⟨busy, written, bound, rfl⟩, ?_⟩, Nat.le_refl _⟩
  exact (polled_push log _).trans ((List.append_nil _).trans polled)

/-! ## From one base to another -/

/-- From a base, a computation that gets the ticks it needs returns one value and leads to another
base. -/
def Transforms {α : Type} (limit : Nat) (base : Chip) (x : BusM Chip α) (a : α) (after : Chip) :
    Prop :=
  ∀ wrote, ∃ n wrote', Executes n (StandsAt base limit wrote) x a (StandsAt after limit wrote')
    fun _ => True

section Transforms

variable {α β : Type} {middle after : Chip} {a : α} {b : β}

theorem Transforms.pure (a : α) : Transforms limit base (Pure.pure a) a base :=
  fun wrote => ⟨0, wrote, Executes.pure a fun _ stands => stands⟩

theorem Transforms.bind {x : BusM Chip α} {f : α → BusM Chip β}
    (first : Transforms limit base x a middle) (rest : Transforms limit middle (f a) b after) :
    Transforms limit base (x >>= f) b after := by
  intro wrote
  obtain ⟨m, wrote', starts⟩ := first wrote
  obtain ⟨n, wrote'', goes_on⟩ := rest wrote'
  exact ⟨m + n, wrote'', Executes.bind starts goes_on⟩

theorem Transforms.read (quiet : base.Quiet) (shows : base.Shows address value) :
    Transforms limit base (Bus.read address) value base :=
  fun wrote => ⟨1, wrote, Executes.read (fun _ _ => trivial) quiet shows⟩

theorem Transforms.write (notData : address ≠ Serial.target) :
    Transforms limit base (Bus.write address value) () (base.store address value) :=
  fun wrote => ⟨0, wrote, Executes.write notData⟩

/-- A chip is at a moment of itself, so such a computation returns in time. -/
theorem Transforms.returnsInTime {x : BusM Chip α} (transforms : Transforms limit base x a after)
    (bound : base.busy ≤ limit) (log : Array Access) :
    ReturnsInTime (fun ticks => x.run ⟨base, ticks, log⟩) fun b session =>
      b = a ∧ ∃ busy written, busy ≤ limit ∧ session.device = after.timed busy written := by
  obtain ⟨n, wrote, executes⟩ := transforms (polled log)
  have start (ticks : Nat) : StandsAt base limit (polled log) ⟨base, ticks, log⟩ :=
    (StandsAt.self ⟨base, ticks, log⟩).mono bound
  exact (Runs.returnsInTime executes start).mono fun _ _ reached => ⟨reached.1, reached.2.device⟩

end Transforms

end Bus

end Peripherals
