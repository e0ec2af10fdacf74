import Peripherals.Proofs.ChannelReuse
import Peripherals.Proofs.DriverCalls

/-! # Sending buffers in a row

A channel that has sent a buffer can be given the next one, as long as there is
memory left. Items of an older transfer go out before the first buffer only.
From then on the line carries the buffers alone, in their order, since every
call finds the channel as the call before it left it. -/

namespace Peripherals

open Bus Chip

/-! ## Messages -/

namespace Serial

/-- A buffer with a configuration by which a channel sends it once. -/
structure Message where
  buffer : Buffer
  config : ChannelConfig
  nonempty : 1 ≤ buffer.bytes.size
  short : buffer.bytes.size ≤ 0xFFFF
  direction : config.direction = .fromMemory
  memory : config.memoryIncrement = true
  peripheral : config.peripheralIncrement = false
  once : config.circular = false

namespace Message

/-- A buffer as the default configuration sends it. -/
def plain (buffer : Buffer) (nonempty : 1 ≤ buffer.bytes.size)
    (short : buffer.bytes.size ≤ 0xFFFF) : Message :=
  ⟨buffer, .default, nonempty, short, rfl, rfl, rfl, rfl⟩

/-- The bytes of messages, in their order. -/
def bytes (messages : List Message) : List Byte :=
  messages.flatMap fun message => message.buffer.bytes.toList

/-- Where the buffer behind those of messages goes, if there is room for all of them. -/
def homeAfter (home : Word) (messages : List Message) : Except Fault Word :=
  messages.foldlM (fun home message => regionAfter home message.buffer.bytes.size) home

theorem homeAfter_cons {home last : Word} {message : Message} {messages : List Message} :
    homeAfter home (message :: messages) = .ok last ↔
      ∃ next, regionAfter home message.buffer.bytes.size = .ok next ∧
        homeAfter next messages = .ok last := by
  rw [homeAfter, List.foldlM_cons]
  cases regionAfter home message.buffer.bytes.size with
  | error fault =>
    constructor
    · intro fits
      cases fits
    · rintro ⟨next, fits, -⟩
      cases fits
  | ok next =>
    constructor
    · intro fits
      exact ⟨next, rfl, fits⟩
    · rintro ⟨place, fits, more⟩
      obtain rfl := Except.ok.inj fits
      exact more

/-- How many ticks the transmitter needs at most for messages. -/
def budget (limit latency : Nat) : List Message → Nat
  | [] => 0
  | message :: rest =>
    limit + message.buffer.bytes.size * (latency + 1) + 5 + budget limit latency rest

end Message

/-- Send messages by a channel, each when the one before has been sent. -/
def sendEach (messages : List Message) (c : Channel) : HeldM Chip Serial Unit :=
  forM messages fun message => sendAndWait message.buffer c message.config

/-- What sending messages does on the bus. -/
def eachOnBus (messages : List Message) (c : Channel) : BusM Chip Unit :=
  forM messages fun message => callsOnBus message.buffer c message.config

theorem sendEach_does (messages : List Message) (c : Channel) :
    Held.Does (sendEach messages c) (eachOnBus messages c) := by
  have each (message : Message) :
      Held.Does (sendAndWait message.buffer c message.config)
        (callsOnBus message.buffer c message.config) :=
    sendAndWait_does _ _ _
  exact Held.Does.forM each messages

end Serial

/-! ## Between two calls -/

namespace Chip

variable {chip after first : Chip} {c : Channel} {limit latency : Nat} {home next : Word}
  {before : List Byte}

/-- A state that drivers lead to, in which the transmitter keeps its pace and the next buffer goes
to `home`. -/
structure Standing (limit latency : Nat) (home : Word) (chip : Chip) : Prop where
  reachable : Reachable Action.Counted chip
  paced : Paced limit latency chip
  home : chip.nextRegion = home

/-- A channel can be given a buffer for the line: no other channel is active, and if this one is,
it stores into the data register. -/
structure Reusable (c : Channel) (limit latency : Nat) (home : Word) (chip : Chip) : Prop
    extends Standing limit latency home chip where
  line : chip.LineOn
  alone : ∀ d, d ≠ c → (chip.latch d).active = false
  target : (chip.latch c).active = true →
    chip.peek (Dma1.register c Dma1.cpar) = Serial.target

/-- A channel has nothing left of what was transmitted, met no error, and can be given a buffer. -/
structure Spent (c : Channel) (limit latency : Nat) (home : Word) (before : List Byte)
    (chip : Chip) : Prop extends Reusable c limit latency home chip where
  none_left : chip.itemsLeft c = 0
  no_error : ¬ chip.FlagRaised c .error
  transmitted : chip.transmitted = before

/-- No items follow where none are left. -/
theorem furtherBytes_of_none_left (none_left : chip.itemsLeft c = 0) (count : Nat) :
    chip.furtherBytes c count = [] := by
  have ended (n : Nat) (course : Course) (reached : chip.courseAfter? c n = some course) :
      chip.itemAt? c course = none := by
    induction n generalizing course with
    | zero =>
      rw [courseAfter?] at reached
      split at reached
      · obtain rfl := Option.some.inj reached
        exact if_pos (.inl none_left)
      · cases reached
    | succ n ih =>
      obtain ⟨earlier, reached', later⟩ := Option.bind_eq_some_iff.mp reached
      rw [ih earlier reached'] at later
      cases later
  have silent (n : Nat) : chip.furtherByte? c n = none := by
    rw [furtherByte?]
    cases reached : chip.courseAfter? c n with
    | none => rfl
    | some course =>
      rw [Option.bind_some, ended n course reached]
      exact ite_self none
  rw [furtherBytes, List.filterMap_eq_nil_iff]
  exact fun n _ => silent n

theorem Paced.accessStable (bound : latency ≤ limit) : AccessStable (Paced limit latency) :=
  .of_tick (fun paced passed => paced.tick passed bound)
    (fun paced => ⟨paced.busy, paced.latency⟩) fun paced => paced.write bound _ _

theorem nextRegion_accessStable (home : Word) :
    AccessStable fun chip => chip.nextRegion = home := by
  apply AccessStable.of_tick
  · intro chip after same passed
    exact tick_keeps (fun _ _ _ same turn => turn.regions_eq.2.trans same) same passed
  · exact fun same => same
  · intro chip address value same
    have effect := store_effect (chip.noted address value) address value
    exact effect.regions_eq.2.trans same

theorem Standing.accessStable (bound : latency ≤ limit) :
    AccessStable (Standing limit latency home) where
  read standing loaded :=
    ⟨Reachable.accessStable.read standing.reachable loaded,
      (Paced.accessStable bound).read standing.paced loaded,
      (nextRegion_accessStable home).read standing.home loaded⟩
  write standing counted :=
    ⟨Reachable.accessStable.write standing.reachable counted,
      (Paced.accessStable bound).write standing.paced counted,
      (nextRegion_accessStable home).write standing.home counted⟩

/-- Sharing a buffer moves the place of the next one on. -/
theorem Standing.share {buffer : Buffer} (small : buffer.bytes.size < 0x100000000)
    (fits : regionAfter home buffer.bytes.size = .ok next) :
    Leads (Standing limit latency home) (Bus.share buffer)
      (fun _ => Standing limit latency next) fun _ => True := by
  rintro ⟨chip, ticks, log⟩ ⟨reachable, paced, rfl⟩
  have performed : (Action.share buffer.bytes).perform.run chip =
      .ok () (chip.shared buffer.bytes next) := by
    refine run_bind_eq_ok_iff.mpr ⟨chip.nextRegion, _, ?_, rfl⟩
    change (Chip.share buffer.bytes).run chip = _
    rw [run_share, fits]
  rw [share_fits chip ticks log fits]
  have reached : Reachable Action.Counted (chip.shared buffer.bytes next) :=
    .perform (.share buffer.bytes) reachable small performed
  exact ⟨reached, ⟨paced.busy, paced.latency⟩, rfl⟩

end Chip

/-! ## One call after the other -/

section Sequence

variable {first chip : Chip} {c : Channel} {limit latency : Nat} {home next last : Word}
  {before : List Byte}

/-- A channel that had nothing left sends a buffer right behind what was transmitted. -/
theorem Resent.spent {buffer : Buffer} (resent : Resent first c buffer next chip)
    (spent : Spent c limit latency home before first)
    (reusable : Reusable c limit latency next chip) :
    Spent c limit latency next (before ++ buffer.bytes.toList) chip where
  toReusable := reusable
  none_left := resent.none_left
  no_error := resent.no_error
  transmitted := by
    obtain ⟨count, -, transmitted⟩ := resent.transmitted
    have none_left : (first.shared buffer.bytes next).itemsLeft c = 0 := spent.none_left
    rw [furtherBytes_of_none_left none_left, List.append_nil, spent.transmitted] at transmitted
    exact transmitted

namespace Serial

open Message

variable {message : Message} {messages : List Message}

/-- What both calls for a message do is among what drivers do, and moves the place of the next
buffer on. -/
theorem callsOnBus_leads (message : Message) (c : Channel) (bound : latency ≤ limit)
    (fits : regionAfter home message.buffer.bytes.size = .ok next) :
    Leads (Standing limit latency home) (callsOnBus message.buffer c message.config)
      (fun _ => Standing limit latency next) fun _ => True := by
  have requests : Block.decode (Usart3.base + Usart3.cr3) = .usart3 Usart3.cr3 := rfl
  have clear : Block.decode (Usart3.base + Usart3.icr) = .usart3 Usart3.icr := rfl
  have small : message.buffer.bytes.size < 0x100000000 :=
    Nat.lt_of_le_of_lt message.short (by decide)
  have stable (place : Word) : AccessStable (Standing limit latency place) :=
    Standing.accessStable bound
  apply Leads.bind (OnlyAccesses.update (Dma.usart3_not_count requests) _ _ (stable home))
  intro _
  apply Leads.bind (OnlyAccesses.write
    (Action.counted_write (Dma.usart3_not_count clear) _) _ (stable home))
  intro _
  apply Leads.bind (Standing.share small fits)
  intro source
  apply Leads.bind (Dma.configure_accesses c _ _ _ _ (stable next))
  intro _
  apply Leads.bind (Dma.start_accesses c message.config _ (stable next))
  intro _
  exact Dma.wait_accesses c _ (stable next)

/-- Both calls for a message send it behind what is left of the old transfer, and the channel can
be used again. -/
theorem callsOnBus_reuses (reusable : Reusable c limit latency home first) (bound : latency ≤ limit)
    (fits : regionAfter home message.buffer.bytes.size = .ok next) :
    Settles (limit + message.buffer.bytes.size * (latency + 1) + 5) (fun chip => chip = first)
      (callsOnBus message.buffer c message.config) fun _ chip =>
        Reusable c limit latency next chip ∧ Resent first c message.buffer next chip := by
  have layout := reusable.reachable.addressable.layout
  have trailing := reusable.reachable.trailing reusable.line reusable.alone reusable.target
    message.buffer.bytes next
  have fits' : regionAfter first.nextRegion message.buffer.bytes.size = .ok next := by
    rw [reusable.home]
    exact fits
  have settles := callsOnBus_settles (c := c) layout fits' message.nonempty message.short
    (ChannelConfig.streams message.direction message.memory message.peripheral message.once) bound
  -- The contract follows the transfer, and the accesses alone say where the chip is after it.
  apply (settles.and_leads (callsOnBus_leads message c bound fits)).weaken (Nat.le_refl _)
  · rintro chip rfl
    exact ⟨⟨trailing, reusable.paced⟩, reusable.toStanding⟩
  · rintro _ chip ⟨⟨count, few, feeding, none_left⟩, standing⟩
    refine ⟨⟨standing, feeding.line.toLineOn, feeding.alone, fun _ => feeding.programmed⟩, ?_⟩
    exact feeding.resent rfl few none_left

/-- A channel that has nothing left sends messages, and has nothing left again. -/
theorem eachOnBus_settles (bound : latency ≤ limit) (fits : homeAfter home messages = .ok last) :
    Settles (budget limit latency messages) (Spent c limit latency home before)
      (eachOnBus messages c) fun _ => Spent c limit latency last (before ++ bytes messages) := by
  induction messages generalizing home before with
  | nil =>
    obtain rfl := Except.ok.inj fits
    apply Settles.pure
    intro chip spent
    rw [bytes, List.flatMap_nil, List.append_nil]
    exact spent
  | cons message rest ih =>
    obtain ⟨next, fits, more⟩ := homeAfter_cons.mp fits
    rw [bytes, List.flatMap_cons, ← List.append_assoc]
    refine Settles.bind (R := fun _ => Spent c limit latency next
      (before ++ message.buffer.bytes.toList)) ?_ fun _ => ih more
    intro session spent
    have sent := (callsOnBus_reuses spent.toReusable bound fits).weaken (Nat.le_refl _)
      (fun _ same => same) fun _ chip reached => reached.2.spent spent reached.1
    exact sent session rfl

/-- Behind what is left of the old transfer, messages are sent in their order. -/
theorem eachOnBus_in_order (reusable : Reusable c limit latency home first)
    (bound : latency ≤ limit) (fits : regionAfter home message.buffer.bytes.size = .ok next)
    (more : homeAfter next messages = .ok last) :
    Settles (budget limit latency (message :: messages)) (fun chip => chip = first)
      (eachOnBus (message :: messages) c) fun _ chip => ∃ count, count ≤ 3 ∧
        Spent c limit latency last
          (first.transmitted ++ (first.shared message.buffer.bytes next).furtherBytes c count ++
            bytes (message :: messages)) chip := by
  refine Settles.bind (R := fun _ chip => ∃ count, count ≤ 3 ∧ Spent c limit latency next
    (first.transmitted ++ (first.shared message.buffer.bytes next).furtherBytes c count ++
      message.buffer.bytes.toList) chip) ?_ fun _ => ?_
  · apply (callsOnBus_reuses reusable bound fits).weaken (Nat.le_refl _) fun _ same => same
    rintro _ chip ⟨again, resent⟩
    obtain ⟨count, few, transmitted⟩ := resent.transmitted
    exact ⟨count, few, again, resent.none_left, resent.no_error, transmitted⟩
  · refine Settles.any fun count => ?_
    rw [bytes, List.flatMap_cons, ← List.append_assoc]
    exact eachOnBus_settles bound more

/-- Messages can be sent by one channel, one after another, from every state in which the channel
can be given a buffer. When all calls have returned, at most three items of the old transfer went
out and then exactly the messages, and the channel has nothing left, met no error and can be given
the next buffer. With the ticks that the transmitter needs they do return. -/
theorem sendEach_in_order (reusable : Reusable c limit latency home first)
    (bound : latency ≤ limit) (fits : regionAfter home message.buffer.bytes.size = .ok next)
    (more : homeAfter next messages = .ok last) (ticks : Nat) (log : Array Access)
    (handle : Serial) :
    (∀ held, (sendEach (message :: messages) c).run ⟨⟨first, ticks, log⟩, handle⟩ = .ok () held →
      ∃ count, count ≤ 3 ∧ Spent c limit latency last
        (first.transmitted ++ (first.shared message.buffer.bytes next).furtherBytes c count ++
          bytes (message :: messages)) held.session.device) ∧
    (budget limit latency (message :: messages) ≤ ticks →
      ∃ held, (sendEach (message :: messages) c).run ⟨⟨first, ticks, log⟩, handle⟩ =
        .ok () held) := by
  have settles := eachOnBus_in_order reusable bound fits more
  obtain ⟨reached, returns⟩ :=
    (sendEach_does (message :: messages) c).settles settles rfl ticks log handle
  refine ⟨fun held returned => reached () held returned, fun enough => ?_⟩
  obtain ⟨_, held, returned⟩ := returns enough
  exact ⟨held, returned⟩

end Serial

end Sequence

/-- From a channel in mid-transfer, two buffers are out after thirteen ticks. -/
theorem Serial.sendEach_in_order_after_start :
    ((Chip.startedUp 2).latch 2).active = true ∧
    ∃ held, (Serial.sendEach [.plain ⟨0, #[9]⟩ (by decide) (by decide),
        .plain ⟨1, #[10, 11]⟩ (by decide) (by decide)] 2).run
          ⟨⟨.startedUp 2, 13, #[]⟩, ⟨.default⟩⟩ = .ok () held ∧
      ∃ count, count ≤ 3 ∧ held.session.device.transmitted =
        ((Chip.startedUp 2).shared #[9] 0x20000028).furtherBytes 2 count ++ [9, 10, 11] := by
  have reusable : Reusable 2 0 0 0x20000014 (Chip.startedUp 2) :=
    ⟨⟨Chip.startedUp_reachable, ⟨by decide +kernel, by decide +kernel⟩, by decide +kernel⟩,
      ⟨by decide +kernel, by decide +kernel, by decide +kernel⟩, by decide +kernel,
      fun _ => by decide +kernel⟩
  have silent : (Chip.startedUp 2).transmitted = [] := by decide +kernel
  have fits : regionAfter 0x20000014
      (Serial.Message.plain ⟨0, #[9]⟩ (by decide) (by decide)).buffer.bytes.size =
        .ok 0x20000028 := rfl
  have more : Serial.Message.homeAfter 0x20000028
      [.plain ⟨1, #[10, 11]⟩ (by decide) (by decide)] = .ok 0x2000003C := rfl
  obtain ⟨reached, returns⟩ :=
    Serial.sendEach_in_order reusable (Nat.le_refl 0) fits more 13 #[] ⟨.default⟩
  obtain ⟨held, returned⟩ := returns (by decide)
  obtain ⟨count, few, spent⟩ := reached held returned
  refine ⟨by decide +kernel, held, returned, count, few, ?_⟩
  rw [spent.transmitted, silent]
  rfl

end Peripherals
