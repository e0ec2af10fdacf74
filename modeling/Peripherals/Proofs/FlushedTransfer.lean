import Peripherals.Proofs.PathAgreement

/-! # Flushing a transfer

A flush that follows the start of a channel looks at the transmitter and not at
the channel. On a line that takes time for a byte, the channel refills the data
register in the very tick in which the transmitter gets free, so that the flush
lasts until the buffer was sent. On a line that takes no time the transmitter is
free as soon as it has taken the first byte, and the flush ends there. -/

namespace Peripherals

open Bus Chip

variable {base first : Chip} {c : Channel} {config : ChannelConfig} {region : Region}
  {k limit : Nat} {wrote : List Byte} {E : Session Chip → Prop}

/-- A program that looks at the status finds everything sent exactly if the transmitter is free. -/
theorem Chip.allSent_iff (chip : Chip) :
    (chip.usartStatus &&& Usart3.tc != 0) = true ↔ chip.busy = 0 :=
  chip.shows_free_iff (.inr rfl)

/-- The configuration goes through its buffer once, towards the data register. -/
structure ChannelConfig.Forward (config : ChannelConfig) : Prop where
  reads : config.direction = .fromMemory
  memory : config.memoryIncrement = true
  peripheral : config.peripheralIncrement = false
  once : config.circular = false

section Forward

variable (forward : config.Forward)

include forward

theorem ChannelConfig.Forward.place (n k : Nat) : config.place n k = k := by
  rw [ChannelConfig.place, forward.once]
  exact if_neg Bool.false_ne_true

theorem ChannelConfig.Forward.targetAt (n k : Nat) : config.targetAt n k = 0 := by
  rw [ChannelConfig.targetAt, forward.peripheral]
  exact if_neg Bool.false_ne_true

/-- Every item waits for the transmitter. -/
theorem ChannelConfig.Forward.due_iff (n k busy : Nat) :
    config.Due n k busy ↔ k < n ∧ busy ≤ 1 := by
  simp [ChannelConfig.Due, forward.place, forward.targetAt]

end Forward

/-! ## Rounds of a flush -/

namespace Bus

/-- How many of some items a flush waits for. -/
def flushed (latency n : Nat) : Nat :=
  if latency = 0 then 1 else n

/-- The channel has moved `k` items, and each of them has reached the line. -/
structure Flushing (base : Chip) (c : Channel) (config : ChannelConfig) (region : Region)
    (wrote : List Byte) (k : Nat) (session : Session Chip) : Prop where
  engaged : Engaged base c config region k session.device
  transmitted : session.device.transmitted = base.transmitted ++ config.streamed region.bytes k
  polled : polled session.log = wrote

/-- Before its first item the channel has put nothing on the line. -/
theorem Flushing.begun (launched : Launched c config region base) {session : Session Chip}
    (stands : StandsAt base limit wrote session) :
    Flushing base c config region wrote 0 session := by
  obtain ⟨⟨busy, written, -, same⟩, polled⟩ := stands
  refine ⟨?_, ?_, polled⟩
  · rw [same]
    exact launched.engaged.of_same rfl rfl ⟨rfl, rfl⟩ rfl
  · rw [same]
    simp [Chip.timed, Chip.transmitted, ChannelConfig.streamed]

/-- An item reaches the line and makes the transmitter busy again. -/
theorem Flushing.moved (forward : config.Forward) {session after : Session Chip}
    (flushing : Flushing base c config region wrote k session)
    (log : Bus.polled after.log = wrote) (inside : k < region.bytes.size)
    (ticked : Ticked base c config region session.device (k + 1) (config.emitted region.bytes k)
      after.device) :
    Flushing base c config region wrote (k + 1) after ∧ after.device.busy = base.latency := by
  have emits : config.emitted region.bytes k ≠ [] := by
    have inside' : config.place region.bytes.size k < region.bytes.size := by
      rw [forward.place]
      exact inside
    rw [ne_eq, ChannelConfig.emitted_eq_nil_iff inside', forward.targetAt]
    exact not_not.mpr rfl
  refine ⟨⟨ticked.engaged, ?_, log⟩, ?_⟩
  · rw [ticked.transmitted, flushing.transmitted, ChannelConfig.streamed_succ, List.append_assoc]
  · rw [ticked.busy, if_neg emits]

/-- While no item is due, the transmitter comes closer to its next one. -/
theorem Flushing.waited {session after : Session Chip}
    (flushing : Flushing base c config region wrote k session)
    (log : Bus.polled after.log = wrote)
    (ticked : Ticked base c config region session.device k [] after.device) :
    Flushing base c config region wrote k after ∧
      after.device.busy = session.device.busy - 1 := by
  refine ⟨⟨ticked.engaged, ?_, log⟩, ?_⟩
  · rw [ticked.transmitted, flushing.transmitted, List.append_nil]
  · rw [ticked.busy, if_pos rfl]

/-- A flush that has not ended: if the line takes no time, no item was moved yet. How long it lasts
is bounded by the items that are left. -/
def Unflushed (base : Chip) (c : Channel) (config : ChannelConfig) (region : Region)
    (wrote : List Byte) (n : Nat) (session : Session Chip) : Prop :=
  ∃ k, Flushing base c config region wrote k session ∧ (base.latency = 0 → k = 0) ∧
    (region.bytes.size - k) * (base.latency + 1) + session.device.busy ≤ n

section Flush

variable (launched : Launched c config region base) (forward : config.Forward)
  (kept : ∀ k session, Flushing base c config region wrote k session → E session)

include launched forward kept

/-- One look at the status. -/
theorem sent_flushing (n : Nat) :
    Runs 1 (Unflushed base c config region wrote n)
      (Bus.anySet (Usart3.base + Usart3.isr) Usart3.tc)
      (fun done session => if done then
          Flushing base c config region wrote (flushed base.latency region.bytes.size) session
        else ∃ m, m < n ∧ Unflushed base c config region wrote m session) E := by
  rintro session ⟨k, flushing, none_yet, few⟩
  have read := Runs.read_engaged (E := E) launched forward.reads flushing.engaged
    (fun after ready => ready.toLineOn.transmitterOn.load_status) fun ticks log same =>
      kept k _ ⟨flushing.engaged, flushing.transmitted, same⟩
  refine (Runs.bind (n := 0) read fun value => Runs.pure _ ?_) session ⟨rfl, flushing.polled⟩
  rintro after ⟨rfl, log, ticked⟩
  have within := flushing.engaged.few forward.once
  have nonempty := launched.nonempty
  rw [TickedOnce, forward.due_iff] at ticked
  obtain ⟨⟨early, -⟩, moved⟩ | ⟨waiting, waited⟩ := ticked
  · obtain ⟨flushing', busy⟩ := flushing.moved forward log early moved
    split
    · next done =>
      -- The transmitter is free although it has just taken a byte.
      have instant : base.latency = 0 := busy.symm.trans ((allSent_iff _).mp done)
      have first : k + 1 = 1 := congrArg (· + 1) (none_yet instant)
      rwa [flushed, if_pos instant, ← first]
    · next more =>
      have slow : base.latency ≠ 0 := fun instant =>
        more ((allSent_iff _).mpr (busy.trans instant))
      have one_less : region.bytes.size - k = (region.bytes.size - (k + 1)) + 1 := by omega
      rw [one_less, Nat.succ_mul] at few
      exact ⟨_, by omega, k + 1, flushing', fun instant => (slow instant).elim, Nat.le_refl _⟩
  · obtain ⟨flushing', busy⟩ := flushing.waited log waited
    split
    · next done =>
      have free : session.device.busy ≤ 1 := by
        have := (allSent_iff _).mp done
        omega
      have last : k = region.bytes.size := by omega
      have slow : base.latency ≠ 0 := fun instant => by
        have := none_yet instant
        omega
      rwa [flushed, if_neg slow, ← last]
    · next more =>
      have some_time : after.device.busy ≠ 0 := fun free => more ((allSent_iff _).mpr free)
      exact ⟨_, by omega, k, flushing', none_yet, Nat.le_refl _⟩

/-- A flush ends when the transmitter is free, which on a line that takes time for a byte means
that all items were moved. -/
theorem flush_runs (limit : Nat) :
    Runs (region.bytes.size * (base.latency + 1) + limit + 1) (StandsAt base limit wrote)
      (Serial.flush : BusM Chip Unit)
      (fun _ => Flushing base c config region wrote (flushed base.latency region.bytes.size))
      E := by
  have waits := Runs.untilTrue (E := E) (sent_flushing launched forward kept)
    fun n session ⟨k, flushing, _⟩ => kept k session flushing
  refine (waits _).weaken (Nat.le_refl _) (fun session stands => ?_) (fun _ _ ended => ended)
    fun _ left => left
  have bound : session.device.busy ≤ limit := by
    obtain ⟨busy, written, bound, same⟩ := stands.device
    rw [same]
    exact bound
  exact ⟨0, .begun launched stands, fun _ => rfl, Nat.add_le_add_left bound _⟩

end Flush

end Bus

/-! ## Starting and flushing -/

/-- Start a channel on a buffer and flush the line, without a look at the channel. -/
def Serial.sendAndFlush (buffer : Buffer) (c : Channel) (config : ChannelConfig) :
    HeldM Chip Serial Unit := do
  Serial.sendBuffer buffer c config
  Held.onBus Serial.flush

theorem Serial.sendAndFlush_acts (serial : Serial) (buffer : Buffer) (c : Channel)
    (config : ChannelConfig) :
    Held.Acts serial (Serial.sendAndFlush buffer c config) (do
      Serial.launch buffer c config
      Serial.flush) { serial with config.dmaTransmit := true } :=
  .bind (Serial.sendBuffer_acts serial buffer c config) fun _ => .onBus _ _

section Rest

variable {buffer : Buffer} {next : Word} (standby : first.Standby)
  (fits : regionAfter first.nextRegion buffer.bytes.size = .ok next)
  (nonempty : 1 ≤ buffer.bytes.size) (short : buffer.bytes.size ≤ 0xFFFF)
  (forward : config.Forward)

include standby fits nonempty short forward

/-- From rest, a flush that follows the start of a channel returns when as many bytes were sent as
it waits for. -/
theorem Serial.sendAndFlush_returnsInTime (serial : Serial) (log : Array Access) :
    ReturnsInTime
      (fun ticks => (Serial.sendAndFlush buffer c config).run ⟨⟨first, ticks, log⟩, serial⟩)
      fun _ held =>
        held.session.device.transmitted = first.transmitted ++
            buffer.bytes.toList.take (flushed first.latency buffer.bytes.size) ∧
          (held.session.device.itemsLeft c).toNat =
            buffer.bytes.size - flushed first.latency buffer.bytes.size := by
  obtain ⟨start, started, only, -, launches⟩ :=
    Serial.launch_executes (E := fun _ => True) (c := c) standby config fits short
      fun _ _ _ _ => trivial
  have launched : Launched c config ⟨first.nextRegion, buffer.bytes⟩ start := ⟨started, nonempty⟩
  have flushes : Runs _ (StandsAt start _ (polled log)) Serial.flush _ fun _ => True :=
    flush_runs launched forward (fun _ _ _ => trivial) (max first.busy first.latency)
  rw [only.latency] at flushes
  have within : flushed first.latency buffer.bytes.size ≤ buffer.bytes.size := by
    rw [flushed]
    split <;> omega
  have runs : Runs _ (StandsAt first (max first.busy first.latency) (polled log)) (do
      Serial.launch buffer c config
      Serial.flush)
      (fun _ => Flushing start c config ⟨first.nextRegion, buffer.bytes⟩ (polled log)
        (flushed first.latency buffer.bytes.size)) fun _ => True := launches.then flushes
  have onBus := Runs.returnsInTime runs fun ticks => .start first ticks log
  refine ((Serial.sendAndFlush_acts serial buffer c config).returnsInTime onBus).mono ?_
  rintro _ held ⟨flushing, -⟩
  refine ⟨?_, ?_⟩
  · rw [flushing.transmitted, only.transmitted,
      ChannelConfig.streamed_forward forward.memory forward.peripheral within]
  · rw [flushing.engaged.left, forward.place, BitVec.toNat_ofNat]
    exact Nat.mod_eq_of_lt (Nat.lt_of_le_of_lt (Nat.le_trans (Nat.sub_le _ _) short) (by decide))

end Rest

/-- On a line that takes time for a byte, a flush that follows the start of a channel returns when
the whole buffer was sent and no item is left. On a line that takes none it returns as soon as the
first byte was sent. -/
theorem Serial.flush_after_sendBuffer {buffer : Buffer} {next : Word}
    (reachable : Reachable Action.Addressable first) (line : first.LineOn)
    (inactive : ∀ c, (first.latch c).active = false)
    (fits : regionAfter first.nextRegion buffer.bytes.size = .ok next)
    (nonempty : 1 ≤ buffer.bytes.size) (short : buffer.bytes.size ≤ 0xFFFF)
    (forward : config.Forward) (c : Channel) (serial : Serial) (log : Array Access) :
    (1 ≤ first.latency → ReturnsInTime
      (fun ticks => (Serial.sendAndFlush buffer c config).run ⟨⟨first, ticks, log⟩, serial⟩)
      fun _ held =>
        held.session.device.transmitted = first.transmitted ++ buffer.bytes.toList ∧
          held.session.device.itemsLeft c = 0) ∧
    (first.latency = 0 → ReturnsInTime
      (fun ticks => (Serial.sendAndFlush buffer c config).run ⟨⟨first, ticks, log⟩, serial⟩)
      fun _ held =>
        held.session.device.transmitted = first.transmitted ++ buffer.bytes.toList.take 1 ∧
          (held.session.device.itemsLeft c).toNat = buffer.bytes.size - 1) := by
  have returns := Serial.sendAndFlush_returnsInTime (c := c)
    (Standby.of_reachable reachable line inactive) fits nonempty short forward serial log
  refine ⟨fun slow => ?_, fun instant => ?_⟩
  · have all : flushed first.latency buffer.bytes.size = buffer.bytes.size :=
      if_neg (Nat.ne_of_gt slow)
    rw [all] at returns
    refine returns.mono ?_
    rintro _ held ⟨transmitted, left⟩
    refine ⟨?_, BitVec.eq_of_toNat_eq (left.trans (Nat.sub_self _))⟩
    rw [transmitted, ← Array.length_toList, List.take_length]
  · have one : flushed first.latency buffer.bytes.size = 1 := if_pos instant
    rwa [one] at returns

theorem Serial.flush_after_two_bytes :
    Reachable Action.Addressable (Chip.broughtUp.setLatency 3) ∧
    (Chip.broughtUp.setLatency 3).LineOn ∧
    (∀ c, ((Chip.broughtUp.setLatency 3).latch c).active = false) ∧
    regionAfter (Chip.broughtUp.setLatency 3).nextRegion 2 = .ok 0x20000028 ∧
    ChannelConfig.default.Forward ∧ 1 ≤ (Chip.broughtUp.setLatency 3).latency ∧
    ReturnsInTime
      (fun ticks => (Serial.sendAndFlush ⟨0, #[1, 2]⟩ 6 .default).run
        ⟨⟨Chip.broughtUp.setLatency 3, ticks, #[]⟩, ⟨.default⟩⟩)
      fun _ held => held.session.device.transmitted = [1, 2] ∧
        held.session.device.itemsLeft 6 = 0 := by
  have reachable : Reachable Action.Addressable (Chip.broughtUp.setLatency 3) :=
    .perform (.setLatency 3) broughtUp_reachable.addressable trivial rfl
  have line : (Chip.broughtUp.setLatency 3).LineOn :=
    ⟨by decide +kernel, by decide +kernel, by decide +kernel⟩
  have inactive : ∀ c, ((Chip.broughtUp.setLatency 3).latch c).active = false :=
    fun c => (broughtUp_idle c).2
  have home : (Chip.broughtUp.setLatency 3).nextRegion = 0x20000014 := by decide +kernel
  have fits : regionAfter (Chip.broughtUp.setLatency 3).nextRegion
      (⟨0, #[1, 2]⟩ : Buffer).bytes.size = .ok 0x20000028 := by
    rw [home]
    rfl
  have silent : (Chip.broughtUp.setLatency 3).transmitted = [] := by decide +kernel
  have forward : ChannelConfig.default.Forward := ⟨rfl, rfl, rfl, rfl⟩
  have slow : 1 ≤ (Chip.broughtUp.setLatency 3).latency := by decide
  obtain ⟨flushes, -⟩ := Serial.flush_after_sendBuffer reachable line inactive fits (by decide)
    (by decide) forward 6 ⟨.default⟩ #[]
  have flushed := flushes slow
  rw [silent] at flushed
  exact ⟨reachable, line, inactive, fits, forward, slow, flushed⟩

/-- On a line that takes no time, a flush returns while a byte is still to be sent. -/
theorem Serial.flush_leaves_a_byte :
    Reachable Action.Addressable Chip.broughtUp ∧ Chip.broughtUp.LineOn ∧
    (∀ c, (Chip.broughtUp.latch c).active = false) ∧
    ChannelConfig.default.Forward ∧ Chip.broughtUp.latency = 0 ∧ Chip.broughtUp.transmitted = [] ∧
    ∃ ticks held, (Serial.sendAndFlush ⟨0, #[1, 2]⟩ 6 .default).run
        ⟨⟨Chip.broughtUp, ticks, #[]⟩, ⟨.default⟩⟩ = .ok () held ∧
      held.session.device.transmitted = [1] ∧ held.session.device.itemsLeft 6 = 1 := by
  have inactive (c : Channel) : (Chip.broughtUp.latch c).active = false := (broughtUp_idle c).2
  have home : Chip.broughtUp.nextRegion = 0x20000014 := by decide +kernel
  have fits : regionAfter Chip.broughtUp.nextRegion (⟨0, #[1, 2]⟩ : Buffer).bytes.size =
      .ok 0x20000028 := by
    rw [home]
    rfl
  have silent : Chip.broughtUp.transmitted = [] := by decide +kernel
  have forward : ChannelConfig.default.Forward := ⟨rfl, rfl, rfl, rfl⟩
  have standby := Standby.of_reachable broughtUp_reachable.addressable broughtUp_ready.toLineOn
    inactive
  have flushes := Serial.sendAndFlush_returnsInTime (c := 6) standby fits (by decide) (by decide)
    forward ⟨.default⟩ #[]
  obtain ⟨enough, returns⟩ := flushes.returns
  obtain ⟨_, held, returned⟩ := returns enough (Nat.le_refl _)
  obtain ⟨transmitted, left⟩ := flushes.holds enough _ held returned
  rw [silent] at transmitted
  exact ⟨broughtUp_reachable.addressable, broughtUp_ready.toLineOn, inactive, forward, rfl, silent,
    enough, held, returned, transmitted, BitVec.eq_of_toNat_eq left⟩

end Peripherals
