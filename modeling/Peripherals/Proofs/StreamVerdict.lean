import Peripherals.Proofs.Interleaving
import Peripherals.Proofs.StreamRun

/-! # The verdict of the stream test

The stream test says that it passed when its channel reports completion, and by
nothing else. So a channel that moves nothing, or one that keeps the transmitter
from the program for ever, blocks the test with its LED lit. Any other channel
lets it pass, behind whatever the channel streams in its first pass. -/

namespace Peripherals

open Bus Chip

namespace StreamTest

variable {base start chip after : Chip} {limit : Nat} {wrote : List Byte}
  {E : Session Chip → Prop} {c : Channel} {transfer : ChannelConfig} {buffer : Buffer}
  {region : Region} {next : Word} {k : Nat}

theorem Shining.transmitted {sent : List Byte} (shining : Shining base sent after) :
    after.transmitted = base.transmitted ++ sent := by
  rw [transmitted_eq, shining.events, transmitted_eq, List.filterMap_append]
  exact congrArg _ (filterMap_byte?_map sent)

theorem transmitted_halted (chip : Chip) :
    ((chip.withLevel Board.greenLed .low).breakpoint).transmitted = chip.transmitted := by
  change ((chip.withLevel Board.greenLed .low).observe [.breakpoint]).transmitted = _
  rw [transmitted_observe, withLevel, transmitted_setOutput]
  exact List.append_nil _

/-! ## Waits without end -/

/-- A circular channel that keeps the transmitter busy from pass to pass lets no polled byte
through. -/
theorem waitReady_crowded_never (launched : Launched c transfer region base)
    (reads : transfer.direction = .fromMemory) (slow : base.latency ≤ limit)
    (circular : transfer.circular = true)
    (crowded : transfer.gap region.bytes.size ≤ base.latency)
    (kept : ∀ k session, Streaming base c transfer region limit wrote k session → E session) :
    Ends (fun session => ∃ k, 1 ≤ k ∧ Streaming base c transfer region limit wrote k session)
      (Bus.waitSet (Usart3.base + Usart3.isr) Usart3.txe) (fun _ _ => False) E := by
  apply Ends.never _ fun session ⟨k, _, streaming⟩ => kept k session streaming
  rintro session ⟨k, later, streaming⟩
  have read := Runs.read_engaged (E := E) launched reads streaming.engaged
    (fun after ready => ready.transmitterOn.load_status) fun ticks log same =>
      kept k _ ⟨streaming.engaged, streaming.bound, same, streaming.events, streaming.crowded⟩
  refine (Ends.bind (Runs.ends read) fun value => ?_) session ⟨rfl, streaming.polled⟩
  rintro after ⟨rfl, log, ticked⟩
  -- Behind its first item the channel has the transmitter busy at every look.
  have taken {k : Nat} (later : 1 ≤ k)
      (streaming : Streaming base c transfer region limit wrote k after) :
      (after.device.usartStatus &&& Usart3.txe != 0) = false := by
    have busy := (streaming.crowded crowded later).busy_pos (streaming.engaged.place_le launched)
    rw [Bool.eq_false_iff]
    exact fun ready => Nat.ne_of_gt busy ((ready_iff _).mp ready)
  obtain ⟨due, moved⟩ | ⟨waiting, waited⟩ := ticked
  · have streaming' := streaming.moved slow log due moved
    exact ⟨taken (Nat.le_add_left 1 k) streaming', k + 1, Nat.le_add_left 1 k, streaming'⟩
  · have inside := ChannelConfig.place_lt circular launched.nonempty k
    have streaming' := streaming.waited log inside waiting waited
    exact ⟨taken later streaming', k, later, streaming'⟩

/-- If the wait for the transmitter does not return, no text is sent. -/
theorem sendText_never {P : Session Chip → Prop} {text : String} (plain : Text.Plain text)
    (nonempty : Text.bytes text ≠ [])
    (waits : Ends P (Bus.waitSet (Usart3.base + Usart3.isr) Usart3.txe) (fun _ _ => False) E) :
    Ends P (Serial.sendText text) (fun _ _ => False) E := by
  rw [Serial.sendText, plain]
  cases bytes : Text.bytes text with
  | nil => exact (nonempty bytes).elim
  | cons first rest => exact Ends.never_bind (Ends.never_bind waits)

/-! ## Polled bytes between those of a channel

A circular channel that leaves the transmitter free now and then goes on while
the program sends its line, and the bytes of both come to be mixed. -/

/-- Behind its first pass a channel goes on, and meanwhile the program has sent some bytes. -/
structure Racing (base : Chip) (c : Channel) (transfer : ChannelConfig) (region : Region)
    (limit : Nat) (front sent : List Byte) (m : Nat) (session : Session Chip) : Prop where
  engaged : Engaged base c transfer region (region.bytes.size + m) session.device
  bound : session.device.busy ≤ limit
  transmitted : ∃ out, session.device.transmitted = front ++ out ∧
    Interleaves (fun polled : Bool => if polled then sent else transfer.streamed region.bytes m) out

section Racing

variable {front sent : List Byte} {m : Nat} {session after : Session Chip}
  (launched : Launched c transfer region base) (reads : transfer.direction = .fromMemory)
  (circular : transfer.circular = true) (slow : base.latency ≤ limit)
  (fast : base.latency < transfer.gap region.bytes.size)

/-- With the end of the first pass the race begins. -/
theorem Racing.begun {wrote : List Byte}
    (streaming : Streaming base c transfer region limit wrote region.bytes.size session) :
    Racing base c transfer region limit
      (base.transmitted ++ transfer.streamed region.bytes region.bytes.size) [] 0 session where
  engaged := streaming.engaged
  bound := streaming.bound
  transmitted := ⟨[], streaming.transmitted.trans (List.append_nil _).symm,
    .nil fun polled => by cases polled <;> rfl⟩

/-- A polled byte follows what was sent before. -/
theorem Racing.spoke (racing : Racing base c transfer region limit front sent m session)
    (slow : base.latency ≤ limit) {byte : Byte} {wrote : List Byte}
    (stands : StandsAt (session.device.spoke [byte]) session.device.latency wrote after) :
    Racing base c transfer region limit front (sent ++ [byte]) m after := by
  obtain ⟨busy, written, bound, same⟩ := stands.device
  constructor
  · rw [same]
    exact racing.engaged.of_same rfl rfl ⟨rfl, rfl⟩ rfl
  · rw [same]
    exact Nat.le_trans bound (racing.engaged.latency ▸ slow)
  · obtain ⟨out, transmitted, interleaves⟩ := racing.transmitted
    refine ⟨out ++ [byte], ?_, interleaves.snoc (i := true) rfl fun polled other => ?_⟩
    · rw [same, ← List.append_assoc, ← transmitted]
      exact session.device.transmitted_spoke [byte]
    · rw [Bool.eq_false_iff.mpr other]
      rfl

include circular slow in
/-- A tick that moves an item takes the race on by it. -/
theorem Racing.moved (racing : Racing base c transfer region limit front sent m session)
    (ticked : Ticked base c transfer region session.device (region.bytes.size + m + 1)
      (transfer.emitted region.bytes (region.bytes.size + m)) after.device) :
    Racing base c transfer region limit front sent (m + 1) after where
  engaged := ticked.engaged
  bound := by
    have bound := racing.bound
    rw [ticked.busy]
    split <;> omega
  transmitted := by
    obtain ⟨out, transmitted, interleaves⟩ := racing.transmitted
    refine ⟨out ++ transfer.emitted region.bytes m, ?_, interleaves.append (i := false) ?_ ?_⟩
    · rw [ticked.transmitted, transmitted, ChannelConfig.emitted_add_pass circular,
        List.append_assoc]
    · exact ChannelConfig.streamed_succ _ _
    · intro polled other
      rw [Bool.ne_false_iff.mp other]
      rfl

/-- A tick that moves none leaves the race where it is. -/
theorem Racing.waited (racing : Racing base c transfer region limit front sent m session)
    (ticked : Ticked base c transfer region session.device (region.bytes.size + m) []
      after.device) : Racing base c transfer region limit front sent m after where
  engaged := ticked.engaged
  bound := by
    have bound := racing.bound
    rw [ticked.busy, if_pos rfl]
    omega
  transmitted := by
    rw [ticked.transmitted, List.append_nil]
    exact racing.transmitted

include launched reads circular slow fast

/-- On a line that is fast enough, the program gets the transmitter once in a while. -/
theorem waitReady_races :
    Runs (2 * limit + 2)
      (fun session => ∃ m, Racing base c transfer region limit front sent m session)
      (Bus.waitSet (Usart3.base + Usart3.isr) Usart3.txe)
      (fun _ session => ∃ m, Racing base c transfer region limit front sent m session)
      fun _ => True := by
  have waits : Runs (2 * limit + 1 + 1)
      (fun session => ∃ m, Racing base c transfer region limit front sent m session ∧
        transfer.patience region.bytes.size base.latency (region.bytes.size + m)
          session.device.busy ≤ 2 * limit + 1)
      (Bus.waitSet (Usart3.base + Usart3.isr) Usart3.txe)
      (fun _ session => ∃ m, Racing base c transfer region limit front sent m session)
      fun _ => True := by
    -- The variant is how long the transmitter can stay busy, with all that the channel may put
    -- on the line until then.
    apply Runs.untilTrue (J := fun n session =>
      ∃ m, Racing base c transfer region limit front sent m session ∧
        transfer.patience region.bytes.size base.latency (region.bytes.size + m)
          session.device.busy ≤ n)
    · rintro n session ⟨m, racing, few⟩
      have read : Runs 1 _ _ _ fun _ => True := Runs.read_engaged launched reads racing.engaged
        (fun after ready => ready.transmitterOn.load_status)
        fun _ _ (_ : _ = polled session.log) => trivial
      refine (Runs.bind (n := 0) read fun value => Runs.pure _ ?_) session ⟨rfl, rfl⟩
      rintro after ⟨rfl, -, ticked⟩
      obtain ⟨due, moved⟩ | ⟨waiting, waited⟩ := ticked
      · have racing' := racing.moved circular slow moved
        split
        · exact ⟨m + 1, racing'⟩
        · next busy =>
          have becomes := moved.busy
          simp only [ChannelConfig.emitted_eq_nil_iff due.1, ne_eq, ite_not] at becomes
          have closer := ChannelConfig.patience_succ fast due becomes fun free =>
            busy ((ready_iff _).mpr free)
          exact ⟨_, Nat.lt_of_lt_of_le closer few, m + 1, racing', Nat.le_refl _⟩
      · have inside := ChannelConfig.place_lt circular launched.nonempty (region.bytes.size + m)
        have racing' := racing.waited waited
        split
        · exact ⟨m, racing'⟩
        · have becomes : after.device.busy = session.device.busy - 1 := waited.busy
          have closer : transfer.patience region.bytes.size base.latency (region.bytes.size + m)
              (session.device.busy - 1) < _ := ChannelConfig.patience_wait inside waiting
          rw [← becomes] at closer
          exact ⟨_, Nat.lt_of_lt_of_le closer few, m, racing', Nat.le_refl _⟩
    · exact fun _ _ _ => trivial
  refine waits.weaken (Nat.le_refl _) ?_ (fun _ _ ended => ended) fun _ left => left
  rintro session ⟨m, racing⟩
  have bound := racing.bound
  have patience := transfer.patience_le region.bytes.size base.latency (region.bytes.size + m)
    session.device.busy
  exact ⟨m, racing, by omega⟩

theorem sendByte_races (byte : Byte) :
    Runs (2 * limit + 2)
      (fun session => ∃ m, Racing base c transfer region limit front sent m session)
      (Serial.sendByte byte)
      (fun _ session => ∃ m, Racing base c transfer region limit front (sent ++ [byte]) m session)
      fun _ => True := by
  have writes : Runs 0
      (fun session => ∃ m, Racing base c transfer region limit front sent m session)
      (Bus.write Serial.target (byte.setWidth 32))
      (fun _ session => ∃ m, Racing base c transfer region limit front (sent ++ [byte]) m session)
      fun _ => True := by
    apply Runs.of_each
    rintro session ⟨m, racing⟩
    have on := (racing.engaged.lineReady launched).transmitterOn
    have puts : Executes 0 (StandsAt session.device session.device.busy (polled session.log))
        (Bus.write Serial.target (byte.setWidth 32)) ()
        (StandsAt (session.device.spoke [byte]) session.device.latency
          (polled session.log ++ [byte])) fun _ => True :=
      Executes.write_data on byte
    refine Runs.weaken puts (Nat.le_refl 0) ?_ ?_ fun _ left => left
    · rintro start rfl
      exact StandsAt.self start
    · exact fun _ after reached => ⟨m, racing.spoke slow reached.2⟩
  change Runs (2 * limit + 2 + 0) _ _ _ _
  exact (waitReady_races launched reads circular slow fast).bind fun _ => writes

theorem send_races (bytes : List Byte) :
    Runs (bytes.length * (2 * limit + 2))
      (fun session => ∃ m, Racing base c transfer region limit front sent m session)
      (Serial.send bytes)
      (fun _ session => ∃ m, Racing base c transfer region limit front (sent ++ bytes) m session)
      fun _ => True := by
  induction bytes generalizing sent with
  | nil =>
    rw [List.append_nil, List.length_nil, Nat.zero_mul]
    exact Runs.pure () fun _ racing => racing
  | cons byte rest ih =>
    have all : sent ++ byte :: rest = sent ++ [byte] ++ rest := by simp
    rw [List.length_cons, Nat.succ_mul, Nat.add_comm, all]
    exact (sendByte_races launched reads circular slow fast byte).bind fun _ => ih

theorem sendText_races {text : String} (plain : Text.Plain text) :
    Runs ((Text.bytes text).length * (2 * limit + 2))
      (fun session => ∃ m, Racing base c transfer region limit front sent m session)
      (Serial.sendText text)
      (fun _ session => ∃ m,
        Racing base c transfer region limit front (sent ++ Text.bytes text) m session)
      fun _ => True := by
  rw [Serial.sendText, plain]
  exact send_races launched reads circular slow fast _

omit launched reads circular slow fast in
/-- The end of a run puts nothing on the line. -/
theorem halts_races (led : LedAt true base) :
    Runs 0 (fun session => ∃ m, Racing base c transfer region limit front sent m session) (do
      Board.greenLed.setLevel .low
      Bus.breakpoint : BusM Chip Unit)
      (fun _ session => ∃ m out, session.device.transmitted = front ++ out ∧
        Interleaves (fun polled : Bool => if polled then sent else transfer.streamed region.bytes m)
          out)
      fun _ => True := by
  apply Runs.of_each
  rintro session ⟨m, racing⟩
  obtain ⟨out, transmitted, interleaves⟩ := racing.transmitted
  have halts : Executes 0 (StandsAt session.device session.device.busy (polled session.log)) _ ()
      (StandsAt ((session.device.withLevel Board.greenLed .low).breakpoint) session.device.busy
        (polled session.log)) fun _ => True :=
    halt_executes (led.engaged racing.engaged)
  refine Runs.weaken halts (Nat.le_refl 0) ?_ ?_ fun _ left => left
  · rintro start rfl
    exact StandsAt.self start
  · rintro _ last ⟨-, ⟨busy, written, -, same⟩, -⟩
    have silent : last.device.transmitted = session.device.transmitted := by
      rw [same]
      exact transmitted_halted session.device
    exact ⟨m, out, silent.trans transmitted, interleaves⟩

/-- What the program says at the end comes between the bytes of a channel that goes on. -/
theorem closing_races (led : LedAt true base) {wrote : List Byte} :
    Runs ((Text.bytes passed).length * (2 * limit + 2))
      (Streaming base c transfer region limit wrote region.bytes.size) closing
      (fun _ session => ∃ m out, session.device.transmitted =
          base.transmitted ++ transfer.streamed region.bytes region.bytes.size ++ out ∧
        Interleaves (fun polled : Bool =>
          if polled then Text.bytes passed else transfer.streamed region.bytes m) out)
      fun _ => True := by
  have speaks : Runs _ (fun session => ∃ m, Racing base c transfer region limit
        (base.transmitted ++ transfer.streamed region.bytes region.bytes.size) [] m session)
      (Serial.sendText passed) _ fun _ => True :=
    sendText_races launched reads circular slow fast (by decide +kernel)
  rw [List.nil_append] at speaks
  have closes := speaks.bind fun _ => halts_races led
  exact closes.weaken (Nat.le_refl _) (fun _ streaming => ⟨0, .begun streaming⟩)
    (fun _ _ ended => ended) fun _ left => left

end Racing

/-- A run whose channel goes on, but leaves the transmitter to the program in time, comes to its
end. -/
theorem calls_races (idle : Idle base) (slow : base.latency ≤ limit) (c : Channel)
    (reads : transfer.direction = .fromMemory)
    (fits : regionAfter base.nextRegion buffer.bytes.size = .ok next)
    (nonempty : 1 ≤ buffer.bytes.size) (short : buffer.bytes.size ≤ 0xFFFF) (wrote : List Byte)
    (circular : transfer.circular = true) (fast : base.latency < transfer.gap buffer.bytes.size) :
    ∃ n, Runs n (StandsAt base limit wrote) (calls buffer c transfer) (fun _ session =>
      ∃ m rest, session.device.transmitted = base.transmitted ++ Text.bytes started ++
          transfer.streamed buffer.bytes buffer.bytes.size ++ rest ∧
        Interleaves (fun polled : Bool =>
          if polled then Text.bytes passed else transfer.streamed buffer.bytes m) rest)
      fun _ => True := by
  apply calls_runs_of (n := (Text.bytes passed).length * (2 * limit + 2)) idle slow c reads fits
    nonempty short wrote
  intro start launched shining _ slow'
  rw [← shining.latency] at fast
  rw [← shining.transmitted]
  exact closing_races launched reads circular slow' fast shining.led

/-! ## Runs that do not end -/

/-- A run that is not over: the program has sent a part of the first line, the channel some bytes,
and the LED is lit. -/
structure Unfinished (base : Chip) (transfer : ChannelConfig) (bytes : Array Byte)
    (wrote : List Byte) (session : Session Chip) : Prop where
  halfway : ∃ sent k, sent <+: Text.bytes started ∧ polled session.log = wrote ++ sent ∧
    session.device.transmitted = base.transmitted ++ sent ++ transfer.streamed bytes k
  lit : session.device.pinLevel .b 0 = .ok true

theorem Unfinished.shining {sent : List Byte} (shining : Shining base sent after)
    (part : sent <+: Text.bytes started) {bytes : Array Byte} {session : Session Chip}
    (stands : StandsAt after limit (wrote ++ sent) session) :
    Unfinished base transfer bytes wrote session := by
  obtain ⟨⟨busy, written, -, same⟩, polled⟩ := stands
  have led : LedAt true session.device := by
    rw [same]
    exact shining.led.of_same fun _ _ => rfl
  refine ⟨⟨sent, 0, part, polled, ?_⟩, led.pinLevel⟩
  rw [same]
  exact shining.transmitted.trans (List.append_nil _).symm

theorem Unfinished.streaming (shining : Shining base (Text.bytes started) start)
    {session : Session Chip}
    (streaming : Streaming start c transfer region limit (wrote ++ Text.bytes started) k session) :
    Unfinished base transfer region.bytes wrote session where
  halfway := by
    refine ⟨_, k, List.prefix_refl _, streaming.polled, ?_⟩
    rw [streaming.transmitted, shining.transmitted]
  lit := (shining.led.engaged streaming.engaged).pinLevel

/-- A run does not end if its channel does not read memory, or goes on without leaving the
transmitter to the program. -/
theorem calls_block (idle : Idle base) (slow : base.latency ≤ limit) (c : Channel)
    (fits : regionAfter base.nextRegion buffer.bytes.size = .ok next)
    (nonempty : 1 ≤ buffer.bytes.size) (short : buffer.bytes.size ≤ 0xFFFF) (wrote : List Byte)
    (blocks : transfer.direction = .fromMemory →
      transfer.circular = true ∧ transfer.gap buffer.bytes.size ≤ base.latency) :
    Ends (StandsAt base limit wrote) (calls buffer c transfer) (fun _ _ => False)
      (Unfinished base transfer buffer.bytes wrote) := by
  obtain ⟨start, n, launched, shining, -, opens⟩ :=
    opening_executes (E := Unfinished base transfer buffer.bytes wrote) idle slow c transfer fits
      nonempty short wrote
      fun sent after part shining session stands => .shining shining part stands
  refine Ends.bind (Runs.ends opens) fun _ session ⟨_, stands⟩ => ?_
  by_cases reads : transfer.direction = .fromMemory
  · obtain ⟨circular, crowded⟩ := blocks reads
    rw [← shining.latency] at slow crowded
    have going (k : Nat) (session : Session Chip)
        (streaming : Streaming start c transfer ⟨base.nextRegion, buffer.bytes⟩ limit
          (wrote ++ Text.bytes started) k session) :
        Unfinished base transfer buffer.bytes wrote session := .streaming shining streaming
    have waits := Runs.ends (wait_streaming launched reads slow _ going)
    have speaks : Ends _ (Serial.sendText passed) (fun _ _ => False) _ :=
      sendText_never (by decide +kernel) (by decide +kernel)
        (waitReady_crowded_never launched reads slow circular crowded going)
    refine Ends.bind waits (fun _ session streaming => ?_) session (.begun launched stands)
    exact Ends.never_bind speaks session ⟨_, launched.nonempty, streaming⟩
  · have lit (session : Session Chip)
        (stands : StandsAt start limit (wrote ++ Text.bytes started) session) :
        Unfinished base transfer buffer.bytes wrote session :=
      .shining shining (List.prefix_refl _) stands
    have quiet := launched.quiet (.inl reads)
    have waits := Dma.wait_never quiet launched.line.dmaClocked launched.clear lit
    exact Ends.never_bind waits session stands

/-! ## The verdict -/

/-- Whether a run passes: its channel reads memory, and if it goes on after its first pass, it
leaves the transmitter free for long enough before each byte. -/
def Passes (transfer : ChannelConfig) (latency : Nat) : Prop :=
  transfer.direction = .fromMemory ∧ (transfer.circular = true → latency < transfer.gap size)

/-- What a channel streams in its first pass over the ramp. -/
def firstPass (transfer : ChannelConfig) : List Byte :=
  if transfer.peripheralIncrement then [0]
  else if transfer.memoryIncrement then ramp.toList
  else List.replicate size 0

/-- What a whole run puts on the line. A channel that goes on after its first pass mixes its next
bytes with those of the last line. -/
def WholeOutput (transfer : ChannelConfig) (out : List Byte) : Prop :=
  ∃ rest, out = Text.bytes started ++ firstPass transfer ++ rest ∧
    if transfer.circular then ∃ m, Interleaves (fun polled : Bool =>
      if polled then Text.bytes passed else transfer.streamed ramp m) rest
    else rest = Text.bytes passed

theorem ramp_get {k : Nat} (inside : k < size) : ramp[k]? = some (BitVec.ofNat 8 k) := by
  simp [ramp, inside]

theorem streamed_ramp (transfer : ChannelConfig) :
    transfer.streamed ramp size = firstPass transfer := by
  have first : ramp[0]? = some 0 := ramp_get (by decide)
  rw [firstPass]
  cases peripheral : transfer.peripheralIncrement with
  | true =>
    rw [if_pos rfl]
    exact ChannelConfig.streamed_away peripheral first (by decide) (Nat.le_of_eq size_ramp.symm)
  | false =>
    rw [if_neg Bool.false_ne_true]
    cases memory : transfer.memoryIncrement with
    | true =>
      rw [if_pos rfl,
        ChannelConfig.streamed_forward memory peripheral (Nat.le_of_eq size_ramp.symm),
        ← size_ramp, ← Array.length_toList, List.take_length]
    | false =>
      rw [if_neg Bool.false_ne_true]
      exact ChannelConfig.streamed_still memory peripheral first size

variable {test : StreamTest}

/-- A run that passes comes to its end in time. -/
theorem runToHalt_passes (idle : Idle chip) (led : test.led = Board.greenLed)
    (passes : Passes test.config.transfer chip.latency)
    (fits : regionAfter chip.nextRegion size = .ok next) (log : Array Access) :
    ReturnsInTime (fun ticks => runToHalt.run ⟨⟨chip, ticks, log⟩, test⟩) fun _ held =>
      ∃ out, held.session.device.transmitted = chip.transmitted ++ out ∧
        WholeOutput test.config.transfer out := by
  obtain ⟨reads, leaves⟩ := passes
  cases circular : test.config.transfer.circular with
  | false =>
    refine (runToHalt_returns idle led reads circular fits log).mono ?_
    rintro _ held ⟨⟨-, -, events⟩, -⟩
    refine ⟨_, ?_, Text.bytes passed, rfl, ?_⟩
    · rw [transmitted_eq, events, List.filterMap_append, ← transmitted_eq, streamed_ramp,
        filterMap_runEvents]
    · rw [circular, if_neg Bool.false_ne_true]
  | true =>
    have fits' : regionAfter chip.nextRegion test.fill.buffer.bytes.size = .ok next := by
      rw [size_fill]
      exact fits
    have fast : chip.latency < test.config.transfer.gap test.fill.buffer.bytes.size := by
      rw [size_fill]
      exact leaves circular
    obtain ⟨n, runs⟩ := calls_races idle (Nat.le_max_right _ _) test.config.channel reads fits'
      (by rw [size_fill]; decide) (by rw [size_fill]; decide) (polled log) circular fast
    refine (runToHalt_returnsInTime led runs).mono ?_
    rintro _ held ⟨⟨m, rest, transmitted, interleaves⟩, -⟩
    refine ⟨_, ?_, rest, rfl, ?_⟩
    · rw [transmitted, size_fill, ← streamed_ramp]
      simp only [List.append_assoc]
      rfl
    · rw [circular, if_pos rfl]
      exact ⟨m, interleaves⟩

/-- A run that does not pass never ends. -/
theorem runToHalt_blocks (idle : Idle chip) (led : test.led = Board.greenLed)
    (blocks : ¬ Passes test.config.transfer chip.latency)
    (fits : regionAfter chip.nextRegion size = .ok next) (log : Array Access) :
    NeverReturns (fun ticks => runToHalt.run ⟨⟨chip, ticks, log⟩, test⟩) fun held =>
      Unfinished chip test.config.transfer ramp (polled log) held.session := by
  have fits' : regionAfter chip.nextRegion test.fill.buffer.bytes.size = .ok next := by
    rw [size_fill]
    exact fits
  have blocks' : test.config.transfer.direction = .fromMemory →
      test.config.transfer.circular = true ∧
        test.config.transfer.gap test.fill.buffer.bytes.size ≤ chip.latency := by
    intro reads
    rw [Passes, not_and, Classical.not_imp, Nat.not_lt] at blocks
    rw [size_fill]
    exact blocks reads
  have never := calls_block idle (Nat.le_max_right chip.busy _) test.config.channel fits'
    (by rw [size_fill]; decide) (by rw [size_fill]; decide) (polled log) blocks'
  exact (runToHalt_acts test led).neverReturns
    (never.neverReturns fun ticks => StandsAt.start chip ticks log)

variable {config : Config}

theorem setUp_idle (divisor : config.serial.divisor ≠ 0) (buffer : Buffer) (latency : Nat)
    (log : Array Access) :
    ReturnsInTime
      (fun ticks => (setUp buffer config).run ⟨Chip.reset.setLatency latency, ticks, log⟩)
      fun test session => test.led = Board.greenLed ∧ test.config = config ∧ Idle session.device ∧
        session.device.latency = latency ∧
        regionAfter session.device.nextRegion size = .ok 0x20000110 := by
  refine (setUp_returns divisor buffer latency log).mono ?_
  rintro _ session ⟨rfl, busy, written, same⟩
  rw [same]
  refine ⟨rfl, rfl, (idle_broughtUp config latency).timed busy written, ?_, ?_⟩
  · rw [broughtUp, amended_eq]
    rfl
  · have home : ((broughtUp config latency).timed busy written).nextRegion = 0x20000000 := by
      rw [nextRegion_timed, broughtUp, amended_eq]
      rfl
    rw [home]
    rfl

/-- The verdict of every configuration, after setting up on a chip fresh from reset. A run that
returns has sent the first line, what its channel streams in one pass, and the last line. A run
that does not return never gets to the last line, and leaves the LED lit. -/
theorem verdict (config : Config) (divisor : config.serial.divisor ≠ 0) (buffer : Buffer)
    (latency : Nat) (log : Array Access) :
    ReturnsInTime
      (fun ticks => (setUp buffer config).run ⟨Chip.reset.setLatency latency, ticks, log⟩)
      fun test session => ∀ log',
        (∀ ticks held, runToHalt.run ⟨⟨session.device, ticks, log'⟩, test⟩ = .ok () held →
          ∃ out, held.session.device.transmitted = session.device.transmitted ++ out ∧
            WholeOutput config.transfer out) ∧
        ((∀ ticks held, runToHalt.run ⟨⟨session.device, ticks, log'⟩, test⟩ ≠ .ok () held) →
          ∀ ticks fault held,
            runToHalt.run ⟨⟨session.device, ticks, log'⟩, test⟩ = .error fault held →
              Unfinished session.device config.transfer ramp (polled log') held.session) := by
  refine (setUp_idle divisor buffer latency log).mono ?_
  rintro test session ⟨led, rfl, idle, -, fits⟩ log'
  by_cases passes : Passes test.config.transfer session.device.latency
  · have inTime := runToHalt_passes idle led passes fits log'
    refine ⟨fun ticks held returned => inTime.holds ticks () held returned, fun never => ?_⟩
    obtain ⟨enough, returns⟩ := inTime.returns
    obtain ⟨_, held, returned⟩ := returns enough (Nat.le_refl _)
    exact (never _ _ returned).elim
  · have blocks := runToHalt_blocks idle led passes fits log'
    exact ⟨fun ticks held returned => (blocks.never ticks () held returned).elim,
      fun _ => blocks.stopped⟩

/-- The default test, its channel going on after the first pass. -/
def ring : Config :=
  { Config.default with transfer := { ChannelConfig.default with circular := true } }

theorem verdict_on_ring :
    ring.serial.divisor ≠ 0 ∧ ∃ ticks test session,
      (setUp ⟨0, #[]⟩ ring).run ⟨Chip.reset.setLatency 7, ticks, #[]⟩ = .ok test session ∧
      NeverReturns (fun ticks => runToHalt.run ⟨⟨session.device, ticks, #[]⟩, test⟩)
        fun held => Unfinished session.device ring.transfer ramp [] held.session := by
  have divisor : ring.serial.divisor ≠ 0 := by decide
  have verdicts := verdict ring divisor ⟨0, #[]⟩ 7 #[]
  have rests := setUp_idle divisor ⟨0, #[]⟩ 7 #[]
  obtain ⟨enough, returns⟩ := verdicts.returns
  obtain ⟨test, session, returned⟩ := returns enough (Nat.le_refl _)
  obtain ⟨led, same, idle, latency, fits⟩ := rests.holds _ _ _ returned
  have crowded : ¬ Passes test.config.transfer session.device.latency := by
    rw [same, latency]
    exact fun passes => absurd (passes.2 rfl) (by decide)
  have blocks := runToHalt_blocks idle led crowded fits #[]
  have unfinished := (verdicts.holds _ _ _ returned #[]).2 fun ticks => blocks.never ticks ()
  exact ⟨divisor, enough, test, session, returned, blocks.never, unfinished⟩

/-- The default test, its channel staying at the first byte. -/
def still : Config :=
  { Config.default with transfer := { ChannelConfig.default with memoryIncrement := false } }

/-- A test whose channel stays at the first byte passes as well, and does not send the ramp. -/
theorem passes_without_ramp :
    ∃ ticks test session ticks' held,
      (setUp ⟨0, #[]⟩ still).run ⟨Chip.reset.setLatency 0, ticks, #[]⟩ = .ok test session ∧
      runToHalt.run ⟨⟨session.device, ticks', #[]⟩, test⟩ = .ok () held ∧
      held.session.device.transmitted ≠ session.device.transmitted ++
        (Text.bytes started ++ ramp.toList ++ Text.bytes passed) := by
  have divisor : still.serial.divisor ≠ 0 := by decide
  have rests := setUp_idle divisor ⟨0, #[]⟩ 0 #[]
  obtain ⟨enough, returns⟩ := rests.returns
  obtain ⟨test, session, returned⟩ := returns enough (Nat.le_refl _)
  obtain ⟨led, same, idle, -, fits⟩ := rests.holds _ _ _ returned
  have passes : Passes test.config.transfer session.device.latency := by
    rw [same]
    exact ⟨rfl, nofun⟩
  have inTime := runToHalt_passes idle led passes fits #[]
  obtain ⟨enough', returns'⟩ := inTime.returns
  obtain ⟨⟨⟩, held, returned'⟩ := returns' enough' (Nat.le_refl _)
  refine ⟨enough, test, session, enough', held, returned, returned', ?_⟩
  obtain ⟨out, transmitted, rest, all, ending⟩ := inTime.holds _ _ _ returned'
  rw [same] at all ending
  have last : rest = Text.bytes passed := ending
  rw [transmitted, all, last]
  intro equal
  have middle : firstPass still.transfer = ramp.toList :=
    List.append_cancel_left (List.append_cancel_right (List.append_cancel_left equal))
  have second : (firstPass still.transfer)[1]? = some 0 := by decide
  rw [middle, Array.getElem?_toList, ramp_get (by decide)] at second
  exact absurd second (by decide)

end StreamTest

end Peripherals
