import Peripherals.Proofs.LineFeed
import Peripherals.Proofs.Programming

/-! # A single transfer

While one channel feeds the line and no other is active, a tick is one turn of
that channel. What was transmitted since it was started is as much of its buffer
as its count says, its flags follow the count, and every tick brings the
transfer closer to its end. -/

namespace Peripherals

namespace Chip

variable {chip after : Chip} {c : Channel} {region : Region} {before : List Byte}

/-! ## Flags -/

/-- A flag of a channel is set. -/
def FlagRaised (chip : Chip) (c : Channel) (flag : TransferFlag) : Prop :=
  chip.peek (Dma1.base + Dma1.isr) &&& Dma1.flagsOf c flag.bit ≠ 0

/-- Counting an item raises the half flag in the middle of a pass and the completion flag at
its end, and no error. -/
theorem flagsAfter_and_ne_zero_iff (chip : Chip) (c : Channel) (left : Word) (flag : TransferFlag) :
    chip.flagsAfter c left &&& Dma1.flagsOf c flag.bit ≠ 0 ↔
      match flag with
      | .error => False
      | .half => left = (chip.latch c).reload / 2
      | .complete => left = 0 := by
  have none_set : ¬ (0 : Word) &&& Dma1.flagsOf c flag.bit ≠ 0 := by simp
  have half : Dma1.flagsOf c (Dma1.halfFlag ||| Dma1.globalFlag) &&& Dma1.flagsOf c flag.bit ≠ 0 ↔
      flag = .half := by
    revert c
    cases flag <;> decide
  have complete : Dma1.flagsOf c (Dma1.completeFlag ||| Dma1.globalFlag) &&&
      Dma1.flagsOf c flag.bit ≠ 0 ↔ flag = .complete := by
    revert c
    cases flag <;> decide
  rw [flagsAfter, or_and_ne_zero_iff]
  split <;> split <;> simp only [half, complete, none_set] <;> cases flag <;> simp_all

/-- The flags of a channel tell how far it got with a buffer. -/
structure FlagsTell (chip : Chip) (c : Channel) (region : Region) : Prop where
  complete : chip.FlagRaised c .complete ↔ chip.itemsLeft c = 0
  half : chip.FlagRaised c .half ↔
    1 ≤ chip.movedCount c region ∧ (chip.itemsLeft c).toNat ≤ region.bytes.size / 2
  error : ¬ chip.FlagRaised c .error

theorem FlagsTell.of_same (count : after.itemsLeft c = chip.itemsLeft c)
    (flags : after.peek (Dma1.base + Dma1.isr) = chip.peek (Dma1.base + Dma1.isr))
    (tell : chip.FlagsTell c region) : after.FlagsTell c region := by
  have raised (flag : TransferFlag) : after.FlagRaised c flag ↔ chip.FlagRaised c flag := by
    rw [FlagRaised, flags, FlagRaised]
  constructor
  · rw [raised, count]
    exact tell.complete
  · rw [raised, movedCount, count]
    exact tell.half
  · rw [raised]
    exact tell.error

theorem Sends.flagsTell (sends : Sends chip c region after) (feed : chip.Feed c region)
    (tell : chip.FlagsTell c region) : after.FlagsTell c region := by
  have raised (flag : TransferFlag) : after.FlagRaised c flag ↔ chip.FlagRaised c flag ∨
      chip.flagsAfter c (chip.itemsLeft c - 1) &&& Dma1.flagsOf c flag.bit ≠ 0 := by
    rw [FlagRaised, sends.flags, or_and_ne_zero_iff, FlagRaised]
  have count := sends.itemsLeft
  have some_left := sends.some_left
  have before := feed.count_le
  have short := feed.short
  constructor
  · rw [raised, flagsAfter_and_ne_zero_iff, tell.complete, count]
    tauto
  · have middle : chip.itemsLeft c - 1 = (chip.latch c).reload / 2 ↔
        (chip.itemsLeft c - 1).toNat = region.bytes.size / 2 := by
      have half : (BitVec.ofNat 32 region.bytes.size / 2).toNat = region.bytes.size / 2 := by
        rw [BitVec.toNat_udiv, BitVec.toNat_ofNat, Nat.mod_eq_of_lt (by omega)]
        rfl
      rw [sends.reload, ← half, BitVec.toNat_inj]
    rw [raised, flagsAfter_and_ne_zero_iff, tell.half]
    simp only [middle, movedCount, count]
    bv_omega
  · rw [raised, flagsAfter_and_ne_zero_iff]
    intro h
    exact h.elim tell.error id

/-- Clearing all flags of a channel leaves none of them. -/
theorem cleared_and_flag (flags : Word) (c : Channel) (flag : TransferFlag) :
    flags &&& ~~~Dma1.flagsOf c (Dma1.channelFlags ||| Dma1.globalFlag) &&&
      Dma1.flagsOf c flag.bit = 0 := by
  have outside : ~~~Dma1.flagsOf c (Dma1.channelFlags ||| Dma1.globalFlag) &&&
      Dma1.flagsOf c flag.bit = 0 := by
    revert c
    cases flag <;> decide
  rw [BitVec.and_assoc, outside]
  exact BitVec.and_zero

/-- Before the first byte, a channel whose flags were cleared tells nothing. -/
theorem FlagsTell.of_cleared {flags : Word} (nonempty : 1 ≤ region.bytes.size)
    (short : region.bytes.size ≤ 0xFFFF)
    (length : chip.itemsLeft c = BitVec.ofNat 32 region.bytes.size)
    (cleared : chip.peek (Dma1.base + Dma1.isr) =
      flags &&& ~~~Dma1.flagsOf c (Dma1.channelFlags ||| Dma1.globalFlag)) :
    chip.FlagsTell c region := by
  have count := toNat_itemsLeft short length
  have clear (flag : TransferFlag) : ¬ chip.FlagRaised c flag := by
    rw [FlagRaised, cleared, not_not]
    exact cleared_and_flag flags c flag
  constructor
  · refine ⟨fun h => (clear _ h).elim, fun h => ?_⟩
    rw [h] at count
    have zero : (0 : Word).toNat = 0 := rfl
    omega
  · refine ⟨fun h => (clear _ h).elim, fun h => ?_⟩
    rw [movedCount_eq_zero short length] at h
    omega
  · exact clear _

/-! ## A transfer under way -/

/-- A channel that is alone on the line sent as much of a buffer as its count says, behind what
had been transmitted before. -/
structure Sending (before : List Byte) (c : Channel) (region : Region) (chip : Chip) : Prop where
  line : chip.LineReady
  layout : chip.Layout
  feed : chip.Feed c region
  tell : chip.FlagsTell c region
  alone : ∀ d, d ≠ c → (chip.latch d).active = false
  transmitted : chip.transmitted = before ++ chip.movedBytes c region

/-- How many ticks the transmitter needs at most for what a channel has left. -/
def pending (chip : Chip) (c : Channel) : Nat :=
  chip.busy + (chip.itemsLeft c).toNat * (chip.latency + 1)

namespace Sending

theorem of_undisturbed (sending : Sending before c region chip)
    (undisturbed : Undisturbed chip after) : Sending before c region after where
  line := sending.line.of_same undisturbed.line
  layout := sending.layout.of_same undisturbed.memory
  feed := by
    apply sending.feed.of_same (undisturbed.channels c)
    rw [undisturbed.memory.1]
    exact sending.feed.registered
  tell := sending.tell.of_same (undisturbed.channels c).itemsLeft undisturbed.flags
  alone d ne := by
    rw [(undisturbed.channels d).latch]
    exact sending.alone d ne
  transmitted := by
    rw [undisturbed.transmitted, movedBytes_of_same (undisturbed.channels c)]
    exact sending.transmitted

theorem of_sends (sending : Sending before c region chip) (sends : Sends chip c region after) :
    Sending before c region after where
  line := sending.line.of_same sends.line
  layout := sending.layout.of_same sends.memory
  feed := sends.feed
  tell := sends.flagsTell sending.feed sending.tell
  alone d ne := by
    rw [(sends.others d ne).latch]
    exact sending.alone d ne
  transmitted := by
    obtain ⟨byte, sent, moved⟩ := sends.sent
    rw [sent, moved, sending.transmitted, List.append_assoc]

/-- A tick is a turn of the channel. It sends a byte, if there is one left and the transmitter is
free. -/
theorem tick_turns (sending : Sending before c region chip) :
    (Chip.tick.run chip = .ok () chip.countedDown ∧
      ((chip.latch c).active = true → chip.itemsLeft c = 0 ∨ chip.busy - 1 ≠ 0)) ∨
    ∃ after, Chip.tick.run chip = .ok () after ∧ Turn chip.countedDown c after ∧
      Sends chip.countedDown c region after := by
  have begun := sending.of_undisturbed chip.countedDown_undisturbed
  have clocked : chip.clocked (.dma1 0) = true := sending.line.dmaClocked
  rw [tick_eq, if_pos clocked]
  obtain ⟨turn, waits⟩ | ⟨after, turn, sends⟩ := begun.feed.turn begun.layout begun.line
  · exact .inl ⟨serve_one turn begun.alone begun.alone, waits⟩
  · exact .inr ⟨after, serve_one turn begun.alone (begun.of_sends sends).alone, turn, sends⟩

/-- A tick takes an active channel closer to the end of its transfer, until it has got there. -/
theorem tick (sending : Sending before c region chip) :
    ∃ after, Chip.tick.run chip = .ok () after ∧ Sending before c region after ∧
      ((chip.latch c).active = true → (after.latch c).active = true ∧
        (after.itemsLeft c ≠ 0 → after.pending c < chip.pending c)) := by
  have begun := sending.of_undisturbed chip.countedDown_undisturbed
  obtain ⟨passed, waits⟩ | ⟨after, passed, -, sends⟩ := sending.tick_turns
  · refine ⟨chip.countedDown, passed, begun, fun active => ⟨active, fun some_left => ?_⟩⟩
    have busy : chip.busy - 1 ≠ 0 := (waits active).resolve_left some_left
    change chip.busy - 1 + (chip.itemsLeft c).toNat * (chip.latency + 1) <
      chip.busy + (chip.itemsLeft c).toNat * (chip.latency + 1)
    omega
  · refine ⟨after, passed, begun.of_sends sends, fun _ => ⟨sends.active, fun _ => ?_⟩⟩
    have one_less : (chip.itemsLeft c).toNat = (after.itemsLeft c).toNat + 1 := by
      have count : after.itemsLeft c = chip.itemsLeft c - 1 := sends.itemsLeft
      have some_left : chip.itemsLeft c ≠ 0 := sends.some_left
      bv_omega
    obtain ⟨busy, latency⟩ : after.busy = chip.latency ∧ after.latency = chip.latency := sends.busy
    rw [pending, pending, busy, latency, one_less, Nat.succ_mul]
    omega

/-- Stopping the channel keeps what it has sent. -/
theorem of_stop {value : Word} (sending : Sending before c region chip)
    (off : value &&& Dma1.enable = 0) (wrote : Controlled c value chip after) :
    Sending before c region after := by
  have latch := wrote.latch
  rw [if_pos off] at latch
  have inactive : (after.latch c).active = false := by rw [latch]
  have never (active : (after.latch c).active = true) : False := by
    rw [inactive] at active
    cases active
  have count := wrote.itemsLeft
  constructor
  · exact sending.line.of_same wrote.confined.line
  · exact sending.layout.of_same wrote.confined.memory
  · constructor
    · rw [wrote.confined.memory.1]
      exact sending.feed.registered
    · exact sending.feed.short
    · rw [count]
      exact sending.feed.count_le
    · rw [inactive, wrote.enabled, off]
      rfl
    · intro active
      exact (never active).elim
    · intro active
      exact (never active).elim
  · exact sending.tell.of_same count wrote.flags
  · intro d ne
    rw [(wrote.confined.others d ne).latch]
    exact sending.alone d ne
  · rw [wrote.confined.transmitted, movedBytes, movedCount, count]
    exact sending.transmitted

theorem steady (before : List Byte) (c : Channel) (region : Region) :
    Steady (Sending before c region) where
  tick sending := by
    obtain ⟨after, passed, sending', -⟩ := sending.tick
    exact ⟨after, passed, sending'⟩
  undisturbed sending undisturbed := sending.of_undisturbed undisturbed

end Sending

/-! ## A channel to be programmed -/

/-- The line is ready, no channel is active, and a buffer is shared for a disabled channel. -/
structure Vacant (before : List Byte) (c : Channel) (region : Region) (chip : Chip) : Prop where
  line : chip.LineReady
  layout : chip.Layout
  disabled : chip.channelEnabled c = false
  inactive : ∀ d, (chip.latch d).active = false
  shared : region ∈ chip.regions
  transmitted : chip.transmitted = before

theorem Vacant.tick (vacant : Vacant before c region chip) :
    Chip.tick.run chip = .ok () chip.countedDown := by
  have clocked : chip.clocked (.dma1 0) = true := vacant.line.dmaClocked
  rw [tick_eq, if_pos clocked]
  exact serve_inactive fun d _ => vacant.inactive d

theorem Vacant.countedDown (vacant : Vacant before c region chip) :
    Vacant before c region chip.countedDown := by
  have undisturbed := chip.countedDown_undisturbed
  constructor
  · exact vacant.line.of_same undisturbed.line
  · exact vacant.layout.of_same undisturbed.memory
  · exact vacant.disabled
  · exact vacant.inactive
  · exact vacant.shared
  · exact vacant.transmitted

/-- A vacant channel was programmed for the buffer, and its flags were cleared. -/
structure Prepared (before : List Byte) (c : Channel) (region : Region) (chip : Chip) : Prop where
  vacant : Vacant before c region chip
  ready : chip.Ready c region
  cleared : ∃ flags, chip.peek (Dma1.base + Dma1.isr) =
    flags &&& ~~~Dma1.flagsOf c (Dma1.channelFlags ||| Dma1.globalFlag)

theorem Vacant.prepared (vacant : Vacant before c region chip) :
    Prepared before c region (chip.programmed c Serial.target region.base
      (BitVec.ofNat 32 region.bytes.size)) := by
  have programmed := programmed_spec vacant.line.dmaClocked vacant.disabled Serial.target
    region.base (BitVec.ofNat 32 region.bytes.size)
  refine ⟨?_, programmed.ready vacant.disabled (vacant.inactive c), _, programmed.flags⟩
  constructor
  · exact vacant.line.of_same programmed.confined.line
  · exact vacant.layout.of_same programmed.confined.memory
  · exact programmed.disabled vacant.disabled
  · intro d
    by_cases same : d = c
    · rw [same, programmed.latch]
      exact vacant.inactive c
    · rw [(programmed.confined.others d same).latch]
      exact vacant.inactive d
  · rw [programmed.confined.memory.1]
    exact vacant.shared
  · rw [programmed.confined.transmitted]
    exact vacant.transmitted

/-- A prepared channel that is started begins its transfer. -/
theorem Prepared.start {value : Word} (prepared : Prepared before c region chip)
    (nonempty : 1 ≤ region.bytes.size) (short : region.bytes.size ≤ 0xFFFF)
    (on : value &&& Dma1.enable ≠ 0) (streams : Streams value)
    (wrote : Controlled c value chip after) :
    Sending before c region after ∧ (after.latch c).active = true := by
  obtain ⟨vacant, ready, flags, cleared⟩ := prepared
  have length : after.itemsLeft c = BitVec.ofNat 32 region.bytes.size :=
    wrote.itemsLeft.trans ready.length
  have started := ready.start vacant.shared short on streams wrote
  refine ⟨?_, started.2⟩
  constructor
  · exact vacant.line.of_same wrote.confined.line
  · exact vacant.layout.of_same wrote.confined.memory
  · exact started.1
  · exact .of_cleared nonempty short length (wrote.flags.trans cleared)
  · intro d ne
    rw [(wrote.confined.others d ne).latch]
    exact vacant.inactive d
  · rw [wrote.confined.transmitted, vacant.transmitted, movedBytes,
      movedCount_eq_zero short length, List.take_zero, List.append_nil]

end Chip

end Peripherals
