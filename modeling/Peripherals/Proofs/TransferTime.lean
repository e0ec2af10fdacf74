import Peripherals.Proofs.FlushedTransfer
import Peripherals.Proofs.LineQueue

/-! # The time that a transfer takes

The first byte of a transfer goes out in the poll in which the transmitter gets
free, and each of the others as many polls later as the line takes for a byte. A
poll takes one tick, even if the transmitter is free already and the line takes
no time. So the poll in which a byte goes out is known beforehand, and waiting
for the transfer ends with the poll of its last byte. -/

namespace Peripherals

open Bus Chip

variable {first chip after : Chip} {c : Channel} {region : Region} {config : ChannelConfig}
  {before bytes : List Byte} {busy latency j : Nat}

/-! ## Slots -/

/-- The poll in which byte `i` of a transfer goes out, if the transmitter was busy for some time
when the transfer began. -/
def slot (busy latency i : Nat) : Nat :=
  max 1 busy + i * max 1 latency

theorem slot_succ (busy latency i : Nat) :
    slot busy latency (i + 1) = slot busy latency i + max 1 latency := by
  rw [slot, slot, Nat.succ_mul, Nat.add_assoc]

theorem slot_mono (busy latency : Nat) {i k : Nat} (le : i ≤ k) :
    slot busy latency i ≤ slot busy latency k :=
  Nat.add_le_add_left (Nat.mul_le_mul_right _ le) _

theorem slot_pos (busy latency i : Nat) : 0 < slot busy latency i := by
  rw [slot]
  omega

namespace Chip

/-- One channel has bytes left, and the others have none. -/
def only (c : Channel) (bytes : List Byte) : Channel → List Byte :=
  Function.update (fun _ => []) c bytes

theorem only_spread (chip : Chip) (c : Channel) (bytes : List Byte) : Spread (only c bytes) chip :=
  .inr ⟨c, fun _ ne => Function.update_of_ne ne _ _⟩

theorem queue_only (c : Channel) (bytes : List Byte) : queue (only c bytes) = bytes := by
  obtain ⟨lower, higher, around⟩ := exists_queue_around (fun _ => []) c
  have empty := around []
  rw [Function.update_eq_self, queue_eq_nil_iff.mpr fun _ => rfl, List.nil_append] at empty
  obtain ⟨rfl, rfl⟩ := List.append_eq_nil_iff.mp empty.symm
  rw [only, around, List.append_nil, List.nil_append]

/-! ## After some polls -/

/-- After `j` polls, a channel that is alone on the line has sent the bytes whose slots have come,
`k` of them. -/
structure OnTime (before bytes : List Byte) (c : Channel) (busy latency j k : Nat) (chip : Chip) :
    Prop where
  within : k ≤ bytes.length
  queued : chip.Queued (only c (bytes.drop k))
  transmitted : chip.transmitted = before ++ bytes.take k
  complete : chip.FlagRaised c .complete ↔ k = bytes.length
  ahead : k < bytes.length → slot busy latency k = j + max 1 chip.busy
  behind : ∀ i, i < k → slot busy latency i ≤ j
  latency : chip.latency = latency

namespace OnTime

variable {k : Nat}

/-- The bytes that were sent are those whose slots have come. -/
theorem sent_iff (onTime : OnTime before bytes c busy latency j k chip) {i : Nat}
    (inside : i < bytes.length) : i < k ↔ slot busy latency i ≤ j := by
  refine ⟨onTime.behind i, fun come => ?_⟩
  by_contra later
  have within := onTime.within
  by_cases more : k < bytes.length
  · have next := onTime.ahead more
    have order : slot busy latency k ≤ slot busy latency i := slot_mono _ _ (Nat.le_of_not_lt later)
    omega
  · omega

/-- The completion flag is raised as soon as the last slot has come. -/
theorem complete_iff (onTime : OnTime before bytes c busy latency j k chip)
    (nonempty : 1 ≤ bytes.length) :
    chip.FlagRaised c .complete ↔ slot busy latency (bytes.length - 1) ≤ j := by
  have within := onTime.within
  rw [onTime.complete, ← onTime.sent_iff (Nat.sub_lt nonempty Nat.one_pos)]
  omega

/-- Before its first poll the channel has sent nothing. -/
theorem begun (line : chip.LineReady) (layout : chip.Layout)
    (alone : ∀ d, d ≠ c → (chip.latch d).active = false) (has : chip.HasLeft c bytes)
    (nonempty : 1 ≤ bytes.length) (clear : ¬ chip.FlagRaised c .complete) :
    OnTime chip.transmitted bytes c chip.busy chip.latency 0 0 chip where
  within := Nat.zero_le _
  queued := by
    constructor
    · exact line
    · exact layout
    · intro d none_left
      by_cases same : d = c
      · rw [same, only, Function.update_self, List.drop_zero] at none_left
        rw [none_left] at nonempty
        cases nonempty
      · exact .of_inactive (alone d same)
    · intro d some_left
      by_cases same : d = c
      · rw [same, only, Function.update_self]
        exact has
      · rw [only, Function.update_of_ne same] at some_left
        exact absurd rfl some_left
  transmitted := (List.append_nil _).symm
  latency := rfl
  complete := ⟨fun raised => absurd raised clear, fun none_left => by omega⟩
  ahead _ := by
    rw [slot, Nat.zero_mul]
    omega
  behind i early := absurd early (Nat.not_lt_zero i)

/-- While the next slot is still to come, a tick brings it closer. -/
theorem waited (onTime : OnTime before bytes c busy latency j k chip)
    (idle : 1 < chip.busy ∨ queue (only c (bytes.drop k)) = []) :
    OnTime before bytes c busy latency (j + 1) k chip.countedDown where
  within := onTime.within
  queued := onTime.queued.of_undisturbed chip.countedDown_undisturbed
  transmitted := onTime.transmitted
  latency := onTime.latency
  complete := onTime.complete
  ahead more := by
    have next := onTime.ahead more
    have down : chip.countedDown.busy = chip.busy - 1 := rfl
    rw [queue_only, List.drop_eq_nil_iff] at idle
    omega
  behind i early := Nat.le_succ_of_le (onTime.behind i early)

/-- In the slot of the next byte, the channel sends it. -/
theorem sent {byte : Byte} {rest : List Byte}
    (onTime : OnTime before bytes c busy latency j k chip) (free : chip.busy ≤ 1)
    (next : bytes.drop k = byte :: rest) (delivered : Delivered chip c byte after) :
    OnTime before bytes c busy latency (j + 1) (k + 1) after := by
  have more : k < bytes.length := by
    by_contra none_left
    rw [List.drop_eq_nil_iff.mpr (Nat.le_of_not_lt none_left)] at next
    cases next
  have mine : only c (bytes.drop k) c = byte :: rest := by
    rw [only, Function.update_self, next]
  have last : chip.itemsLeft c - 1 = 0 ↔ k + 1 = bytes.length := by
    have has : chip.HasLeft c (byte :: rest) :=
      mine ▸ onTime.queued.works c (mine ▸ List.cons_ne_nil _ _)
    have count := has.count
    rw [← next, List.length_drop] at count
    bv_omega
  have due := onTime.ahead more
  rw [List.drop_eq_getElem_cons more] at next
  obtain ⟨same, rfl⟩ := List.cons.inj next
  constructor
  · exact more
  · have queued := onTime.queued.delivered mine delivered
    rwa [only, Function.update_idem] at queued
  · rw [delivered.transmitted, onTime.transmitted, List.append_assoc, ← same,
      List.take_append_getElem more]
  · rw [FlagRaised, delivered.flags, or_and_ne_zero_iff, flagsAfter_and_ne_zero_iff, ← FlagRaised,
      onTime.complete]
    simp only [last]
    omega
  · intro _
    rw [slot_succ, due, delivered.busy.1, onTime.latency]
    omega
  · intro i early
    obtain earlier | rfl := Nat.lt_succ_iff_lt_or_eq.mp early
    · exact Nat.le_succ_of_le (onTime.behind i earlier)
    · omega
  · exact delivered.busy.2.trans onTime.latency

theorem tick (onTime : OnTime before bytes c busy latency j k chip) :
    ∃ after k', Chip.tick.run chip = .ok () after ∧
      OnTime before bytes c busy latency (j + 1) k' after := by
  obtain ⟨left', after, passed, tended, -⟩ := onTime.queued.tick (only_spread chip c _)
  cases tended with
  | waited idle => exact ⟨_, k, passed, onTime.waited idle⟩
  | sent d byte rest _ free next first delivered =>
    obtain rfl : d = c := by
      by_contra other
      rw [only, Function.update_of_ne other] at next
      cases next
    rw [only, Function.update_self] at next
    exact ⟨after, k + 1, passed, onTime.sent free next delivered⟩

end OnTime

/-- How many bytes have gone out after `j` polls is told by their slots. -/
def SentInTime (before bytes : List Byte) (busy latency j : Nat) (chip : Chip) : Prop :=
  ∃ k, chip.transmitted = before ++ bytes.take k ∧
    ∀ i, i < bytes.length → (i < k ↔ slot busy latency i ≤ j)

/-- The state after `j` polls of a transfer. -/
def AfterPolls (before bytes : List Byte) (c : Channel) (busy latency j : Nat) (chip : Chip) :
    Prop :=
  ∃ k, OnTime before bytes c busy latency j k chip

theorem AfterPolls.sentInTime (polled : AfterPolls before bytes c busy latency j chip) :
    SentInTime before bytes busy latency j chip := by
  obtain ⟨k, onTime⟩ := polled
  exact ⟨k, onTime.transmitted, fun _ inside => onTime.sent_iff inside⟩

/-- With the last slot, everything was sent. -/
theorem AfterPolls.all_sent {last : Nat}
    (polled : AfterPolls before bytes c busy latency last chip) (nonempty : 1 ≤ bytes.length)
    (come : slot busy latency (bytes.length - 1) ≤ last) : chip.transmitted = before ++ bytes := by
  obtain ⟨k, onTime⟩ := polled
  have all : k = bytes.length := onTime.complete.mp ((onTime.complete_iff nonempty).mpr come)
  rw [onTime.transmitted, all, List.take_length]

end Chip

/-! ## Polls -/

namespace Dma

variable (nonempty : 1 ≤ bytes.length)

include nonempty

/-- A poll takes a tick, and answers `true` from the last slot on. -/
theorem raised_takes (j : Nat) :
    Takes 1 (AfterPolls before bytes c busy latency j) (raised c .complete : BusM Chip Bool)
      (fun done chip => done = decide (slot busy latency (bytes.length - 1) ≤ j + 1) ∧
        AfterPolls before bytes c busy latency (j + 1) chip)
      fun _ => AfterPolls before bytes c busy latency j := by
  change Takes (1 + 0) _ _ _ _
  refine Takes.bind (R := fun flags chip => flags = chip.peek (Dma1.base + Dma1.isr) ∧
    AfterPolls before bytes c busy latency (j + 1) chip) ?_ fun flags => Takes.pure _ ?_
  · apply Takes.load
    · rintro chip ⟨k, onTime⟩
      obtain ⟨after, k', passed, onTime'⟩ := onTime.tick
      exact ⟨after, _, passed, load_dma onTime'.queued.line.dmaClocked decode_flags, rfl, k',
        onTime'⟩
    · exact fun chip polled => polled
  · rintro chip ⟨rfl, k, onTime⟩
    refine ⟨?_, k, onTime⟩
    rw [Bool.eq_iff_iff, bne_iff_ne, decide_eq_true_iff]
    exact onTime.complete_iff nonempty

/-- Waiting takes as many polls as the slot of the last byte says. -/
theorem wait_takes :
    Takes (slot busy latency (bytes.length - 1)) (AfterPolls before bytes c busy latency 0)
      (wait c)
      (fun _ => AfterPolls before bytes c busy latency (slot busy latency (bytes.length - 1)))
      fun k => AfterPolls before bytes c busy latency k := by
  have each (j : Nat) : Takes 1 (AfterPolls before bytes c busy latency j)
      (raised c .complete) _ _ := raised_takes nonempty j
  have waits := Takes.untilTrue each (slot_pos busy latency _)
  simp only [Nat.sub_zero, Nat.zero_add] at waits
  exact waits

/-- Some polls lead from each state of the transfer to a later one. -/
theorem polls_take (n : Nat) :
    Takes n (AfterPolls before bytes c busy latency 0)
      (times n (do let _ ← raised c .complete) : BusM Chip Unit)
      (fun _ => AfterPolls before bytes c busy latency n)
      fun k => AfterPolls before bytes c busy latency k := by
  have each (j : Nat) : Takes (1 + 0) (AfterPolls before bytes c busy latency j)
      (do let _ ← raised c .complete : BusM Chip Unit)
      (fun _ => AfterPolls before bytes c busy latency (j + 1))
      fun _ => AfterPolls before bytes c busy latency j :=
    Takes.bind (raised_takes nonempty j) fun _ => Takes.pure () fun _ reached => reached.2
  have polls := Takes.times each n 0
  simpa only [Nat.zero_add] using polls

end Dma

/-- Enabling a channel keeps the transmitter as busy as it was. -/
theorem Chip.pace_write_control (clocked : chip.clocked (.dma1 0) = true) (c : Channel)
    (value : Word) : (chip.write (Dma1.register c Dma1.ccr) value).busy = chip.busy ∧
      (chip.write (Dma1.register c Dma1.ccr) value).latency = chip.latency := by
  rw [write_control clocked, storeControl]
  split
  · exact ⟨rfl, rfl⟩
  split <;> exact ⟨rfl, rfl⟩

section Start

variable (layout : first.Layout) (line : first.LineReady)
  (alone : ∀ d, d ≠ c → (first.latch d).active = false) (member : region ∈ first.regions)
  (nonempty : 1 ≤ region.bytes.size) (ready : first.Ready c region)
  (clear : ¬ first.FlagRaised c .complete) (forward : config.Forward)

include layout line alone member nonempty ready clear forward

/-- Starting a channel takes no time, and begins its transfer. -/
theorem Dma.start_takes {E : Nat → Chip → Prop} :
    Takes 0 (· = first) (Dma.start c config : BusM Chip Unit)
      (fun _ => AfterPolls first.transmitted region.bytes.toList c first.busy first.latency 0)
      E := by
  apply Takes.write
  intro chip same
  rw [same]
  have wrote := controlled (c := c) line.dmaClocked (config.bits ||| Dma1.enable)
  obtain ⟨busy, latency⟩ := pace_write_control line.dmaClocked c (config.bits ||| Dma1.enable)
  have confined := wrote.confined
  have streams := ChannelConfig.streams forward.reads forward.memory forward.peripheral forward.once
  have has := ready.hasLeft layout member config.control_enables streams wrote
  have alone' (d : Channel) (ne : d ≠ c) :
      ((first.write (Dma1.register c Dma1.ccr) (config.bits ||| Dma1.enable)).latch d).active =
        false := by
    rw [(confined.others d ne).latch]
    exact alone d ne
  have clear' : ¬ (first.write (Dma1.register c Dma1.ccr)
      (config.bits ||| Dma1.enable)).FlagRaised c .complete := by
    rw [FlagRaised, wrote.flags]
    exact clear
  have begun := OnTime.begun (line.of_same confined.line) (layout.of_same confined.memory) alone'
    has nonempty clear'
  rw [confined.transmitted, busy, latency] at begun
  exact ⟨0, begun⟩

/-- What polls right after the start do, with the start, and what a program that runs out of ticks
meanwhile has sent. -/
theorem Dma.start_then_takes {n : Nat} {polls : BusM Chip Unit} {Q : Unit → Chip → Prop}
    (takes : Takes n (AfterPolls first.transmitted region.bytes.toList c first.busy first.latency 0)
      polls Q (AfterPolls first.transmitted region.bytes.toList c first.busy first.latency)) :
    Takes n (· = first) (do Dma.start c config; polls) Q
      (SentInTime first.transmitted region.bytes.toList first.busy first.latency) := by
  have starts := Dma.start_takes (E := SentInTime first.transmitted region.bytes.toList first.busy
    first.latency) layout line alone member nonempty ready clear forward
  rw [← Nat.zero_add n]
  refine Takes.bind starts fun _ => takes.weaken (fun _ chip reached => reached) ?_
  intro k chip polled
  rw [Nat.zero_add]
  exact polled.sentInTime

/-- So the time of the whole transfer is known when it starts. -/
theorem Dma.start_wait_takes :
    Takes (slot first.busy first.latency (region.bytes.size - 1)) (· = first) (do
        Dma.start c config
        Dma.wait c : BusM Chip Unit)
      (fun _ chip => chip.transmitted = first.transmitted ++ region.bytes.toList)
      (SentInTime first.transmitted region.bytes.toList first.busy first.latency) := by
  have waits := Dma.start_then_takes layout line alone member nonempty ready clear forward
    (Dma.wait_takes nonempty)
  refine waits.weaken (fun _ chip polled => ?_) fun _ _ sent => sent
  exact polled.all_sent nonempty (Nat.le_refl _)

/-- Any number of polls sends the bytes whose slots have come by then. -/
theorem Dma.start_polls_take (n : Nat) :
    Takes n (· = first) (do
        Dma.start c config
        times n (do let _ ← Dma.raised c .complete) : BusM Chip Unit)
      (fun _ => SentInTime first.transmitted region.bytes.toList first.busy first.latency n)
      (SentInTime first.transmitted region.bytes.toList first.busy first.latency) := by
  have polls := Dma.start_then_takes layout line alone member nonempty ready clear forward
    (Dma.polls_take nonempty n)
  exact polls.weaken (fun _ _ polled => polled.sentInTime) fun _ _ sent => sent

end Start

/-- A channel that is started towards the data register, alone on the line, has sent its buffer
after exactly as many polls as the slot of its last byte says. With fewer ticks a wait for it does
not return, and after any number of polls exactly the bytes were sent whose slots have come. -/
theorem Dma.wait_returns_at_last_slot (reachable : Reachable Action.Addressable first)
    (line : first.LineReady) (alone : ∀ d, d ≠ c → (first.latch d).active = false)
    (member : region ∈ first.regions) (nonempty : 1 ≤ region.bytes.size)
    (ready : first.Ready c region) (clear : ¬ first.FlagRaised c .complete)
    (forward : config.Forward) (log : Array Access) :
    (∀ ticks, slot first.busy first.latency (region.bytes.size - 1) ≤ ticks →
      ∃ after, (do
          Dma.start c config
          Dma.wait c : BusM Chip Unit).run ⟨first, ticks, log⟩ = .ok () after ∧
        after.ticks + slot first.busy first.latency (region.bytes.size - 1) = ticks ∧
        after.device.transmitted = first.transmitted ++ region.bytes.toList) ∧
    (∀ ticks, ticks < slot first.busy first.latency (region.bytes.size - 1) →
      ∃ after, (do
          Dma.start c config
          Dma.wait c : BusM Chip Unit).run ⟨first, ticks, log⟩ = .error .outOfTicks after ∧
        SentInTime first.transmitted region.bytes.toList first.busy first.latency ticks
          after.device) ∧
    ∀ j ticks, j ≤ ticks →
      ∃ after, (do
          Dma.start c config
          times j (do let _ ← Dma.raised c .complete) : BusM Chip Unit).run ⟨first, ticks, log⟩ =
            .ok () after ∧
        after.ticks + j = ticks ∧
        SentInTime first.transmitted region.bytes.toList first.busy first.latency j
          after.device := by
  have layout := reachable.layout
  have waits := Dma.start_wait_takes layout line alone member nonempty ready clear forward
  refine ⟨fun ticks enough => ?_, fun ticks few => ?_, fun j ticks enough => ?_⟩
  · obtain ⟨_, after, returned, sent, left⟩ := waits.returns ⟨first, ticks, log⟩ rfl enough
    exact ⟨after, returned, left, sent⟩
  · exact waits.stops ⟨first, ticks, log⟩ rfl few
  · have polls := Dma.start_polls_take layout line alone member nonempty ready clear forward j
    obtain ⟨_, after, returned, sent, left⟩ := polls.returns ⟨first, ticks, log⟩ rfl enough
    exact ⟨after, returned, left, sent⟩

/-- A channel is programmed to send two bytes, on a line on which a byte takes three ticks. -/
def Chip.twoProgrammed (c : Channel) : Chip :=
  (broughtUp.programmed c Serial.target 0x20000000 2).setLatency 3

theorem Chip.twoProgrammed_reachable (c : Channel) :
    Reachable Action.Addressable (twoProgrammed c) := by
  apply Reachable.perform (.setLatency 3) _ trivial rfl
  exact broughtUp_reachable.addressable.programmed (fun _ _ => trivial) c _ _ _

theorem Chip.twoProgrammed_shares (c : Channel) :
    ⟨0x20000000, #[7, 8]⟩ ∈ (twoProgrammed c).regions := by
  have latency (chip : Chip) : (chip.setLatency 3).regions = chip.regions := rfl
  rw [twoProgrammed, latency, regions_programmed]
  exact broughtUp_shares

theorem Dma.wait_returns_in_fourth_poll :
    Reachable Action.Addressable (twoProgrammed 2) ∧ (twoProgrammed 2).LineReady ∧
    (∀ d, d ≠ 2 → ((twoProgrammed 2).latch d).active = false) ∧
    (⟨0x20000000, #[7, 8]⟩ : Region) ∈ (twoProgrammed 2).regions ∧
    (twoProgrammed 2).Ready 2 ⟨0x20000000, #[7, 8]⟩ ∧ ¬ (twoProgrammed 2).FlagRaised 2 .complete ∧
    ChannelConfig.default.Forward ∧
    ∃ after, (do
        Dma.start 2 .default
        Dma.wait 2 : BusM Chip Unit).run ⟨twoProgrammed 2, 9, #[]⟩ = .ok () after ∧
      after.ticks + 4 = 9 ∧ after.device.transmitted = [7, 8] := by
  have line : (twoProgrammed 2).LineReady :=
    ⟨⟨by decide +kernel, by decide +kernel, by decide +kernel⟩, by decide +kernel⟩
  have alone : ∀ d, d ≠ 2 → ((twoProgrammed 2).latch d).active = false := by
    decide +kernel
  have ready : (twoProgrammed 2).Ready 2 ⟨0x20000000, #[7, 8]⟩ :=
    ⟨by decide +kernel, by decide +kernel, by decide +kernel, by decide +kernel,
      by decide +kernel⟩
  have clear : ¬ (twoProgrammed 2).FlagRaised 2 .complete := by
    rw [FlagRaised]
    decide +kernel
  have forward : ChannelConfig.default.Forward := ⟨rfl, rfl, rfl, rfl⟩
  have silent : (twoProgrammed 2).transmitted = [] := by decide +kernel
  have last : slot (twoProgrammed 2).busy (twoProgrammed 2).latency
      ((⟨0x20000000, #[7, 8]⟩ : Region).bytes.size - 1) = 4 := by
    decide +kernel
  obtain ⟨returns, -, -⟩ := Dma.wait_returns_at_last_slot (twoProgrammed_reachable 2) line alone
    (twoProgrammed_shares 2) (by decide) ready clear forward #[]
  rw [silent, last] at returns
  have fourth := returns 9 (by decide)
  exact ⟨twoProgrammed_reachable 2, line, alone, twoProgrammed_shares 2, ready, clear, forward,
    fourth⟩

end Peripherals
