import Peripherals.Proofs.BufferPlacement
import Peripherals.Proofs.ClockGating
import Peripherals.Proofs.FlagHistory
import Peripherals.Proofs.TransferTime

/-! # Blocked transfers

A channel does not move while USART3 asks it for nothing or has no clock, nor if
it goes in another direction or has no items left. What it tests for this comes
before it looks into memory, so that a blocked channel can neither lose an item
nor fail. It stays as it is, whatever the other channels and the program do, and
a wait for it does not return. When USART3 asks for bytes after all, the
transfer takes place from its first byte on. -/

namespace Peripherals

open Bus Chip

variable {first chip after : Chip} {c d : Channel}

/-! ## Obstacles -/

/-- The direction that the control value of a channel gives. -/
def Chip.directionOf (chip : Chip) (c : Channel) : Direction :=
  if chip.controlOf c &&& Dma1.fromMemory ≠ 0 then .fromMemory
  else if chip.controlOf c &&& Dma1.memoryToMemory ≠ 0 then .memoryToMemory
  else .fromPeripheral

/-- A started channel goes in the direction that it was configured for. -/
theorem Chip.directionOf_started {config : ChannelConfig}
    (control : chip.controlOf c = config.bits ||| Dma1.enable) :
    chip.directionOf c = config.direction := by
  simp only [directionOf, control, ChannelConfig.control_fromMemory_iff,
    ChannelConfig.control_memoryToMemory_iff]
  cases config.direction <;> rfl

/-- What can keep a channel from moving an item. -/
inductive Obstacle
  | requestsOff
  | clockOff
  | otherDirection
  | nothingLeft

/-- The part of an obstacle that the channel itself shows. -/
def Obstacle.Meets (obstacle : Obstacle) (chip : Chip) (c : Channel) : Prop :=
  match obstacle with
  | .requestsOff | .clockOff => (chip.latch c).target = Serial.target
  | .otherDirection => chip.directionOf c ≠ .fromMemory
  | .nothingLeft => chip.itemsLeft c = 0

/-- The part of an obstacle that lies outside of the channel. -/
def Obstacle.Stands (obstacle : Obstacle) (chip : Chip) : Prop :=
  match obstacle with
  | .requestsOff => chip.peek (Usart3.base + Usart3.cr3) &&& Usart3.dmaTransmit = 0
  | .clockOff => Gated.serial.Off chip
  | .otherDirection | .nothingLeft => True

instance (obstacle : Obstacle) (chip : Chip) : Decidable (obstacle.Stands chip) :=
  match obstacle with
  | .requestsOff | .clockOff => inferInstanceAs (Decidable (_ = _))
  | .otherDirection | .nothingLeft => isTrue trivial

variable {obstacle : Obstacle}

theorem Obstacle.Meets.of_same (same : SameChannel c first chip)
    (meets : obstacle.Meets first c) : obstacle.Meets chip c := by
  cases obstacle with
  | requestsOff | clockOff =>
    rw [Meets, same.latch]
    exact meets
  | otherDirection =>
    rw [Meets, directionOf, same.controlOf]
    exact meets
  | nothingLeft =>
    rw [Meets, same.itemsLeft]
    exact meets

/-- A channel that meets an obstacle cannot move. -/
theorem Obstacle.blocks (meets : obstacle.Meets chip c) (stands : obstacle.Stands chip) :
    chip.canMove c = false := by
  by_contra able
  rw [Bool.not_eq_false] at able
  have tests := able
  simp only [canMove, Bool.and_eq_true, bne_iff_ne, ne_eq] at tests
  cases obstacle with
  | requestsOff =>
    have requests := requestsData_of_canMove able meets
    simp only [requestsData, Bool.and_eq_true, bne_iff_ne, ne_eq] at requests
    exact requests.1.2 stands
  | clockOff =>
    have data : Gated.serial.Holds (Usart3.base + Usart3.tdr) := trivial
    have requests := requestsData_of_canMove able meets
    simp only [requestsData, Bool.and_eq_true] at requests
    exact Gated.not_clocked stands data requests.1.1
  | otherDirection => exact meets (if_pos tests.1.2)
  | nothingLeft => exact tests.1.1 meets

/-- Its turn changes nothing. -/
theorem Obstacle.turn (meets : obstacle.Meets chip c) (stands : obstacle.Stands chip) :
    Turn chip c chip :=
  .rest fun _ => Obstacle.blocks meets stands

/-! ## What every part of a run keeps -/

namespace Chip

/-- A moment leaves an obstacle in place and does not store into the control register of a channel.
The other registers of the channel are locked while it is enabled. -/
def Moment.Respects (obstacle : Obstacle) (c : Channel) (moment : Moment) : Prop :=
  obstacle.Stands moment.chip ∧ moment.storesAt? ≠ some (Dma1.register c Dma1.ccr)

instance (obstacle : Obstacle) (c : Channel) : DecidablePred (Moment.Respects obstacle c) :=
  fun _ => inferInstanceAs (Decidable (_ ∧ _))

theorem unraised_of_group (clear : chip.flagGroup c = 0) (flag : TransferFlag) :
    ¬chip.FlagRaised c flag := by
  have unset : ¬chip.Signals c (.only flag) := not_signals_of_group clear
  exact unset

/-- The turn of one channel raises no flag of another, also where it faults. -/
theorem serveChannel_unraised (ne : d ≠ c) :
    Upholds (fun chip => chip.flagGroup c = 0) (serveChannel d) := by
  refine serveChannel_upholds (fun _ _ clear => clear) (fun chip control left clear => ?_)
    (fun chip byte clear => (store_effect chip _ _).unraised clear) fun chip clear => ?_
  · rw [countItem_eq, flagGroup, peek_poke, if_neg (Dma1.register_ne_flags d Dma1.cndtr_inside),
      peek_setLatch, flagged, peek_poke, if_pos rfl, BitVec.and_or_distrib_right,
      flagsAfter_group chip ne, ← flagGroup, clear]
    exact BitVec.zero_or
  · have apart := raised_and_group ne .error
    rw [flagGroup, flags_busError, BitVec.and_or_distrib_right, ← flagGroup, clear]
    exact BitVec.zero_or.trans apart

section Parts

variable (meets : obstacle.Meets first c)

include meets

theorem Stays.turn (stays : Stays first c chip) (stands : obstacle.Stands chip) :
    stateAfter (serveChannel c) chip = chip :=
  stateAfter_of_ok (serveChannel_eq_ok_iff.mpr (Obstacle.turn (meets.of_same stays.same) stands))

theorem Stays.part {part : Part} (stays : Stays first c chip)
    (enabled : first.channelEnabled c = true) (single : part.Indivisible)
    (respects : Moment.Respects obstacle c ⟨part, chip⟩) : Stays first c (part.after chip) := by
  have waits : part = .turn c → part.after chip = chip := by
    rintro rfl
    exact stays.turn meets respects.1
  refine ⟨stays.same.trans ?_, ?_⟩
  · exact Gated.sameChannel_of_part single (stays.same.enabled.trans enabled) respects.2 waits
  have clear := stays.clear
  cases part with
  | countDown | countNop => exact clear
  | load address =>
    obtain ⟨rest, loaded⟩ := stateAfter_load chip address
    rw [Part.after, loaded]
    exact clear
  | turn d =>
    by_cases own : d = c
    · rw [waits (congrArg Part.turn own)]
      exact clear
    · exact serveChannel_unraised own chip clear
  | whole action =>
    cases action with
    | write address value =>
      exact (store_effect (chip.noted address value) address value).unraised clear
    | share bytes =>
      obtain ⟨regions, next, shared⟩ := stateAfter_share chip bytes
      rw [Part.after, shared]
      exact clear
    | read | nop => cases single
    | breakpoint | drive | release | connect | pushReceived | setLatency | clearEvents =>
      exact clear

theorem Stays.guarded (enabled : first.channelEnabled c = true) :
    Guarded (Moment.Respects obstacle c) (Stays first c) :=
  fun _ _ onBus respects _ stays => stays.part meets enabled onBus.indivisible respects

end Parts

end Chip

/-! ## Runs and waits -/

namespace Dma

theorem raised_projects (c : Channel) (flag : TransferFlag) :
    Projects Recorded.unrecorded (raised c flag) (raised c flag) :=
  .bind (Recorded.read_projects _) fun _ => .pure _

theorem wait_projects (c : Channel) : Projects Recorded.unrecorded (wait c) (wait c) :=
  Recorded.untilTrue_projects (raised_projects c .complete)

end Dma

namespace Recorded

/-- Every moment of a record leaves an obstacle in place. -/
def Respected (obstacle : Obstacle) (c : Channel) (r : Recorded) : Prop :=
  ∀ moment ∈ r.moments, moment.Respects obstacle c

instance (obstacle : Obstacle) (c : Channel) (r : Recorded) : Decidable (r.Respected obstacle c) :=
  inferInstanceAs (Decidable (∀ moment ∈ r.moments, _))

/-- Throughout a run a channel stayed as it was: its registers with its count and its enable bit,
its addresses, and its flags. None of its turns changed anything. -/
structure Stood (first : Chip) (c : Channel) (r : Recorded) : Prop where
  now : SameChannel c first r.chip ∧ r.chip.flagGroup c = first.flagGroup c
  began : ∀ moment ∈ r.moments,
    SameChannel c first moment.chip ∧ moment.chip.flagGroup c = first.flagGroup c
  idle : ∀ moment ∈ r.moments, moment.part = .turn c → moment.after = moment.chip

/-- A load of the flags that shows one of them leaves it raised. -/
theorem load_raised {r after : Recorded} {value : Word} {flag : TransferFlag}
    (returned : (Target.load (Dma1.base + Dma1.isr) : EStateM Fault Recorded Word).run r =
      .ok value after) (shows : (value &&& Dma1.flagsOf c flag.bit != 0) = true) :
    after.chip.FlagRaised c flag := by
  obtain ⟨ticked, -, loads⟩ := run_seq_eq_ok_iff.mp returned
  rw [run_note] at loads
  have flags : (Chip.load (Dma1.base + Dma1.isr)).run ticked.chip =
      .ok (if ticked.chip.clocked (.dma1 0) then ticked.chip.peek (Dma1.base + Dma1.isr) else 0)
        ticked.chip := by
    have clock : ticked.chip.clocked (.dma1 Dma1.isr) = ticked.chip.clocked (.dma1 0) := rfl
    simp only [Chip.load, EStateM.run, decode_flags, clock]
    split <;> rfl
  rw [flags] at loads
  obtain ⟨rfl, rfl⟩ := EStateM.Result.ok.inj loads
  split at shows
  · exact bne_iff_ne.mp shows
  · exact absurd BitVec.zero_and (bne_iff_ne.mp shows)

section Waits

variable (meets : obstacle.Meets first c) (enabled : first.channelEnabled c = true)

include meets enabled

/-- A look at a flag of a blocked channel never finds it raised. -/
theorem raised_blocked (flag : TransferFlag) :
    Leads (fun r => r.Respected obstacle c → r.Guards (Stays first c))
      (Dma.raised c flag : BusM Recorded Bool)
      (fun done r => (r.Respected obstacle c → r.Guards (Stays first c)) ∧
        (done = true → ¬r.Respected obstacle c))
      fun r => r.Respected obstacle c → r.Guards (Stays first c) := by
  have lasting := guarded_lasting (Stays.guarded meets enabled)
  apply Leads.bind (read_shows lasting (Q := fun value r =>
    (value &&& Dma1.flagsOf c flag.bit != 0) = true → r.chip.FlagRaised c flag) load_raised)
  rintro value session ⟨guards, shows⟩
  refine ⟨guards, fun done respected => ?_⟩
  exact unraised_of_group (guards respected).now.clear flag (shows done)

theorem wait_blocked :
    Leads (fun r => r.Respected obstacle c → r.Guards (Stays first c))
      (Dma.wait c : BusM Recorded Unit) (fun _ r => ¬r.Respected obstacle c) fun _ => True := by
  apply Ends.untilDone _ fun _ _ => trivial
  refine (raised_blocked meets enabled .complete).weaken (fun done session reached => ?_)
    fun _ _ => trivial
  cases done with
  | true => exact reached.2 rfl
  | false => exact reached.1

variable (session : Session Recorded) (guards : session.device.Guards (Stays first c))

include guards

/-- So on the chip itself, a look that leaves the obstacle in place shows no flag. -/
theorem raised_eq_false {flag : TransferFlag} {done : Bool} {last : Session Chip}
    (respected : (stateAfter (Dma.raised c flag) session).device.Respected obstacle c)
    (returned : (Dma.raised c flag).run (unrecorded session) = .ok done last) : done = false := by
  have looks := raised_blocked meets enabled flag session fun _ => guards
  rw [stateAfter] at respected
  rw [Dma.raised_projects c flag session] at returned
  cases ended : (Dma.raised c flag).run session with
  | ok shown after =>
    simp only [ended] at looks respected returned
    obtain ⟨rfl, -⟩ := EStateM.Result.ok.inj returned
    exact Bool.eq_false_iff.mpr fun raised => looks.2 raised respected
  | error fault after =>
    rw [ended] at returned
    cases returned

/-- And a wait that leaves it in place stops without an answer. -/
theorem wait_stops
    (respected : (stateAfter (Dma.wait c) session).device.Respected obstacle c) :
    ∃ fault last, (Dma.wait c).run (unrecorded session) = .error fault last := by
  have waits := wait_blocked meets enabled session fun _ => guards
  rw [stateAfter] at respected
  rw [Dma.wait_projects c session]
  cases ended : (Dma.wait c).run session with
  | ok done after =>
    simp only [ended] at waits respected
    exact (waits respected).elim
  | error fault after => exact ⟨fault, _, rfl⟩

end Waits

end Recorded

theorem Move.record_stays (meets : obstacle.Meets first c)
    (enabled : first.channelEnabled c = true) (clear : first.flagGroup c = 0) {moves : List Move}
    (respects : (record first moves).Respected obstacle c) :
    (record first moves).Guards (Stays first c) := by
  refine record_guards_each (Stays.guarded meets enabled) ⟨.refl c first, clear⟩ ?_ respects
  intro action _ instant chip respects stays
  exact stays.part meets enabled instant respects

/-! ## Going on after the obstacle -/

namespace Chip

/-- Buffers were only added to the memory of a chip. -/
structure Grown (first chip : Chip) : Prop where
  layout : chip.Layout
  kept : first.regions ⊆ chip.regions

theorem Grown.of_same (grown : Grown first chip)
    (same : after.regions = chip.regions ∧ after.nextRegion = chip.nextRegion) :
    Grown first after :=
  ⟨grown.layout.of_same same, same.1 ▸ grown.kept⟩

theorem Grown.part {part : Part} (grown : Grown first chip) (single : part.Indivisible)
    (addressable : ∀ action, part = .whole action → action.Addressable) :
    Grown first (part.after chip) := by
  cases part with
  | countDown | countNop => exact grown.of_same ⟨rfl, rfl⟩
  | load address =>
    obtain ⟨rest, loaded⟩ := stateAfter_load chip address
    rw [Part.after, loaded]
    exact grown.of_same ⟨rfl, rfl⟩
  | turn d => exact grown.of_same (serveChannel_sameBuffers chip d chip ⟨rfl, rfl⟩)
  | whole action =>
    cases action with
    | write address value =>
      exact grown.of_same (store_effect (chip.noted address value) address value).regions_eq
    | share bytes =>
      have small : bytes.size < 0x100000000 := addressable _ rfl
      rw [Part.after, stateAfter_perform_share, stateAfter, run_share]
      cases fits : regionAfter chip.nextRegion bytes.size with
      | ok next =>
        exact ⟨grown.layout.shared small fits, List.subset_append_of_subset_left _ grown.kept⟩
      | error fault => exact grown
    | read | nop => cases single
    | breakpoint | drive | release | connect | pushReceived | setLatency | clearEvents =>
      exact grown.of_same ⟨rfl, rfl⟩

/-- A channel was started on a shared buffer for the data register, and has not moved an item. -/
structure Unmoved (chip : Chip) (c : Channel) (config : ChannelConfig) (region : Region) :
    Prop where
  registered : region ∈ chip.regions
  control : chip.controlOf c = config.bits ||| Dma1.enable
  latch : chip.latch c = ⟨true, region.base, Serial.target, BitVec.ofNat 32 region.bytes.size⟩
  length : chip.itemsLeft c = BitVec.ofNat 32 region.bytes.size

variable {config : ChannelConfig} {region : Region}

theorem Unmoved.of_same (unmoved : first.Unmoved c config region) (same : SameChannel c first chip)
    (kept : first.regions ⊆ chip.regions) : chip.Unmoved c config region where
  registered := kept unmoved.registered
  control := same.controlOf.trans unmoved.control
  latch := same.latch.trans unmoved.latch
  length := same.itemsLeft.trans unmoved.length

theorem Unmoved.hasLeft (unmoved : chip.Unmoved c config region) (layout : chip.Layout)
    (forward : config.Forward) : chip.HasLeft c region.bytes.toList := by
  refine .of_whole layout unmoved.registered unmoved.latch unmoved.length ?_
  rw [unmoved.control]
  exact ChannelConfig.streams forward.reads forward.memory forward.peripheral forward.once

end Chip

theorem Move.record_grown (layout : first.Layout) {moves : List Move}
    (addressable : ∀ action, .act action ∈ moves → action.Addressable) :
    Grown first (record first moves).chip := by
  have extend {r : Recorded} {part : Part} (grown : Grown first r.chip)
      (single : part.Indivisible)
      (addressable : ∀ action, part = .whole action → action.Addressable) :
      Grown first (r.extend part).chip := grown.part single addressable
  have lasting : Recorded.Lasting fun r => Grown first r.chip :=
    .of_parts fun r part other grown =>
      extend grown (.of_ne other) fun action same => absurd same (other action)
  apply record_keeps (P := fun r => Grown first r.chip)
  · intro action member
    refine Recorded.act_upholds lasting fun instant r grown => extend grown instant ?_
    rintro _ ⟨⟩
    exact addressable _ member
  · refine Recorded.sendByte_keeps lasting fun value r grown => extend grown rfl ?_
    rintro _ ⟨⟩
    trivial
  · exact ⟨layout, List.Subset.refl _⟩

section Requested

variable {config : ChannelConfig} {region : Region} (line : chip.LineOn) (layout : chip.Layout)
  (alone : ∀ d, d ≠ c → (chip.latch d).active = false)
  (stands : Obstacle.requestsOff.Stands chip) (clear : chip.flagGroup c = 0)
  (unmoved : chip.Unmoved c config region) (nonempty : 1 ≤ region.bytes.size)
  (forward : config.Forward)

include line alone stands unmoved in
/-- While requests are missing, a tick only counts down. -/
theorem Chip.tick_unrequested : Chip.tick.run chip = .ok () chip.countedDown := by
  have clocked : chip.clocked (.dma1 0) = true := line.dmaClocked
  rw [tick_eq, if_pos clocked]
  refine serve_waiting fun d _ => ?_
  by_cases own : d = c
  · have target : (chip.latch c).target = Serial.target := by rw [unmoved.latch]
    have meets : Obstacle.requestsOff.Meets chip.countedDown c := target
    rw [own]
    exact Obstacle.turn meets stands
  · have inactive : (chip.countedDown.latch d).active = false := alone d own
    exact (Rests.of_inactive inactive).turn

include line layout alone clear unmoved nonempty forward in
/-- With requests enabled, the transfer begins. -/
theorem Chip.Unmoved.requested {value : Word} (on : value &&& Usart3.dmaTransmit ≠ 0) :
    AfterPolls chip.transmitted region.bytes.toList c chip.busy chip.latency 0
      (chip.write (Usart3.base + Usart3.cr3) value) := by
  obtain ⟨ready, channels⟩ := line.requested on
  have written := line.write_requests value
  generalize chip.write (Usart3.base + Usart3.cr3) value = after at ready channels written ⊢
  have memory : after.regions = chip.regions ∧ after.nextRegion = chip.nextRegion := by
    rw [written]
    exact ⟨rfl, rfl⟩
  have flags : after.flagGroup c = 0 := by
    rw [flagGroup, written, peek_poke, if_neg (by decide)]
    exact clear
  have transmitted : after.transmitted = chip.transmitted := by
    rw [written]
    rfl
  have pace : after.busy = chip.busy ∧ after.latency = chip.latency := by
    rw [written]
    exact ⟨rfl, rfl⟩
  have layout' : after.Layout := layout.of_same memory
  have has := (unmoved.of_same (channels c) (memory.1 ▸ List.Subset.refl _)).hasLeft layout' forward
  have begun := OnTime.begun ready layout' (fun d ne => (channels d).latch ▸ alone d ne) has
    nonempty (unraised_of_group flags .complete)
  rw [transmitted, pace.1, pace.2] at begun
  exact ⟨0, begun⟩

include line layout alone stands clear unmoved nonempty forward

/-- Enabling requests takes a tick, in which the channel still waits. Then its transfer begins. -/
theorem Serial.request_begins :
    Settles 1 (· = chip) (Bus.setBits (Usart3.base + Usart3.cr3) Usart3.dmaTransmit) fun _ =>
      AfterPolls chip.transmitted region.bytes.toList c (chip.busy - 1) chip.latency 0 := by
  have undisturbed := chip.countedDown_undisturbed
  have line' : chip.countedDown.LineOn := line.of_same undisturbed.line
  change Settles (1 + 0) _ _ _
  refine Settles.bind (R := fun _ ticked => ticked = chip.countedDown) ?_ fun value => ?_
  · apply Settles.read
    intro home same
    rw [same]
    exact ⟨_, tick_unrequested line alone stands unmoved, line'.load_requests, rfl⟩
  · apply Settles.write
    intro ticked same
    have on : (value ||| Usart3.dmaTransmit) &&& Usart3.dmaTransmit ≠ 0 :=
      or_and_ne_zero_iff.mpr (.inr (by decide))
    have unmoved' : chip.countedDown.Unmoved c config region :=
      unmoved.of_same (undisturbed.channels c) (List.Subset.refl _)
    have layout' : chip.countedDown.Layout := layout.of_same ⟨rfl, rfl⟩
    rw [same]
    exact unmoved'.requested line' layout' alone clear nonempty forward on

/-- So a wait that follows returns when the whole buffer was sent. -/
theorem Serial.request_wait_settles :
    Settles (1 + slot (chip.busy - 1) chip.latency (region.bytes.size - 1)) (· = chip) (do
        Bus.setBits (Usart3.base + Usart3.cr3) Usart3.dmaTransmit
        Dma.wait c : BusM Chip Unit)
      fun _ after => after.transmitted = chip.transmitted ++ region.bytes.toList := by
  have begins := Serial.request_begins line layout alone stands clear unmoved nonempty forward
  have waits : Takes _ (AfterPolls chip.transmitted region.bytes.toList c (chip.busy - 1)
      chip.latency 0) (Dma.wait c) _ _ := Dma.wait_takes nonempty
  refine Settles.bind begins fun _ => waits.settles.weaken (Nat.le_refl _) (fun _ same => same) ?_
  exact fun _ after polled => polled.all_sent nonempty (Nat.le_refl _)

end Requested

/-- A channel that meets an obstacle stays as it is in every run that leaves the obstacle in place
and does not store into the channel's control register: none of its turns changes anything, a look
at its completion flag never shows it raised, and a wait for it does not return. If only the
requests were missing, a wait right after they are enabled returns when the whole buffer was
sent. -/
theorem Dma.blocked_never_completes (obstacle : Obstacle) (meets : obstacle.Meets first c)
    (enabled : first.channelEnabled c = true) (clear : first.flagGroup c = 0) (moves : List Move)
    (respects : (Move.record first moves).Respected obstacle c) :
    (Move.record first moves).chip = moves.foldl Move.apply first ∧
    Linked first (Move.record first moves).moments (Move.record first moves).chip ∧
    (Move.record first moves).Stood first c ∧
    (∀ ticks log done after,
      (stateAfter (Dma.raised c .complete) ⟨Move.record first moves, ticks, log⟩).device.Respected
        obstacle c →
      (Dma.raised c .complete).run ⟨(Move.record first moves).chip, ticks, log⟩ = .ok done after →
        done = false) ∧
    (∀ ticks log,
      (stateAfter (Dma.wait c) ⟨Move.record first moves, ticks, log⟩).device.Respected obstacle c →
      ∃ fault after,
        (Dma.wait c).run ⟨(Move.record first moves).chip, ticks, log⟩ = .error fault after) ∧
    ∀ region config, obstacle = .requestsOff → Reachable Action.Addressable first →
      first.Unmoved c config region → 1 ≤ region.bytes.size → config.Forward →
      (∀ action, .act action ∈ moves → action.Addressable) →
      obstacle.Stands (Move.record first moves).chip → (Move.record first moves).chip.LineOn →
      (∀ d, d ≠ c → ((Move.record first moves).chip.latch d).active = false) →
      ∀ serial log, ReturnsInTime
        (fun ticks => (do
          Serial.enableDma
          Held.onBus (Dma.wait c) : HeldM Chip Serial Unit).run
            ⟨⟨(Move.record first moves).chip, ticks, log⟩, serial⟩)
        fun _ held => held.session.device.transmitted =
          (Move.record first moves).chip.transmitted ++ region.bytes.toList := by
  have guards := Move.record_stays meets enabled clear respects
  refine ⟨Move.record_chip _ _, Move.record_linked _ _, ⟨?_, ?_, ?_⟩, ?_, ?_, ?_⟩
  · exact ⟨guards.now.same, guards.now.clear.trans clear.symm⟩
  · intro moment member
    have stays := guards.began moment member
    exact ⟨stays.same, stays.clear.trans clear.symm⟩
  · intro moment member own
    rw [Moment.after, own]
    exact (guards.began moment member).turn meets (respects moment member).1
  · intro ticks log done after respected returned
    exact Recorded.raised_eq_false meets enabled ⟨Move.record first moves, ticks, log⟩ guards
      respected returned
  · intro ticks log respected
    exact Recorded.wait_stops meets enabled ⟨Move.record first moves, ticks, log⟩ guards respected
  · rintro region config rfl reachable unmoved nonempty forward addressable stands line alone serial
      log
    have grown := Move.record_grown reachable.layout addressable
    have onBus := (Serial.request_wait_settles line grown.layout alone stands guards.now.clear
      (unmoved.of_same guards.now.same grown.kept) nonempty forward).returnsInTime rfl log
    have acts : Held.Acts serial (do
        Serial.enableDma
        Held.onBus (Dma.wait c) : HeldM Chip Serial Unit) _ _ :=
      .bind (Serial.enableDma_acts serial) fun _ => .onBus _ _
    exact (acts.returnsInTime onBus).mono fun _ _ reached => reached.1

/-- A channel was started on two bytes, and USART3 does not ask for them. -/
def Chip.unrequested (c : Channel) : Chip :=
  ((broughtUp.write (Usart3.base + Usart3.cr3) 0).programmed c Serial.target 0x20000000 2).write
    (Dma1.register c Dma1.ccr) (ChannelConfig.default.bits ||| Dma1.enable)

/-- Another channel copies both bytes to a port and is disabled again, and a byte is polled. -/
def Move.meanwhile (d : Channel) : List Move :=
  [.act (.write Rcc.ahb2enr (Rcc.portEnable .b)),
    .act (.write (Dma1.register d Dma1.cpar) (Port.b.base + Gpio.odr)),
    .act (.write (Dma1.register d Dma1.cmar) 0x20000000),
    .act (.write (Dma1.register d Dma1.cndtr) 2), .act (.write (Dma1.register d Dma1.ccr) 0x91),
    .act .nop, .poll (.sendByte 0x41) 9, .act (.read (Dma1.base + Dma1.isr)),
    .act (.write (Dma1.register d Dma1.ccr) 0)]

theorem Chip.unrequested_reachable (c : Channel) :
    Reachable Action.Addressable (unrequested c) := by
  have silenced := broughtUp_reachable.addressable.write (Usart3.base + Usart3.cr3) 0 trivial
  have programmed := silenced.programmed (fun _ _ => trivial) c Serial.target 0x20000000 2
  exact programmed.write _ _ trivial

theorem Chip.unrequested_unmoved : (unrequested 2).Unmoved 2 .default ⟨0x20000000, #[7, 8]⟩ where
  registered := by
    rw [unrequested, regions_write, regions_programmed, regions_write]
    exact broughtUp_shares
  control := by decide +kernel
  latch := by decide +kernel
  length := by decide +kernel

theorem Dma.blocked_never_completes_unrequested :
    Obstacle.requestsOff.Meets (Chip.unrequested 2) 2 ∧
    (Chip.unrequested 2).channelEnabled 2 = true ∧
    (Chip.unrequested 2).flagGroup 2 = 0 ∧
    (Move.record (Chip.unrequested 2) (Move.meanwhile 3)).Respected .requestsOff 2 ∧
    (Move.record (Chip.unrequested 2) (Move.meanwhile 3)).Stood (Chip.unrequested 2) 2 ∧
    (∃ fault after, (Dma.wait 2).run
      ⟨(Move.record (Chip.unrequested 2) (Move.meanwhile 3)).chip, 9, #[]⟩ = .error fault after) ∧
    ReturnsInTime
      (fun ticks => (do
        Serial.enableDma
        Held.onBus (Dma.wait 2) : HeldM Chip Serial Unit).run
          ⟨⟨(Move.record (Chip.unrequested 2) (Move.meanwhile 3)).chip, ticks, #[]⟩, ⟨.default⟩⟩)
      fun _ held => held.session.device.transmitted = [0x41, 7, 8] := by
  have target : ((Chip.unrequested 2).latch 2).target = Serial.target := by decide +kernel
  have meets : Obstacle.requestsOff.Meets (Chip.unrequested 2) 2 := target
  have enabled : (Chip.unrequested 2).channelEnabled 2 = true := by decide +kernel
  have clear : (Chip.unrequested 2).flagGroup 2 = 0 := by decide +kernel
  have respects :
      (Move.record (Chip.unrequested 2) (Move.meanwhile 3)).Respected .requestsOff 2 := by
    decide +kernel
  obtain ⟨-, -, stood, -, stops, resumes⟩ :=
    Dma.blocked_never_completes .requestsOff meets enabled clear (Move.meanwhile 3) respects
  have addressable : ∀ action, .act action ∈ Move.meanwhile 3 → action.Addressable := by
    intro action member
    simp only [Move.meanwhile, List.mem_cons, Move.act.injEq, List.not_mem_nil, or_false,
      reduceCtorEq, false_or] at member
    obtain rfl | rfl | rfl | rfl | rfl | rfl | rfl | rfl := member <;> trivial
  have line : (Move.record (Chip.unrequested 2) (Move.meanwhile 3)).chip.LineOn :=
    ⟨by decide +kernel, by decide +kernel, by decide +kernel⟩
  have alone : ∀ d, d ≠ 2 →
      ((Move.record (Chip.unrequested 2) (Move.meanwhile 3)).chip.latch d).active = false := by
    decide +kernel
  have sent : (Move.record (Chip.unrequested 2) (Move.meanwhile 3)).chip.transmitted = [0x41] := by
    decide +kernel
  have forward : ChannelConfig.default.Forward := ⟨rfl, rfl, rfl, rfl⟩
  have returns := resumes _ _ rfl (Chip.unrequested_reachable 2) Chip.unrequested_unmoved
    (by decide) forward addressable (by decide +kernel) line alone ⟨.default⟩ #[]
  rw [sent] at returns
  exact ⟨meets, enabled, clear, respects, stood, stops 9 #[] (by decide +kernel), returns⟩

end Peripherals
