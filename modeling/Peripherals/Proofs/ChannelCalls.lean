import Peripherals.Driver.Dma
import Peripherals.Proofs.GatedBlocks
import Peripherals.Proofs.Programming
import Peripherals.Proofs.TickFaults

/-! # Runs of calls on channels

Programs of the DMA driver's calls, in any order and on all channels, with
buffers shared and ticks in between. What happens in a run is listed part by
part, each under the call it belongs to, together with the calls that returned.
A call leaves out what it writes: its channel's registers, DMA1's clock, and as
its last write the flags it clears. -/

namespace Peripherals

open Bus

/-! ## Computations that may run out of ticks -/

namespace Bus

variable {δ α β : Type} {P Q : δ → Prop}

/-- From devices with `P`, a computation returns only into `Q`, and running out of ticks leaves
`P`. Nothing is said of other faults. -/
def Survives (P : δ → Prop) (m : BusM δ α) (Q : δ → Prop) : Prop :=
  ∀ session, P session.device →
    match m.run session with
    | .ok _ after => Q after.device
    | .error fault after => fault = .outOfTicks → P after.device

theorem Survives.pure (a : α) (holds : ∀ device, P device → Q device) :
    Survives P (Pure.pure a : BusM δ α) Q :=
  fun session start => holds session.device start

theorem Survives.bind {m : BusM δ α} {f : α → BusM δ β} (first : Survives P m P)
    (rest : ∀ a, Survives P (f a) Q) : Survives P (m >>= f) Q := by
  intro session holds
  have reached := first session holds
  rw [EStateM.run_bind]
  split at reached
  · next a middle ended =>
    rw [ended]
    exact rest a middle reached
  · next fault middle ended =>
    rw [ended]
    exact reached

/-- A computation that keeps a property ends in what the property implies. -/
theorem Survives.weaken {m : BusM δ α} (keeps : Survives P m P)
    (holds : ∀ device, P device → Q device) : Survives P m Q := by
  intro session start
  have reached := keeps session start
  split at reached
  · exact holds _ reached
  · exact reached

theorem Survives.throw {fault : Fault} (other : fault ≠ .outOfTicks) :
    Survives P (MonadExcept.throw fault : BusM δ α) Q :=
  fun _ _ same => (other same).elim

theorem Survives.spend : Survives P (spend : BusM δ Unit) P := by
  rintro ⟨device, ticks, log⟩ holds
  cases ticks with
  | zero => exact fun _ => holds
  | succ ticks => exact holds

theorem Survives.record (access : Access) : Survives P (record access : BusM δ Unit) P :=
  fun _ holds => holds

theorem Survives.require [Target δ] (address : Word) :
    Survives P (require address : BusM δ Unit) P := by
  intro session holds
  rw [run_require]
  by_cases accepted : Target.accepts session.device address = true
  · rw [if_pos accepted]
    exact holds
  · rw [if_neg accepted]
    exact fun _ => holds

/-- An action of the device may fail in any way, as long as it does not run out of ticks. -/
theorem Survives.onDevice {action : EStateM Fault δ α}
    (leads : ∀ device, P device →
      match action.run device with
      | .ok _ after => Q after
      | .error fault after => fault = .outOfTicks → P after) :
    Survives P (onDevice action) Q := by
  intro session holds
  have reached := leads session.device holds
  rw [run_onDevice]
  cases ended : action.run session.device with
  | ok a after =>
    rw [ended] at reached
    exact reached
  | error fault after =>
    rw [ended] at reached
    exact reached

theorem Survives.untilTrue {round : BusM δ Bool} (each : Survives P round P) :
    Survives P (Bus.untilTrue round) P := by
  have rounds (bound : Nat) : Survives P (Peripherals.untilTrue bound round : BusM δ Unit) P := by
    induction bound with
    | zero => exact fun _ holds _ => holds
    | succ bound ih =>
      apply Survives.bind each
      intro done
      cases done with
      | true => exact fun _ holds => holds
      | false => exact ih
  exact fun session holds => rounds (session.ticks + 1) session holds

end Bus

/-! ## Calls -/

/-- A call of the DMA driver, a buffer that is shared, or a tick. -/
inductive DmaCall
  | enable
  | configure (c : Channel) (target source length : Word)
  | start (c : Channel) (config : ChannelConfig)
  | stop (c : Channel)
  | clearFlag (c : Channel) (flag : TransferFlag)
  | clearFlags (c : Channel)
  | raised (c : Channel) (flag : TransferFlag)
  | wait (c : Channel)
  | remaining (c : Channel)
  | share (buffer : Buffer)
  | nop

namespace DmaCall

/-- What a call does on any target. -/
def perform {δ : Type} [Target δ] : DmaCall → BusM δ Unit
  | .enable => Gate.enableDma
  | .configure c target source length => Dma.configure c target source length
  | .start c config => Dma.start c config
  | .stop c => Dma.stop c
  | .clearFlag c flag => Dma.clearFlag c flag
  | .clearFlags c => Dma.clearFlags c
  | .raised c flag => do
    let _ ← Dma.raised c flag
    pure ()
  | .wait c => Dma.wait c
  | .remaining c => do
    let _ ← Dma.remaining c
    pure ()
  | .share buffer => do
    let _ ← Bus.share buffer
    pure ()
  | .nop => Bus.nop

/-- The channel that a call is about. -/
def channel? : DmaCall → Option Channel
  | .configure c _ _ _ | .start c _ | .stop c | .clearFlag c _ | .clearFlags c | .raised c _
  | .wait c | .remaining c => some c
  | .enable | .share _ | .nop => none

/-- The flags that a call clears with its last write. -/
def cleared? : DmaCall → Option (Channel × Word)
  | .configure c _ _ _ | .clearFlags c => some (c, Dma1.channelFlags ||| Dma1.globalFlag)
  | .clearFlag c flag => some (c, flag.bit)
  | .enable | .start _ _ | .stop _ | .raised _ _ | .wait _ | .remaining _ | .share _ | .nop => none

/-- What else a call writes: it enables DMA1's clock, or programs its own channel. -/
inductive Programs : DmaCall → Word → Word → Prop
  | gate (value : Word) (on : value &&& Rcc.dma1Enable ≠ 0) :
      Programs .enable Rcc.ahb1enr value
  | register {call : DmaCall} {c : Channel} {field : Word} (value : Word)
      (about : call.channel? = some c) (small : field.toNat < 0x14) :
      Programs call (Dma1.register c field) value

end DmaCall

namespace Recorded

open Chip

variable {P Q : Recorded → Prop}

/-- Time keeps a property of the record, in which all turns return. -/
structure Passing (P : Recorded → Prop) : Prop where
  countDown : ∀ r, P r → P (r.extend .countDown)
  countNop : ∀ r, P r → P (r.extend .countNop)
  load : ∀ r address, P r → P (r.extend (.load address))
  turn : ∀ r c chip, (serveChannel c).run r.chip = .ok () chip → P r → P (r.extend (.turn c))

section Passing

variable (passing : Passing P)

include passing

theorem tick_survives {r : Recorded} (holds : P r) :
    match tick.run r with
    | .ok _ after => P after
    | .error fault _ => fault = .addOverflow := by
  cases ended : tick.run r with
  | ok value after => exact tick_returned passing.countDown passing.turn holds ended
  | error fault after => exact (tick_fault ended).1

theorem load_survives (address : Word) :
    Survives P (Bus.onDevice (Target.load address) : BusM Recorded Word) P := by
  apply Survives.onDevice
  intro r holds
  have ticks := tick_survives passing holds
  have run : (Target.load address : EStateM Fault Recorded Word).run r =
      (tick >>= fun _ => note (.load address) (Chip.load address)).run r := rfl
  rw [run, EStateM.run_bind]
  split at ticks
  · next ticked ended =>
    have loads : Upholds P (note (.load address) (Chip.load address)) :=
      note_upholds (fun _ => rfl) fun r => passing.load r address
    have loaded := loads ticked ticks
    rw [stateAfter] at loaded
    simp only [ended]
    split at loaded
    · next loads =>
      rw [loads]
      exact loaded
    · next loads =>
      rw [loads]
      exact fun _ => loaded
  · next ended =>
    simp only [ended, ticks]
    exact nofun

theorem read_survives (address : Word) :
    Survives P (Bus.read address : BusM Recorded Word) P := by
  apply Survives.bind (.require address)
  intro _
  apply Survives.bind .spend
  intro _
  apply Survives.bind (load_survives passing address)
  intro value
  exact Survives.bind (.record _) fun _ => .pure _ fun _ holds => holds

theorem anySet_survives (address mask : Word) :
    Survives P (Bus.anySet address mask : BusM Recorded Bool) P :=
  Survives.bind (read_survives passing address) fun _ => .pure _ fun _ holds => holds

theorem nop_survives : Survives P (Bus.nop : BusM Recorded Unit) P := by
  apply Survives.bind .spend
  intro _
  apply Survives.bind (.record _)
  intro _
  apply Survives.onDevice
  intro r holds
  have ticks := tick_survives passing (passing.countNop r holds)
  have run : (Target.nop : EStateM Fault Recorded Unit).run r =
      tick.run (r.extend .countNop) := rfl
  rw [run]
  split at ticks
  · next after ended =>
    rw [ended]
    exact ticks
  · next fault after ended =>
    rw [ended, ticks]
    exact nofun

end Passing

theorem write_survives {address value : Word}
    (own : ∀ r, P r → Q (r.extend (.whole (.write address value)))) :
    Survives P (Bus.write address value : BusM Recorded Unit) Q :=
  fun session holds => own session.device holds

theorem share_survives (buffer : Buffer)
    (own : ∀ r, P r → P (r.extend (.whole (.share buffer.bytes)))) :
    Survives P (Bus.share buffer : BusM Recorded Word) P := by
  apply Survives.bind
  · apply Survives.onDevice
    intro r holds
    have left : Part.after r.chip (.whole (.share buffer.bytes)) =
        stateAfter (Chip.share buffer.bytes) r.chip :=
      stateAfter_dropped (Chip.share buffer.bytes) r.chip
    have extended := own r holds
    rw [extend, left, stateAfter] at extended
    have run : (Target.share buffer : EStateM Fault Recorded Word).run r =
        (note (.whole (.share buffer.bytes)) (Chip.share buffer.bytes)).run r := rfl
    rw [run, run_note]
    cases ended : (Chip.share buffer.bytes).run r.chip with
    | ok value after =>
      rw [ended] at extended
      exact extended
    | error fault after =>
      rw [ended] at extended
      exact fun _ => extended
  · intro address
    exact Survives.bind (.record _) fun _ => .pure _ fun _ holds => holds

end Recorded

namespace DmaCall

open Recorded

variable {P Q : Recorded → Prop} {call : DmaCall} {c : Channel}

section Keeps

variable (programs : ∀ r address value, call.Programs address value → P r →
  P (r.extend (.whole (.write address value))))

include programs

/-- A write into a register of the channel that the call is about. -/
theorem register_survives (about : call.channel? = some c) {field : Word}
    (small : field.toNat < 0x14) (value : Word) :
    Survives P (Bus.write (Dma1.register c field) value : BusM Recorded Unit) P :=
  write_survives fun r => programs r _ _ (.register _ about small)

variable (passing : Passing P)

include passing

theorem stop_survives (about : call.channel? = some c) :
    Survives P (Dma.stop c : BusM Recorded Unit) P := by
  apply Survives.bind
  · apply Survives.bind (read_survives passing _)
    exact fun _ => register_survives programs about Dma1.ccr_inside _
  · intro _
    apply Survives.untilTrue
    apply Survives.bind (anySet_survives passing _ _)
    exact fun _ => .pure _ fun _ holds => holds

theorem configure_survives (about : call.channel? = some c) (target source length : Word)
    (last : Survives P (Dma.clearFlags c : BusM Recorded Unit) Q) :
    Survives P (Dma.configure c target source length : BusM Recorded Unit) Q := by
  have program : Survives P (do
      Bus.write (Dma1.register c Dma1.cpar) target
      Bus.write (Dma1.register c Dma1.cmar) source
      Bus.write (Dma1.register c Dma1.cndtr) length
      Dma.clearFlags c : BusM Recorded Unit) Q := by
    apply Survives.bind (register_survives programs about Dma1.cpar_inside _)
    intro _
    apply Survives.bind (register_survives programs about Dma1.cmar_inside _)
    intro _
    apply Survives.bind (register_survives programs about Dma1.cndtr_inside _)
    exact fun _ => last
  have whenShort : Survives P (do
      if ← Bus.anySet (Dma1.register c Dma1.ccr) Dma1.enable then
        Dma.stop c
      Bus.write (Dma1.register c Dma1.cpar) target
      Bus.write (Dma1.register c Dma1.cmar) source
      Bus.write (Dma1.register c Dma1.cndtr) length
      Dma.clearFlags c : BusM Recorded Unit) Q := by
    apply Survives.bind (anySet_survives passing _ _)
    intro enabled
    cases enabled with
    | true => exact Survives.bind (stop_survives programs passing about) fun _ => program
    | false => exact program
  rw [Dma.configure]
  split
  · exact Survives.bind (.throw fun same => by cases same) fun _ => whenShort
  · exact whenShort

/-- A call keeps what its parts keep, and ends as its last write does. -/
theorem survives
    (shares : ∀ r bytes, P r → P (r.extend (.whole (.share bytes))))
    (last : ∀ r, P r →
      match call.cleared? with
      | none => Q r
      | some (c, flags) =>
        Q (r.extend (.whole (.write (Dma1.base + Dma1.ifcr) (Dma1.flagsOf c flags))))) :
    Survives P (call.perform : BusM Recorded Unit) Q := by
  cases call with
  | enable =>
    apply Survives.bind (read_survives passing _)
    intro value
    refine (write_survives fun r => programs r _ _ (.gate _ ?_)).weaken last
    exact or_and_ne_zero_iff.mpr (.inr (by decide))
  | configure c target source length =>
    exact configure_survives programs passing rfl _ _ _ (write_survives last)
  | start c config =>
    exact (register_survives programs rfl Dma1.ccr_inside _).weaken last
  | stop c => exact (stop_survives programs passing rfl).weaken last
  | clearFlag c flag => exact write_survives last
  | clearFlags c => exact write_survives last
  | raised c flag => exact Survives.bind (anySet_survives passing _ _) fun _ => .pure _ last
  | wait c => exact (Survives.untilTrue (anySet_survives passing _ _)).weaken last
  | remaining c =>
    apply Survives.bind _ fun _ => .pure _ last
    exact Survives.bind (read_survives passing _) fun _ => .pure _ fun _ holds => holds
  | share buffer =>
    exact Survives.bind (share_survives buffer fun r => shares r _) fun _ => .pure _ last
  | nop => exact (nop_survives passing).weaken last

end Keeps

end DmaCall

/-! ## Runs -/

/-- What happens in a run: a part of a call, and that the call returns. -/
inductive Happening
  | part (call : DmaCall) (moment : Chip.Moment)
  | returned (call : DmaCall)

/-- What happened so far, the oldest first, and the chip it left. -/
structure History where
  happenings : List Happening
  chip : Chip

namespace History

/-- The history after one more call with some ticks. There is none if the call faults in another
way than by running out of ticks. -/
def extend (history : History) (step : DmaCall × Nat) : Option History :=
  match (step.1.perform : BusM Recorded Unit).run ⟨⟨history.chip, []⟩, step.2, #[]⟩ with
  | .ok _ after =>
    some ⟨history.happenings ++ after.device.moments.map (.part step.1) ++ [.returned step.1],
      after.device.chip⟩
  | .error .outOfTicks after =>
    some ⟨history.happenings ++ after.device.moments.map (.part step.1), after.device.chip⟩
  | .error _ _ => none

/-- The history of a run. -/
def run (first : Chip) (steps : List (DmaCall × Nat)) : Option History :=
  steps.foldlM extend ⟨[], first⟩

/-- What the parts of a run keep, where the turns that are among them are permitted, and each call
returns after its last write. -/
structure Kept (permitted : Chip.Moment → Prop) (I : History → Prop) : Prop where
  countDown : ∀ {happenings chip} (call : DmaCall), I ⟨happenings, chip⟩ →
    I ⟨happenings ++ [.part call ⟨.countDown, chip⟩], chip.countedDown⟩
  countNop : ∀ {happenings chip} (call : DmaCall), I ⟨happenings, chip⟩ →
    I ⟨happenings ++ [.part call ⟨.countNop, chip⟩], { chip with nops := chip.nops + 1 }⟩
  load : ∀ {happenings chip} (call : DmaCall) (address : Word), I ⟨happenings, chip⟩ →
    I ⟨happenings ++ [.part call ⟨.load address, chip⟩],
      Chip.Part.after chip (.load address)⟩
  turn : ∀ {happenings chip after c} (call : DmaCall), permitted ⟨.turn c, chip⟩ →
    Chip.Turn chip c after → I ⟨happenings, chip⟩ →
      I ⟨happenings ++ [.part call ⟨.turn c, chip⟩], after⟩
  share : ∀ {happenings chip} (call : DmaCall) (bytes : Array Byte), I ⟨happenings, chip⟩ →
    I ⟨happenings ++ [.part call ⟨.whole (.share bytes), chip⟩],
      Chip.Part.after chip (.whole (.share bytes))⟩
  write : ∀ {happenings chip} {call : DmaCall} {address value : Word},
    call.Programs address value → I ⟨happenings, chip⟩ →
      I ⟨happenings ++ [.part call ⟨.whole (.write address value), chip⟩],
        chip.write address value⟩
  returned : ∀ {happenings chip} {call : DmaCall}, call.cleared? = none →
    I ⟨happenings, chip⟩ → I ⟨happenings ++ [.returned call], chip⟩
  cleared : ∀ {happenings chip} {call : DmaCall} {c : Channel} {flags : Word},
    call.cleared? = some (c, flags) → I ⟨happenings, chip⟩ →
      I ⟨happenings ++ [.part call ⟨.whole (.write (Dma1.base + Dma1.ifcr)
          (Dma1.flagsOf c flags)), chip⟩] ++ [.returned call],
        chip.write (Dma1.base + Dma1.ifcr) (Dma1.flagsOf c flags)⟩

/-- All turns in a history are permitted. -/
def Permits (permitted : Chip.Moment → Prop) (happenings : List Happening) : Prop :=
  ∀ call moment, .part call moment ∈ happenings → permitted moment

variable {permitted : Chip.Moment → Prop} {I : History → Prop}

theorem Permits.mono {earlier later : List Happening} (permits : Permits permitted later)
    (grown : earlier ⊆ later) : Permits permitted earlier :=
  fun call moment member => permits call moment (grown member)

/-- What holds of a history, continued by the parts that a call has recorded so far. -/
def Continues (permitted : Chip.Moment → Prop) (I : History → Prop) (history : History)
    (call : DmaCall) (r : Recorded) : Prop :=
  Permits permitted (history.happenings ++ r.moments.map (.part call)) →
    I ⟨history.happenings ++ r.moments.map (.part call), r.chip⟩

variable {history next : History} {call : DmaCall} {r : Recorded} {part : Chip.Part}

/-- One more part of the call. -/
theorem Continues.extend (before : Continues permitted I history call r)
    (grow : permitted ⟨part, r.chip⟩ →
      I ⟨history.happenings ++ r.moments.map (.part call), r.chip⟩ →
        I ⟨history.happenings ++ r.moments.map (.part call) ++ [.part call ⟨part, r.chip⟩],
          part.after r.chip⟩) : Continues permitted I history call (r.extend part) := by
  intro permits
  rw [Recorded.extend, List.map_append, ← List.append_assoc] at permits ⊢
  exact grow (permits call _ (List.mem_append_right _ List.mem_cons_self))
    (before (permits.mono (List.subset_append_left _ _)))

theorem Kept.passing (kept : Kept permitted I) (history : History) (call : DmaCall) :
    Recorded.Passing (Continues permitted I history call) where
  countDown _ before := before.extend fun _ => kept.countDown call
  countNop _ before := before.extend fun _ => kept.countNop call
  load _ address before := before.extend fun _ => kept.load call address
  turn r c chip served before := by
    have left : Chip.Part.after r.chip (.turn c) = chip := stateAfter_of_ok served
    apply before.extend
    rw [left]
    exact fun allowed => kept.turn call allowed (Chip.serveChannel_eq_ok_iff.mp served)

/-- The call keeps the property, and so does its return. -/
theorem Kept.perform (kept : Kept permitted I) (history : History) (call : DmaCall) :
    Survives (Continues permitted I history call) (call.perform : BusM Recorded Unit) fun r =>
      Permits permitted (history.happenings ++ r.moments.map (.part call) ++ [.returned call]) →
        I ⟨history.happenings ++ r.moments.map (.part call) ++ [.returned call], r.chip⟩ := by
  refine DmaCall.survives
    (fun _ _ _ programs before => before.extend fun _ => kept.write programs)
    (kept.passing history call)
    (fun _ bytes before => before.extend fun _ => kept.share call bytes) fun r before => ?_
  cases cleared : call.cleared? with
  | none =>
    intro permits
    exact kept.returned cleared (before (permits.mono (List.subset_append_left _ _)))
  | some flags =>
    obtain ⟨c, flags⟩ := flags
    intro permits
    rw [Recorded.extend, List.map_append, ← List.append_assoc] at permits ⊢
    exact kept.cleared cleared (before (permits.mono
      (List.Subset.trans (List.subset_append_left _ _) (List.subset_append_left _ _))))

/-- What every part of a call keeps holds after the call, returned or not. -/
theorem extend_keeps (kept : Kept permitted I) {step : DmaCall × Nat}
    (extended : history.extend step = some next)
    (holds : Permits permitted history.happenings → I history)
    (permits : Permits permitted next.happenings) : I next := by
  obtain ⟨call, ticks⟩ := step
  have start : Continues permitted I history call ⟨history.chip, []⟩ := by
    rw [Continues, List.map_nil, List.append_nil]
    exact holds
  have ended := kept.perform history call ⟨⟨history.chip, []⟩, ticks, #[]⟩ start
  rw [extend] at extended
  split at extended
  · next returned =>
    rw [returned] at ended
    obtain rfl := Option.some.inj extended
    exact ended permits
  · next stopped =>
    rw [stopped] at ended
    obtain rfl := Option.some.inj extended
    exact ended rfl permits
  · cases extended

/-- What the parts of a run keep holds after a run in which all turns are permitted. -/
theorem run_keeps (kept : Kept permitted I) {first : Chip} (start : I ⟨[], first⟩)
    {steps : List (DmaCall × Nat)} {history : History} (ran : run first steps = some history)
    (permits : Permits permitted history.happenings) : I history := by
  have steps_keep (steps : List (DmaCall × Nat)) (before : History)
      (ran : steps.foldlM extend before = some history)
      (holds : Permits permitted before.happenings → I before) : I history := by
    induction steps generalizing before with
    | nil =>
      obtain rfl := Option.some.inj ran
      exact holds permits
    | cons step rest ih =>
      rw [List.foldlM_cons] at ran
      obtain ⟨middle, extended, others⟩ := Option.bind_eq_some_iff.mp ran
      exact ih middle others fun permits => extend_keeps kept extended holds permits
  exact steps_keep steps ⟨[], first⟩ ran fun _ => start

/-- The parts of a run, with the chip that each of them found. -/
def moments (happenings : List Happening) : List Chip.Moment :=
  happenings.filterMap fun
    | .part _ moment => some moment
    | .returned _ => none

theorem moments_concat (happenings : List Happening) (call : DmaCall) (moment : Chip.Moment) :
    moments (happenings ++ [.part call moment]) = moments happenings ++ [moment] := by
  rw [moments, List.filterMap_append]
  rfl

theorem moments_returned (happenings : List Happening) (call : DmaCall) :
    moments (happenings ++ [.returned call]) = moments happenings := by
  rw [moments, List.filterMap_append]
  exact List.append_nil _

/-- The parts of a run lead from one to the next. -/
theorem linked_kept (first : Chip) :
    Kept permitted fun history => Chip.Linked first (moments history.happenings) history.chip := by
  have concat {happenings : List Happening} {chip : Chip} (call : DmaCall) (part : Chip.Part)
      (linked : Chip.Linked first (moments happenings) chip) :
      Chip.Linked first (moments (happenings ++ [.part call ⟨part, chip⟩])) (part.after chip) := by
    rw [moments_concat]
    exact linked.concat part
  have returned {happenings : List Happening} {chip : Chip} (call : DmaCall)
      (linked : Chip.Linked first (moments happenings) chip) :
      Chip.Linked first (moments (happenings ++ [.returned call])) chip := by
    rwa [moments_returned]
  constructor
  · exact fun call => concat call _
  · exact fun call => concat call _
  · exact fun call address => concat call _
  · intro happenings chip after c call _ turn linked
    have left : Chip.Part.after chip (.turn c) = after :=
      stateAfter_of_ok (Chip.serveChannel_eq_ok_iff.mpr turn)
    dsimp only
    rw [← left]
    exact concat call _ linked
  · exact fun call bytes => concat call _
  · exact fun {_ _ call _ _} _ => concat call _
  · exact fun {_ _ call} _ => returned call
  · exact fun {_ _ call _ _} _ linked => returned call (concat call _ linked)

end History

/-! ### The chip without its history -/

namespace DmaCall

/-- Where a call with some ticks leaves the chip, if it returns or runs out of ticks. -/
def runOn (chip : Chip) (step : DmaCall × Nat) : Option Chip :=
  match (step.1.perform : BusM Chip Unit).run ⟨chip, step.2, #[]⟩ with
  | .ok _ after => some after.device
  | .error .outOfTicks after => some after.device
  | .error _ _ => none

theorem anySet_projects (address mask : Word) :
    Projects Recorded.unrecorded (Bus.anySet address mask) (Bus.anySet address mask) :=
  .bind (Recorded.read_projects address) fun _ => .pure _

theorem stop_projects (c : Channel) :
    Projects Recorded.unrecorded (Dma.stop c) (Dma.stop c) := by
  refine .bind (.bind (Recorded.read_projects _) fun _ => Recorded.write_projects _ _) fun _ => ?_
  exact Recorded.untilTrue_projects (.bind (anySet_projects _ _) fun _ => .pure _)

theorem configure_projects (c : Channel) (target source length : Word) :
    Projects Recorded.unrecorded (Dma.configure c target source length)
      (Dma.configure c target source length) := by
  have program : Projects Recorded.unrecorded (do
      Bus.write (Dma1.register c Dma1.cpar) target
      Bus.write (Dma1.register c Dma1.cmar) source
      Bus.write (Dma1.register c Dma1.cndtr) length
      Dma.clearFlags c : BusM Recorded Unit) (do
      Bus.write (Dma1.register c Dma1.cpar) target
      Bus.write (Dma1.register c Dma1.cmar) source
      Bus.write (Dma1.register c Dma1.cndtr) length
      Dma.clearFlags c : BusM Chip Unit) :=
    .bind (Recorded.write_projects _ _) fun _ => .bind (Recorded.write_projects _ _) fun _ =>
      .bind (Recorded.write_projects _ _) fun _ => Recorded.write_projects _ _
  rw [Dma.configure, Dma.configure]
  by_cases long : Dma1.countMax < length
  · rw [if_pos long, if_pos long]
    exact fun _ => rfl
  · rw [if_neg long, if_neg long]
    refine .bind (anySet_projects _ _) fun enabled => ?_
    cases enabled with
    | true => exact .bind (stop_projects c) fun _ => program
    | false => exact program

/-- A call does to a recorded chip what it does to the chip. -/
theorem perform_projects (call : DmaCall) :
    Projects Recorded.unrecorded call.perform call.perform := by
  cases call with
  | enable => exact .bind (Recorded.read_projects _) fun _ => Recorded.write_projects _ _
  | configure c target source length => exact configure_projects c target source length
  | start | clearFlag | clearFlags => exact Recorded.write_projects _ _
  | stop c => exact stop_projects c
  | raised => exact .bind (anySet_projects _ _) fun _ => .pure ()
  | wait => exact Recorded.untilTrue_projects (anySet_projects _ _)
  | remaining => exact .bind (.bind (Recorded.read_projects _) fun _ => .pure _) fun _ => .pure ()
  | share buffer =>
    refine .bind (.bind ?_ fun _ => .bind (fun _ => rfl) fun _ => .pure _) fun _ => .pure ()
    exact Recorded.onDevice_projects (Recorded.note_projects _ _)
  | nop =>
    refine .bind Recorded.spend_projects fun _ => .bind (fun _ => rfl) fun _ => ?_
    exact Recorded.onDevice_projects Recorded.nop_projects

end DmaCall

namespace History

theorem extend_chip (history : History) (step : DmaCall × Nat) :
    (history.extend step).map History.chip = DmaCall.runOn history.chip step := by
  have same := step.1.perform_projects ⟨⟨history.chip, []⟩, step.2, #[]⟩
  have plain : Recorded.unrecorded ⟨⟨history.chip, []⟩, step.2, #[]⟩ =
      ⟨history.chip, step.2, #[]⟩ := rfl
  rw [plain] at same
  rw [extend, DmaCall.runOn, same]
  cases (step.1.perform : BusM Recorded Unit).run ⟨⟨history.chip, []⟩, step.2, #[]⟩ with
  | ok value after => rfl
  | error fault after => cases fault <;> rfl

/-- Listing what happens in a run changes nothing of it. -/
theorem run_chip (first : Chip) (steps : List (DmaCall × Nat)) :
    (run first steps).map History.chip = steps.foldlM DmaCall.runOn first := by
  have folded (history : History) :
      (steps.foldlM extend history).map History.chip =
        steps.foldlM DmaCall.runOn history.chip := by
    induction steps generalizing history with
    | nil => rfl
    | cons step rest ih =>
      rw [List.foldlM_cons, List.foldlM_cons, ← extend_chip]
      cases history.extend step with
      | none => rfl
      | some next => exact ih next
  exact folded ⟨[], first⟩

end History

end Peripherals
