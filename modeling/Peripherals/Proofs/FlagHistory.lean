import Peripherals.Proofs.ChannelCalls
import Peripherals.Proofs.EngineConsistency
import Peripherals.Proofs.Programming

/-! # What the flags of a channel tell

All channels share one word of flags, which the engine adds to and calls take
from. Still each flag tells about its own channel alone: it is set exactly if
the channel raised it and no call has cleared it since. A pass of a channel
raises its half flag once and its completion flag once, whatever its length. -/

namespace Peripherals

/-! ## Flags of one channel -/

/-- A flag of a channel: one of three, or the one that is set with each of them. -/
inductive Signal
  | any
  | only (flag : TransferFlag)
  deriving DecidableEq

/-- The flag's bit, before it is moved to a channel's place. -/
def Signal.bit : Signal → Word
  | .any => Dma1.globalFlag
  | .only flag => flag.bit

namespace Chip

variable {chip after : Chip} {c d : Channel} {address value : Word} {signal : Signal}

/-- A flag of a channel is set. -/
def Signals (chip : Chip) (c : Channel) (signal : Signal) : Prop :=
  chip.peek (Dma1.base + Dma1.isr) &&& Dma1.flagsOf c signal.bit ≠ 0

instance (chip : Chip) (c : Channel) (signal : Signal) : Decidable (chip.Signals c signal) :=
  inferInstanceAs (Decidable (_ ≠ _))

/-- The four flags of a channel, at their place. -/
def flagGroup (chip : Chip) (c : Channel) : Word :=
  chip.peek (Dma1.base + Dma1.isr) &&& Dma1.flagsOf c Dma1.channelFlags

theorem ite_and_ne_zero_iff {p : Prop} [Decidable p] {a mask : Word} :
    (if p then a else 0) &&& mask ≠ 0 ↔ p ∧ a &&& mask ≠ 0 := by
  by_cases holds : p
  · rw [if_pos holds]
    simp [holds]
  · have unset : (0 : Word) &&& mask = 0 := BitVec.zero_and
    rw [if_neg holds, unset]
    simp [holds]

/-- A flag is one of its channel's four. -/
theorem channelFlags_and (c : Channel) (signal : Signal) :
    Dma1.flagsOf c Dma1.channelFlags &&& Dma1.flagsOf c signal.bit =
      Dma1.flagsOf c signal.bit := by
  revert c
  obtain _ | flag := signal
  · decide
  · cases flag <;> decide

theorem signals_iff_group :
    chip.Signals c signal ↔ chip.flagGroup c &&& Dma1.flagsOf c signal.bit ≠ 0 := by
  rw [Signals, flagGroup, BitVec.and_assoc, channelFlags_and]

/-- The four flags of a channel tell whether one of them is set. -/
theorem signals_of_group (same : after.flagGroup c = chip.flagGroup c) :
    after.Signals c signal ↔ chip.Signals c signal := by
  rw [signals_iff_group, same, ← signals_iff_group]

theorem not_signals_of_group (clear : chip.flagGroup c = 0) : ¬chip.Signals c signal := by
  rw [signals_iff_group, clear, not_not]
  exact BitVec.zero_and

/-- Flags that are raised together meet a flag only if they are of the same channel. -/
theorem raised_and_ne_zero_iff (flag : TransferFlag) :
    Dma1.flagsOf d (flag.bit ||| Dma1.globalFlag) &&& Dma1.flagsOf c signal.bit ≠ 0 ↔
      d = c ∧ (signal = .any ∨ signal = .only flag) := by
  revert d c
  obtain _ | other := signal
  · cases flag <;> decide +kernel
  · cases flag <;> cases other <;> decide +kernel

theorem raised_and_group (ne : d ≠ c) (flag : TransferFlag) :
    Dma1.flagsOf d (flag.bit ||| Dma1.globalFlag) &&& Dma1.flagsOf c Dma1.channelFlags = 0 := by
  revert d c
  cases flag <;> decide +kernel

/-- What a call may clear of a channel's flags: all four, or one of the three. -/
def Clearable (flags : Word) : Prop :=
  flags = Dma1.channelFlags ||| Dma1.globalFlag ∨ ∃ flag : TransferFlag, flags = flag.bit

theorem cleared_and {flags : Word} (clearable : Clearable flags) :
    ~~~Dma1.flagsOf d flags &&& Dma1.flagsOf c signal.bit =
      if d = c ∧ flags &&& signal.bit ≠ 0 then 0 else Dma1.flagsOf c signal.bit := by
  revert d c
  obtain rfl | ⟨flag, rfl⟩ := clearable
  · obtain _ | other := signal
    · decide +kernel
    · cases other <;> decide +kernel
  · obtain _ | other := signal
    · cases flag <;> decide +kernel
    · cases flag <;> cases other <;> decide +kernel

/-! ## What a channel does in its turn -/

/-- An address is neither in DMA1 nor that of the register with its clock. -/
def beyondDma (address : Word) : Bool :=
  match Block.decode address with
  | .dma1 _ => false
  | .gpio _ _ | .usart3 _ | .other => address != Rcc.ahb1enr

namespace Moment

/-- The channel moves an item. -/
def moves (c : Channel) (moment : Moment) : Bool :=
  match moment.part with
  | .turn d => d == c && (moment.chip.itemTarget? c).isSome
  | .countDown | .countNop | .load _ | .whole _ => false

/-- How many items the channel has left after the one it moves. -/
def left (c : Channel) (moment : Moment) : Word :=
  moment.chip.itemsLeft c - 1

/-- The channel moves the last item of a pass. -/
def finishes (c : Channel) (moment : Moment) : Bool :=
  moment.moves c && moment.left c == 0

/-- The channel moves the item that leaves half of a pass. -/
def halves (c : Channel) (moment : Moment) : Bool :=
  moment.moves c && moment.left c == (moment.chip.latch c).reload / 2

/-- The channel fetches from an address in no buffer. -/
def fails (c : Channel) (moment : Moment) : Bool :=
  match moment.part with
  | .turn d => d == c && (moment.chip.latch c).active && moment.chip.canMove c &&
    (moment.chip.memoryByte? (moment.chip.latch c).memory).isNone
  | .countDown | .countNop | .load _ | .whole _ => false

/-- What a flag reports happens. -/
def raises (c : Channel) (moment : Moment) : Signal → Bool
  | .any => moment.finishes c || moment.halves c || moment.fails c
  | .only .complete => moment.finishes c
  | .only .half => moment.halves c
  | .only .error => moment.fails c

/-- A channel stores neither into DMA1 nor into the register with its clock. -/
def spares (moment : Moment) : Bool :=
  match moment.part with
  | .turn d => (moment.chip.itemTarget? d).all beyondDma
  | .countDown | .countNop | .load _ | .whole _ => true

theorem spares_turn (chip : Chip) (d : Channel) :
    spares ⟨.turn d, chip⟩ = (chip.itemTarget? d).all beyondDma :=
  rfl

end Moment

theorem itemTarget?_eq_none (idle : (chip.latch d).active = true → chip.canMove d = false) :
    chip.itemTarget? d = none := by
  rw [itemTarget?, if_neg]
  rintro ⟨active, able, -⟩
  rw [idle active] at able
  cases able

/-- A channel whose turn spares DMA1 stores where no register of DMA1 lies. -/
theorem target_of_spares {byte : Byte} (spares : Moment.spares ⟨.turn d, chip⟩ = true)
    (active : (chip.latch d).active = true) (able : chip.canMove d = true)
    (mapped : chip.memoryByte? (chip.latch d).memory = some byte) :
    (∀ offset, Block.decode (chip.latch d).target ≠ .dma1 offset) ∧
      (chip.latch d).target ≠ Rcc.ahb1enr := by
  rw [Moment.spares_turn, itemTarget?_eq_some active able mapped, Option.all_some] at spares
  constructor
  · intro offset decoded
    rw [beyondDma, decoded] at spares
    cases spares
  · intro gate
    rw [gate] at spares
    cases spares

/-- A store outside of DMA1 leaves every channel and all flags alone. -/
theorem store_outside (outside : ∀ offset, Block.decode address ≠ .dma1 offset) (chip : Chip)
    (value : Word) :
    (∀ c, SameChannel c chip (chip.store address value)) ∧
      (chip.store address value).peek (Dma1.base + Dma1.isr) =
        chip.peek (Dma1.base + Dma1.isr) := by
  have effect := store_effect chip address value
  constructor
  · intro c
    cases effect.channel c with
    | same same => exact same
    | control place =>
      exact (outside _ (place ▸ Dma1.decode_register c Dma1.ccr_inside)).elim
    | programmed field small _ place =>
      exact (outside _ (place ▸ Dma1.decode_register c small)).elim
  · apply effect.flags_of_ne
    rintro rfl
    exact outside Dma1.ifcr rfl

/-- A turn that spares DMA1 leaves its clock alone. -/
theorem gate_turn (spares : Moment.spares ⟨.turn d, chip⟩ = true) (turn : Turn chip d after) :
    after.peek Rcc.ahb1enr = chip.peek Rcc.ahb1enr := by
  have decoded : Block.decode Rcc.ahb1enr = .other := rfl
  have left : stateAfter (serveChannel d) chip = after :=
    stateAfter_of_ok (serveChannel_eq_ok_iff.mpr turn)
  rw [← left]
  apply peek_turn (by simp [decoded]) (by simp [decoded])
  intro aimed
  rw [Moment.spares_turn, aimed] at spares
  cases spares

/-- A turn of one channel raises nothing of another. -/
theorem Moment.raises_of_ne (ne : d ≠ c) (signal : Signal) :
    Moment.raises c ⟨.turn d, chip⟩ signal = false := by
  have other : (d == c) = false := beq_eq_false_iff_ne.mpr ne
  cases signal with
  | any => simp [raises, finishes, halves, fails, moves, other]
  | only flag => cases flag <;> simp [raises, finishes, halves, fails, moves, other]

/-- Only turns raise flags. -/
theorem Moment.raises_of_timeless {part : Part} (timeless : ∀ c, part ≠ .turn c)
    (signal : Signal) : Moment.raises c ⟨part, chip⟩ signal = false := by
  have still : Moment.moves c ⟨part, chip⟩ = false ∧ Moment.fails c ⟨part, chip⟩ = false := by
    cases part with
    | turn d => exact (timeless d rfl).elim
    | countDown | countNop | load | whole => exact ⟨rfl, rfl⟩
  cases signal with
  | any => simp [raises, finishes, halves, still]
  | only flag => cases flag <;> simp [raises, finishes, halves, still]

/-- What a channel raises that moves no item and does not fail. -/
theorem Moment.raises_of_idle (idle : (chip.latch c).active = true → chip.canMove c = false)
    (signal : Signal) : Moment.raises c ⟨.turn c, chip⟩ signal = false := by
  have rests : ((chip.latch c).active && chip.canMove c) = false := by
    cases active : (chip.latch c).active with
    | false => rfl
    | true => exact idle active
  have still : Moment.moves c ⟨.turn c, chip⟩ = false := by
    simp [moves, itemTarget?_eq_none idle]
  have sound : Moment.fails c ⟨.turn c, chip⟩ = false := by
    simp only [fails, beq_self_eq_true, Bool.true_and, rests, Bool.false_and]
  cases signal with
  | any => simp [raises, finishes, halves, still, sound]
  | only flag => cases flag <;> simp [raises, finishes, halves, still, sound]

/-- A channel that fetches from no buffer raises its error flag. -/
theorem Moment.raises_of_unmapped (active : (chip.latch c).active = true)
    (able : chip.canMove c = true)
    (unmapped : chip.memoryByte? (chip.latch c).memory = none) (signal : Signal) :
    Moment.raises c ⟨.turn c, chip⟩ signal = true ↔
      signal = .any ∨ signal = .only .error := by
  have still : Moment.moves c ⟨.turn c, chip⟩ = false := by
    simp [moves, itemTarget?, unmapped]
  have failing : Moment.fails c ⟨.turn c, chip⟩ = true := by
    simp [fails, active, able, unmapped]
  cases signal with
  | any => simp [raises, failing]
  | only flag => cases flag <;> simp [raises, finishes, halves, still, failing]

/-- A channel that moves an item raises the flags that its count asks for. -/
theorem Moment.raises_of_mapped {byte : Byte} (active : (chip.latch c).active = true)
    (able : chip.canMove c = true)
    (mapped : chip.memoryByte? (chip.latch c).memory = some byte) (signal : Signal) :
    Moment.raises c ⟨.turn c, chip⟩ signal = true ↔
      (chip.itemsLeft c - 1 = (chip.latch c).reload / 2 ∧
          (signal = .any ∨ signal = .only .half)) ∨
        (chip.itemsLeft c - 1 = 0 ∧ (signal = .any ∨ signal = .only .complete)) := by
  have moving : Moment.moves c ⟨.turn c, chip⟩ = true := by
    simp [moves, itemTarget?_eq_some active able mapped]
  have sound : Moment.fails c ⟨.turn c, chip⟩ = false := by
    simp [fails, mapped]
  cases signal with
  | any => simp [raises, finishes, halves, left, moving, sound, or_comm]
  | only flag => cases flag <;> simp [raises, finishes, halves, left, moving, sound]

/-- The flags that a channel adds for an item are its own. -/
theorem flagsAfter_meets_iff (chip : Chip) (d : Channel) (left : Word) :
    chip.flagsAfter d left &&& Dma1.flagsOf d signal.bit ≠ 0 ↔
      (left = (chip.latch d).reload / 2 ∧ (signal = .any ∨ signal = .only .half)) ∨
        (left = 0 ∧ (signal = .any ∨ signal = .only .complete)) := by
  have half : Dma1.flagsOf d (Dma1.halfFlag ||| Dma1.globalFlag) &&&
      Dma1.flagsOf d signal.bit ≠ 0 ↔ signal = .any ∨ signal = .only .half :=
    (raised_and_ne_zero_iff .half).trans (and_iff_right rfl)
  have complete : Dma1.flagsOf d (Dma1.completeFlag ||| Dma1.globalFlag) &&&
      Dma1.flagsOf d signal.bit ≠ 0 ↔ signal = .any ∨ signal = .only .complete :=
    (raised_and_ne_zero_iff .complete).trans (and_iff_right rfl)
  rw [flagsAfter, or_and_ne_zero_iff, ite_and_ne_zero_iff, ite_and_ne_zero_iff, half, complete]

theorem flagsAfter_group (chip : Chip) (ne : d ≠ c) (left : Word) :
    chip.flagsAfter d left &&& Dma1.flagsOf c Dma1.channelFlags = 0 := by
  by_contra meets
  rw [flagsAfter, ← ne_eq, or_and_ne_zero_iff, ite_and_ne_zero_iff, ite_and_ne_zero_iff] at meets
  exact meets.elim (fun half => half.2 (raised_and_group ne .half))
    fun complete => complete.2 (raised_and_group ne .complete)

/-- A turn of a channel adds the flags that it raises, and no other channel's. -/
structure AddsFlags (d : Channel) (chip after : Chip) : Prop where
  signals : ∀ c signal, after.Signals c signal ↔
    chip.Signals c signal ∨ Moment.raises c ⟨.turn d, chip⟩ signal = true
  others : ∀ c, d ≠ c → after.flagGroup c = chip.flagGroup c

/-- What is added is a mask that tells what the channel raises. -/
theorem AddsFlags.of_mask {mask : Word}
    (flags : after.peek (Dma1.base + Dma1.isr) = chip.peek (Dma1.base + Dma1.isr) ||| mask)
    (own : ∀ signal, mask &&& Dma1.flagsOf d signal.bit ≠ 0 ↔
      Moment.raises d ⟨.turn d, chip⟩ signal = true)
    (others : ∀ c, d ≠ c → mask &&& Dma1.flagsOf c Dma1.channelFlags = 0) :
    AddsFlags d chip after := by
  have group (c : Channel) (ne : d ≠ c) : after.flagGroup c = chip.flagGroup c := by
    rw [flagGroup, flags, BitVec.and_or_distrib_right, others c ne, flagGroup]
    exact BitVec.or_zero
  refine ⟨fun c signal => ?_, group⟩
  by_cases same : d = c
  · subst same
    rw [Signals, flags, or_and_ne_zero_iff, Signals, own]
  · rw [signals_of_group (group c same), Moment.raises_of_ne same]
    simp

/-- The flags of a turn. It adds an empty mask where it rests. -/
theorem addsFlags_turn (spares : Moment.spares ⟨.turn d, chip⟩ = true)
    (turn : Turn chip d after) : AddsFlags d chip after := by
  cases turn with
  | rest idle =>
    refine .of_mask BitVec.or_zero.symm (fun signal => ?_) fun c _ => BitVec.zero_and
    rw [Moment.raises_of_idle idle, BitVec.zero_and]
    simp
  | failed active able unmapped =>
    refine .of_mask (chip.flags_busError d _) (fun signal => ?_)
      fun c ne => raised_and_group ne .error
    rw [Moment.raises_of_unmapped active able unmapped]
    exact (raised_and_ne_zero_iff .error).trans (and_iff_right rfl)
  | moved byte active able mapped steps =>
    obtain ⟨outside, -⟩ := target_of_spares spares active able mapped
    obtain ⟨channels, flags⟩ := store_outside outside chip (byte.setWidth 32)
    have reload : (((chip.stored d byte).setLatch d (chip.stepped d byte)).latch d).reload =
        (chip.latch d).reload := by
      rw [latch_setLatch, if_pos rfl]
      change ((chip.stored d byte).latch d).reload = _
      exact congrArg Latch.reload (channels d).latch
    refine .of_mask ((chip.flags_moved d byte).trans (congrArg (· ||| _) flags)) (fun signal => ?_)
      fun c ne => flagsAfter_group _ ne _
    rw [Moment.raises_of_mapped active able mapped, flagsAfter_meets_iff, reload]

/-- A store raises no flag. -/
theorem StoreEffect.unraised (effect : StoreEffect chip address value after)
    (clear : chip.flagGroup c = 0) : after.flagGroup c = 0 := by
  rw [flagGroup] at clear ⊢
  obtain same | ⟨-, cleared⟩ := effect.flags
  · rw [same, clear]
  · rw [cleared, BitVec.and_assoc, BitVec.and_comm (~~~value), ← BitVec.and_assoc, clear]
    exact BitVec.zero_and

/-- A channel is as it was, and has no flag raised. -/
structure Stays (first : Chip) (c : Channel) (chip : Chip) : Prop where
  same : SameChannel c first chip
  clear : chip.flagGroup c = 0

/-- A call clears the flags that it is meant to clear, and no others. -/
theorem signals_cleared (on : chip.clocked (.dma1 0) = true) {flags : Word}
    (clearable : Clearable flags) :
    (chip.write (Dma1.base + Dma1.ifcr) (Dma1.flagsOf d flags)).Signals c signal ↔
      chip.Signals c signal ∧ ¬(d = c ∧ flags &&& signal.bit ≠ 0) := by
  have left : (chip.write (Dma1.base + Dma1.ifcr) (Dma1.flagsOf d flags)).peek
      (Dma1.base + Dma1.isr) =
        chip.peek (Dma1.base + Dma1.isr) &&& ~~~Dma1.flagsOf d flags := by
    rw [write_clear on, peek_poke, if_pos rfl]
  rw [Signals, left, BitVec.and_assoc, cleared_and clearable, Signals]
  by_cases meets : d = c ∧ flags &&& signal.bit ≠ 0
  · have unset : chip.peek (Dma1.base + Dma1.isr) &&& 0 = 0 := BitVec.and_zero
    rw [if_pos meets, unset]
    exact iff_of_false (fun set => set rfl) fun both => both.2 meets
  · rw [if_neg meets]
    exact (and_iff_left meets).symm

theorem cleared_group {flags : Word} (clearable : Clearable flags) (ne : d ≠ c) :
    ~~~Dma1.flagsOf d flags &&& Dma1.flagsOf c Dma1.channelFlags =
      Dma1.flagsOf c Dma1.channelFlags := by
  revert d c
  obtain rfl | ⟨flag, rfl⟩ := clearable
  · decide +kernel
  · cases flag <;> decide +kernel

/-- It clears no flag of another channel. -/
theorem group_cleared {flags : Word} (clearable : Clearable flags) (ne : d ≠ c) :
    (chip.write (Dma1.base + Dma1.ifcr) (Dma1.flagsOf d flags)).flagGroup c =
      chip.flagGroup c := by
  have effect := store_effect (chip.noted (Dma1.base + Dma1.ifcr) (Dma1.flagsOf d flags))
    (Dma1.base + Dma1.ifcr) (Dma1.flagsOf d flags)
  obtain same | ⟨-, cleared⟩ := effect.flags
  · exact congrArg (· &&& Dma1.flagsOf c Dma1.channelFlags) same
  · refine (congrArg (· &&& Dma1.flagsOf c Dma1.channelFlags) cleared).trans ?_
    change chip.peek _ &&& _ &&& _ = _
    rw [BitVec.and_assoc, cleared_group clearable ne, flagGroup]

end Chip

/-! ## Flags over a run -/

namespace DmaCall

/-- A call that returns has cleared a flag of a channel. -/
def clears (c : Channel) (signal : Signal) : DmaCall → Bool
  | .configure d _ _ _ | .clearFlags d => d == c
  | .clearFlag d flag => d == c && signal == .only flag
  | .enable | .start _ _ | .stop _ | .raised _ _ | .wait _ | .remaining _ | .share _ | .nop => false

/-- What a call clears by its last write it has cleared when it returns. -/
theorem clears_iff {call : DmaCall} {d : Channel} {flags : Word}
    (cleared : call.cleared? = some (d, flags)) :
    Chip.Clearable flags ∧
      ∀ c signal, call.clears c signal = true ↔ d = c ∧ flags &&& signal.bit ≠ 0 := by
  have every (signal : Signal) :
      (Dma1.channelFlags ||| Dma1.globalFlag) &&& signal.bit ≠ 0 := by
    obtain _ | flag := signal
    · decide
    · cases flag <;> decide
  have single (flag : TransferFlag) (signal : Signal) :
      flag.bit &&& signal.bit ≠ 0 ↔ signal = .only flag := by
    obtain _ | other := signal
    · cases flag <;> decide
    · cases flag <;> cases other <;> decide
  cases call with
  | configure | clearFlags =>
    obtain ⟨rfl, rfl⟩ := Prod.mk.inj (Option.some.inj cleared)
    refine ⟨.inl rfl, fun c signal => ?_⟩
    rw [clears, beq_iff_eq]
    exact (and_iff_left (every signal)).symm
  | clearFlag d flag =>
    obtain ⟨rfl, rfl⟩ := Prod.mk.inj (Option.some.inj cleared)
    refine ⟨.inr ⟨flag, rfl⟩, fun c signal => ?_⟩
    rw [clears, Bool.and_eq_true, beq_iff_eq, beq_iff_eq, single]
  | enable | start | stop | raised | wait | remaining | share | nop => cases cleared

end DmaCall

namespace Happening

/-- What a flag of a channel reports happens. -/
def raises (c : Channel) (signal : Signal) : Happening → Bool
  | .part _ moment => moment.raises c signal
  | .returned _ => false

/-- A flag of a channel has been cleared. -/
def clears (c : Channel) (signal : Signal) : Happening → Bool
  | .part _ _ => false
  | .returned call => call.clears c signal

end Happening

/-- What a flag of a channel reports has happened since the flag was last cleared. -/
def RaisedSince (c : Channel) (signal : Signal) (happenings : List Happening) : Prop :=
  ∃ earlier now later, happenings = earlier ++ now :: later ∧ now.raises c signal = true ∧
    ∀ next ∈ later, next.clears c signal = false

theorem raisedSince_nil (c : Channel) (signal : Signal) : ¬RaisedSince c signal [] := by
  rintro ⟨earlier, now, later, split, -⟩
  simp at split

theorem raisedSince_concat (c : Channel) (signal : Signal) (happenings : List Happening)
    (last : Happening) :
    RaisedSince c signal (happenings ++ [last]) ↔
      last.raises c signal = true ∨
        RaisedSince c signal happenings ∧ last.clears c signal = false := by
  constructor
  · rintro ⟨earlier, now, later, split, raised, kept⟩
    obtain ⟨-, rfl, -⟩ | ⟨rest, rfl, old⟩ := Recorded.split_concat split
    · exact .inl raised
    · exact .inr ⟨⟨earlier, now, rest, old, raised,
        fun next member => kept next (List.mem_append_left _ member)⟩,
        kept last (List.mem_append_right _ List.mem_cons_self)⟩
  · rintro (raised | ⟨⟨earlier, now, later, rfl, raised, kept⟩, stays⟩)
    · exact ⟨happenings, last, [], rfl, raised, List.forall_mem_nil _⟩
    · have split : earlier ++ now :: later ++ [last] = earlier ++ now :: (later ++ [last]) :=
        List.append_assoc earlier (now :: later) [last]
      exact ⟨earlier, now, later ++ [last], split, raised,
        List.forall_mem_append.mpr ⟨kept, List.forall_mem_singleton.mpr stays⟩⟩

/-- What raises one of the three flags raises the global one, and what clears the global one clears
all of them. -/
theorem RaisedSince.any {c : Channel} {flag : TransferFlag} {happenings : List Happening}
    (since : RaisedSince c (.only flag) happenings) : RaisedSince c .any happenings := by
  obtain ⟨earlier, now, later, split, raised, kept⟩ := since
  refine ⟨earlier, now, later, split, ?_, fun next member => ?_⟩
  · cases now with
    | returned => cases raised
    | part call moment =>
      cases flag <;> simp_all [Happening.raises, Chip.Moment.raises]
  · have stays := kept next member
    cases next with
    | part => rfl
    | returned call => cases call <;> simp_all [Happening.clears, DmaCall.clears]

namespace History

/-- Each flag tells what has happened since it was last cleared. -/
structure FlagsTell (history : History) : Prop where
  clocked : history.chip.clocked (.dma1 0) = true
  signals : ∀ c signal,
    history.chip.Signals c signal ↔ RaisedSince c signal history.happenings

variable {happenings : List Happening} {chip after : Chip} {call : DmaCall}

/-- A part that is no turn and leaves the flags alone says nothing. -/
theorem FlagsTell.silent {part : Chip.Part} (tell : FlagsTell ⟨happenings, chip⟩)
    (timeless : ∀ c, part ≠ .turn c) (clocked : after.clocked (.dma1 0) = true)
    (flags : after.peek (Dma1.base + Dma1.isr) = chip.peek (Dma1.base + Dma1.isr)) :
    FlagsTell ⟨happenings ++ [.part call ⟨part, chip⟩], after⟩ where
  clocked := clocked
  signals c signal := by
    have quiet : Happening.raises c signal (.part call ⟨part, chip⟩) = false :=
      Chip.Moment.raises_of_timeless timeless signal
    have same : after.Signals c signal ↔ chip.Signals c signal := by
      rw [Chip.Signals, flags, Chip.Signals]
    rw [raisedSince_concat, quiet, same, tell.signals c signal]
    simp [Happening.clears]

theorem FlagsTell.turn {d : Channel} (tell : FlagsTell ⟨happenings, chip⟩)
    (spares : Chip.Moment.spares ⟨.turn d, chip⟩ = true) (turn : Chip.Turn chip d after) :
    FlagsTell ⟨happenings ++ [.part call ⟨.turn d, chip⟩], after⟩ where
  clocked := by
    have gate := Chip.gate_turn spares turn
    rw [Chip.clocked, gate]
    exact tell.clocked
  signals c signal := by
    rw [raisedSince_concat, (Chip.addsFlags_turn spares turn).signals, tell.signals c signal,
      or_comm]
    simp [Happening.clears, Happening.raises]

/-- A write into a register of a channel changes neither DMA1's clock nor the flags. -/
theorem write_register_silent (chip : Chip) (c : Channel) {field : Word}
    (small : field.toNat < 0x14) (value : Word) :
    (chip.write (Dma1.register c field) value).peek Rcc.ahb1enr = chip.peek Rcc.ahb1enr ∧
      (chip.write (Dma1.register c field) value).peek (Dma1.base + Dma1.isr) =
        chip.peek (Dma1.base + Dma1.isr) := by
  have decoded := Dma1.decode_register c small
  have effect := Chip.store_effect (chip.noted (Dma1.register c field) value)
    (Dma1.register c field) value
  have notClear := Dma1.register_ne_clear c small
  constructor
  · apply Gated.peek_of_store effect
    · intro same
      rw [same] at decoded
      cases decoded
    · intro port offset place inside _
      rw [place, Block.decode_eq_gpio_iff.mpr ⟨rfl, inside⟩] at decoded
      cases decoded
    · intro place
      exact (notClear place).elim
  · exact effect.flags_of_ne notClear

/-- Each flag goes on telling about its channel, whatever part of a call comes next. -/
theorem flagsTell_kept : Kept (fun moment => moment.spares = true) FlagsTell where
  countDown call tell := tell.silent (fun _ => by simp) tell.clocked rfl
  countNop call tell := tell.silent (fun _ => by simp) tell.clocked rfl
  load {happenings chip} call address tell := by
    obtain ⟨rest, loaded⟩ := Chip.stateAfter_load chip address
    rw [Chip.Part.after, loaded]
    exact tell.silent (fun _ => by simp) tell.clocked rfl
  turn call spares turn tell := tell.turn spares turn
  share {happenings chip} call bytes tell := by
    obtain ⟨regions, next, shared⟩ := Chip.stateAfter_share chip bytes
    rw [Chip.Part.after, shared]
    exact tell.silent (fun _ => by simp) tell.clocked rfl
  write {happenings chip} call address value programs tell := by
    cases programs with
    | gate value on =>
      have kept (other : Word) : (chip.write Rcc.ahb1enr value).peek other =
          if Rcc.ahb1enr = other then value else chip.peek other :=
        Gated.peek_write_register .dma chip value other
      refine tell.silent ?_ ?_ ?_
      · exact fun _ => by simp
      · rw [Chip.clocked, kept, if_pos rfl]
        exact bne_iff_ne.mpr on
      · rw [kept, if_neg (by decide)]
    | register value about small =>
      obtain ⟨gate, flags⟩ := write_register_silent chip _ small value
      refine tell.silent ?_ ?_ flags
      · exact fun _ => by simp
      · rw [Chip.clocked, gate]
        exact tell.clocked
  returned {happenings chip call} cleared tell := by
    refine ⟨tell.clocked, fun c signal => ?_⟩
    have keeps : Happening.clears c signal (.returned call) = false := by
      cases call <;> simp_all [DmaCall.cleared?, Happening.clears, DmaCall.clears]
    rw [raisedSince_concat, keeps, tell.signals c signal]
    simp [Happening.raises]
  cleared {happenings chip call d flags} cleared tell := by
    obtain ⟨clearable, clears⟩ := DmaCall.clears_iff cleared
    refine ⟨?_, fun c signal => ?_⟩
    · have gate : (chip.write (Dma1.base + Dma1.ifcr) (Dma1.flagsOf d flags)).peek Rcc.ahb1enr =
          chip.peek Rcc.ahb1enr := by
        rw [Chip.write_clear tell.clocked, Chip.peek_poke, if_neg (by decide)]
        rfl
      rw [Chip.clocked, gate]
      exact tell.clocked
    · have last : Happening.clears c signal (.returned call) = false ↔
          ¬(d = c ∧ flags &&& signal.bit ≠ 0) := by
        rw [Happening.clears, ← Bool.not_eq_true, clears]
      rw [raisedSince_concat, raisedSince_concat, last,
        Chip.signals_cleared tell.clocked clearable, tell.signals c signal]
      simp [Happening.raises, Happening.clears, Chip.Moment.raises_of_timeless]

/-- What belongs to no call on a channel and is not its turn leaves its flags alone. -/
def FlagsApart (history : History) : Prop :=
  ∀ call moment, .part call moment ∈ history.happenings → ∀ c, call.channel? ≠ some c →
    moment.part ≠ .turn c → moment.after.flagGroup c = moment.chip.flagGroup c

theorem FlagsApart.extend {part : Chip.Part} (flagsApart : FlagsApart ⟨happenings, chip⟩)
    (keeps : ∀ c, call.channel? ≠ some c → part ≠ .turn c →
      (part.after chip).flagGroup c = chip.flagGroup c) :
    FlagsApart ⟨happenings ++ [.part call ⟨part, chip⟩], after⟩ := by
  intro other moment member c
  obtain old | new := List.mem_append.mp member
  · exact flagsApart other moment old c
  · obtain ⟨rfl, rfl⟩ := Happening.part.inj (List.mem_singleton.mp new)
    exact keeps c

theorem FlagsApart.returned (flagsApart : FlagsApart ⟨happenings, chip⟩) (call : DmaCall) :
    FlagsApart ⟨happenings ++ [.returned call], chip⟩ := by
  intro other moment member
  obtain old | new := List.mem_append.mp member
  · exact flagsApart other moment old
  · cases List.mem_singleton.mp new

theorem flagsApart_kept : Kept (fun moment => moment.spares = true) FlagsApart where
  countDown call flagsApart := flagsApart.extend fun _ _ _ => rfl
  countNop call flagsApart := flagsApart.extend fun _ _ _ => rfl
  load {happenings chip} call address flagsApart := by
    obtain ⟨rest, loaded⟩ := Chip.stateAfter_load chip address
    exact flagsApart.extend fun c _ _ => by rw [Chip.Part.after, loaded]; rfl
  turn {happenings chip after d} call spares turn flagsApart := by
    have left : Chip.Part.after chip (.turn d) = after :=
      stateAfter_of_ok (Chip.serveChannel_eq_ok_iff.mpr turn)
    refine flagsApart.extend fun c _ other => ?_
    rw [left]
    apply (Chip.addsFlags_turn spares turn).others
    rintro rfl
    exact other rfl
  share {happenings chip} call bytes flagsApart := by
    obtain ⟨regions, next, shared⟩ := Chip.stateAfter_share chip bytes
    exact flagsApart.extend fun c _ _ => by rw [Chip.Part.after, shared]; rfl
  write {happenings chip call address value} programs flagsApart := by
    refine flagsApart.extend fun c _ _ => ?_
    change (chip.write address value).flagGroup c = _
    rw [Chip.flagGroup, Chip.flagGroup]
    cases programs with
    | gate value on =>
      have kept : (chip.write Rcc.ahb1enr value).peek (Dma1.base + Dma1.isr) = _ :=
        Gated.peek_write_register .dma chip value (Dma1.base + Dma1.isr)
      rw [kept, if_neg (by decide)]
    | register value about small => rw [(write_register_silent chip _ small value).2]
  returned cleared flagsApart := flagsApart.returned _
  cleared {happenings chip call d flags} cleared flagsApart := by
    refine FlagsApart.returned (flagsApart.extend fun c other _ => ?_) call
    have about : call.channel? = some d := by
      cases call <;> simp_all [DmaCall.cleared?, DmaCall.channel?]
    have ne : d ≠ c := by
      rintro rfl
      exact other about
    exact Chip.group_cleared (DmaCall.clears_iff cleared).1 ne

end History

end Peripherals
