import Peripherals.Proofs.FlagHistory

/-! # One computation on two devices

A computation that finds the same on two devices goes the same way on both. What
it finds is kept as a relation between the devices that may depend on the ticks
left, so that a relation of a device to itself tells what the computation does to
one device in its ticks. For the calls on a channel it is enough to look at a
tick, at the values read and at the writes. -/

namespace Peripherals

namespace Bus

variable {δ α β : Type} {overrun : Prop} {P Q : Nat → δ → δ → Prop}

/-- How a computation ends on two devices: it returns the same on both or runs out of ticks on both,
with as many ticks left. Nothing is said where it faults on the first one in another way, and on the
second one it may add past the last address, if that is provided for. -/
inductive Follows (overrun : Prop) (P Q : Nat → δ → δ → Prop) :
    EStateM.Result Fault (Session δ) α → EStateM.Result Fault (Session δ) α → Prop
  | returned (value : α) {ticks : Nat} {device other : δ} (log log' : Array Access)
      (holds : Q ticks device other) :
      Follows overrun P Q (.ok value ⟨device, ticks, log⟩) (.ok value ⟨other, ticks, log'⟩)
  | stopped {ticks : Nat} {device other : δ} (log log' : Array Access)
      (holds : P ticks device other) :
      Follows overrun P Q (.error .outOfTicks ⟨device, ticks, log⟩)
        (.error .outOfTicks ⟨other, ticks, log'⟩)
  | faulted {fault : Fault} (different : fault ≠ .outOfTicks) (session : Session δ)
      (result : EStateM.Result Fault (Session δ) α) :
      Follows overrun P Q (.error fault session) result
  | overran (provided : overrun) (result : EStateM.Result Fault (Session δ) α)
      (session : Session δ) : Follows overrun P Q result (.error .addOverflow session)

/-- From devices with `P`, a computation ends in the same way on both. It returns only into `Q`, and
running out of ticks leaves `P`. -/
def InStep (overrun : Prop) (P : Nat → δ → δ → Prop) (m : BusM δ α)
    (Q : Nat → δ → δ → Prop) : Prop :=
  ∀ ticks device other log log', P ticks device other →
    Follows overrun P Q (m.run ⟨device, ticks, log⟩) (m.run ⟨other, ticks, log'⟩)

theorem InStep.pure (value : α) (leads : ∀ ticks device other, P ticks device other →
    Q ticks device other) : InStep overrun P (Pure.pure value : BusM δ α) Q :=
  fun _ _ _ log log' holds => .returned value log log' (leads _ _ _ holds)

theorem InStep.bind {m : BusM δ α} {f : α → BusM δ β} (first : InStep overrun P m P)
    (rest : ∀ value, InStep overrun P (f value) Q) : InStep overrun P (m >>= f) Q := by
  intro ticks device other log log' holds
  have reached := first ticks device other log log' holds
  rw [EStateM.run_bind, EStateM.run_bind]
  generalize m.run ⟨device, ticks, log⟩ = here at reached ⊢
  generalize m.run ⟨other, ticks, log'⟩ = there at reached ⊢
  cases reached with
  | returned value log log' holds => exact rest value _ _ _ log log' holds
  | stopped log log' holds => exact .stopped log log' holds
  | faulted different => exact .faulted different _ _
  | overran provided => exact .overran provided _ _

theorem InStep.weaken {m : BusM δ α} (inStep : InStep overrun P m P)
    (leads : ∀ ticks device other, P ticks device other → Q ticks device other) :
    InStep overrun P m Q := by
  intro ticks device other log log' holds
  have reached := inStep ticks device other log log' holds
  generalize m.run ⟨device, ticks, log⟩ = here at reached ⊢
  generalize m.run ⟨other, ticks, log'⟩ = there at reached ⊢
  cases reached with
  | returned value log log' holds => exact .returned value log log' (leads _ _ _ holds)
  | stopped log log' holds => exact .stopped log log' holds
  | faulted different => exact .faulted different _ _
  | overran provided => exact .overran provided _ _

theorem InStep.throw {fault : Fault} (different : fault ≠ .outOfTicks) :
    InStep overrun P (MonadExcept.throw fault : BusM δ α) Q :=
  fun _ _ _ _ _ _ => .faulted different _ _

/-- Both devices have as many rounds, since both have as many ticks. -/
theorem InStep.untilTrue {round : BusM δ Bool} (each : InStep overrun P round P) :
    InStep overrun P (Bus.untilTrue round) P := by
  have rounds (bound : Nat) :
      InStep overrun P (Peripherals.untilTrue bound round : BusM δ Unit) P := by
    induction bound with
    | zero => exact fun _ _ _ log log' holds => .stopped log log' holds
    | succ bound ih =>
      apply InStep.bind each
      intro done
      cases done with
      | true => exact .pure () fun _ _ _ holds => holds
      | false => exact ih
  exact fun ticks device other log log' holds =>
    rounds (ticks + 1) ticks device other log log' holds

end Bus

/-! ## On chips -/

namespace Chip

variable {chip : Chip} {address : Word}

theorem tick_overflows : OnlyOverflows tick := by
  intro chip fault after faulted
  have turns (cs : List Channel) : OnlyOverflows (forM cs serveChannel) := by
    induction cs with
    | nil => exact fun _ _ _ impossible => nomatch impossible
    | cons c rest ih =>
      rw [List.forM_cons]
      exact .seq (fun _ _ _ failed => serveChannel_fault failed) ih
  rw [tick_eq] at faulted
  split at faulted
  · exact turns _ _ _ _ faulted
  · cases faulted

/-- A buffer is refused only where an address overflows. -/
theorem regionAfter_fault {base : Word} {length : Nat} {fault : Fault}
    (refused : regionAfter base length = .error fault) : fault = .addOverflow := by
  simp only [regionAfter, bind, Except.bind] at refused
  split at refused
  · next sum => exact (Except.error.inj refused) ▸ add_fault sum
  split at refused
  · next sum => exact (Except.error.inj refused) ▸ add_fault sum
  split at refused
  · next sum => exact (Except.error.inj refused) ▸ add_fault sum
  · cases refused

/-- A register that a load shows as it is stored: one of no port and not of USART3. -/
def Direct (address : Word) : Prop :=
  match Block.decode address with
  | .gpio _ _ | .usart3 _ => False
  | .dma1 _ | .other => True

/-- The value that a load of such a register gives. -/
def shown (chip : Chip) (address : Word) : Word :=
  if chip.clocked (Block.decode address) then chip.peek address else 0

theorem load_direct (direct : Direct address) (chip : Chip) :
    (load address).run chip = .ok (chip.shown address) chip := by
  rw [Direct] at direct
  simp only [load, EStateM.run, shown]
  split
  · cases decoded : Block.decode address with
    | gpio | usart3 =>
      rw [decoded] at direct
      exact direct.elim
    | dma1 | other => rfl
  · rfl

theorem direct_register (c : Channel) {field : Word} (small : field.toNat < 0x14) :
    Direct (Dma1.register c field) := by
  rw [Direct, Dma1.decode_register c small]
  trivial

end Chip

namespace Bus

open Chip

variable {overrun : Prop} {P Q : Nat → Chip → Chip → Prop} {address value : Word}

/-- A tick that returns on the first chip also returns on the second, and the relation is kept. -/
def TicksAlong (overrun : Prop) (P : Nat → Chip → Chip → Prop) : Prop :=
  ∀ {ticks chip other after}, P (ticks + 1) chip other → Chip.tick.run chip = .ok () after →
    (∃ after', Chip.tick.run other = .ok () after' ∧ P ticks after after') ∨
      overrun ∧ ∃ left, Chip.tick.run other = .error .addOverflow left

theorem InStep.write (each : ∀ ticks chip other, P ticks chip other →
    Q ticks (chip.write address value) (other.write address value)) :
    InStep overrun P (Bus.write address value : BusM Chip Unit) Q :=
  fun _ _ _ _ _ holds => .returned () _ _ (each _ _ _ holds)

/-- A `nop` with a tick left counts itself and lets a tick pass. -/
theorem run_nop (chip : Chip) (ticks : Nat) (log : Array Access) :
    (Bus.nop : BusM Chip Unit).run ⟨chip, ticks + 1, log⟩ =
      match Chip.tick.run { chip with nops := chip.nops + 1 } with
      | .ok value after => .ok value ⟨after, ticks, log.push .nop⟩
      | .error fault after => .error fault ⟨after, ticks, log.push .nop⟩ := by
  have counted : (Target.nop : EStateM Fault Chip Unit).run chip =
      Chip.tick.run { chip with nops := chip.nops + 1 } := rfl
  change (onDevice Target.nop : BusM Chip Unit).run ⟨chip, ticks, log.push .nop⟩ = _
  rw [run_onDevice, counted]
  cases Chip.tick.run { chip with nops := chip.nops + 1 } <;> rfl

section Ticking

variable (along : TicksAlong overrun P)

include along

/-- A read of which only what `f` makes of its value is used. -/
theorem InStep.look {γ : Type} (f : Word → γ) (direct : Direct address)
    (same : ∀ ticks chip other, P ticks chip other →
      f (other.shown address) = f (chip.shown address)) :
    InStep overrun P (do
      let value ← Bus.read address
      Pure.pure (f value) : BusM Chip γ) P := by
  intro ticks chip other log log' holds
  cases ticks with
  | zero => exact .stopped log log' holds
  | succ ticks =>
    rw [EStateM.run_bind, EStateM.run_bind, run_read_load, run_read_load, run_load, run_load]
    cases ticked : Chip.tick.run chip with
    | error fault left =>
      obtain rfl := tick_overflows _ _ _ ticked
      exact .faulted (show Fault.addOverflow ≠ .outOfTicks by decide) _ _
    | ok _ after =>
      obtain ⟨after', ticked', holds⟩ | ⟨provided, left, ticked'⟩ := along holds ticked
      · rw [ticked']
        simp only [load_direct direct]
        rw [same _ _ _ holds]
        exact .returned _ _ _ holds
      · rw [ticked']
        exact .overran provided _ _

theorem InStep.read (direct : Direct address)
    (same : ∀ ticks chip other, P ticks chip other →
      other.shown address = chip.shown address) :
    InStep overrun P (Bus.read address : BusM Chip Word) P := by
  have looked := InStep.look along id direct same
  have plain : (do
      let value ← Bus.read address
      Pure.pure (id value) : BusM Chip Word) = Bus.read address := bind_pure _
  rwa [plain] at looked

theorem InStep.nop (counted : ∀ ticks chip other, P ticks chip other →
    P ticks { chip with nops := chip.nops + 1 } { other with nops := other.nops + 1 }) :
    InStep overrun P (Bus.nop : BusM Chip Unit) P := by
  intro ticks chip other log log' holds
  cases ticks with
  | zero => exact .stopped log log' holds
  | succ ticks =>
    rw [run_nop, run_nop]
    cases ticked : Chip.tick.run { chip with nops := chip.nops + 1 } with
    | error fault left =>
      obtain rfl := tick_overflows _ _ _ ticked
      exact .faulted (show Fault.addOverflow ≠ .outOfTicks by decide) _ _
    | ok _ after =>
      obtain ⟨after', ticked', holds⟩ | ⟨provided, left, ticked'⟩ :=
        along (counted _ _ _ holds) ticked
      · rw [ticked']
        exact .returned () _ _ holds
      · rw [ticked']
        exact .overran provided _ _

end Ticking

theorem InStep.anySet (along : TicksAlong overrun P) {mask : Word} (direct : Direct address)
    (same : ∀ ticks chip other, P ticks chip other →
      other.shown address &&& mask = chip.shown address &&& mask) :
    InStep overrun P (Bus.anySet address mask : BusM Chip Bool) P :=
  InStep.look along (· &&& mask != 0) direct fun ticks chip other holds => by
    rw [same ticks chip other holds]

/-- A buffer goes to the same place in chips whose next one has the same base. -/
theorem InStep.share {buffer : Buffer}
    (base : ∀ ticks chip other, P ticks chip other → other.nextRegion = chip.nextRegion)
    (fits : ∀ ticks chip other next, P ticks chip other →
      regionAfter chip.nextRegion buffer.bytes.size = .ok next →
        P ticks (chip.shared buffer.bytes next) (other.shared buffer.bytes next)) :
    InStep overrun P (Bus.share buffer : BusM Chip Word) P := by
  intro ticks chip other log log' holds
  cases placed : regionAfter chip.nextRegion buffer.bytes.size with
  | ok next =>
    have placed' : regionAfter other.nextRegion buffer.bytes.size = .ok next := by
      rw [base _ _ _ holds]
      exact placed
    rw [share_fits chip ticks log placed, share_fits other ticks log' placed', base _ _ _ holds]
    exact .returned _ _ _ (fits _ _ _ _ holds placed)
  | error fault =>
    have different : fault ≠ .outOfTicks := by
      rw [regionAfter_fault placed]
      decide
    have refused : (Bus.share buffer : BusM Chip Word).run ⟨chip, ticks, log⟩ =
        .error fault ⟨chip, ticks, log⟩ := by
      have shared : (Target.share buffer : EStateM Fault Chip Word).run chip =
          .error fault chip := by
        change (Chip.share buffer.bytes).run chip = _
        rw [Chip.run_share, placed]
      change (onDevice (Target.share buffer) >>= fun address => do
        record (.share address buffer.bytes.size)
        Pure.pure address : BusM Chip Word).run ⟨chip, ticks, log⟩ = _
      rw [EStateM.run_bind, run_onDevice, shared]
    rw [refused]
    exact .faulted different _ _

end Bus

/-! ## Calls -/

namespace DmaCall

open Bus Chip

variable {overrun : Prop} {P Q : Nat → Chip → Chip → Prop} {c : Channel} {call : DmaCall}

/-- What the calls on a channel write, beside the control value that starts it. -/
inductive Adjusts (c : Channel) : Word → Word → Prop
  | off (control : Word) : Adjusts c (Dma1.register c Dma1.ccr) (control &&& ~~~Dma1.enable)
  | program {field : Word} (value : Word) (small : field.toNat < 0x14)
      (notControl : field ≠ Dma1.ccr) : Adjusts c (Dma1.register c field) value
  | clear {flags : Word} (clearable : Clearable flags) :
      Adjusts c (Dma1.base + Dma1.ifcr) (Dma1.flagsOf c flags)

/-- A relation that is kept by what the calls on a channel do, in which they find the same. -/
structure Carried (overrun : Prop) (c : Channel) (P : Nat → Chip → Chip → Prop) : Prop where
  along : TicksAlong overrun P
  register : ∀ ticks chip other, P ticks chip other → ∀ field : Word, field.toNat < 0x14 →
    other.shown (Dma1.register c field) = chip.shown (Dma1.register c field)
  flag : ∀ ticks chip other, P ticks chip other → ∀ flag : TransferFlag,
    other.shown (Dma1.base + Dma1.isr) &&& Dma1.flagsOf c flag.bit =
      chip.shown (Dma1.base + Dma1.isr) &&& Dma1.flagsOf c flag.bit
  write : ∀ ticks chip other, P ticks chip other → ∀ address value, Adjusts c address value →
    P ticks (chip.write address value) (other.write address value)

section Carried

variable (carried : Carried overrun c P)

include carried

theorem Carried.adjust {address value : Word} (adjusts : Adjusts c address value) :
    InStep overrun P (Bus.write address value) P :=
  .write fun _ _ _ holds => carried.write _ _ _ holds _ _ adjusts

theorem Carried.read {field : Word} (small : field.toNat < 0x14) :
    InStep overrun P (Bus.read (Dma1.register c field)) P :=
  .read carried.along (direct_register c small) fun _ _ _ holds =>
    carried.register _ _ _ holds field small

theorem Carried.enabled :
    InStep overrun P (Bus.anySet (Dma1.register c Dma1.ccr) Dma1.enable) P :=
  .anySet carried.along (direct_register c Dma1.ccr_inside) fun _ _ _ holds => by
    rw [carried.register _ _ _ holds _ Dma1.ccr_inside]

theorem Carried.raised (flag : TransferFlag) : InStep overrun P (Dma.raised c flag) P :=
  .anySet carried.along trivial fun _ _ _ holds => carried.flag _ _ _ holds flag

theorem Carried.stop : InStep overrun P (Dma.stop c) P := by
  apply InStep.bind
  · exact .bind (carried.read Dma1.ccr_inside) fun value => carried.adjust (.off value)
  · intro _
    exact .untilTrue (.bind carried.enabled fun _ => .pure _ fun _ _ _ holds => holds)

theorem Carried.clear {flags : Word} (clearable : Clearable flags) :
    InStep overrun P (Dma.clear c flags) P :=
  carried.adjust (.clear clearable)

theorem Carried.configure (target source length : Word) :
    InStep overrun P (Dma.configure c target source length) P := by
  have program : InStep overrun P (do
      Bus.write (Dma1.register c Dma1.cpar) target
      Bus.write (Dma1.register c Dma1.cmar) source
      Bus.write (Dma1.register c Dma1.cndtr) length
      Dma.clearFlags c : BusM Chip Unit) P := by
    refine .bind (carried.adjust (.program _ Dma1.cpar_inside (by decide))) fun _ => ?_
    refine .bind (carried.adjust (.program _ Dma1.cmar_inside (by decide))) fun _ => ?_
    refine .bind (carried.adjust (.program _ Dma1.cndtr_inside (by decide))) fun _ => ?_
    exact carried.clear (.inl rfl)
  have whenShort : InStep overrun P (do
      if ← Bus.anySet (Dma1.register c Dma1.ccr) Dma1.enable then
        Dma.stop c
      Bus.write (Dma1.register c Dma1.cpar) target
      Bus.write (Dma1.register c Dma1.cmar) source
      Bus.write (Dma1.register c Dma1.cndtr) length
      Dma.clearFlags c : BusM Chip Unit) P := by
    apply InStep.bind carried.enabled
    intro enabled
    cases enabled with
    | true => exact .bind carried.stop fun _ => program
    | false => exact program
  rw [Dma.configure]
  split
  · exact .bind (.throw (by decide)) fun _ => whenShort
  · exact whenShort

/-- So it is kept by every call on the channel, up to a control value that starts it. -/
theorem Carried.perform (about : call.channel? = some c)
    (start : ∀ config, call = .start c config → ∀ ticks chip other, P ticks chip other →
      Q ticks (chip.write (Dma1.register c Dma1.ccr) (config.bits ||| Dma1.enable))
        (other.write (Dma1.register c Dma1.ccr) (config.bits ||| Dma1.enable)))
    (leads : ∀ ticks chip other, P ticks chip other → Q ticks chip other) :
    InStep overrun P call.perform Q := by
  cases call with
  | enable | share | nop => cases about
  | configure d target source length =>
    obtain rfl := Option.some.inj about
    exact (carried.configure target source length).weaken leads
  | start d config =>
    obtain rfl := Option.some.inj about
    exact .write (start config rfl)
  | stop d =>
    obtain rfl := Option.some.inj about
    exact carried.stop.weaken leads
  | clearFlag d flag =>
    obtain rfl := Option.some.inj about
    exact (carried.clear (.inr ⟨flag, rfl⟩)).weaken leads
  | clearFlags d =>
    obtain rfl := Option.some.inj about
    exact (carried.clear (.inl rfl)).weaken leads
  | raised d flag =>
    obtain rfl := Option.some.inj about
    exact .bind (carried.raised flag) fun _ => .pure _ leads
  | wait d =>
    obtain rfl := Option.some.inj about
    exact (InStep.untilTrue (carried.raised .complete)).weaken leads
  | remaining d =>
    obtain rfl := Option.some.inj about
    refine .bind (.bind (carried.read Dma1.cndtr_inside) fun _ => ?_) fun _ => .pure _ leads
    exact .pure _ fun _ _ _ holds => holds

end Carried

/-- A relation that is kept by what a call on no channel does, in which it finds the same. -/
structure CarriedAside (overrun : Prop) (call : DmaCall) (P : Nat → Chip → Chip → Prop) :
    Prop where
  along : TicksAlong overrun P
  gate : ∀ ticks chip other, P ticks chip other →
    other.shown Rcc.ahb1enr = chip.shown Rcc.ahb1enr
  write : ∀ ticks chip other, P ticks chip other → ∀ value,
    P ticks (chip.write Rcc.ahb1enr value) (other.write Rcc.ahb1enr value)
  base : ∀ ticks chip other, P ticks chip other → other.nextRegion = chip.nextRegion
  shared : ∀ ticks chip other, P ticks chip other → ∀ buffer next, call = .share buffer →
    regionAfter chip.nextRegion buffer.bytes.size = .ok next →
      P ticks (chip.shared buffer.bytes next) (other.shared buffer.bytes next)
  counted : ∀ ticks chip other, P ticks chip other →
    P ticks { chip with nops := chip.nops + 1 } { other with nops := other.nops + 1 }

theorem CarriedAside.perform (carried : CarriedAside overrun call P)
    (about : call.channel? = none) :
    InStep overrun P call.perform P := by
  cases call with
  | configure | start | stop | clearFlag | clearFlags | raised | wait | remaining => cases about
  | enable =>
    refine .bind (.read carried.along trivial carried.gate) fun value => ?_
    exact .write fun _ _ _ holds => carried.write _ _ _ holds _
  | share buffer =>
    refine .bind (.share carried.base fun _ _ _ next holds fits => ?_) fun _ => .pure _ ?_
    · exact carried.shared _ _ _ holds _ _ rfl fits
    · exact fun _ _ _ holds => holds
  | nop => exact .nop carried.along carried.counted

/-! ### A chip beside itself -/

/-- What holds of a chip with some ticks left, as a relation of the chip to itself. -/
def Itself (I : Nat → Chip → Prop) (ticks : Nat) (chip other : Chip) : Prop :=
  other = chip ∧ I ticks chip

theorem Itself.mono {I J : Nat → Chip → Prop} (leads : ∀ ticks chip, I ticks chip → J ticks chip)
    (ticks : Nat) (chip other : Chip) (itself : Itself I ticks chip other) :
    Itself J ticks chip other :=
  ⟨itself.1, leads _ _ itself.2⟩

section Itself

variable {I : Nat → Chip → Prop}
  (tick : ∀ ticks chip after, I (ticks + 1) chip → Chip.tick.run chip = .ok () after →
    I ticks after)

include tick

theorem TicksAlong.itself : TicksAlong False (Itself I) := by
  rintro ticks chip _ after ⟨rfl, holds⟩ passed
  exact .inl ⟨after, passed, rfl, tick _ _ _ holds passed⟩

theorem Carried.itself (write : ∀ ticks chip, I ticks chip → ∀ address value,
    Adjusts c address value → I ticks (chip.write address value)) :
    Carried False c (Itself I) where
  along := TicksAlong.itself tick
  register := by
    rintro ticks chip _ ⟨rfl, -⟩ field -
    rfl
  flag := by
    rintro ticks chip _ ⟨rfl, -⟩ flag
    rfl
  write := by
    rintro ticks chip _ ⟨rfl, holds⟩ address value adjusts
    exact ⟨rfl, write _ _ holds _ _ adjusts⟩

end Itself

/-- What a call keeps, up to a control value that starts a channel. -/
structure KeptBy (call : DmaCall) (I : Nat → Chip → Prop) : Prop where
  tick : ∀ ticks chip after, I (ticks + 1) chip → Chip.tick.run chip = .ok () after →
    I ticks after
  adjusted : ∀ ticks chip, I ticks chip → ∀ c address value, call.channel? = some c →
    Adjusts c address value → I ticks (chip.write address value)
  gated : ∀ ticks chip, I ticks chip → ∀ value, I ticks (chip.write Rcc.ahb1enr value)
  shared : ∀ ticks chip, I ticks chip → ∀ bytes next,
    regionAfter chip.nextRegion bytes.size = .ok next → I ticks (chip.shared bytes next)
  counted : ∀ ticks chip, I ticks chip → I ticks { chip with nops := chip.nops + 1 }

theorem KeptBy.perform {I J : Nat → Chip → Prop} (kept : KeptBy call I)
    (start : ∀ c config, call = .start c config → ∀ ticks chip, I ticks chip →
      J ticks (chip.write (Dma1.register c Dma1.ccr) (config.bits ||| Dma1.enable)))
    (leads : ∀ ticks chip, I ticks chip → J ticks chip) :
    InStep False (Itself I) call.perform (Itself J) := by
  cases about : call.channel? with
  | some c =>
    refine (Carried.itself kept.tick ?_).perform about ?_ (Itself.mono leads)
    · exact fun ticks chip holds _ _ => kept.adjusted ticks chip holds c _ _ about
    · rintro config called ticks chip _ ⟨rfl, holds⟩
      exact ⟨rfl, start c config called _ _ holds⟩
  | none =>
    have aside : CarriedAside False call (Itself I) := by
      constructor
      · exact TicksAlong.itself kept.tick
      · rintro ticks chip _ ⟨rfl, -⟩
        rfl
      · rintro ticks chip _ ⟨rfl, holds⟩ value
        exact ⟨rfl, kept.gated _ _ holds value⟩
      · rintro ticks chip _ ⟨rfl, -⟩
        rfl
      · rintro ticks chip _ ⟨rfl, holds⟩ buffer next - fits
        exact ⟨rfl, kept.shared _ _ holds buffer.bytes next fits⟩
      · rintro ticks chip _ ⟨rfl, holds⟩
        exact ⟨rfl, kept.counted _ _ holds⟩
    exact (aside.perform about).weaken (Itself.mono leads)

/-! ### Where a call leaves the chips -/

/-- The ticks that a call makes of those it has. -/
def ticksMade (chip : Chip) (step : DmaCall × Nat) : Nat :=
  match (step.1.perform : BusM Chip Unit).run ⟨chip, step.2, #[]⟩ with
  | .ok _ after | .error _ after => step.2 - after.ticks

/-- A call that ends on the first chip ends on the second. -/
theorem runOn_of_inStep {ticks : Nat} {chip other after : Chip}
    (inStep : InStep overrun P call.perform Q)
    (leads : ∀ ticks chip other, P ticks chip other → Q ticks chip other)
    (holds : P ticks chip other) (ran : runOn chip (call, ticks) = some after) :
    (∃ after' left, runOn other (call, ticks) = some after' ∧
        ticksMade chip (call, ticks) = ticks - left ∧ Q left after after') ∨
      overrun ∧ runOn other (call, ticks) = none := by
  have ended := inStep ticks chip other #[] #[] holds
  rw [runOn] at ran
  rw [ticksMade, runOn]
  generalize (call.perform : BusM Chip Unit).run ⟨chip, ticks, #[]⟩ = here at ended ran ⊢
  generalize (call.perform : BusM Chip Unit).run ⟨other, ticks, #[]⟩ = there at ended ⊢
  cases ended with
  | returned value log log' reached =>
    obtain rfl := Option.some.inj ran
    exact .inl ⟨_, _, rfl, rfl, reached⟩
  | stopped log log' kept =>
    obtain rfl := Option.some.inj ran
    exact .inl ⟨_, _, rfl, rfl, leads _ _ _ kept⟩
  | faulted different =>
    split at ran
    · next same => cases same
    · next same => exact (different (EStateM.Result.error.inj same).1).elim
    · cases ran
  | overran provided => exact .inr ⟨provided, rfl⟩

/-- What a call leaves of one chip with the ticks it has made. -/
theorem runOn_of_itself {I J : Nat → Chip → Prop} {ticks : Nat} {chip after : Chip}
    (inStep : InStep False (Itself I) call.perform (Itself J))
    (leads : ∀ ticks chip, I ticks chip → J ticks chip)
    (holds : I ticks chip) (ran : runOn chip (call, ticks) = some after) :
    ∃ left, ticksMade chip (call, ticks) = ticks - left ∧ J left after := by
  obtain ⟨after', left, -, made, -, reached⟩ | ⟨impossible, -⟩ :=
    runOn_of_inStep inStep (Itself.mono leads) ⟨rfl, holds⟩ ran
  · exact ⟨left, made, reached⟩
  · exact impossible.elim

end DmaCall

end Peripherals
