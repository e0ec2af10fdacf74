import Peripherals.Proofs.ChannelTurn

/-! # Reachable states

What a program and its surroundings can do to the chip, one action at a time,
and the states this leads to from reset when no action faults. A property of
every reachable state is proved from five kinds of change: one that the engine
does not see, a store, a turn of a channel, and a shared buffer, beside the reset. -/

namespace Peripherals

namespace Chip

/-! ## Parts of a tick and of a load -/

/-- The chip as a tick finds it after the transmitter came one step closer to its next byte. -/
def countedDown (chip : Chip) : Chip :=
  { chip with busy := chip.busy - 1 }

theorem tick_eq (chip : Chip) :
    tick.run chip =
      if chip.clocked (.dma1 0) then (forM Channel.all serveChannel).run chip.countedDown
      else .ok () chip.countedDown :=
  rfl

/-- A load changes nothing but the receive queue, and nothing at all when it faults. -/
theorem load_effect (chip : Chip) (address : Word) :
    (∃ value rest, (load address).run chip = .ok value { chip with received := rest }) ∨
      ∃ fault, (load address).run chip = .error fault chip := by
  have kept (value : Word) : ∃ value' rest, EStateM.Result.ok value chip =
      (.ok value' { chip with received := rest } : EStateM.Result Fault Chip Word) :=
    ⟨value, chip.received, rfl⟩
  simp only [load, EStateM.run]
  split
  · split
    · split
      · split
        · exact .inl (kept _)
        · exact .inr ⟨_, rfl⟩
      · exact .inl (kept _)
    · split
      · exact .inl (kept _)
      split
      · left
        rw [receive]
        split
        · exact kept 0
        split
        · exact ⟨_, _, rfl⟩
        · exact kept 0
      · exact .inl (kept _)
    · exact .inl (kept _)
  · exact .inl (kept 0)

/-- The chip after a buffer was shared. -/
def shared (chip : Chip) (bytes : Array Byte) (next : Word) : Chip :=
  { chip with regions := chip.regions ++ [⟨chip.nextRegion, bytes⟩], nextRegion := next }

theorem run_share (chip : Chip) (bytes : Array Byte) :
    (share bytes).run chip =
      match regionAfter chip.nextRegion bytes.size with
      | .ok next => .ok chip.nextRegion (chip.shared bytes next)
      | .error fault => .error fault chip :=
  rfl

/-- The registers, the latches and the memory of both chips are the same. -/
structure SameEngine (chip after : Chip) : Prop where
  registers : after.registers = chip.registers
  channels : after.channels = chip.channels
  regions : after.regions = chip.regions
  nextRegion : after.nextRegion = chip.nextRegion

theorem SameEngine.peek {chip after : Chip} (same : SameEngine chip after) (address : Word) :
    after.peek address = chip.peek address := by
  rw [Chip.peek, same.registers, Chip.peek]

theorem SameEngine.latch {chip after : Chip} (same : SameEngine chip after) (c : Channel) :
    after.latch c = chip.latch c := by
  rw [Chip.latch, same.channels, Chip.latch]

/-! ## Actions -/

/-- One thing that a program or the surroundings do to the chip. -/
inductive Action
  | read (address : Word)
  | write (address value : Word)
  | nop
  | breakpoint
  | share (bytes : Array Byte)
  | drive (pin : PinId) (level : Level)
  | release (pin : PinId)
  | connect (output input : PinId)
  | pushReceived (bytes : List Byte)
  | setLatency (ticks : Nat)
  | clearEvents

/-- What an action does, its answer dropped. -/
def Action.perform : Action → EStateM Fault Chip Unit
  | .read address => do
    let _ ← (Target.load address : EStateM Fault Chip Word)
    pure ()
  | .write address value => Target.store address value
  | .nop => Target.nop
  | .breakpoint => Target.breakpoint
  | .share bytes => do
    let _ ← (Target.share ⟨0, bytes⟩ : EStateM Fault Chip Word)
    pure ()
  | .drive pin level => modify (·.drive pin level)
  | .release pin => modify (·.release pin)
  | .connect output input => modify (·.connect output input)
  | .pushReceived bytes => modify (·.pushReceived bytes)
  | .setLatency ticks => modify (·.setLatency ticks)
  | .clearEvents => modify (·.clearEvents)

/-- The states that allowed actions lead to from reset, none of them faulting. -/
inductive Reachable (allowed : Action → Prop) : Chip → Prop
  | reset : Reachable allowed Chip.reset
  | perform {chip after : Chip} (action : Action) (before : Reachable allowed chip)
      (permitted : allowed action) (returned : action.perform.run chip = .ok () after) :
      Reachable allowed after

theorem Reachable.mono {allowed others : Action → Prop} (more : ∀ a, allowed a → others a)
    {chip : Chip} (reachable : Reachable allowed chip) : Reachable others chip := by
  induction reachable with
  | reset => exact .reset
  | perform action _ permitted returned ih => exact .perform action ih (more _ permitted) returned

theorem Reachable.write {allowed : Action → Prop} {chip : Chip} (reachable : Reachable allowed chip)
    (address value : Word) (permitted : allowed (.write address value)) :
    Reachable allowed (chip.write address value) :=
  .perform (.write address value) reachable permitted rfl

/-- A property that every kind of change preserves. -/
structure Preserved (allowed : Action → Prop) (P : Chip → Prop) : Prop where
  unseen : ∀ {chip after : Chip}, P chip → SameEngine chip after → P after
  store : ∀ {chip after : Chip} {address value : Word}, P chip → allowed (.write address value) →
    StoreEffect chip address value after → P after
  turn : ∀ {chip after : Chip} {c : Channel}, P chip → Turn chip c after → P after
  share : ∀ {chip : Chip} {bytes : Array Byte} {next : Word}, P chip → allowed (.share bytes) →
    regionAfter chip.nextRegion bytes.size = .ok next → P (chip.shared bytes next)

section Invariants

variable {allowed : Action → Prop} {P : Chip → Prop} {chip after : Chip}

/-- What every turn keeps, turns that return keep. -/
theorem turns_keep (each : ∀ chip c after, P chip → Turn chip c after → P after)
    {cs : List Channel} (holds : P chip)
    (returned : (forM cs serveChannel).run chip = .ok () after) : P after :=
  forM_preserves (fun _ _ _ holds served => each _ _ _ holds (serveChannel_eq_ok_iff.mp served))
    holds returned

/-- So does a tick, if it begins with that. -/
theorem tick_keeps (each : ∀ chip c after, P chip → Turn chip c after → P after)
    (begun : P chip.countedDown) (returned : Chip.tick.run chip = .ok () after) : P after := by
  rw [tick_eq] at returned
  split at returned
  · exact turns_keep each begun returned
  · obtain ⟨-, rfl⟩ := EStateM.Result.ok.inj returned
    exact begun

theorem Preserved.turns (preserved : Preserved allowed P) {cs : List Channel} (holds : P chip)
    (returned : (forM cs serveChannel).run chip = .ok () after) : P after :=
  turns_keep (fun _ _ _ => preserved.turn) holds returned

theorem Preserved.tick (preserved : Preserved allowed P) (holds : P chip)
    (returned : Chip.tick.run chip = .ok () after) : P after :=
  tick_keeps (fun _ _ _ => preserved.turn) (preserved.unseen holds ⟨rfl, rfl, rfl, rfl⟩) returned

theorem Preserved.perform (preserved : Preserved allowed P) {action : Action}
    (permitted : allowed action) (holds : P chip)
    (returned : action.perform.run chip = .ok () after) : P after := by
  cases action with
  | read address =>
    obtain ⟨value, loaded, read, dropped⟩ := run_bind_eq_ok_iff.mp returned
    obtain ⟨-, rfl⟩ := EStateM.Result.ok.inj dropped
    obtain ⟨ticked, passed, loads⟩ := run_seq_eq_ok_iff.mp read
    have moved := preserved.tick holds passed
    obtain ⟨_, _, result⟩ | ⟨_, result⟩ := load_effect ticked address
    · obtain ⟨-, rfl⟩ := EStateM.Result.ok.inj (result.symm.trans loads)
      exact preserved.unseen moved ⟨rfl, rfl, rfl, rfl⟩
    · rw [result] at loads
      cases loads
  | write address value =>
    obtain ⟨-, rfl⟩ := EStateM.Result.ok.inj returned
    apply preserved.store _ permitted (store_effect _ address value)
    exact preserved.unseen holds ⟨rfl, rfl, rfl, rfl⟩
  | nop =>
    have begun : P { chip with nops := chip.nops + 1 } :=
      preserved.unseen holds ⟨rfl, rfl, rfl, rfl⟩
    exact preserved.tick begun returned
  | share bytes =>
    obtain ⟨value, shared, given, dropped⟩ := run_bind_eq_ok_iff.mp returned
    obtain ⟨-, rfl⟩ := EStateM.Result.ok.inj dropped
    change (Chip.share bytes).run chip = _ at given
    rw [run_share] at given
    split at given
    · next next fits =>
      obtain ⟨-, rfl⟩ := EStateM.Result.ok.inj given
      exact preserved.share holds permitted fits
    · cases given
  | breakpoint | drive | release | connect | pushReceived | setLatency | clearEvents =>
    obtain ⟨-, rfl⟩ := EStateM.Result.ok.inj returned
    exact preserved.unseen holds ⟨rfl, rfl, rfl, rfl⟩

/-- What holds at reset and is preserved by every kind of change holds in every reachable state. -/
theorem Reachable.invariant (reachable : Reachable allowed chip) (start : P Chip.reset)
    (preserved : Preserved allowed P) : P chip := by
  induction reachable with
  | reset => exact start
  | perform action _ permitted returned ih => exact preserved.perform permitted ih returned

end Invariants

end Chip

end Peripherals
