import Peripherals.Loop
import Peripherals.Target

/-! # The bus

Drivers reach a target through a session, which gives every load and every `nop`
one tick from a limited supply and keeps a log of the accesses made. Reads,
writes and buffer addresses are the primitive operations; field updates and
waits for a flag are built from them. A fault keeps everything done before it. -/

namespace Peripherals

/-- One use of a target, as the log shows it. -/
inductive Access
  | read (address value : Word)
  | write (address value : Word)
  | nop
  | breakpoint
  | share (address : Word) (length : Nat)
  deriving DecidableEq

/-- A target in use, with the ticks that are left and the accesses made so far. -/
structure Session (δ : Type) where
  device : δ
  ticks : Nat
  log : Array Access

/-- A computation on a target that can stop at a fault. -/
abbrev BusM (δ : Type) := EStateM Fault (Session δ)

namespace Bus

variable {δ α : Type}

/-- Perform an action of the device. -/
def onDevice (action : EStateM Fault δ α) : BusM δ α := fun ⟨device, ticks, log⟩ =>
  match action.run device with
  | .ok value device => .ok value ⟨device, ticks, log⟩
  | .error fault device => .error fault ⟨device, ticks, log⟩

/-- Add an access to the log. -/
def record (access : Access) : BusM δ Unit := fun ⟨device, ticks, log⟩ =>
  .ok () ⟨device, ticks, log.push access⟩

/-- Use up one tick, if one is left. -/
def spend : BusM δ Unit := fun ⟨device, ticks, log⟩ =>
  match ticks with
  | 0 => .error .outOfTicks ⟨device, 0, log⟩
  | ticks + 1 => .ok () ⟨device, ticks, log⟩

variable [Target δ]

/-- Refuse an address that the target does not answer. -/
def require (address : Word) : BusM δ Unit := fun session =>
  if Target.accepts session.device address then
    .ok () session
  else
    .error .unmapped session

/-- The value of a register. -/
def read (address : Word) : BusM δ Word := do
  require address
  spend
  let value ← onDevice (Target.load address)
  record (.read address value)
  pure value

/-- Store a value into a register. -/
def write (address value : Word) : BusM δ Unit := do
  require address
  record (.write address value)
  onDevice (Target.store address value)

/-- Execute one `nop`. -/
def nop : BusM δ Unit := do
  spend
  record .nop
  onDevice Target.nop

/-- Stop for the debugger. -/
def breakpoint : BusM δ Unit := do
  record .breakpoint
  onDevice Target.breakpoint

/-- Put bytes into a new buffer. -/
def place (bytes : Array Byte) : BusM δ Buffer := do
  let home ← onDevice (Target.place bytes.size)
  pure ⟨home, bytes⟩

/-- The address under which a bus master reads a buffer. -/
def share (buffer : Buffer) : BusM δ Word := do
  let address ← onDevice (Target.share buffer)
  record (.share address buffer.bytes.size)
  pure address

/-! ## Bit fields -/

/-- Read a register and store what a function makes of its value. -/
def update (address : Word) (f : Word → Word) : BusM δ Unit := do
  let value ← read address
  write address (f value)

/-- Set the bits of a mask. -/
def setBits (address mask : Word) : BusM δ Unit :=
  update address (· ||| mask)

/-- Clear the bits of a mask. -/
def clearBits (address mask : Word) : BusM δ Unit :=
  update address (· &&& ~~~mask)

/-- Whether a bit of a mask is set. -/
def anySet (address mask : Word) : BusM δ Bool := do
  let value ← read address
  pure (value &&& mask != 0)

/-- Replace the field of `width` bits at `shift`, dropping higher bits of the value.
A position outside the register is refused before the register is read. -/
def writeField (address : Word) (shift width : Byte) (value : Word) : BusM δ Unit := do
  let mask ← Checked.shiftLeft (fieldMask width) shift
  update address fun old => (old &&& ~~~mask) ||| ((value <<< shift.toNat) &&& mask)

/-- The field of `width` bits at `shift`. The register is read before the position is checked. -/
def readField (address : Word) (shift width : Byte) : BusM δ Word := do
  let value ← read address
  let low ← Checked.shiftRight value shift
  pure (low &&& fieldMask width)

/-! ## Waiting -/

/-- Run rounds until one returns `true`. Every round that returns `false` uses a tick, so
more rounds than ticks are never needed. -/
def untilTrue (round : BusM δ Bool) : BusM δ Unit := fun session =>
  (Peripherals.untilTrue (session.ticks + 1) round).run session

/-- Read a register until a bit of a mask is set. -/
def waitSet (address mask : Word) : BusM δ Unit :=
  untilTrue (anySet address mask)

/-- Read a register until no bit of a mask is set. -/
def waitClear (address mask : Word) : BusM δ Unit :=
  untilTrue do
    let pending ← anySet address mask
    pure !pending

end Bus

end Peripherals
