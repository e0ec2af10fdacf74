import Peripherals.Proofs.Bystanders
import Peripherals.Proofs.DecimalDigits

/-! # What a program polls out

The log of a session shows which bytes the program wrote into the data register.
A polled call writes its own bytes, in order, and stops between two of them when
its ticks run out. Reads and waits write nothing. -/

namespace Peripherals

open Bus Chip

/-- The byte that an access wrote into the data register, if it wrote one there. -/
def Access.polled? : Access → Option Byte
  | .write address value => if address = Serial.target then some (value.setWidth 8) else none
  | .read _ _ | .nop | .breakpoint | .share _ _ => none

namespace Bus

/-- The bytes that a program wrote into the data register, as the log shows them. -/
def polled (log : Array Access) : List Byte :=
  log.toList.filterMap Access.polled?

theorem polled_push (log : Array Access) (access : Access) :
    polled (log.push access) = polled log ++ access.polled?.toList := by
  rw [polled, Array.toList_push, List.filterMap_append, polled]
  cases h : access.polled? <;> simp [h]

/-- A read writes nothing. -/
theorem read_polls (address : Word) (bytes : List Byte) :
    Maintains (fun session : Session Chip => polled session.log = bytes) (read address) := by
  rintro ⟨chip, ticks, log⟩ wrote
  cases ticks with
  | zero => exact wrote
  | succ ticks =>
    rw [run_read_load]
    cases (Target.load address : EStateM Fault Chip Word).run chip with
    | ok value after => exact (polled_push log _).trans ((List.append_nil _).trans wrote)
    | error fault after => exact wrote

theorem waitSet_polls (address mask : Word) (bytes : List Byte) :
    Maintains (fun session : Session Chip => polled session.log = bytes)
      (waitSet address mask) := by
  apply Maintains.untilTrue
  apply Maintains.bind (read_polls address bytes)
  intro value
  exact Maintains.pure _

end Bus

/-! ## Polled calls -/

/-- A call that transmits by polling. -/
inductive PolledCall
  | sendByte (byte : Byte)
  | send (bytes : List Byte)
  | sendText (text : String)
  | sendDecimal (n : Word)

namespace PolledCall

/-- What a polled call does. -/
def perform : PolledCall → BusM Chip Unit
  | .sendByte byte => Serial.sendByte byte
  | .send bytes => Serial.send bytes
  | .sendText text => Serial.sendText text
  | .sendDecimal n => Serial.sendDecimal n

/-- The bytes that a polled call is to transmit. -/
def bytes : PolledCall → List Byte
  | .sendByte byte => [byte]
  | .send bytes => bytes
  | .sendText text => (Text.bytes text).takeWhile (· != 0)
  | .sendDecimal n => Text.decimal n

end PolledCall

/-- Sending a byte ends with the write of that byte, or without any. -/
theorem Serial.sendByte_polls (byte : Byte) (before : List Byte) :
    Ends (fun session : Session Chip => polled session.log = before) (Serial.sendByte byte)
      (fun _ after => polled after.log = before ++ [byte])
      fun after => polled after.log = before := by
  apply Ends.bind (waitSet_polls _ _ before)
  rintro - session wrote
  have narrow : (byte.setWidth 32).setWidth 8 = byte := by simp
  change polled (session.log.push (.write Serial.target (byte.setWidth 32))) = before ++ [byte]
  rw [polled_push, wrote, Access.polled?, if_pos rfl, narrow]
  rfl

/-- Sending bytes writes a part of them from the start, and all of them when it returns. -/
theorem Serial.send_polls (bytes before : List Byte) :
    Ends (fun session : Session Chip => polled session.log = before) (Serial.send bytes)
      (fun _ after => polled after.log = before ++ bytes)
      fun after => ∃ sent, sent <+: bytes ∧ polled after.log = before ++ sent := by
  induction bytes generalizing before with
  | nil =>
    intro session wrote
    exact wrote.trans (List.append_nil before).symm
  | cons byte rest ih =>
    apply Ends.bind (R := fun _ session => polled session.log = before ++ [byte])
    · apply (Serial.sendByte_polls byte before).weaken (fun _ _ wrote => wrote)
      intro session wrote
      exact ⟨[], List.nil_prefix, wrote.trans (List.append_nil before).symm⟩
    intro _
    have more := ih (before ++ [byte])
    rw [List.append_assoc] at more
    apply more.weaken (fun _ _ wrote => wrote)
    rintro session ⟨sent, part, wrote⟩
    refine ⟨byte :: sent, List.cons_prefix_cons.mpr ⟨rfl, part⟩, ?_⟩
    rw [wrote, List.append_assoc]
    rfl

/-- A polled call writes a part of its bytes from the start, and all of them when it returns. -/
theorem PolledCall.polls (call : PolledCall) (before : List Byte) :
    Ends (fun session : Session Chip => polled session.log = before) call.perform
      (fun _ after => polled after.log = before ++ call.bytes)
      fun after => ∃ sent, sent <+: call.bytes ∧ polled after.log = before ++ sent := by
  cases call with
  | sendByte byte =>
    apply (Serial.sendByte_polls byte before).weaken (fun _ _ wrote => wrote)
    intro session wrote
    exact ⟨[], List.nil_prefix, wrote.trans (List.append_nil before).symm⟩
  | send bytes => exact Serial.send_polls bytes before
  | sendText text => exact Serial.send_polls _ before
  | sendDecimal n =>
    rw [perform, Serial.sendDecimal_eq]
    exact Serial.send_polls _ before

/-! ## Properties that go along with the bytes written -/

section Accounted

variable {P : List Byte → Chip → Prop}

/-- A property that holds of the chip for the bytes written so far. -/
def Accounted (P : List Byte → Chip → Prop) (before : List Byte) (session : Session Chip) : Prop :=
  P (before ++ polled session.log) session.device

/-- A read keeps such a property if every tick does. -/
theorem Accounted.read (steady : ∀ bytes, Steady (P bytes)) (before : List Byte) (address : Word) :
    Maintains (Accounted P before) (read address : BusM Chip Word) := by
  intro session holds
  have device := Keeps.read (steady _) address session holds
  have log := read_polls address _ session rfl
  split at log
  · next ended =>
    simp only [ended] at device
    rw [← log] at device
    exact device
  · next ended =>
    simp only [ended] at device
    rw [← log] at device
    exact device

theorem Accounted.sendByte (steady : ∀ bytes, Steady (P bytes))
    (writes : ∀ bytes byte chip, P bytes chip →
      P (bytes ++ [byte]) (chip.write Serial.target (byte.setWidth 32)))
    (before : List Byte) (byte : Byte) :
    Maintains (Accounted P before) (Serial.sendByte byte : BusM Chip Unit) := by
  apply Maintains.bind
  · apply Maintains.untilTrue
    apply Maintains.bind (Accounted.read steady before _)
    intro value
    exact Maintains.pure _
  · rintro - session holds
    have narrow : (byte.setWidth 32).setWidth 8 = byte := by simp
    have log : polled (session.log.push (.write Serial.target (byte.setWidth 32))) =
        polled session.log ++ [byte] := by
      rw [polled_push, Access.polled?, if_pos rfl, narrow]
      rfl
    have extended := writes _ byte session.device holds
    rw [List.append_assoc, ← log] at extended
    exact extended

/-- A polled call keeps such a property if every tick does and every byte written extends it. -/
theorem PolledCall.accounted (steady : ∀ bytes, Steady (P bytes))
    (writes : ∀ bytes byte chip, P bytes chip →
      P (bytes ++ [byte]) (chip.write Serial.target (byte.setWidth 32)))
    (before : List Byte) (call : PolledCall) :
    Maintains (Accounted P before) call.perform := by
  have each (bytes : List Byte) :
      Maintains (Accounted P before) (Serial.send bytes : BusM Chip Unit) := by
    induction bytes with
    | nil => exact Maintains.pure ()
    | cons byte rest ih =>
      apply Maintains.bind (Accounted.sendByte steady writes before byte)
      intro _
      exact ih
  cases call with
  | sendByte byte => exact Accounted.sendByte steady writes before byte
  | send bytes => exact each bytes
  | sendText text => exact each _
  | sendDecimal n =>
    rw [perform, Serial.sendDecimal_eq]
    exact each _

end Accounted

end Peripherals
