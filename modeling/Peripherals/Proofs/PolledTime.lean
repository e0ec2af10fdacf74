import Peripherals.Proofs.LineFeed
import Peripherals.Proofs.RestingCalls

/-! # The time that polling takes

Every polled byte waits until the transmitter is free, and a look takes one tick
even if it is free already. So at rest the time of a polled transmission is
known beforehand, from how long the transmitter is busy and how long a byte keeps
it busy. While USART3 has no clock no look shows the transmitter free, and
nothing is ever sent. -/

namespace Peripherals

open Bus Chip

variable {base first : Chip} {byte : Byte} {bytes : List Byte}

/-- How many ticks it takes to poll bytes out, if the transmitter is busy for some time first. -/
def pollTime (busy latency : Nat) (bytes : List Byte) : Nat :=
  if bytes = [] then 0 else max 1 busy + (bytes.length - 1) * max 1 latency

theorem pollTime_cons (busy latency : Nat) (byte : Byte) (rest : List Byte) :
    pollTime busy latency (byte :: rest) = max 1 busy + pollTime latency latency rest := by
  rw [pollTime, if_neg (List.cons_ne_nil byte rest), pollTime]
  cases rest with
  | nil => simp
  | cons next others =>
    rw [if_neg (List.cons_ne_nil next others), List.length_cons, List.length_cons,
      Nat.add_sub_cancel, Nat.add_sub_cancel, Nat.succ_mul, Nat.add_comm (max 1 latency)]

/-- Bytes were polled out at rest: they follow what was sent before, the last of them keeps the
transmitter busy, and it is what was last written to the data register. Nothing else changed. -/
structure Chip.PolledOut (first : Chip) (bytes : List Byte) (chip : Chip) : Prop where
  same : chip = (first.spoke bytes).timed (if bytes = [] then first.busy else first.latency)
    chip.written
  written : ∀ address, address ≠ Serial.target →
    chip.written.find? address = first.written.find? address

namespace Chip

/-- The chip right after a polled byte. -/
def said (chip : Chip) (byte : Byte) : Chip :=
  (chip.spoke [byte]).timed chip.latency (chip.written.insert Serial.target (byte.setWidth 32))

theorem PolledOut.nothing (chip : Chip) : chip.PolledOut [] chip := by
  refine ⟨?_, fun _ _ => rfl⟩
  rw [spoke_nil]
  rfl

theorem PolledOut.cons {chip : Chip} (polled : (first.said byte).PolledOut bytes chip) :
    first.PolledOut (byte :: bytes) chip := by
  constructor
  · have busy : (if bytes = [] then (first.said byte).busy else (first.said byte).latency) =
        first.latency := ite_self _
    rw [polled.same, busy, if_neg (List.cons_ne_nil byte bytes), ← List.singleton_append,
      ← spoke_spoke]
    rfl
  · intro address other
    rw [polled.written address other, said, timed, WordMap.find?_insert, if_neg other.symm]

end Chip

/-! ## One wait -/

namespace Serial

variable {flag : Word}

/-- A look at the transmitter at rest takes a tick. From some look on it shows that the
transmitter is free. -/
theorem look_takes (on : base.TransmitterOn) (quiet : base.Quiet)
    (transmitter : flag = Usart3.txe ∨ flag = Usart3.tc) (j : Nat) :
    Takes 1 (· = base.timed (base.busy - j) base.written)
      (Bus.anySet (Usart3.base + Usart3.isr) flag : BusM Chip Bool)
      (fun free chip => free = decide (max 1 base.busy ≤ j + 1) ∧
        chip = base.timed (base.busy - (j + 1)) base.written)
      fun _ chip => chip = base.timed (base.busy - j) base.written := by
  change Takes (1 + 0) _ _ _ _
  refine Takes.bind (R := fun value chip => value = chip.usartStatus ∧
    chip = base.timed (base.busy - (j + 1)) base.written) ?_ fun value => Takes.pure _ ?_
  · apply Takes.load
    · rintro chip rfl
      exact ⟨_, _, quiet.tick (base.busy - j) base.written, (on.timed _ _).load_status, rfl, rfl⟩
    · exact fun _ same => same
  · rintro chip ⟨rfl, same⟩
    have busy : chip.busy = base.busy - (j + 1) := by
      rw [same]
      rfl
    have free := chip.shows_free_iff transmitter
    refine ⟨?_, same⟩
    rw [Bool.eq_iff_iff, free, decide_eq_true_iff, busy]
    omega

/-- So a wait for the transmitter takes as long as it is busy, and one tick if it is not. -/
theorem waitFree_takes (on : base.TransmitterOn) (quiet : base.Quiet)
    (transmitter : flag = Usart3.txe ∨ flag = Usart3.tc) :
    Takes (max 1 base.busy) (· = base) (Bus.waitSet (Usart3.base + Usart3.isr) flag)
      (fun _ chip => chip = base.timed 0 base.written) fun _ _ => True := by
  have waits := Takes.untilTrue
    (J := fun j chip => chip = base.timed (base.busy - j) base.written)
    (look_takes on quiet transmitter) (Nat.lt_of_lt_of_le Nat.one_pos (Nat.le_max_left 1 base.busy))
  have ended : base.busy - max 1 base.busy = 0 := by omega
  rw [ended, Nat.sub_zero] at waits
  exact waits.weaken (fun _ _ same => same) fun _ _ _ => trivial

/-! ## Polled bytes -/

theorem sendByte_takes (on : base.TransmitterOn) (quiet : base.Quiet) (byte : Byte) :
    Takes (max 1 base.busy) (· = base) (sendByte byte : BusM Chip Unit)
      (fun _ chip => chip = base.said byte) fun _ _ => True := by
  change Takes (max 1 base.busy + 0) _ _ _ _
  refine Takes.bind (waitFree_takes on quiet (.inl rfl)) fun _ => Takes.write ?_
  rintro chip rfl
  exact (on.timed 0 (base.written.insert Serial.target (byte.setWidth 32))).store_data byte

theorem send_takes (on : base.TransmitterOn) (quiet : base.Quiet) (bytes : List Byte) :
    Takes (pollTime base.busy base.latency bytes) (· = base) (send bytes : BusM Chip Unit)
      (fun _ => base.PolledOut bytes) fun _ _ => True := by
  induction bytes generalizing base with
  | nil => exact Takes.pure () fun chip same => same ▸ .nothing chip
  | cons byte rest ih =>
    rw [pollTime_cons]
    refine Takes.bind (sendByte_takes on quiet byte) fun _ => ?_
    have still_on : (base.said byte).TransmitterOn := (on.spoke [byte]).timed _ _
    have others := ih still_on ((quiet.spoke [byte]).timed _ _)
    exact others.weaken (fun _ _ polled => polled.cons) fun _ _ _ => trivial

/-- A flush behind polled bytes waits for the last of them. -/
theorem flush_takes (on : first.TransmitterOn) (quiet : first.Quiet) (some_sent : bytes ≠ [])
    {chip : Chip} (polled : first.PolledOut bytes chip) :
    Takes (max 1 first.latency) (· = chip) (flush : BusM Chip Unit)
      (fun _ after => after = chip.timed 0 chip.written) fun _ _ => True := by
  have same := polled.same
  rw [if_neg some_sent] at same
  have busy : chip.busy = first.latency := by
    rw [same]
    rfl
  rw [← busy]
  exact waitFree_takes (same ▸ (on.spoke bytes).timed _ _) (same ▸ (quiet.spoke bytes).timed _ _)
    (.inr rfl)

/-! ## No clock -/

section Unclocked

variable {limit : Nat} {wrote : List Byte} {E : Session Chip → Prop}
  (quiet : base.Quiet) (off : base.clocked (.usart3 0) = false)
  (kept : ∀ session, StandsAt base limit wrote session → E session)

include quiet off kept

/-- Without a clock the status shows neither flag, so that a wait for one does not end. -/
theorem waitFree_never (flag : Word) :
    Ends (StandsAt base limit wrote) (Bus.waitSet (Usart3.base + Usart3.isr) flag)
      (fun _ _ => False) E := by
  apply Ends.never _ kept
  have shows : base.Shows (Usart3.base + Usart3.isr) 0 := by
    intro busy written
    have decoded : Block.decode (Usart3.base + Usart3.isr) = .usart3 Usart3.isr := rfl
    have clock : (base.timed busy written).clocked (.usart3 Usart3.isr) = false := off
    simp only [load, EStateM.run, decoded, clock, Bool.false_eq_true, if_false]
  have looks := Executes.anySet kept quiet shows flag
  have dark : ((0 : Word) &&& flag != 0) = false := bne_eq_false_iff_eq.mpr BitVec.zero_and
  rw [dark] at looks
  exact Runs.ends looks

theorem send_never (some_left : bytes ≠ []) :
    Ends (StandsAt base limit wrote) (send bytes) (fun _ _ => False) E := by
  cases bytes with
  | nil => exact (some_left rfl).elim
  | cons byte rest => exact Ends.never_bind (Ends.never_bind (waitFree_never quiet off kept _))

end Unclocked

/-! ## Ways to poll bytes out -/

/-- A call that transmits a list of bytes or a text by polling. -/
inductive Writing
  | send (bytes : List Byte)
  | sendText (text : String)
  | sendWhole (text : String)
  | sendCounted (bytes : List Byte)

namespace Writing

/-- Make the call. Only a counted one gives a number. -/
def perform : Writing → BusM Chip (Option Nat)
  | .send bytes => do
    Serial.send bytes
    pure none
  | .sendText text => do
    Serial.sendText text
    pure none
  | .sendWhole text => do
    Serial.sendWhole text
    pure none
  | .sendCounted bytes => do
    let count ← Serial.sendCounted bytes
    pure (some count)

/-- What the call is to transmit: only a text that is not sent whole stops at a NUL. -/
def payload : Writing → List Byte
  | .send bytes | .sendCounted bytes => bytes
  | .sendText text => (Text.bytes text).takeWhile (· != 0)
  | .sendWhole text => Text.bytes text

/-- What the call answers. -/
def answer : Writing → Option Nat
  | .sendCounted bytes => some bytes.length
  | .send _ | .sendText _ | .sendWhole _ => none

/-- All calls send their bytes in the same way. -/
theorem perform_eq (writing : Writing) :
    writing.perform = (do
      Serial.send writing.payload
      pure writing.answer) := by
  cases writing with
  | send | sendText | sendWhole => rfl
  | sendCounted bytes =>
    change ((Serial.send bytes >>= fun _ => pure bytes.length) >>= fun count => pure (some count) :
      BusM Chip (Option Nat)) = _
    rw [bind_assoc]
    rfl

end Writing

/-- From a state without active channels, a call that polls bytes out takes exactly the time of its
bytes, and a flush behind it exactly the time of one more. Nothing but its bytes is observed, no
register changes, and with fewer ticks the call does not return. Without USART3's clock none of
these calls returns, nor does a flush, whatever ticks they get, and nothing is transmitted. -/
theorem writing_takes (inactive : ∀ c, (first.latch c).active = false) (writing : Writing)
    (log : Array Access) :
    (first.TransmitterOn →
      Takes (pollTime first.busy first.latency writing.payload) (· = first) writing.perform
        (fun answer chip => answer = writing.answer ∧ first.PolledOut writing.payload chip)
        (fun _ _ => True) ∧
      (writing.payload ≠ [] → ∀ chip, first.PolledOut writing.payload chip →
        Takes (max 1 first.latency) (· = chip) (flush : BusM Chip Unit)
          (fun _ after => after = chip.timed 0 chip.written) fun _ _ => True)) ∧
    (first.clocked (.usart3 0) = false →
      (writing.payload ≠ [] → NeverReturns (fun ticks => writing.perform.run ⟨first, ticks, log⟩)
        fun session => session.device = first.timed session.device.busy session.device.written) ∧
      NeverReturns (fun ticks => (flush : BusM Chip Unit).run ⟨first, ticks, log⟩)
        fun session =>
          session.device = first.timed session.device.busy session.device.written) := by
  have quiet : first.Quiet := .of_inactive inactive
  refine ⟨fun on => ⟨?_, fun some_sent chip polled => flush_takes on quiet some_sent polled⟩,
    fun off => ?_⟩
  · rw [writing.perform_eq]
    exact Takes.bind (send_takes on quiet writing.payload) fun _ =>
      Takes.pure _ fun chip polled => ⟨rfl, polled⟩
  · have kept (session : Session Chip) (stands : StandsAt first first.busy (polled log) session) :
        session.device = first.timed session.device.busy session.device.written := by
      obtain ⟨⟨busy, written, -, same⟩, -⟩ := stands
      rw [same]
      rfl
    have start (ticks : Nat) : StandsAt first first.busy (polled log) ⟨first, ticks, log⟩ :=
      StandsAt.self ⟨first, ticks, log⟩
    refine ⟨fun some_left => ?_, Ends.neverReturns (waitFree_never quiet off kept _) start⟩
    rw [writing.perform_eq]
    exact Ends.neverReturns (Ends.never_bind (send_never quiet off kept some_left)) start

/-- A text with a NUL, sent whole and up to the NUL on a line on which a byte takes three ticks, and
on a chip without clocks. -/
theorem writing_takes_past_nul :
    (∀ c, ((broughtUp.setLatency 3).latch c).active = false) ∧
    (broughtUp.setLatency 3).TransmitterOn ∧
    (Writing.sendWhole "A\x00B").payload = [0x41, 0, 0x42] ∧
    (Writing.sendText "A\x00B").payload = [0x41] ∧
    (∃ after after', (Writing.sendWhole "A\x00B").perform.run ⟨broughtUp.setLatency 3, 9, #[]⟩ =
        .ok none after ∧
      after.ticks + 7 = 9 ∧ after.device.transmitted = [0x41, 0, 0x42] ∧
      (flush : BusM Chip Unit).run ⟨after.device, 3, #[]⟩ = .ok () after' ∧ after'.ticks = 0) ∧
    (∃ after, (Writing.sendText "A\x00B").perform.run ⟨broughtUp.setLatency 3, 9, #[]⟩ =
        .ok none after ∧
      after.ticks + 1 = 9 ∧ after.device.transmitted = [0x41]) ∧
    (∀ c, (Chip.reset.latch c).active = false) ∧ Chip.reset.clocked (.usart3 0) = false ∧
    NeverReturns (fun ticks => (Writing.sendCounted [0]).perform.run ⟨Chip.reset, ticks, #[]⟩)
      fun session =>
        session.device = Chip.reset.timed session.device.busy session.device.written := by
  have inactive : ∀ c, ((broughtUp.setLatency 3).latch c).active = false := by decide +kernel
  have on : (broughtUp.setLatency 3).TransmitterOn := ⟨by decide +kernel, by decide +kernel⟩
  have silent : (broughtUp.setLatency 3).transmitted = [] := by decide +kernel
  have whole : (Writing.sendWhole "A\x00B").payload = [0x41, 0, 0x42] := by decide +kernel
  have cut : (Writing.sendText "A\x00B").payload = [0x41] := by decide +kernel
  have resting : ∀ c, (Chip.reset.latch c).active = false := by decide
  have off : Chip.reset.clocked (.usart3 0) = false := by decide +kernel
  have sent {bytes : List Byte} {chip : Chip}
      (polled : (broughtUp.setLatency 3).PolledOut bytes chip) : chip.transmitted = bytes := by
    rw [polled.same]
    exact (transmitted_spoke _ _).trans (silent ▸ List.nil_append bytes)
  obtain ⟨takes, flushes⟩ := (writing_takes inactive (.sendWhole "A\x00B") #[]).1 on
  obtain ⟨takes', -⟩ := (writing_takes inactive (.sendText "A\x00B") #[]).1 on
  rw [whole] at takes flushes
  rw [cut] at takes'
  obtain ⟨_, after, returned, ⟨rfl, polled⟩, left⟩ :=
    takes.returns ⟨broughtUp.setLatency 3, 9, #[]⟩ rfl (by decide +kernel)
  obtain ⟨_, after', returned', -, left'⟩ :=
    (flushes (by decide) _ polled).returns ⟨after.device, 3, #[]⟩ rfl
      (show max 1 (broughtUp.setLatency 3).latency ≤ 3 by decide)
  obtain ⟨_, last, ended, ⟨rfl, polled'⟩, spent⟩ :=
    takes'.returns ⟨broughtUp.setLatency 3, 9, #[]⟩ rfl (by decide +kernel)
  refine ⟨inactive, on, whole, cut, ⟨after, after', returned, left, sent polled, returned', ?_⟩,
    ⟨last, ended, spent, sent polled'⟩, resting, off, ?_⟩
  · exact Nat.add_right_cancel left'
  · exact ((writing_takes resting (.sendCounted [0]) #[]).2 off).1 (by decide)

end Serial

end Peripherals
