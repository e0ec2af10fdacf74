import Peripherals.Proofs.LineQueue
import Peripherals.Proofs.StreamLaunch

/-! # Polling behind the queue

A byte that is polled out waits until the transmitter is free at the moment of a
look at the status. Channels with bytes left are offered the free transmitter
first, in the tick of that very look, and while a byte takes time they leave it
busy. So polled bytes go out behind everything that is queued, and a buffer that
was started before them goes out whole. -/

namespace Peripherals

open Bus Chip

variable {first chip after : Chip} {c : Channel} {left : Channel → List Byte}
  {total : List Byte} {latency n : Nat}

/-! ## Waiting for the queue -/

namespace Chip

theorem queue_nil : queue (fun _ => []) = [] :=
  queue_eq_nil_iff.mpr fun _ => rfl

/-- What was sent and what is queued make up a list of bytes, and the queue is out after some
ticks. -/
structure Backlog (total : List Byte) (latency n : Nat) (chip : Chip) : Prop where
  queued : ∃ left, chip.Queued left ∧ chip.transmitted ++ queue left = total ∧
    (queue left).length * (latency + 1) + chip.busy ≤ n
  latency : chip.latency = latency

/-- No channel has bytes left, and what was sent is a list of bytes. -/
structure Emptied (total : List Byte) (latency : Nat) (chip : Chip) : Prop where
  queued : chip.Queued fun _ => []
  transmitted : chip.transmitted = total
  busy : chip.busy ≤ latency
  latency : chip.latency = latency

theorem Emptied.backlog (emptied : Emptied total latency chip) :
    Backlog total latency latency chip := by
  refine ⟨⟨_, emptied.queued, ?_, ?_⟩, emptied.latency⟩
  · rw [queue_nil, List.append_nil]
    exact emptied.transmitted
  · rw [queue_nil, List.length_nil, Nat.zero_mul, Nat.zero_add]
    exact emptied.busy

/-- On a line on which bytes take time, a tick that leaves the transmitter free finds nothing
queued, and every other tick takes the queue closer to its end. -/
theorem Backlog.tick (slow : 1 ≤ latency) (backlog : Backlog total latency n chip) :
    ∃ after, Chip.tick.run chip = .ok () after ∧ after.LineReady ∧
      if after.busy = 0 then Emptied total latency after
      else ∃ m, m < n ∧ Backlog total latency m after := by
  obtain ⟨⟨left, queued, whole, few⟩, same⟩ := backlog
  have spread : Spread left chip := .inl (same ▸ slow)
  obtain ⟨left', after, passed, tended, queued'⟩ := queued.tick spread
  refine ⟨after, passed, queued'.line, ?_⟩
  cases tended with
  | waited idle =>
    have down : chip.countedDown.busy = chip.busy - 1 := rfl
    split
    · next free =>
      have none_left : queue left = [] := by
        obtain busy | empty := idle
        · omega
        · exact empty
      obtain rfl : left = fun _ => [] := funext (queue_eq_nil_iff.mp none_left)
      rw [none_left, List.append_nil] at whole
      exact ⟨queued', whole, by omega, same⟩
    · next busy => exact ⟨_, by omega, ⟨left, queued', whole, Nat.le_refl _⟩, same⟩
  | sent d byte rest after free next first delivered =>
    obtain ⟨busy, latency'⟩ := delivered.busy
    have some_time : after.busy ≠ 0 := by omega
    rw [if_neg some_time]
    rw [first, List.length_cons, Nat.succ_mul] at few
    refine ⟨_, ?_, ⟨_, queued', ?_, Nat.le_refl _⟩, latency'.trans same⟩
    · rw [busy, same]
      omega
    · rw [delivered.transmitted, List.append_assoc, ← whole, first]
      rfl

theorem LineReady.write_data (line : chip.LineReady) (byte : Byte) :
    chip.write Serial.target (byte.setWidth 32) =
      (chip.noted Serial.target (byte.setWidth 32)).transmit byte := by
  have noted : SameLine chip (chip.noted Serial.target (byte.setWidth 32)) := fun _ _ => rfl
  exact (line.toLineOn.of_same noted).store_data byte

/-- A byte that is written goes out behind what was sent. -/
theorem Emptied.write (emptied : Emptied total latency chip) (byte : Byte) :
    Emptied (total ++ [byte]) latency (chip.write Serial.target (byte.setWidth 32)) := by
  have channels (d : Channel) : SameChannel d chip
      ((chip.noted Serial.target (byte.setWidth 32)).transmit byte) := ⟨rfl, fun _ _ => rfl⟩
  rw [emptied.queued.line.write_data byte]
  constructor
  · exact emptied.queued.of_same channels (fun _ _ => rfl) ⟨rfl, rfl⟩
  · rw [transmitted_transmit, ← emptied.transmitted]
    rfl
  · exact Nat.le_of_eq emptied.latency
  · exact emptied.latency

end Chip

/-! ## Polled bytes -/

namespace Serial

variable (slow : 1 ≤ latency)

include slow

/-- The look at the status that finds the transmitter free comes after the whole queue. -/
theorem waitReady_settles :
    Settles (n + 1) (Backlog total latency n)
      (Bus.waitSet (Usart3.base + Usart3.isr) Usart3.txe) fun _ => Emptied total latency := by
  apply Settles.untilTrue (J := fun n => Backlog total latency n)
  intro n
  change Settles (1 + 0) _ _ _
  refine Settles.bind (R := fun status chip => status = chip.usartStatus ∧
    if chip.busy = 0 then Emptied total latency chip
    else ∃ m, m < n ∧ Backlog total latency m chip) ?_ fun status => ?_
  · apply Settles.load
    intro chip backlog
    obtain ⟨after, passed, line, reached⟩ := backlog.tick slow
    exact ⟨after, _, passed, line.toLineOn.transmitterOn.load_status, rfl, reached⟩
  · refine Settles.pure _ ?_
    rintro chip ⟨rfl, reached⟩
    split at reached
    · next free => rwa [if_pos ((ready_iff chip).mpr free)]
    · next busy => rwa [if_neg fun ready => busy ((ready_iff chip).mp ready)]

theorem sendByte_settles (byte : Byte) :
    Settles (n + 1) (Backlog total latency n) (sendByte byte)
      fun _ => Emptied (total ++ [byte]) latency := by
  change Settles (n + 1 + 0) _ _ _
  exact Settles.bind (waitReady_settles slow) fun _ =>
    Settles.write fun _ emptied => emptied.write byte

/-- With nothing queued, polled bytes follow each other. -/
theorem send_emptied_settles (bytes : List Byte) :
    Settles (bytes.length * (latency + 1)) (Emptied total latency) (send bytes)
      fun _ => Emptied (total ++ bytes) latency := by
  induction bytes generalizing total with
  | nil =>
    rw [List.length_nil, Nat.zero_mul, List.append_nil]
    exact Settles.pure () fun _ emptied => emptied
  | cons byte rest ih =>
    have head : Settles (latency + 1) (Emptied total latency) (sendByte byte)
        fun _ => Emptied (total ++ [byte]) latency :=
      (sendByte_settles slow byte).weaken (Nat.le_refl _) (fun _ emptied => emptied.backlog)
        fun _ _ emptied => emptied
    have tail : Settles _ (Emptied (total ++ [byte]) latency) (send rest) _ := ih
    have both := Settles.bind head fun _ => tail
    rw [List.append_assoc] at both
    rw [List.length_cons, Nat.succ_mul, Nat.add_comm]
    exact both

/-- Polled bytes go out behind what is queued. -/
theorem send_settles {bytes : List Byte} (nonempty : bytes ≠ []) :
    Settles (n + 1 + bytes.length * (latency + 1)) (Backlog total latency n) (send bytes)
      fun _ => Emptied (total ++ bytes) latency := by
  obtain ⟨byte, rest, rfl⟩ := List.exists_cons_of_ne_nil nonempty
  have head : Settles (n + 1) (Backlog total latency n) (sendByte byte) _ :=
    sendByte_settles slow byte
  have both := Settles.bind head fun _ => send_emptied_settles slow rest
  rw [List.append_assoc] at both
  refine both.weaken ?_ (fun _ backlog => backlog) fun _ _ emptied => emptied
  exact Nat.add_le_add_left (Nat.mul_le_mul_right _ (Nat.le_succ _)) _

end Serial

end Peripherals
