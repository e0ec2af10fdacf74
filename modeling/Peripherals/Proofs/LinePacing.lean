import Peripherals.Proofs.LineFeed
import Peripherals.Proofs.PartEffects
import Peripherals.Proofs.RecordedMoves
import Peripherals.Proofs.RestingChip

/-! # The pace of the line

Two gates guard the data register. A program that polls writes it only after it
saw the transmitter ready, and no time passes between the look and the write; a
channel stores into it only in a turn that finds the transmitter ready. So no
byte is ever sent while the transmitter is busy, and between two bytes at least
as many ticks pass as the first one keeps it busy. -/

namespace Peripherals

open Bus

namespace Chip

variable {chip after : Chip} {c : Channel} {address value : Word}

/-! ## What a part does to the line -/

/-- How many ticks a part begins. -/
def Part.ticks : Part → Nat
  | .countDown => 1
  | .countNop | .turn _ | .load _ | .whole _ => 0

/-- How many ticks began in a run. -/
def ticksIn : List Moment → Nat
  | [] => 0
  | moment :: rest => moment.part.ticks + ticksIn rest

theorem ticksIn_concat (moments : List Moment) (moment : Moment) :
    ticksIn (moments ++ [moment]) = ticksIn moments + moment.part.ticks := by
  induction moments with
  | nil => exact Nat.add_comm _ _
  | cons first rest ih => rw [List.cons_append, ticksIn, ticksIn, ih, Nat.add_assoc]

/-- A moment put a byte on the line. -/
def Moment.Sends (moment : Moment) : Prop :=
  ∃ byte, moment.after.transmitted = moment.chip.transmitted ++ [byte]

/-- What a part that does not clear the log does to the line: nothing, except that time passes,
or it puts one byte there, and then the transmitter was ready and becomes busy. -/
inductive LineEffect (ticks : Nat) (chip after : Chip) : Prop
  | kept (transmitted : after.transmitted = chip.transmitted)
      (busy : chip.busy ≤ after.busy + ticks)
  | sent (byte : Byte) (transmitted : after.transmitted = chip.transmitted ++ [byte])
      (ready : chip.busy = 0) (busy : after.busy = chip.latency)

theorem LineEffect.of_eq {ticks : Nat} (events : after.events = chip.events)
    (busy : after.busy = chip.busy) : LineEffect ticks chip after := by
  apply LineEffect.kept
  · rw [transmitted_eq, events, transmitted_eq]
  · omega

/-- A store sends only from the data register, where the transmitter has to be ready. -/
theorem StoreEffect.line (effect : StoreEffect chip address value after)
    (ready : address = Serial.target → chip.busy = 0) : LineEffect 0 chip after := by
  cases effect with
  | lost | cleared | replaced => exact .of_eq rfl rfl
  | output => exact .kept (transmitted_setOutput _ _ _) (Nat.le_refl _)
  | sent place => exact .sent _ (transmitted_transmit _ _) (ready place) rfl
  | control c =>
    apply LineEffect.of_eq (events_storeControl chip c value)
    rw [storeControl]
    split
    · rfl
    split <;> rfl

theorem Booked.line {middle : Chip} (books : Booked c middle after)
    (effect : LineEffect 0 chip middle) : LineEffect 0 chip after := by
  cases effect with
  | kept transmitted busy =>
    exact .kept (books.transmitted.trans transmitted) (books.busy ▸ busy)
  | sent byte transmitted ready busy =>
    exact .sent byte (books.transmitted.trans transmitted) ready (books.busy.trans busy)

theorem ready_of_requestsData (requests : chip.requestsData = true) : chip.busy = 0 := by
  simp only [requestsData, Bool.and_eq_true, beq_iff_eq] at requests
  exact requests.2

/-- A channel sends only in a turn that finds the transmitter ready. -/
theorem turn_line (chip : Chip) (c : Channel) : LineEffect 0 chip (Part.after chip (.turn c)) := by
  have effect := turn_effect c chip
  rw [Part.after]
  generalize stateAfter (serveChannel c) chip = after at effect ⊢
  cases effect with
  | rest => exact .of_eq rfl rfl
  | failed books => exact books.line (.of_eq rfl rfl)
  | carried byte _ able _ books =>
    apply books.line
    apply (store_effect chip (chip.latch c).target (byte.setWidth 32)).line
    intro aimed
    exact ready_of_requestsData (requestsData_of_canMove able aimed)

/-- An action that takes no time does not send, unless it writes into the data register. -/
theorem instant_line {action : Action} (instant : action.instant = true)
    (kept : action ≠ .clearEvents)
    (ready : ∀ value, action = .write Serial.target value → chip.busy = 0) :
    LineEffect 0 chip (Part.after chip (.whole action)) := by
  cases action with
  | read | nop => cases instant
  | write address value =>
    have effect := store_effect { chip with written := chip.written.insert address value }
      address value
    cases effect.line fun place => ready value (by rw [place]) with
    | kept transmitted busy => exact .kept transmitted busy
    | sent byte transmitted free busy => exact .sent byte transmitted free busy
  | breakpoint =>
    apply LineEffect.kept _ (Nat.le_refl _)
    change (chip.observe [.breakpoint]).transmitted = _
    rw [transmitted_observe]
    exact List.append_nil _
  | share bytes =>
    obtain ⟨regions, next, shared⟩ := stateAfter_share chip bytes
    rw [Part.after, shared]
    exact .of_eq rfl rfl
  | clearEvents => exact (kept rfl).elim
  | drive | release | connect | pushReceived | setLatency => exact .of_eq rfl rfl

end Chip

/-! ## Paced records -/

namespace Recorded

open Chip

variable {r : Recorded}

/-- No byte was sent while the transmitter was busy, and the ticks since a byte was sent together
with those for which the transmitter stays busy make up its latency. -/
structure Paced (r : Recorded) : Prop where
  single : ∀ moment ∈ r.moments, moment.part ≠ .whole .clearEvents →
    moment.after.transmitted = moment.chip.transmitted ∨ moment.Sends
  ready : ∀ moment ∈ r.moments, moment.Sends → moment.chip.busy = 0
  apart : ∀ earlier sent between next later,
    r.moments = earlier ++ sent :: (between ++ next :: later) → sent.Sends → next.Sends →
      sent.chip.latency ≤ ticksIn between
  owed : ∀ earlier sent between, r.moments = earlier ++ sent :: between → sent.Sends →
    sent.chip.latency ≤ ticksIn between + r.chip.busy

theorem paced_nil (first : Chip) : Paced ⟨first, []⟩ where
  single _ member := nomatch member
  ready _ member := nomatch member
  apart earlier _ _ _ _ split := by simp at split
  owed earlier _ _ split := by simp at split

namespace Paced

variable {part : Part}

theorem extend (paced : Paced r)
    (single : part ≠ .whole .clearEvents →
      (part.after r.chip).transmitted = r.chip.transmitted ∨ Moment.Sends ⟨part, r.chip⟩)
    (sending : Moment.Sends ⟨part, r.chip⟩ →
      r.chip.busy = 0 ∧ (part.after r.chip).busy = r.chip.latency)
    (waiting : ¬Moment.Sends ⟨part, r.chip⟩ →
      r.chip.busy ≤ (part.after r.chip).busy + part.ticks) : Paced (r.extend part) where
  single moment member kept := by
    obtain old | new := List.mem_append.mp member
    · exact paced.single moment old kept
    · obtain rfl := List.mem_singleton.mp new
      exact single kept
  ready moment member sends := by
    obtain old | new := List.mem_append.mp member
    · exact paced.ready moment old sends
    · obtain rfl := List.mem_singleton.mp new
      exact (sending sends).1
  apart earlier sent between next later split first second := by
    rw [← List.cons_append, ← List.append_assoc] at split
    obtain ⟨old, rfl, -⟩ | ⟨rest, -, old⟩ := split_concat split
    · have before := paced.owed earlier sent between old first
      rwa [(sending second).1] at before
    · rw [List.append_assoc, List.cons_append] at old
      exact paced.apart earlier sent between next rest old first second
  owed earlier sent between split first := by
    change _ ≤ _ + (part.after r.chip).busy
    obtain ⟨-, rfl, rfl⟩ | ⟨rest, rfl, old⟩ := split_concat split
    · rw [(sending first).2]
      exact Nat.le_add_left _ _
    · have before := paced.owed earlier sent rest old first
      have counted : ticksIn (rest ++ [⟨part, r.chip⟩]) = ticksIn rest + part.ticks :=
        ticksIn_concat _ _
      by_cases sends : Moment.Sends ⟨part, r.chip⟩
      · have ready := (sending sends).1
        omega
      · have waits := waiting sends
        omega

/-- Every part that does not clear the log keeps the pace. -/
theorem extend_line (paced : Paced r)
    (effect : LineEffect part.ticks r.chip (part.after r.chip)) : Paced (r.extend part) := by
  cases effect with
  | kept transmitted busy =>
    have quiet : ¬Moment.Sends ⟨part, r.chip⟩ := by
      rintro ⟨byte, sent⟩
      have longer := congrArg List.length (transmitted.symm.trans sent)
      simp at longer
    exact paced.extend (fun _ => .inl transmitted) (fun sends => (quiet sends).elim) fun _ => busy
  | sent byte transmitted ready busy =>
    have sends : Moment.Sends ⟨part, r.chip⟩ := ⟨byte, transmitted⟩
    exact paced.extend (fun _ => .inr sends) (fun _ => ⟨ready, busy⟩) fun quiet =>
      (quiet sends).elim

theorem extend_clear (paced : Paced r) : Paced (r.extend (.whole .clearEvents)) := by
  have quiet : ¬Moment.Sends ⟨.whole .clearEvents, r.chip⟩ := by
    rintro ⟨byte, sent⟩
    have empty : (Part.after r.chip (.whole .clearEvents)).transmitted = [] := rfl
    rw [Moment.after, empty] at sent
    simp at sent
  exact paced.extend (fun kept => (kept rfl).elim) (fun sends => (quiet sends).elim)
    fun _ => Nat.le_refl _

theorem lasting : Lasting Paced where
  countDown r paced := paced.extend_line (.kept rfl (Nat.le_add_of_sub_le (Nat.le_refl _)))
  countNop r paced := paced.extend_line (.kept rfl (Nat.le_refl _))
  load r address paced := by
    apply paced.extend_line
    obtain ⟨rest, loaded⟩ := stateAfter_load r.chip address
    rw [Part.after, loaded]
    exact .of_eq rfl rfl
  turn _ r c _ _ _ paced := paced.extend_line (turn_line r.chip c)

/-- A raw action keeps the pace unless it writes into the data register. -/
theorem act (paced : Paced r) {action : Action}
    (spares : ∀ value, action ≠ .write Serial.target value) :
    Paced (stateAfter (act action) r) := by
  apply act_upholds lasting _ r paced
  intro instant r paced
  by_cases clears : action = .clearEvents
  · subst clears
    exact paced.extend_clear
  · exact paced.extend_line
      (instant_line instant clears fun value writes => (spares value writes).elim)

end Paced

/-! ## Polling -/

/-- A load of the status that shows the transmitter ready leaves it ready. -/
theorem load_ready {value : Word} {after : Recorded}
    (returned : (Target.load (Usart3.base + Usart3.isr) : EStateM Fault Recorded Word).run r =
      .ok value after) (shows : (value &&& Usart3.txe != 0) = true) : after.chip.busy = 0 := by
  obtain ⟨ticked, -, loads⟩ := run_seq_eq_ok_iff.mp returned
  rw [run_note] at loads
  have status : (Chip.load (Usart3.base + Usart3.isr)).run ticked.chip =
      .ok (if ticked.chip.clocked (.usart3 0) then ticked.chip.usartStatus else 0) ticked.chip := by
    have decoded : Block.decode (Usart3.base + Usart3.isr) = .usart3 Usart3.isr := rfl
    have clock : ticked.chip.clocked (.usart3 Usart3.isr) = ticked.chip.clocked (.usart3 0) := rfl
    simp only [Chip.load, EStateM.run, decoded, clock, if_true]
    split <;> rfl
  rw [status] at loads
  obtain ⟨rfl, rfl⟩ := EStateM.Result.ok.inj loads
  split at shows
  · exact (ready_iff _).mp shows
  · cases shows

/-- A wait for the transmitter ends when it is ready. -/
theorem waitReady_paces :
    Leads Paced (Bus.waitSet (Usart3.base + Usart3.isr) Usart3.txe)
      (fun _ r => Paced r ∧ r.chip.busy = 0) Paced := by
  have looks : Leads Paced (Bus.read (Usart3.base + Usart3.isr)) (fun value r =>
      Paced r ∧ ((value &&& Usart3.txe != 0) = true → r.chip.busy = 0)) Paced :=
    read_shows Paced.lasting fun loaded => load_ready loaded
  apply Ends.untilDone
  · apply Ends.bind looks
    intro value session reached
    change if (value &&& Usart3.txe != 0) = true then _ else _
    split
    · next shows => exact ⟨reached.1, reached.2 shows⟩
    · exact reached.1
  · exact fun _ paced => paced

/-- Polling a byte keeps the pace, since no time passes between the look and the write. -/
theorem sendByte_paces (byte : Byte) :
    Keeps Paced (Serial.sendByte byte : BusM Recorded Unit) := by
  apply Leads.bind waitReady_paces
  rintro ⟨⟩ session ⟨paced, ready⟩
  change Paced (session.device.extend (.whole (.write Serial.target (byte.setWidth 32))))
  exact paced.extend_line (instant_line rfl nofun fun _ _ => ready)

end Recorded

/-- Only polling writes the data register. -/
def Move.Polls : Move → Prop
  | .act (.write address _) => address ≠ Serial.target
  | .act _ | .poll _ _ => True

/-- The transmitter is never overrun. Where only polling writes the data register, every part of
a run puts at most one byte on the line, it does so only where it finds the transmitter ready, and
between two such parts at least as many ticks begin as the first byte keeps the transmitter
busy. -/
theorem Move.record_paced (first : Chip) (moves : List Move)
    (polls : ∀ move ∈ moves, move.Polls) :
    (record first moves).chip = moves.foldl apply first ∧
      Chip.Linked first (record first moves).moments (record first moves).chip ∧
      (record first moves).Paced := by
  refine ⟨record_chip first moves, record_linked first moves, ?_⟩
  apply record_keeps (P := Recorded.Paced)
  · intro action member r paced
    refine paced.act fun value writes => ?_
    subst writes
    exact polls _ member rfl
  · exact Recorded.sendByte_paces
  · exact Recorded.paced_nil first

/-- A channel and a polled byte that compete for the line, each byte of which takes two ticks. -/
def Move.competing (c : Channel) : List Move :=
  [.act (.setLatency 2), .act (.write (Dma1.register c Dma1.cpar) Serial.target),
    .act (.write (Dma1.register c Dma1.cmar) 0x20000000),
    .act (.write (Dma1.register c Dma1.cndtr) 2), .act (.write (Dma1.register c Dma1.ccr) 0x91),
    .poll (.sendByte 9) 5, .act .nop]

theorem Move.record_paced_of_competing :
    (∀ move ∈ competing 0, move.Polls) ∧
      ((competing 0).foldl apply .broughtUp).transmitted = [7, 8, 9] ∧
      (record .broughtUp (competing 0)).Paced := by
  have polls : ∀ move ∈ competing 0, move.Polls := by
    simp only [competing, List.forall_mem_cons, Move.Polls, List.not_mem_nil, false_imp_iff,
      implies_true]
    decide
  exact ⟨polls, by decide +kernel, (record_paced .broughtUp (competing 0) polls).2.2⟩

end Peripherals
