import Mathlib.Tactic.SplitIfs
import Mathlib.Tactic.Common
import Peripherals.Driver.Dma

/-! # The schedule of a stream

Which bytes of a buffer a channel puts on the line when it works through the
buffer towards the data register, and when. Items are counted over all passes.
Only an item for the data register itself waits for the transmitter and reaches
the line; an item behind it is stored and lost. -/

namespace Peripherals

namespace ChannelConfig

variable (config : ChannelConfig)

/-! ## Which bytes reach the line -/

/-- The place in its pass of `n` items of the item that follows `k` others. -/
def place (n k : Nat) : Nat :=
  if config.circular then k % n else k

/-- How far the memory pointer is from the start of the buffer. -/
def sourceAt (n k : Nat) : Nat :=
  if config.memoryIncrement then config.place n k else 0

/-- How far the pointer to the peripheral is from the data register. -/
def targetAt (n k : Nat) : Nat :=
  if config.peripheralIncrement then config.place n k else 0

/-- What reaches the line with the item that follows `k` others. -/
def emitted (bytes : Array Byte) (k : Nat) : List Byte :=
  if config.targetAt bytes.size k = 0 then bytes[config.sourceAt bytes.size k]?.toList else []

/-- What reaches the line with the first `k` items. -/
def streamed (bytes : Array Byte) (k : Nat) : List Byte :=
  (List.range k).flatMap (config.emitted bytes)

/-- The item that follows `k` others is moved in the next tick: the pass is not over, and for the
data register the transmitter will be free. -/
def Due (n k busy : Nat) : Prop :=
  config.place n k < n ∧ (config.targetAt n k ≠ 0 ∨ busy ≤ 1)

variable {config} {n k : Nat}

theorem streamed_succ (bytes : Array Byte) (k : Nat) :
    config.streamed bytes (k + 1) = config.streamed bytes k ++ config.emitted bytes k := by
  simp only [streamed, List.range_succ, List.flatMap_append, List.flatMap_singleton]

theorem sourceAt_le (n k : Nat) : config.sourceAt n k ≤ config.place n k := by
  rw [sourceAt]
  split <;> omega

theorem targetAt_le (n k : Nat) : config.targetAt n k ≤ config.place n k := by
  rw [targetAt]
  split <;> omega

/-- Only an item for the data register reaches the line. -/
theorem emitted_eq_nil_iff {bytes : Array Byte} (inside : config.place bytes.size k < bytes.size) :
    config.emitted bytes k = [] ↔ config.targetAt bytes.size k ≠ 0 := by
  have source : config.sourceAt bytes.size k < bytes.size :=
    Nat.lt_of_le_of_lt (config.sourceAt_le _ _) inside
  rw [emitted, Array.getElem?_eq_getElem source]
  split <;> simp_all

theorem place_zero (n : Nat) : config.place n 0 = 0 := by
  rw [place, Nat.zero_mod]
  exact ite_self 0

theorem place_of_lt (first : k < n) : config.place n k = k := by
  rw [place, Nat.mod_eq_of_lt first]
  exact ite_self k

/-- A circular channel is always within a pass. -/
theorem place_lt (circular : config.circular = true) (nonempty : 1 ≤ n) (k : Nat) :
    config.place n k < n := by
  rw [place, if_pos circular]
  exact Nat.mod_lt k nonempty

/-- A circular channel that counted its last item is at the start of the next pass. -/
theorem place_succ (inside : config.place n k < n) :
    config.place n (k + 1) =
      if config.place n k + 1 = n ∧ config.circular = true then 0 else config.place n k + 1 := by
  cases circular : config.circular with
  | true =>
    simp only [place, circular, if_true, and_true] at inside ⊢
    rw [← Nat.mod_add_mod]
    split
    · next last => rw [last, Nat.mod_self]
    · exact Nat.mod_eq_of_lt (by omega)
  | false => simp [place, circular]

/-- The first pass is over with its last item. -/
theorem complete_succ (n k : Nat) :
    n ≤ k ∨ config.place n k + 1 = n ↔ n ≤ k + 1 := by
  by_cases first : k < n
  · rw [place_of_lt first]
    omega
  · omega

/-- The memory pointer returns to the start with the place. -/
theorem sourceAt_succ (inside : config.place n k < n) :
    config.sourceAt n (k + 1) =
      if config.place n k + 1 = n ∧ config.circular = true then 0
      else config.sourceAt n k + if config.memoryIncrement then 1 else 0 := by
  rw [sourceAt, sourceAt, place_succ inside]
  split_ifs <;> rfl

theorem targetAt_succ (inside : config.place n k < n) :
    config.targetAt n (k + 1) =
      if config.place n k + 1 = n ∧ config.circular = true then 0
      else config.targetAt n k + if config.peripheralIncrement then 1 else 0 := by
  rw [targetAt, targetAt, place_succ inside]
  split_ifs <;> rfl

/-! ## How busy the transmitter is -/

/-- How many items there are from one byte on the line to the next. -/
def gap (n : Nat) : Nat :=
  if config.peripheralIncrement then n else 1

/-- The transmitter will not be free before the next byte of the stream is due. -/
def Crowded (n k busy : Nat) : Prop :=
  if config.targetAt n k = 0 then 1 ≤ busy else config.gap n + 1 ≤ busy + config.targetAt n k

/-- An item behind the data register is one of a channel that leaves it. -/
theorem gap_of_targetAt (away : config.targetAt n k ≠ 0) :
    config.gap n = n ∧ config.targetAt n k = config.place n k ∧
      config.peripheralIncrement = true := by
  rw [targetAt] at away ⊢
  cases peripheral : config.peripheralIncrement with
  | true => exact ⟨by rw [gap, peripheral]; rfl, rfl, rfl⟩
  | false =>
    rw [peripheral] at away
    exact (away rfl).elim

theorem gap_pos (nonempty : 1 ≤ n) : 1 ≤ config.gap n := by
  rw [gap]
  split <;> omega

theorem Crowded.busy_pos {busy : Nat} (crowded : config.Crowded n k busy)
    (within : config.place n k ≤ n) : 1 ≤ busy := by
  rw [Crowded] at crowded
  split at crowded
  · exact crowded
  · next away =>
    obtain ⟨whole, place, -⟩ := gap_of_targetAt away
    omega

/-- On a line that takes as long for a byte as the channel for all items up to the next one, the
transmitter is never free after the first item. -/
theorem crowded_succ {busy latency : Nat} (slow : config.gap n ≤ latency)
    (crowded : 1 ≤ k → config.Crowded n k busy) (due : config.Due n k busy) :
    config.Crowded n (k + 1) (if config.targetAt n k = 0 then latency else busy - 1) := by
  have inside := due.1
  have positive := config.gap_pos (Nat.one_le_of_lt inside)
  have next := config.targetAt_succ inside
  by_cases data : config.targetAt n k = 0
  · rw [if_pos data, Crowded]
    rw [data, Nat.zero_add] at next
    split
    · omega
    · next away =>
      have one : config.targetAt n (k + 1) = 1 := by
        rw [next] at away ⊢
        split_ifs at away ⊢ <;> simp_all
      omega
  · obtain ⟨whole, place, away⟩ := gap_of_targetAt data
    have later : 1 ≤ k := by
      by_contra first
      have start : k = 0 := by omega
      rw [place, start, place_zero] at data
      exact data rfl
    have before := crowded later
    rw [Crowded, if_neg data] at before
    rw [if_neg data, Crowded]
    rw [away, if_pos rfl] at next
    split
    · omega
    · next still =>
      rw [next] at still ⊢
      split_ifs at still ⊢ <;> omega

/-- While an item waits for the transmitter, it stays crowded. -/
theorem crowded_wait {busy : Nat} (inside : config.place n k < n)
    (waiting : ¬ config.Due n k busy) : config.Crowded n k (busy - 1) := by
  rw [Due, not_and, not_or, not_not, Nat.not_le] at waiting
  obtain ⟨data, busy⟩ := waiting inside
  rw [Crowded, if_pos data]
  omega

/-- How long it takes at most until the transmitter is free after a tick, on a line that is faster
than the channel for all items up to the next one. -/
def patience (n latency k busy : Nat) : Nat :=
  if config.targetAt n k ≠ 0 ∧ busy + config.targetAt n k ≤ config.gap n then busy
  else busy + latency + 1

theorem patience_le (n latency k busy : Nat) :
    config.patience n latency k busy ≤ busy + latency + 1 := by
  rw [patience]
  split <;> omega

/-- An item that is moved brings the time closer. -/
theorem patience_succ {busy latency : Nat} (fast : latency < config.gap n)
    (due : config.Due n k busy) {after : Nat}
    (becomes : after = if config.targetAt n k = 0 then latency else busy - 1) (taken : after ≠ 0) :
    config.patience n latency (k + 1) after < config.patience n latency k busy := by
  have inside := due.1
  have next := config.targetAt_succ inside
  by_cases data : config.targetAt n k = 0
  · rw [if_pos data] at becomes
    have long : 2 ≤ config.gap n := by omega
    have away : config.peripheralIncrement = true := by
      by_contra stays
      rw [gap, if_neg stays] at long
      omega
    have whole : config.gap n = n := by rw [gap, if_pos away]
    have start : config.place n k = 0 := by
      rw [targetAt, if_pos away] at data
      exact data
    have one : config.targetAt n (k + 1) = 1 := by
      rw [next, if_neg (by omega), data, if_pos away]
    have before : config.patience n latency k busy = busy + latency + 1 :=
      if_neg fun h => h.1 data
    have behind : config.patience n latency (k + 1) after = after :=
      if_pos ⟨by omega, by omega⟩
    omega
  · obtain ⟨whole, place, away⟩ := gap_of_targetAt data
    rw [if_neg data] at becomes
    by_cases near : busy + config.targetAt n k ≤ config.gap n
    · have on : config.targetAt n (k + 1) = config.targetAt n k + 1 := by
        rw [next, if_neg (by omega), if_pos away]
      have before : config.patience n latency k busy = busy := if_pos ⟨data, near⟩
      have behind : config.patience n latency (k + 1) after = after :=
        if_pos ⟨by omega, by omega⟩
      omega
    · have before : config.patience n latency k busy = busy + latency + 1 :=
        if_neg fun h => near h.2
      have behind := config.patience_le n latency (k + 1) after
      omega

/-- So does a tick in which an item waits. -/
theorem patience_wait {busy latency : Nat} (inside : config.place n k < n)
    (waiting : ¬ config.Due n k busy) :
    config.patience n latency k (busy - 1) < config.patience n latency k busy := by
  rw [Due, not_and, not_or, not_not, Nat.not_le] at waiting
  obtain ⟨data, busy⟩ := waiting inside
  rw [patience, patience, if_neg fun h => h.1 data, if_neg fun h => h.1 data]
  omega

/-- A circular channel starts every pass anew. -/
theorem emitted_add_pass (circular : config.circular = true) (bytes : Array Byte) (k : Nat) :
    config.emitted bytes (bytes.size + k) = config.emitted bytes k := by
  have same : config.place bytes.size (bytes.size + k) = config.place bytes.size k := by
    rw [place, place, circular, if_pos rfl, if_pos rfl, Nat.add_mod_left]
  rw [emitted, emitted, targetAt, targetAt, sourceAt, sourceAt, same]

/-! ## The three ways to go through a buffer -/

section Buffers

variable {bytes : Array Byte}

/-- A channel that reads forward and stays on the data register sends the buffer. -/
theorem streamed_forward (memory : config.memoryIncrement = true)
    (peripheral : config.peripheralIncrement = false) (first : k ≤ bytes.size) :
    config.streamed bytes k = bytes.toList.take k := by
  induction k with
  | zero => rfl
  | succ k ih =>
    have emits : config.emitted bytes k = bytes[k]?.toList := by
      simp [emitted, targetAt, sourceAt, memory, peripheral, place_of_lt first]
    rw [streamed_succ, ih (Nat.le_of_lt first), emits, List.take_add_one, Array.getElem?_toList]

/-- A channel that stays in memory sends its first byte again and again. -/
theorem streamed_still {byte : Byte} (memory : config.memoryIncrement = false)
    (peripheral : config.peripheralIncrement = false) (byte? : bytes[0]? = some byte) (k : Nat) :
    config.streamed bytes k = List.replicate k byte := by
  induction k with
  | zero => rfl
  | succ k ih =>
    have emits : config.emitted bytes k = [byte] := by
      simp [emitted, targetAt, sourceAt, memory, peripheral, byte?]
    rw [streamed_succ, ih, emits, List.replicate_succ']

/-- A channel that leaves the data register sends one byte for each pass. -/
theorem streamed_away {byte : Byte} (peripheral : config.peripheralIncrement = true)
    (byte? : bytes[0]? = some byte) (some_items : 0 < k) (first : k ≤ bytes.size) :
    config.streamed bytes k = [byte] := by
  induction k with
  | zero => omega
  | succ k ih =>
    rw [streamed_succ]
    by_cases start : k = 0
    · subst start
      simp [streamed, emitted, targetAt, sourceAt, place_zero, byte?]
    · have emits : config.emitted bytes k = [] := by
        simp [emitted, targetAt, peripheral, place_of_lt first, start]
      rw [ih (Nat.pos_of_ne_zero start) (Nat.le_of_lt first), emits, List.append_nil]

end Buffers

end ChannelConfig

end Peripherals
