import Peripherals.Proofs.Outcomes
import Peripherals.Proofs.StoreEffects

/-! # A channel's turn

What one turn of a DMA channel does within a tick. It rests, it is disabled by a
bus error, or it moves one item: the byte is stored, the pointers step, flags
are raised and the count goes down. The registers and the latch after counting
an item are given one by one. -/

namespace Peripherals

/-- The latch after an item, its pointers stepped as the control value says. -/
def Latch.step (latch : Latch) (control : Word) : Latch :=
  { latch with
    memory := if control &&& Dma1.memoryIncrement = 0 then latch.memory else latch.memory + 1
    target := if control &&& Dma1.peripheralIncrement = 0 then latch.target else latch.target + 1 }

/-- No pointer that the control value steps is at the last address. -/
structure Latch.Steps (latch : Latch) (control : Word) : Prop where
  memory : control &&& Dma1.memoryIncrement ≠ 0 → latch.memory.toNat + 1 < 0x100000000
  target : control &&& Dma1.peripheralIncrement ≠ 0 → latch.target.toNat + 1 < 0x100000000

theorem Latch.steps_iff {latch : Latch} {control : Word} : latch.Steps control ↔
    (control &&& Dma1.memoryIncrement ≠ 0 → latch.memory.toNat + 1 < 0x100000000) ∧
      (control &&& Dma1.peripheralIncrement ≠ 0 → latch.target.toNat + 1 < 0x100000000) :=
  ⟨fun h => ⟨h.memory, h.target⟩, fun h => ⟨h.1, h.2⟩⟩

namespace Chip

theorem setLatch_latch (chip : Chip) (c : Channel) : chip.setLatch c (chip.latch c) = chip := by
  have same : chip.channels.set c.val (chip.channels.get c) c.isLt = chip.channels :=
    Vector.set_getElem_self c.isLt
  rw [setLatch, latch, same]

theorem setLatch_setLatch (chip : Chip) (c : Channel) (a b : Latch) :
    (chip.setLatch c a).setLatch c b = chip.setLatch c b := by
  simp [setLatch]

/-! ## Moving an item -/

theorem stepMemory_eq_ok_iff {chip after : Chip} {c : Channel} :
    (stepMemory c).run chip = .ok () after ↔
      (chip.latch c).memory.toNat + 1 < 0x100000000 ∧
        after = chip.setLatch c { chip.latch c with memory := (chip.latch c).memory + 1 } := by
  simp only [stepMemory, EStateM.run]
  constructor
  · intro h
    split at h
    · next stepped =>
      obtain ⟨fits, rfl⟩ := Checked.add_eq_ok_iff.mp stepped
      exact ⟨fits, (EStateM.Result.ok.inj h).2.symm⟩
    · cases h
  · rintro ⟨fits, rfl⟩
    rw [Checked.add_eq_ok_iff.mpr ⟨fits, rfl⟩]

theorem stepTarget_eq_ok_iff {chip after : Chip} {c : Channel} :
    (stepTarget c).run chip = .ok () after ↔
      (chip.latch c).target.toNat + 1 < 0x100000000 ∧
        after = chip.setLatch c { chip.latch c with target := (chip.latch c).target + 1 } := by
  simp only [stepTarget, EStateM.run]
  constructor
  · intro h
    split at h
    · next stepped =>
      obtain ⟨fits, rfl⟩ := Checked.add_eq_ok_iff.mp stepped
      exact ⟨fits, (EStateM.Result.ok.inj h).2.symm⟩
    · cases h
  · rintro ⟨fits, rfl⟩
    rw [Checked.add_eq_ok_iff.mpr ⟨fits, rfl⟩]

/-- An item is moved unless a pointer would step off the last address. -/
theorem moveItem_eq_ok_iff {c : Channel} {control remaining : Word} {byte : Byte}
    {chip after : Chip} :
    (moveItem c control remaining byte).run chip = .ok () after ↔
      ((chip.store (chip.latch c).target (byte.setWidth 32)).latch c).Steps control ∧
        after = ((chip.store (chip.latch c).target (byte.setWidth 32)).setLatch c
          (((chip.store (chip.latch c).target (byte.setWidth 32)).latch c).step control)).countItem
            c control (remaining - 1) := by
  simp only [moveItem, EStateM.run_bind, EStateM.run_modify, bne_iff_ne, ne_eq, ite_not,
    Latch.steps_iff, Latch.step]
  generalize chip.store (chip.latch c).target (byte.setWidth 32) = stored
  by_cases memory : control &&& Dma1.memoryIncrement = 0 <;>
    by_cases target : control &&& Dma1.peripheralIncrement = 0
  · have same : stored.setLatch c { stored.latch c with } = stored := setLatch_latch stored c
    simp only [memory, target, if_true, EStateM.run_modify, same, EStateM.Result.ok.injEq]
    simp [eq_comm]
  · simp only [if_pos memory, if_neg target, run_seq_eq_ok_iff, stepTarget_eq_ok_iff]
    grind
  · simp only [if_neg memory, if_pos target, run_seq_eq_ok_iff, stepMemory_eq_ok_iff]
    grind
  · simp only [if_neg memory, if_neg target, run_seq_eq_ok_iff, stepMemory_eq_ok_iff,
      stepTarget_eq_ok_iff]
    grind [latch_setLatch, setLatch_setLatch]

/-! ## Counting an item -/

section Counting

variable (chip : Chip) (c : Channel)

/-- The count that a channel shows after an item: a circular channel starts over after the last. -/
def countAfter (control left : Word) : Word :=
  if left = 0 ∧ control &&& Dma1.circular ≠ 0 then (chip.latch c).reload else left

/-- The latch after an item was counted. -/
def latchAfter (control left : Word) : Latch :=
  if left = 0 ∧ control &&& Dma1.circular ≠ 0 then
    { chip.latch c with
      memory := chip.peek (Dma1.register c Dma1.cmar)
      target := chip.peek (Dma1.register c Dma1.cpar) }
  else chip.latch c

/-- The flags that the counting of an item raises. -/
def flagsAfter (left : Word) : Word :=
  (if left = (chip.latch c).reload / 2 then
      Dma1.flagsOf c (Dma1.halfFlag ||| Dma1.globalFlag) else 0) |||
    (if left = 0 then Dma1.flagsOf c (Dma1.completeFlag ||| Dma1.globalFlag) else 0)

theorem poke_peek (address : Word) : chip.poke address (chip.peek address) = chip := by
  have same : chip.registers.set address (chip.registers.get address) = chip.registers := by
    ext1 other
    rw [Registers.get_set]
    split
    · next h => rw [h]
    · rfl
  rw [poke, peek, same]

theorem poke_poke (address a b : Word) :
    (chip.poke address a).poke address b = chip.poke address b := by
  have same : (chip.registers.set address a).set address b = chip.registers.set address b := by
    ext1 other
    simp only [Registers.get_set]
    split <;> rfl
  simp only [poke, same]

theorem raise_raise (a b : Word) :
    (chip.raise c a).raise c b = chip.poke (Dma1.base + Dma1.isr)
      (chip.peek (Dma1.base + Dma1.isr) ||| (Dma1.flagsOf c (a ||| Dma1.globalFlag) |||
        Dma1.flagsOf c (b ||| Dma1.globalFlag))) := by
  simp only [raise, poke_poke, peek_poke, if_true, BitVec.or_assoc]

/-- The chip after the flags of a counted item were raised. -/
def flagged (left : Word) : Chip :=
  chip.poke (Dma1.base + Dma1.isr) (chip.peek (Dma1.base + Dma1.isr) ||| chip.flagsAfter c left)

theorem flagged_eq (left : Word) :
    chip.flagged c left =
      let halfway := if left = (chip.latch c).reload / 2 then chip.raise c Dma1.halfFlag else chip
      if left = 0 then halfway.raise c Dma1.completeFlag else halfway := by
  have or_none (flags : Word) : flags ||| 0 = flags := BitVec.or_zero
  have none_or (flags : Word) : 0 ||| flags = flags := BitVec.zero_or
  by_cases half : left = (chip.latch c).reload / 2 <;> by_cases last : left = 0
  · simp only [flagged, flagsAfter, if_pos half, if_pos last, raise_raise]
  · simp only [flagged, flagsAfter, if_pos half, if_neg last, raise, or_none]
  · simp only [flagged, flagsAfter, if_neg half, if_pos last, raise, none_or]
  · simp only [flagged, flagsAfter, if_neg half, if_neg last, or_none, poke_peek]

theorem peek_flagged (left : Word) {offset : Word} (small : offset.toNat < 0x14) (d : Channel) :
    (chip.flagged c left).peek (Dma1.register d offset) = chip.peek (Dma1.register d offset) := by
  rw [flagged, peek_poke, if_neg (Dma1.register_ne_flags d small).symm]

/-- Counting an item sets the flags, the latch and the count, and nothing else. -/
theorem countItem_eq (control left : Word) :
    chip.countItem c control left =
      ((chip.flagged c left).setLatch c (chip.latchAfter c control left)).poke
        (Dma1.register c Dma1.cndtr) (chip.countAfter c control left) := by
  have same : (chip.flagged c left).setLatch c (chip.latch c) = chip.flagged c left :=
    setLatch_latch (chip.flagged c left) c
  have rewound : (chip.flagged c left).rewind c =
      (chip.flagged c left).setLatch c
        { chip.latch c with
          memory := chip.peek (Dma1.register c Dma1.cmar)
          target := chip.peek (Dma1.register c Dma1.cpar) } := by
    rw [rewind, peek_flagged _ _ _ Dma1.cmar_inside, peek_flagged _ _ _ Dma1.cpar_inside]
    rfl
  have raised := flagged_eq chip c left
  simp only [countItem]
  generalize (if left = (chip.latch c).reload / 2 then chip.raise c Dma1.halfFlag else chip) =
    halfway at raised ⊢
  simp only [countAfter, latchAfter]
  by_cases last : left = 0
  · rw [if_pos last] at raised
    by_cases once : control &&& Dma1.circular = 0
    · rw [if_pos last, if_pos once, if_neg (fun h => h.2 once), if_neg (fun h => h.2 once), same,
        raised, last]
    · rw [if_pos last, if_neg once, if_pos ⟨last, once⟩, if_pos ⟨last, once⟩, ← rewound, raised]
  · rw [if_neg last] at raised
    rw [if_neg last, if_neg (fun h => last h.1), if_neg (fun h => last h.1), same, raised]

end Counting

/-! ## The turn -/

/-- The chip right after an item's byte was stored at the channel's target. -/
def stored (chip : Chip) (c : Channel) (byte : Byte) : Chip :=
  chip.store (chip.latch c).target (byte.setWidth 32)

/-- The control value with which a channel works. -/
def controlOf (chip : Chip) (c : Channel) : Word :=
  chip.peek (Dma1.register c Dma1.ccr)

/-- How many items a channel has left. -/
def itemsLeft (chip : Chip) (c : Channel) : Word :=
  chip.peek (Dma1.register c Dma1.cndtr)

/-- The chip after a channel moved a byte. -/
def moved (chip : Chip) (c : Channel) (byte : Byte) : Chip :=
  ((chip.stored c byte).setLatch c
    (((chip.stored c byte).latch c).step (chip.controlOf c))).countItem c (chip.controlOf c)
      (chip.itemsLeft c - 1)

/-- The ways in which a channel's turn can end without a fault. -/
inductive Turn (chip : Chip) (c : Channel) : Chip → Prop
  | rest (idle : (chip.latch c).active = true → chip.canMove c = false) : Turn chip c chip
  | failed (active : (chip.latch c).active = true) (able : chip.canMove c = true)
      (unmapped : chip.memoryByte? (chip.latch c).memory = none) :
      Turn chip c (chip.busError c (chip.controlOf c))
  | moved (byte : Byte) (active : (chip.latch c).active = true) (able : chip.canMove c = true)
      (mapped : chip.memoryByte? (chip.latch c).memory = some byte)
      (steps : ((chip.stored c byte).latch c).Steps (chip.controlOf c)) :
      Turn chip c (chip.moved c byte)

theorem run_serveChannel (chip : Chip) (c : Channel) :
    (serveChannel c).run chip =
      if (chip.latch c).active then (stepChannel c).run chip else .ok () chip :=
  rfl

theorem run_stepChannel (chip : Chip) (c : Channel) :
    (stepChannel c).run chip =
      if chip.canMove c then
        match chip.memoryByte? (chip.latch c).memory with
        | some byte => (moveItem c (chip.controlOf c) (chip.itemsLeft c) byte).run chip
        | none => .ok () (chip.busError c (chip.controlOf c))
      else .ok () chip :=
  rfl

/-- A turn that does not fault ends in one of the three ways. -/
theorem serveChannel_eq_ok_iff {chip after : Chip} {c : Channel} :
    (serveChannel c).run chip = .ok () after ↔ Turn chip c after := by
  rw [run_serveChannel, run_stepChannel]
  constructor
  · intro h
    split at h
    · next active =>
      split at h
      · next able =>
        split at h
        · next byte mapped =>
          obtain ⟨steps, rfl⟩ := moveItem_eq_ok_iff.mp h
          exact .moved byte active able mapped steps
        · next unmapped =>
          obtain ⟨-, rfl⟩ := EStateM.Result.ok.inj h
          exact .failed active able unmapped
      · next unable =>
        obtain ⟨-, rfl⟩ := EStateM.Result.ok.inj h
        exact .rest fun _ => by simpa using unable
    · next inactive =>
      obtain ⟨-, rfl⟩ := EStateM.Result.ok.inj h
      exact .rest fun active => (inactive active).elim
  · intro h
    cases h with
    | rest idle =>
      split
      · next active => rw [idle active, if_neg Bool.false_ne_true]
      · rfl
    | failed active able unmapped => rw [if_pos active, if_pos able, unmapped]
    | moved byte active able mapped steps =>
      rw [if_pos active, if_pos able, mapped]
      exact moveItem_eq_ok_iff.mpr ⟨steps, rfl⟩

/-! ## One turn in a tick -/

/-- A channel that moves no item when it has its turn: it is not active, it has no item left, or
it does not read memory. -/
def Rests (chip : Chip) (c : Channel) : Prop :=
  (chip.latch c).active = true →
    chip.itemsLeft c = 0 ∨ chip.controlOf c &&& Dma1.fromMemory = 0

variable {chip after : Chip} {c : Channel}

theorem Rests.of_inactive (inactive : (chip.latch c).active = false) : chip.Rests c := by
  intro active
  rw [inactive] at active
  cases active

theorem Rests.turn (rests : chip.Rests c) : Turn chip c chip := by
  refine .rest fun active => ?_
  have stops : chip.peek (Dma1.register c Dma1.cndtr) = 0 ∨
      chip.peek (Dma1.register c Dma1.ccr) &&& Dma1.fromMemory = 0 := rests active
  obtain none_left | other := stops
  · simp [canMove, none_left]
  · simp [canMove, other]

theorem serve_waiting {cs : List Channel} (waits : ∀ d ∈ cs, Turn chip d chip) :
    (forM cs serveChannel).run chip = .ok () chip := by
  induction cs with
  | nil => rfl
  | cons d others ih =>
    have first : (serveChannel d).run chip = .ok () chip :=
      serveChannel_eq_ok_iff.mpr (waits d List.mem_cons_self)
    rw [List.forM_cons, run_seq_eq_ok_iff]
    exact ⟨chip, first, ih fun d member => waits d (List.mem_cons_of_mem _ member)⟩

theorem serve_resting {cs : List Channel} (rest : ∀ d ∈ cs, chip.Rests d) :
    (forM cs serveChannel).run chip = .ok () chip :=
  serve_waiting fun d member => (rest d member).turn

theorem serve_inactive {cs : List Channel} (inactive : ∀ d ∈ cs, (chip.latch d).active = false) :
    (forM cs serveChannel).run chip = .ok () chip :=
  serve_resting fun d member => .of_inactive (inactive d member)

/-- While every other channel rests, before and after, the turns of all channels are the turn of
one. -/
theorem serve_alone (turn : Turn chip c after) (rest : ∀ d, d ≠ c → chip.Rests d)
    (rest' : ∀ d, d ≠ c → after.Rests d) :
    (forM Channel.all serveChannel).run chip = .ok () after := by
  obtain ⟨earlier, later, split⟩ := List.append_of_mem (List.mem_finRange c)
  have nodup := List.nodup_finRange 7
  rw [split, List.nodup_append, List.nodup_cons] at nodup
  obtain ⟨-, ⟨notLater, -⟩, apart⟩ := nodup
  rw [Channel.all, split, List.forM_append, run_seq_eq_ok_iff]
  refine ⟨chip, serve_resting fun d member => rest d ?_, ?_⟩
  · exact apart d member c List.mem_cons_self
  rw [List.forM_cons, run_seq_eq_ok_iff]
  refine ⟨after, serveChannel_eq_ok_iff.mpr turn, serve_resting fun d member => rest' d ?_⟩
  rintro rfl
  exact notLater member

/-- The same where the other channels are not active. -/
theorem serve_one (turn : Turn chip c after)
    (inactive : ∀ d, d ≠ c → (chip.latch d).active = false)
    (inactive' : ∀ d, d ≠ c → (after.latch d).active = false) :
    (forM Channel.all serveChannel).run chip = .ok () after :=
  serve_alone turn (fun d ne => .of_inactive (inactive d ne))
    fun d ne => .of_inactive (inactive' d ne)

end Chip

end Peripherals
