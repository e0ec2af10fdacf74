import Peripherals.Proofs.Recording

/-! # Where a tick faults

The only fault in a tick is an address of a channel that is stepped past the last
one. So what the turns of channels keep when they return is kept by every tick
that returns, and a tick that does not return shows which turn overflowed. -/

namespace Peripherals

namespace Chip

variable {chip after : Chip} {c : Channel}

/-- An address of a channel overflows in its turn. -/
def Moment.Overflows (moment : Moment) : Prop :=
  ∃ c after, moment.part = .turn c ∧
    (serveChannel c).run moment.chip = .error .addOverflow after

/-- No part of a turn has another fault than an address that overflows. -/
def OnlyOverflows (x : EStateM Fault Chip Unit) : Prop :=
  ∀ chip fault after, x.run chip = .error fault after → fault = .addOverflow

theorem OnlyOverflows.seq {x y : EStateM Fault Chip Unit} (first : OnlyOverflows x)
    (second : OnlyOverflows y) : OnlyOverflows (x >>= fun _ => y) := by
  intro chip fault after faulted
  rw [EStateM.run_bind] at faulted
  split at faulted
  · exact second _ _ _ faulted
  · next failed =>
    obtain ⟨rfl, -⟩ := EStateM.Result.error.inj faulted
    exact first _ _ _ failed

theorem OnlyOverflows.modify (f : Chip → Chip) : OnlyOverflows (modify f) :=
  fun _ _ _ faulted => nomatch faulted

theorem OnlyOverflows.optional {x y : EStateM Fault Chip Unit} (condition : Prop)
    [Decidable condition] (first : OnlyOverflows x) (second : OnlyOverflows y) :
    OnlyOverflows (if condition then x >>= fun _ => y else y) := by
  split
  · exact first.seq second
  · exact second

theorem add_fault {a b : Word} {fault : Fault} (fails : Checked.add a b = .error fault) :
    fault = .addOverflow := by
  rw [Checked.add] at fails
  split at fails
  · exact (Except.error.inj fails).symm
  · cases fails

theorem stepMemory_overflows (c : Channel) : OnlyOverflows (stepMemory c) := by
  intro chip fault after faulted
  simp only [stepMemory, EStateM.run] at faulted
  split at faulted
  · cases faulted
  · next sum =>
    obtain ⟨rfl, -⟩ := EStateM.Result.error.inj faulted
    exact add_fault sum

theorem stepTarget_overflows (c : Channel) : OnlyOverflows (stepTarget c) := by
  intro chip fault after faulted
  simp only [stepTarget, EStateM.run] at faulted
  split at faulted
  · cases faulted
  · next sum =>
    obtain ⟨rfl, -⟩ := EStateM.Result.error.inj faulted
    exact add_fault sum

theorem moveItem_overflows (c : Channel) (control remaining : Word) (byte : Byte) :
    OnlyOverflows (moveItem c control remaining byte) :=
  .seq (.modify _) <| .optional _ (stepMemory_overflows c) <|
    .optional _ (stepTarget_overflows c) (.modify _)

/-- A turn faults only where an address overflows. -/
theorem serveChannel_fault {fault : Fault}
    (faulted : (serveChannel c).run chip = .error fault after) : fault = .addOverflow := by
  rw [run_serveChannel, run_stepChannel] at faulted
  split at faulted
  · split at faulted
    · split at faulted
      · exact moveItem_overflows _ _ _ _ _ _ _ faulted
      · cases faulted
    · cases faulted
  · cases faulted

end Chip

namespace Recorded

open Chip

variable {P : Recorded → Prop} {r : Recorded}

/-- What the parts of a tick keep, the tick keeps. -/
theorem tick_keeps (count : ∀ r, P r → P (r.extend .countDown))
    (turn : ∀ r c, P r → P (r.extend (.turn c))) : Upholds P tick := by
  intro r holds
  have begun : P (r.extend .countDown) := count r holds
  have turns : Upholds P (forM Channel.all fun c => note (.turn c) (serveChannel c)) :=
    Upholds.forM (fun c => note_upholds (fun _ => rfl) fun r => turn r c) _
  rw [stateAfter, run_tick]
  by_cases clocked : (r.extend .countDown).chip.clocked (.dma1 0) = true
  · rw [if_pos clocked]
    exact turns _ begun
  · rw [if_neg clocked]
    exact begun

/-- What turns keep that return, a tick keeps that returns. -/
theorem tick_returned {after : Recorded} (count : ∀ r, P r → P (r.extend .countDown))
    (turn : ∀ r c chip, (serveChannel c).run r.chip = .ok () chip → P r → P (r.extend (.turn c)))
    (holds : P r) (returned : tick.run r = .ok () after) : P after := by
  have single (c : Channel) (s t : Recorded) (holds : P s)
      (returned : (note (.turn c) (serveChannel c)).run s = .ok () t) : P t := by
    rw [run_note] at returned
    split at returned
    · next chip served =>
      obtain ⟨-, rfl⟩ := EStateM.Result.ok.inj returned
      have extended := turn s c chip served holds
      rwa [extend, Part.after, stateAfter_of_ok served] at extended
    · cases returned
  rw [run_tick] at returned
  split at returned
  · exact forM_preserves single (count r holds) returned
  · obtain ⟨-, rfl⟩ := EStateM.Result.ok.inj returned
    exact count r holds

/-- A channel's address overflowed. -/
def Overflowed (r : Recorded) : Prop :=
  ∃ moment ∈ r.moments, moment.Overflows

/-- A tick faults only where an address overflows. -/
theorem tick_fault {fault : Fault} {after : Recorded} (faulted : tick.run r = .error fault after) :
    fault = .addOverflow ∧ after.Overflowed := by
  have turn {c : Channel} {r : Recorded}
      (faulted : (note (.turn c) (serveChannel c)).run r = .error fault after) :
      fault = .addOverflow ∧ after.Overflowed := by
    rw [run_note] at faulted
    split at faulted
    · cases faulted
    · next served =>
      obtain ⟨rfl, rfl⟩ := EStateM.Result.error.inj faulted
      obtain rfl := serveChannel_fault served
      exact ⟨rfl, _, List.mem_append_right _ List.mem_cons_self, c, _, rfl, served⟩
  have turns (cs : List Channel) {r : Recorded}
      (faulted : (forM cs fun c => note (.turn c) (serveChannel c)).run r = .error fault after) :
      fault = .addOverflow ∧ after.Overflowed := by
    induction cs generalizing r with
    | nil => cases faulted
    | cons c rest ih =>
      rw [List.forM_cons, EStateM.run_bind] at faulted
      split at faulted
      · exact ih faulted
      · next served =>
        obtain ⟨rfl, rfl⟩ := EStateM.Result.error.inj faulted
        exact turn served
  rw [run_tick] at faulted
  split at faulted
  · exact turns _ faulted
  · cases faulted

end Recorded

end Peripherals
