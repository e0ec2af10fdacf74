import Peripherals.Held
import Peripherals.Proofs.BusContracts

/-! # Operations on handles

An operation on a handle reaches the hardware through the session that it
carries. What it does there is what a computation on the bus does, whatever the
handle remembers, so that a contract for the computation holds for the
operation. -/

namespace Peripherals.Held

variable {δ η α β : Type}

/-- What an operation does to the session is what a computation on the bus does. -/
def Does (action : HeldM δ η α) (calls : BusM δ α) : Prop :=
  ∀ session handle,
    match action.run ⟨session, handle⟩ with
    | .ok a held => calls.run session = .ok a held.session
    | .error fault held => calls.run session = .error fault held.session

theorem run_onBus (calls : BusM δ α) (session : Session δ) (handle : η) :
    (Held.onBus calls : HeldM δ η α).run ⟨session, handle⟩ =
      match calls.run session with
      | .ok value session => .ok value ⟨session, handle⟩
      | .error fault session => .error fault ⟨session, handle⟩ :=
  rfl

theorem Does.onBus (calls : BusM δ α) : Does (Held.onBus calls : HeldM δ η α) calls := by
  intro session handle
  rw [run_onBus]
  cases calls.run session <;> rfl

theorem Does.change (f : η → η) : Does (Held.change f : HeldM δ η Unit) (pure ()) :=
  fun _ _ => rfl

theorem Does.bind {action : HeldM δ η α} {calls : BusM δ α} {next : α → HeldM δ η β}
    {rest : α → BusM δ β} (first : Does action calls) (follows : ∀ a, Does (next a) (rest a)) :
    Does (action >>= next) (calls >>= rest) := by
  intro session handle
  have started := first session handle
  rw [EStateM.run_bind]
  cases ended : action.run ⟨session, handle⟩ with
  | ok a held =>
    simp only [ended] at started
    have followed := follows a held.session held.handle
    rw [EStateM.run_bind, started]
    exact followed
  | error fault held =>
    simp only [ended] at started
    change (calls >>= rest).run session = _
    rw [EStateM.run_bind, started]

theorem Does.forM {ι : Type} {action : ι → HeldM δ η Unit} {calls : ι → BusM δ Unit}
    (each : ∀ i, Does (action i) (calls i)) (list : List ι) :
    Does (forM list action) (forM list calls) := by
  induction list with
  | nil => exact fun _ _ => rfl
  | cons i rest ih =>
    rw [List.forM_cons, List.forM_cons]
    exact (each i).bind fun _ => ih

/-- What the computation settles, the operation brings about. -/
theorem Does.settles {action : HeldM δ η α} {calls : BusM δ α} {n : Nat} {P : δ → Prop}
    {Q : α → δ → Prop} (does : Does action calls) (settles : Bus.Settles n P calls Q) {device : δ}
    (start : P device) (ticks : Nat) (log : Array Access) (handle : η) :
    (∀ a held, action.run ⟨⟨device, ticks, log⟩, handle⟩ = .ok a held →
      Q a held.session.device) ∧
    (n ≤ ticks → ∃ a held, action.run ⟨⟨device, ticks, log⟩, handle⟩ = .ok a held) := by
  have acted := does ⟨device, ticks, log⟩ handle
  have reached := settles ⟨device, ticks, log⟩ start
  split at acted
  · next a held returned =>
    rw [acted] at reached
    refine ⟨fun a' held' returned' => ?_, fun _ => ⟨a, held, returned⟩⟩
    obtain ⟨rfl, rfl⟩ := EStateM.Result.ok.inj (returned.symm.trans returned')
    exact reached.1
  · next fault held faulted =>
    rw [acted] at reached
    refine ⟨fun a' held' returned => ?_, fun enough => ?_⟩
    · rw [faulted] at returned
      cases returned
    · exact absurd reached.2 (Nat.not_lt.mpr enough)

/-! ## Operations that look at their handle -/

/-- From a handle, an operation does to the session what a computation on the bus does, and leaves
another handle when it returns. -/
def Acts (handle : η) (action : HeldM δ η α) (calls : BusM δ α) (becomes : η) : Prop :=
  ∀ session,
    match calls.run session with
    | .ok a after => action.run ⟨session, handle⟩ = .ok a ⟨after, becomes⟩
    | .error fault after => ∃ left, action.run ⟨session, handle⟩ = .error fault ⟨after, left⟩

section Acts

variable {handle becomes : η} {action : HeldM δ η α} {calls : BusM δ α}

theorem Acts.onBus (calls : BusM δ α) (handle : η) :
    Acts handle (Held.onBus calls) calls handle := by
  intro session
  rw [run_onBus]
  cases calls.run session with
  | ok a after => rfl
  | error fault after => exact ⟨handle, rfl⟩

theorem Acts.change (f : η → η) (handle : η) :
    Acts (δ := δ) handle (Held.change f) (pure ()) (f handle) :=
  fun _ => rfl

theorem Acts.bind {middle : η} {next : α → HeldM δ η β} {rest : α → BusM δ β}
    (first : Acts handle action calls middle)
    (follows : ∀ a, Acts middle (next a) (rest a) becomes) :
    Acts handle (action >>= next) (calls >>= rest) becomes := by
  intro session
  have started := first session
  rw [EStateM.run_bind, EStateM.run_bind]
  split at started
  · next a after ended =>
    rw [ended, started]
    exact follows a after
  · next fault after ended =>
    obtain ⟨left, failed⟩ := started
    rw [ended, failed]
    exact ⟨left, rfl⟩

/-- An operation on a part of the handle leaves the rest of it. -/
theorem Acts.part {ζ : Type} {get : η → ζ} {set : ζ → η → η} {inner : HeldM δ ζ α} {became : ζ}
    (acts : Acts (get handle) inner calls became) :
    Acts handle (Held.part get set inner) calls (set became handle) := by
  intro session
  have acted := acts session
  cases ended : calls.run session with
  | ok a after =>
    simp only [ended] at acted ⊢
    change (Held.part get set inner) ⟨session, handle⟩ = _
    simp only [Held.part, acted]
  | error fault after =>
    simp only [ended] at acted ⊢
    obtain ⟨left, failed⟩ := acted
    refine ⟨set left handle, ?_⟩
    change (Held.part get set inner) ⟨session, handle⟩ = _
    simp only [Held.part, failed]

/-- Looking at the handle takes no access. -/
theorem Acts.current {next : η → HeldM δ η α} (follows : Acts handle (next handle) calls becomes) :
    Acts handle (Held.current >>= next) calls becomes :=
  follows

/-- Changing the handle takes no access. -/
theorem Acts.changed {f : η → η} {next : Unit → HeldM δ η α}
    (follows : Acts (f handle) (next ()) calls becomes) :
    Acts handle (Held.change f >>= next) calls becomes :=
  follows

/-- What a computation on the bus brings about in time, the operation brings about. -/
theorem Acts.returnsInTime {device : δ} {log : Array Access} {Q : α → Session δ → Prop}
    (acts : Acts handle action calls becomes)
    (inTime : ReturnsInTime (fun ticks => calls.run ⟨device, ticks, log⟩) Q) :
    ReturnsInTime (fun ticks => action.run ⟨⟨device, ticks, log⟩, handle⟩)
      fun a held => Q a held.session ∧ held.handle = becomes where
  returns := by
    obtain ⟨enough, returns⟩ := inTime.returns
    refine ⟨enough, fun ticks many => ?_⟩
    obtain ⟨a, after, returned⟩ := returns ticks many
    have acted := acts ⟨device, ticks, log⟩
    rw [returned] at acted
    exact ⟨a, _, acted⟩
  holds ticks a held returned := by
    have acted := acts ⟨device, ticks, log⟩
    split at acted
    · next a' after ended =>
      obtain ⟨rfl, rfl⟩ := EStateM.Result.ok.inj (acted.symm.trans returned)
      exact ⟨inTime.holds ticks a' after ended, rfl⟩
    · next fault after ended =>
      obtain ⟨left, failed⟩ := acted
      rw [failed] at returned
      cases returned

/-- If the computation on the bus does not return, the operation does not. -/
theorem Acts.neverReturns {device : δ} {log : Array Access} {E : Session δ → Prop}
    (acts : Acts handle action calls becomes)
    (never : NeverReturns (fun ticks => calls.run ⟨device, ticks, log⟩) E) :
    NeverReturns (fun ticks => action.run ⟨⟨device, ticks, log⟩, handle⟩)
      fun held => E held.session where
  never ticks a held returned := by
    have acted := acts ⟨device, ticks, log⟩
    split at acted
    · next ended => exact never.never ticks _ _ ended
    · obtain ⟨left, failed⟩ := acted
      rw [failed] at returned
      cases returned
  stopped ticks fault held faulted := by
    have acted := acts ⟨device, ticks, log⟩
    split at acted
    · next ended => exact (never.never ticks _ _ ended).elim
    · next ended =>
      obtain ⟨left, failed⟩ := acted
      obtain ⟨-, rfl⟩ := EStateM.Result.error.inj (failed.symm.trans faulted)
      exact never.stopped ticks _ _ ended

end Acts

end Peripherals.Held
