import Peripherals.Word

/-! # Outcomes of computations

A computation that can fault keeps its state either way. These lemmas take a
sequence of computations apart, and carry a property of the state through a loop
over a list. -/

namespace Peripherals

/-- A checked sum is the sum, if it fits. -/
theorem Checked.add_eq_ok_iff {a b sum : Word} :
    Checked.add a b = .ok sum ↔ a.toNat + b.toNat < 0x100000000 ∧ sum = a + b := by
  rw [Checked.add, BitVec.uaddOverflow]
  by_cases h : a.toNat + b.toNat < 0x100000000
  · rw [if_neg (by simp; omega)]
    simp [h, eq_comm]
  · rw [if_pos (by simp; omega)]
    simp [h]

variable {σ α β : Type}

/-- A sequence returns exactly if both parts do, the second from where the first ended. -/
theorem run_bind_eq_ok_iff {x : EStateM Fault σ α} {f : α → EStateM Fault σ β} {s t : σ} {b : β} :
    (x >>= f).run s = .ok b t ↔ ∃ a r, x.run s = .ok a r ∧ (f a).run r = .ok b t := by
  rw [EStateM.run_bind]
  split
  · next a r returned =>
    constructor
    · intro h
      exact ⟨a, r, returned, h⟩
    · rintro ⟨a', r', returned', h⟩
      obtain ⟨rfl, rfl⟩ := EStateM.Result.ok.inj (returned.symm.trans returned')
      exact h
  · next fault r faulted =>
    constructor
    · intro h
      cases h
    · rintro ⟨a', r', returned, -⟩
      rw [faulted] at returned
      cases returned

/-- The same for a first part that gives no value. -/
theorem run_seq_eq_ok_iff {x : EStateM Fault σ Unit} {f : Unit → EStateM Fault σ β} {s t : σ}
    {b : β} : (x >>= f).run s = .ok b t ↔ ∃ r, x.run s = .ok () r ∧ (f ()).run r = .ok b t := by
  rw [run_bind_eq_ok_iff]
  constructor
  · rintro ⟨⟨⟩, r, first, second⟩
    exact ⟨r, first, second⟩
  · rintro ⟨r, first, second⟩
    exact ⟨(), r, first, second⟩

/-- What every action of a loop preserves when it returns, the loop preserves when it returns. -/
theorem forM_preserves {P : σ → Prop} {f : α → EStateM Fault σ Unit}
    (each : ∀ a s t, P s → (f a).run s = .ok () t → P t) {xs : List α} {s t : σ} (holds : P s)
    (returned : (forM xs f).run s = .ok () t) : P t := by
  induction xs generalizing s with
  | nil =>
    obtain ⟨-, rfl⟩ := EStateM.Result.ok.inj returned
    exact holds
  | cons a rest ih =>
    rw [List.forM_cons, run_seq_eq_ok_iff] at returned
    obtain ⟨r, first, others⟩ := returned
    exact ih (each a s r holds first) others

/-- A loop returns if every action returns and leads to where the next one returns. -/
theorem forM_returns {P : σ → Prop} {f : α → EStateM Fault σ Unit}
    (each : ∀ a s, P s → ∃ t, (f a).run s = .ok () t ∧ P t) (xs : List α) {s : σ} (holds : P s) :
    ∃ t, (forM xs f).run s = .ok () t ∧ P t := by
  induction xs generalizing s with
  | nil => exact ⟨s, rfl, holds⟩
  | cons a rest ih =>
    obtain ⟨r, first, holds'⟩ := each a s holds
    obtain ⟨t, others, holds''⟩ := ih holds'
    refine ⟨t, ?_, holds''⟩
    rw [List.forM_cons, run_seq_eq_ok_iff]
    exact ⟨r, first, others⟩

/-- A run returns when it gets enough ticks, and whenever it returns it has a property. -/
structure ReturnsInTime (run : Nat → EStateM.Result Fault σ α) (Q : α → σ → Prop) : Prop where
  returns : ∃ enough, ∀ ticks, enough ≤ ticks → ∃ a s, run ticks = .ok a s
  holds : ∀ ticks a s, run ticks = .ok a s → Q a s

theorem ReturnsInTime.mono {run : Nat → EStateM.Result Fault σ α} {Q Q' : α → σ → Prop}
    (more : ∀ a s, Q a s → Q' a s) (inTime : ReturnsInTime run Q) : ReturnsInTime run Q' :=
  ⟨inTime.returns, fun ticks a s returned => more a s (inTime.holds ticks a s returned)⟩

/-- A run does not return, however many ticks it gets, and wherever it faults the state has a
property. -/
structure NeverReturns (run : Nat → EStateM.Result Fault σ α) (E : σ → Prop) : Prop where
  never : ∀ ticks a s, run ticks ≠ .ok a s
  stopped : ∀ ticks fault s, run ticks = .error fault s → E s

end Peripherals
