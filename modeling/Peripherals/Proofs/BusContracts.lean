import Peripherals.Bus
import Peripherals.Proofs.Outcomes

/-! # Contracts of bus computations

Two kinds of contract for a computation on a device. One says into which states
it returns and in which states a fault leaves the device. The other also bounds
the ticks that it needs, so that with enough ticks it returns. Both follow the
way a computation is put together. -/

namespace Peripherals

namespace Bus

variable {δ α β : Type}

/-- From sessions with `P`, a computation returns only into `Q`, and a fault leaves only `E`. -/
def Ends (P : Session δ → Prop) (m : BusM δ α) (Q : α → Session δ → Prop) (E : Session δ → Prop) :
    Prop :=
  ∀ session, P session →
    match m.run session with
    | .ok a after => Q a after
    | .error _ after => E after

/-- From devices with `P`, a computation returns only into `Q`, and a fault leaves only `E`. -/
def Leads (P : δ → Prop) (m : BusM δ α) (Q : α → δ → Prop) (E : δ → Prop) : Prop :=
  Ends (fun session => P session.device) m (fun a after => Q a after.device)
    fun after => E after.device

/-- From devices with `P`, a computation returns only into `Q`, `n` ticks are enough for it, and
it faults only by running out of ticks. -/
def Settles (n : Nat) (P : δ → Prop) (m : BusM δ α) (Q : α → δ → Prop) : Prop :=
  ∀ session, P session.device →
    match m.run session with
    | .ok a after => Q a after.device ∧ session.ticks ≤ after.ticks + n
    | .error fault _ => fault = .outOfTicks ∧ session.ticks < n

/-- A computation keeps a property of the session, whether it returns or faults. -/
def Maintains (P : Session δ → Prop) (m : BusM δ α) : Prop :=
  Ends P m (fun _ => P) P

/-- A computation keeps a property of the device, whether it returns or faults. -/
def Keeps (P : δ → Prop) (m : BusM δ α) : Prop :=
  Leads P m (fun _ => P) P

section Ends

variable {P : Session δ → Prop} {E : Session δ → Prop}

theorem Ends.bind {R : α → Session δ → Prop} {Q : β → Session δ → Prop} {m : BusM δ α}
    {f : α → BusM δ β} (first : Ends P m R E) (rest : ∀ a, Ends (R a) (f a) Q E) :
    Ends P (m >>= f) Q E := by
  intro session holds
  have reached := first session holds
  rw [EStateM.run_bind]
  split at reached
  · next a middle ended =>
    rw [ended]
    exact rest a middle reached
  · next fault middle ended =>
    rw [ended]
    exact reached

theorem Ends.weaken {E' : Session δ → Prop} {Q Q' : α → Session δ → Prop} {m : BusM δ α}
    (ends : Ends P m Q E) (returned : ∀ a session, Q a session → Q' a session)
    (faulted : ∀ session, E session → E' session) : Ends P m Q' E' := by
  intro session holds
  have reached := ends session holds
  split at reached
  · exact returned _ _ reached
  · exact faulted _ reached

theorem Maintains.bind {m : BusM δ α} {f : α → BusM δ β} (first : Maintains P m)
    (rest : ∀ a, Maintains P (f a)) : Maintains P (m >>= f) :=
  Ends.bind first rest

theorem Maintains.pure (a : α) : Maintains P (Pure.pure a : BusM δ α) :=
  fun _ holds => holds

/-- A bounded loop ends as its last round does, if the rounds before it keep a property. -/
theorem Ends.roundsDone {Q : Session δ → Prop} {round : BusM δ Bool}
    (each : Ends P round (fun done session => if done then Q session else P session) E)
    (exhausted : ∀ session, P session → E session) (bound : Nat) :
    Ends P (Peripherals.untilTrue bound round : BusM δ Unit) (fun _ => Q) E := by
  induction bound with
  | zero => exact exhausted
  | succ bound ih =>
    apply Ends.bind each
    intro done
    cases done with
    | true => exact fun _ reached => reached
    | false => exact ih

theorem Ends.untilDone {Q : Session δ → Prop} {round : BusM δ Bool}
    (each : Ends P round (fun done session => if done then Q session else P session) E)
    (exhausted : ∀ session, P session → E session) :
    Ends P (Bus.untilTrue round) (fun _ => Q) E :=
  fun session holds => Ends.roundsDone each exhausted (session.ticks + 1) session holds

/-- What every round that returns keeps, a bounded loop keeps when it returns. -/
theorem Ends.rounds {round : BusM δ Bool} (each : Ends P round (fun _ => P) E)
    (exhausted : ∀ session, P session → E session) (bound : Nat) :
    Ends P (Peripherals.untilTrue bound round : BusM δ Unit) (fun _ => P) E :=
  Ends.roundsDone (each.weaken (fun done _ holds => by split <;> exact holds) fun _ left => left)
    exhausted bound

theorem Ends.untilTrue {round : BusM δ Bool} (each : Ends P round (fun _ => P) E)
    (exhausted : ∀ session, P session → E session) : Ends P (untilTrue round) (fun _ => P) E :=
  fun session holds => Ends.rounds each exhausted (session.ticks + 1) session holds

/-- A wait whose rounds only ever return `false` does not return. -/
theorem Ends.never {round : BusM δ Bool}
    (each : Ends P round (fun done session => done = false ∧ P session) E)
    (exhausted : ∀ session, P session → E session) :
    Ends P (Bus.untilTrue round) (fun _ _ => False) E := by
  refine Ends.untilDone (Q := fun _ => False) (each.weaken ?_ fun _ left => left) exhausted
  rintro done session ⟨rfl, holds⟩
  exact holds

/-- What follows a computation that does not return is never run. -/
theorem Ends.never_bind {Q : β → Session δ → Prop} {m : BusM δ α} {f : α → BusM δ β}
    (never : Ends P m (fun _ _ => False) E) : Ends P (m >>= f) Q E :=
  never.bind fun _ _ impossible => impossible.elim

/-- So the computation does not return either, whatever ticks it gets. -/
theorem Ends.neverReturns {m : BusM δ α} (never : Ends P m (fun _ _ => False) E) {device : δ}
    {log : Array Access} (start : ∀ ticks, P ⟨device, ticks, log⟩) :
    NeverReturns (fun ticks => m.run ⟨device, ticks, log⟩) E where
  never ticks a after returned := by
    have reached := never ⟨device, ticks, log⟩ (start ticks)
    rw [returned] at reached
    exact reached
  stopped ticks fault after faulted := by
    have reached := never ⟨device, ticks, log⟩ (start ticks)
    rw [faulted] at reached
    exact reached

theorem Maintains.untilTrue {round : BusM δ Bool} (maintains : Maintains P round) :
    Maintains P (untilTrue round) :=
  Ends.untilTrue maintains fun _ holds => holds

end Ends

section Leads

variable {P : δ → Prop} {E : δ → Prop}

theorem Leads.bind {R : α → δ → Prop} {Q : β → δ → Prop} {m : BusM δ α} {f : α → BusM δ β}
    (first : Leads P m R E) (rest : ∀ a, Leads (R a) (f a) Q E) : Leads P (m >>= f) Q E :=
  Ends.bind first rest

theorem Keeps.pure (a : α) : Keeps P (Pure.pure a : BusM δ α) :=
  fun _ holds => holds

theorem Keeps.bind {m : BusM δ α} {f : α → BusM δ β} (first : Keeps P m)
    (rest : ∀ a, Keeps P (f a)) : Keeps P (m >>= f) :=
  Leads.bind first rest

theorem Keeps.monadLift (x : Except Fault α) : Keeps P (MonadLift.monadLift x : BusM δ α) := by
  intro session holds
  cases x <;> exact holds

theorem Keeps.spend : Keeps P (spend : BusM δ Unit) := by
  rintro ⟨device, ticks, log⟩ holds
  cases ticks <;> exact holds

theorem Keeps.record (access : Access) : Keeps P (record access : BusM δ Unit) :=
  fun _ holds => holds

theorem run_require [Target δ] (address : Word) (session : Session δ) :
    (require address).run session =
      if Target.accepts session.device address then .ok () session
      else .error .unmapped session :=
  rfl

theorem run_onDevice (action : EStateM Fault δ α) (session : Session δ) :
    (onDevice action).run session =
      match action.run session.device with
      | .ok a device => .ok a { session with device := device }
      | .error fault device => .error fault { session with device := device } :=
  rfl

theorem Keeps.require [Target δ] (address : Word) : Keeps P (require address : BusM δ Unit) := by
  intro session holds
  rw [run_require]
  by_cases accepted : Target.accepts session.device address = true
  · rw [if_pos accepted]
    exact holds
  · rw [if_neg accepted]
    exact holds

/-- An action of the device leads where it leads the device. -/
theorem Leads.onDevice {Q : α → δ → Prop} {action : EStateM Fault δ α}
    (leads : ∀ device, P device →
      match action.run device with
      | .ok a after => Q a after
      | .error _ after => E after) : Leads P (onDevice action) Q E := by
  intro session holds
  have reached := leads session.device holds
  rw [run_onDevice]
  split at reached
  · exact reached
  · exact reached

theorem Keeps.untilTrue {round : BusM δ Bool} (keeps : Keeps P round) : Keeps P (untilTrue round) :=
  Maintains.untilTrue keeps

end Leads

/-! ## Contracts with ticks

The contract on sessions also says what running out of ticks leaves. The one on devices is its
special case that leaves this open. -/

/-- From sessions with `P`, a computation returns only into `Q`, `n` ticks are enough for it, and
it faults only by running out of ticks, which leaves `E`. -/
def Runs (n : Nat) (P : Session δ → Prop) (m : BusM δ α) (Q : α → Session δ → Prop)
    (E : Session δ → Prop) : Prop :=
  ∀ session, P session →
    match m.run session with
    | .ok a after => Q a after ∧ session.ticks ≤ after.ticks + n
    | .error fault after => E after ∧ fault = .outOfTicks ∧ session.ticks < n

section Runs

variable {P : Session δ → Prop} {E : Session δ → Prop} {m n : Nat}

theorem Runs.pure {Q : α → Session δ → Prop} (a : α) (holds : ∀ s, P s → Q a s) :
    Runs 0 P (Pure.pure a : BusM δ α) Q E :=
  fun session start => ⟨holds session start, Nat.le_refl _⟩

theorem Runs.bind {R : α → Session δ → Prop} {Q : β → Session δ → Prop} {x : BusM δ α}
    {f : α → BusM δ β} (first : Runs m P x R E) (rest : ∀ a, Runs n (R a) (f a) Q E) :
    Runs (m + n) P (x >>= f) Q E := by
  intro session holds
  have reached := first session holds
  rw [EStateM.run_bind]
  split at reached
  · next a middle ended =>
    rw [ended]
    obtain ⟨between, spent⟩ := reached
    have final := rest a middle between
    simp only
    split at final
    · exact ⟨final.1, by omega⟩
    · exact ⟨final.1, final.2.1, by omega⟩
  · next fault middle ended =>
    rw [ended]
    exact ⟨reached.1, reached.2.1, by omega⟩

theorem Runs.weaken {P' E' : Session δ → Prop} {Q Q' : α → Session δ → Prop} {x : BusM δ α}
    (runs : Runs m P x Q E) (more : m ≤ n) (start : ∀ s, P' s → P s)
    (returned : ∀ a s, Q a s → Q' a s) (faulted : ∀ s, E s → E' s) : Runs n P' x Q' E' := by
  intro session holds
  have reached := runs session (start _ holds)
  split at reached
  · exact ⟨returned _ _ reached.1, by omega⟩
  · exact ⟨faulted _ reached.1, reached.2.1, by omega⟩

/-- A contract for each session is one for all of them. -/
theorem Runs.of_each {Q : α → Session δ → Prop} {x : BusM δ α}
    (each : ∀ session, P session → Runs n (fun s => s = session) x Q E) : Runs n P x Q E :=
  fun session holds => each session holds session rfl

theorem Runs.ends {Q : α → Session δ → Prop} {x : BusM δ α} (runs : Runs n P x Q E) :
    Ends P x Q E := by
  intro session holds
  have reached := runs session holds
  split at reached <;> exact reached.1

/-- With as many ticks as it needs, a computation returns. -/
theorem Runs.returns {Q : α → Session δ → Prop} {x : BusM δ α} (runs : Runs n P x Q E)
    {session : Session δ} (holds : P session) (enough : n ≤ session.ticks) :
    ∃ a after, x.run session = .ok a after ∧ Q a after := by
  have reached := runs session holds
  split at reached
  · next a after ended => exact ⟨a, after, ended, reached.1⟩
  · omega

theorem Runs.returnsInTime {Q : α → Session δ → Prop} {x : BusM δ α} (runs : Runs n P x Q E)
    {device : δ} {log : Array Access} (start : ∀ ticks, P ⟨device, ticks, log⟩) :
    ReturnsInTime (fun ticks => x.run ⟨device, ticks, log⟩) Q where
  returns := by
    refine ⟨n, fun ticks enough => ?_⟩
    obtain ⟨a, after, returned, -⟩ := runs.returns (start ticks) enough
    exact ⟨a, after, returned⟩
  holds ticks a after returned := by
    have reached := runs ⟨device, ticks, log⟩ (start ticks)
    rw [returned] at reached
    exact reached.1

/-! ### Waiting

Every round that is not the last one brings a variant down, so that a wait ends
within as many ticks as the variant says at its start. -/

section Waiting

variable {J : Nat → Session δ → Prop} {Q : Session δ → Prop} {round : BusM δ Bool}
  (each : ∀ n, Runs 1 (J n) round (fun done s => if done then Q s else ∃ m, m < n ∧ J m s) E)
  (exhausted : ∀ n s, J n s → E s)

include each exhausted

theorem Runs.rounds (bound n : Nat) (session : Session δ) (holds : J n session) :
    match (Peripherals.untilTrue bound round).run session with
    | .ok _ after => Q after ∧ session.ticks ≤ after.ticks + (n + 1)
    | .error fault after =>
      E after ∧ fault = .outOfTicks ∧ (session.ticks < n + 1 ∨ bound ≤ n) := by
  induction bound generalizing n session with
  | zero => exact ⟨exhausted n session holds, rfl, .inr (Nat.zero_le n)⟩
  | succ bound ih =>
    have first := each n session holds
    change match (round >>= fun done => if done then Pure.pure ()
      else Peripherals.untilTrue bound round).run session with
      | .ok _ after => _
      | .error fault _ => _
    rw [EStateM.run_bind]
    split at first
    · next done middle ended =>
      rw [ended]
      obtain ⟨reached, spent⟩ := first
      cases done with
      | true => exact ⟨reached, by omega⟩
      | false =>
        obtain ⟨m, less, again⟩ := reached
        have rest := ih m middle again
        simp only [Bool.false_eq_true, if_false]
        split at rest
        · exact ⟨rest.1, by omega⟩
        · exact ⟨rest.1, rest.2.1, by omega⟩
    · next fault middle ended =>
      rw [ended]
      exact ⟨first.1, first.2.1, .inl (by omega)⟩

theorem Runs.untilTrue (n : Nat) : Runs (n + 1) (J n) (untilTrue round) (fun _ => Q) E := by
  intro session holds
  have rounds := Runs.rounds each exhausted (session.ticks + 1) n session holds
  have bounded : (Bus.untilTrue round).run session =
      (Peripherals.untilTrue (session.ticks + 1) round).run session := rfl
  rw [bounded]
  split at rounds
  · next ended =>
    rw [ended]
    exact rounds
  · next ended =>
    rw [ended]
    exact ⟨rounds.1, rounds.2.1, by omega⟩

end Waiting

end Runs

/-! ### Computations with one answer -/

/-- From sessions with `P`, a computation returns one value and leads to `R`, and otherwise does as
a computation with a bound on its ticks does. -/
def Executes (n : Nat) (P : Session δ → Prop) (m : BusM δ α) (value : α) (R : Session δ → Prop)
    (E : Session δ → Prop) : Prop :=
  Runs n P m (fun a after => a = value ∧ R after) E

section Executes

variable {P R S E : Session δ → Prop} {m n : Nat} {a : α} {b : β}

theorem Executes.pure (a : α) (holds : ∀ s, P s → R s) :
    Executes 0 P (Pure.pure a : BusM δ α) a R E :=
  Runs.pure a fun s start => ⟨rfl, holds s start⟩

theorem Executes.then {Q : β → Session δ → Prop} {x : BusM δ α} {f : α → BusM δ β}
    (first : Executes m P x a R E) (rest : Runs n R (f a) Q E) :
    Runs (m + n) P (x >>= f) Q E := by
  refine Runs.bind first fun c => ?_
  rintro session ⟨rfl, holds⟩
  exact rest session holds

theorem Executes.bind {x : BusM δ α} {f : α → BusM δ β} (first : Executes m P x a R E)
    (rest : Executes n R (f a) b S E) : Executes (m + n) P (x >>= f) b S E :=
  first.then rest

theorem Executes.weaken {P' R' E' : Session δ → Prop} {x : BusM δ α}
    (executes : Executes m P x a R E) (more : m ≤ n) (start : ∀ s, P' s → P s)
    (returned : ∀ s, R s → R' s) (faulted : ∀ s, E s → E' s) : Executes n P' x a R' E' :=
  Runs.weaken executes more start (fun _ s reached => ⟨reached.1, returned s reached.2⟩) faulted

/-- A wait whose first round returns `true` ends there. -/
theorem Executes.once {round : BusM δ Bool} (executes : Executes n P round true R E) :
    Executes n P (untilTrue round) () R E := by
  intro session holds
  have bounded : (Bus.untilTrue round).run session = (round >>= fun done =>
      if done then Pure.pure () else Peripherals.untilTrue session.ticks round).run session := rfl
  have first : Runs (n + 0) P (round >>= fun done =>
      if done then Pure.pure () else Peripherals.untilTrue session.ticks round)
      (fun a after => a = () ∧ R after) E :=
    executes.then (Executes.pure () fun _ reached => reached)
  rw [bounded]
  exact first session holds

end Executes

section Settles

variable {P : δ → Prop} {m n : Nat}

theorem settles_iff_runs {Q : α → δ → Prop} {x : BusM δ α} :
    Settles n P x Q ↔ Runs n (fun session => P session.device) x
      (fun a after => Q a after.device) fun _ => True := by
  constructor
  · intro settles session holds
    have reached := settles session holds
    split at reached
    · exact reached
    · exact ⟨trivial, reached⟩
  · intro runs session holds
    have reached := runs session holds
    split at reached
    · exact reached
    · exact reached.2

theorem Settles.returnsInTime {Q : α → δ → Prop} {x : BusM δ α} (settles : Settles n P x Q)
    {device : δ} (start : P device) (log : Array Access) :
    ReturnsInTime (fun ticks => x.run ⟨device, ticks, log⟩) fun a session => Q a session.device :=
  (settles_iff_runs.mp settles).returnsInTime fun _ => start

theorem Settles.pure {Q : α → δ → Prop} (a : α) (holds : ∀ d, P d → Q a d) :
    Settles 0 P (Pure.pure a : BusM δ α) Q :=
  settles_iff_runs.mpr (Runs.pure a fun session => holds session.device)

theorem Settles.bind {R : α → δ → Prop} {Q : β → δ → Prop} {x : BusM δ α} {f : α → BusM δ β}
    (first : Settles m P x R) (rest : ∀ a, Settles n (R a) (f a) Q) :
    Settles (m + n) P (x >>= f) Q :=
  settles_iff_runs.mpr
    (Runs.bind (settles_iff_runs.mp first) fun a => settles_iff_runs.mp (rest a))

theorem Settles.weaken {P' : δ → Prop} {Q Q' : α → δ → Prop} {x : BusM δ α}
    (settles : Settles m P x Q) (more : m ≤ n) (start : ∀ d, P' d → P d)
    (returned : ∀ a d, Q a d → Q' a d) : Settles n P' x Q' :=
  settles_iff_runs.mpr ((settles_iff_runs.mp settles).weaken more (fun _ => start _)
    (fun _ _ => returned _ _) fun _ _ => trivial)

/-- What holds for some value of a parameter at the start holds for some value at the end. -/
theorem Settles.any {ι : Type} {allowed : ι → Prop} {P : ι → δ → Prop} {Q : ι → α → δ → Prop}
    {x : BusM δ α} (settles : ∀ i, Settles n (P i) x (Q i)) :
    Settles n (fun d => ∃ i, allowed i ∧ P i d) x fun a d => ∃ i, allowed i ∧ Q i a d := by
  rintro session ⟨i, permitted, holds⟩
  have reached := settles i session holds
  split at reached
  · exact ⟨⟨i, permitted, reached.1⟩, reached.2⟩
  · exact reached

/-- What a computation settles and what it leads to hold together. -/
theorem Settles.and_leads {R : δ → Prop} {Q R' : α → δ → Prop} {x : BusM δ α}
    (settles : Settles n P x Q) (leads : Leads R x R' fun _ => True) :
    Settles n (fun d => P d ∧ R d) x fun a d => Q a d ∧ R' a d := by
  rintro session ⟨holds, holds'⟩
  have reached := settles session holds
  have led := leads session holds'
  split at reached
  · next ended =>
    rw [ended] at led
    exact ⟨⟨reached.1, led⟩, reached.2⟩
  · exact reached

theorem Settles.untilTrue {J : Nat → δ → Prop} {Q : δ → Prop} {round : BusM δ Bool}
    (each : ∀ n, Settles 1 (J n) round fun done d => if done then Q d else ∃ m, m < n ∧ J m d)
    (n : Nat) : Settles (n + 1) (J n) (untilTrue round) fun _ => Q :=
  settles_iff_runs.mpr <| Runs.untilTrue (J := fun n session => J n session.device)
    (Q := fun session => Q session.device) (fun n => settles_iff_runs.mp (each n))
    (fun _ _ _ => trivial) n

end Settles

/-! ### Exact ticks

A program that polls leaves, when its ticks run out, what as many of its polls have made of the
device. -/

/-- From devices with `P`, a computation takes `n` ticks and returns into `Q`. With only `k` ticks
it runs out of them, and leaves `E k`. -/
def Takes (n : Nat) (P : δ → Prop) (m : BusM δ α) (Q : α → δ → Prop) (E : Nat → δ → Prop) : Prop :=
  ∀ session, P session.device →
    match m.run session with
    | .ok a after => Q a after.device ∧ session.ticks = after.ticks + n
    | .error fault after =>
      E session.ticks after.device ∧ fault = .outOfTicks ∧ session.ticks < n ∧ after.ticks = 0

section Takes

variable {P : δ → Prop} {E : Nat → δ → Prop} {m n : Nat}

theorem Takes.pure {Q : α → δ → Prop} (a : α) (holds : ∀ d, P d → Q a d) :
    Takes 0 P (Pure.pure a : BusM δ α) Q E :=
  fun session start => ⟨holds session.device start, rfl⟩

theorem Takes.bind {R : α → δ → Prop} {Q : β → δ → Prop} {x : BusM δ α} {f : α → BusM δ β}
    (first : Takes m P x R E) (rest : ∀ a, Takes n (R a) (f a) Q fun k => E (m + k)) :
    Takes (m + n) P (x >>= f) Q E := by
  intro session holds
  have reached := first session holds
  rw [EStateM.run_bind]
  split at reached
  · next a middle ended =>
    rw [ended]
    obtain ⟨between, spent⟩ := reached
    have final := rest a middle between
    simp only
    split at final
    · exact ⟨final.1, by omega⟩
    · obtain ⟨left, fault, few, none_left⟩ := final
      rw [Nat.add_comm, ← spent] at left
      exact ⟨left, fault, by omega, none_left⟩
  · next fault middle ended =>
    rw [ended]
    exact ⟨reached.1, reached.2.1, by omega, reached.2.2.2⟩

theorem Takes.weaken {Q Q' : α → δ → Prop} {E' : Nat → δ → Prop} {x : BusM δ α}
    (takes : Takes n P x Q E) (returned : ∀ a d, Q a d → Q' a d)
    (stopped : ∀ k d, E k d → E' k d) : Takes n P x Q' E' := by
  intro session holds
  have reached := takes session holds
  split at reached
  · exact ⟨returned _ _ reached.1, reached.2⟩
  · exact ⟨stopped _ _ reached.1, reached.2⟩

/-- With the ticks that it takes, a computation returns and leaves the others. -/
theorem Takes.returns {Q : α → δ → Prop} {x : BusM δ α} (takes : Takes n P x Q E)
    (session : Session δ) (holds : P session.device) (enough : n ≤ session.ticks) :
    ∃ a after, x.run session = .ok a after ∧ Q a after.device ∧
      after.ticks + n = session.ticks := by
  have reached := takes session holds
  split at reached
  · next a after ended => exact ⟨a, after, ended, reached.1, reached.2.symm⟩
  · omega

/-- With fewer, it runs out of them. -/
theorem Takes.stops {Q : α → δ → Prop} {x : BusM δ α} (takes : Takes n P x Q E)
    (session : Session δ) (holds : P session.device) (few : session.ticks < n) :
    ∃ after, x.run session = .error .outOfTicks after ∧ E session.ticks after.device := by
  have reached := takes session holds
  split at reached
  · omega
  · next fault after ended => exact ⟨after, reached.2.1 ▸ ended, reached.1⟩

theorem Takes.settles {Q : α → δ → Prop} {x : BusM δ α} (takes : Takes n P x Q E) :
    Settles n P x Q := by
  intro session holds
  have reached := takes session holds
  split at reached
  · exact ⟨reached.1, Nat.le_of_eq reached.2⟩
  · exact ⟨reached.2.1, reached.2.2.1⟩

section Rounds

variable {J : Nat → δ → Prop} {last : Nat}

theorem Takes.times {action : BusM δ Unit}
    (each : ∀ j, Takes 1 (J j) action (fun _ => J (j + 1)) fun _ => J j) (n j : Nat) :
    Takes n (J j) (times n action) (fun _ => J (j + n)) fun k => J (j + k) := by
  induction n generalizing j with
  | zero => exact Takes.pure () fun _ holds => holds
  | succ n ih =>
    have head : Takes 1 (J j) action (fun _ => J (j + 1)) fun k => J (j + k) := by
      intro session holds
      have reached := each j session holds
      split at reached
      · exact reached
      · obtain ⟨left, fault, few, none_left⟩ := reached
        rw [Nat.lt_one_iff.mp few]
        exact ⟨left, fault, Nat.one_pos, none_left⟩
    have tail := ih (j + 1)
    simp only [Nat.add_assoc] at tail
    have both : Takes (1 + n) (J j) (Peripherals.times (n + 1) action) _ _ :=
      Takes.bind head fun _ => tail
    rwa [Nat.add_comm 1 n] at both

variable {round : BusM δ Bool}
  (each : ∀ j, Takes 1 (J j) round (fun done d => done = decide (last ≤ j + 1) ∧ J (j + 1) d)
    fun _ => J j)

include each

theorem Takes.rounds (bound : Nat) {j : Nat} (early : j < last) (session : Session δ)
    (holds : J j session.device) (bounded : session.ticks < bound) :
    match (Peripherals.untilTrue bound round).run session with
    | .ok _ after => J last after.device ∧ session.ticks = after.ticks + (last - j)
    | .error fault after => J (j + session.ticks) after.device ∧ fault = .outOfTicks ∧
      session.ticks < last - j ∧ after.ticks = 0 := by
  induction bound generalizing j session with
  | zero => omega
  | succ bound ih =>
    have first := each j session holds
    change match (round >>= fun done => if done then Pure.pure ()
      else Peripherals.untilTrue bound round).run session with
      | .ok _ after => _
      | .error fault _ => _
    rw [EStateM.run_bind]
    split at first
    · next done middle ended =>
      rw [ended]
      obtain ⟨⟨answer, reached⟩, spent⟩ := first
      by_cases final : last ≤ j + 1
      · have only : last = j + 1 := by omega
        rw [answer, decide_eq_true final]
        exact ⟨only ▸ reached, by omega⟩
      · rw [answer, decide_eq_false final]
        simp only [Bool.false_eq_true, if_false]
        have rest := ih (Nat.lt_of_not_le final) middle reached (by omega)
        split at rest
        · exact ⟨rest.1, by omega⟩
        · obtain ⟨left, fault, few, none_left⟩ := rest
          rw [Nat.add_assoc, Nat.add_comm 1, ← spent] at left
          exact ⟨left, fault, by omega, none_left⟩
    · next fault middle ended =>
      rw [ended]
      obtain ⟨left, fault, few, none_left⟩ := first
      rw [Nat.lt_one_iff.mp few]
      exact ⟨left, fault, by omega, none_left⟩

/-- A wait of which every round takes a tick ends with the first round that answers `true`. -/
theorem Takes.untilTrue {j : Nat} (early : j < last) :
    Takes (last - j) (J j) (untilTrue round) (fun _ => J last) fun k => J (j + k) := by
  intro session holds
  have rounds := Takes.rounds each _ early session holds (Nat.lt_succ_self session.ticks)
  have bounded : (Bus.untilTrue round).run session =
      (Peripherals.untilTrue (session.ticks + 1) round).run session := rfl
  split at rounds
  · next ended =>
    rw [bounded, ended]
    exact rounds
  · next ended =>
    rw [bounded, ended]
    exact rounds

end Rounds

end Takes

end Bus

end Peripherals
