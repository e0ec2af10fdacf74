import Peripherals.Proofs.PolledWrites

/-! # Recorded runs

What is done to the chip falls into indivisible parts: the count-down that begins
a tick, the turns of the channels in it, a load, and every action that takes no
time. A recorded chip answers drivers as the chip does and keeps each part
together with the chip that the part found, also where a fault cuts a run short.
Recording changes nothing, neither for an action nor for a call through a
session, so that what happens inside a tick or a call is read off the record. -/

namespace Peripherals

open Bus

/-! ## Where a computation leaves its state -/

section States

variable {σ τ α β : Type} {P : σ → Prop}

/-- The state that a computation leaves, whether it returns or faults. -/
def stateAfter (x : EStateM Fault σ α) (s : σ) : σ :=
  match x.run s with
  | .ok _ t => t
  | .error _ t => t

theorem stateAfter_of_ok {x : EStateM Fault σ α} {s t : σ} {a : α} (returned : x.run s = .ok a t) :
    stateAfter x s = t := by
  rw [stateAfter, returned]

/-- What comes after a computation that returned starts where that one ended. -/
theorem stateAfter_bind_of_ok {x : EStateM Fault σ α} {f : α → EStateM Fault σ β} {s t : σ} {a : α}
    (returned : x.run s = .ok a t) : stateAfter (x >>= f) s = stateAfter (f a) t := by
  rw [stateAfter, EStateM.run_bind, returned]
  rfl

/-- A computation leaves the same state whether its answer is used or dropped. -/
theorem stateAfter_dropped (x : EStateM Fault σ α) (s : σ) :
    stateAfter (x >>= fun _ => pure ()) s = stateAfter x s := by
  rw [stateAfter, EStateM.run_bind, stateAfter]
  cases x.run s <;> rfl

/-- A computation keeps a property of the state, whether it returns or faults. -/
def Upholds (P : σ → Prop) (x : EStateM Fault σ α) : Prop :=
  ∀ s, P s → P (stateAfter x s)

theorem Upholds.pure (a : α) : Upholds P (Pure.pure a : EStateM Fault σ α) :=
  fun _ holds => holds

theorem Upholds.bind {x : EStateM Fault σ α} {f : α → EStateM Fault σ β} (first : Upholds P x)
    (rest : ∀ a, Upholds P (f a)) : Upholds P (x >>= f) := by
  intro s holds
  have reached := first s holds
  rw [stateAfter] at reached ⊢
  rw [EStateM.run_bind]
  cases ended : x.run s with
  | ok a t =>
    simp only [ended] at reached
    exact rest a t reached
  | error fault t =>
    simp only [ended] at reached
    exact reached

theorem Upholds.forM {f : α → EStateM Fault σ Unit} (each : ∀ a, Upholds P (f a)) (xs : List α) :
    Upholds P (forM xs f) := by
  induction xs with
  | nil => exact .pure ()
  | cons a rest ih =>
    rw [List.forM_cons]
    exact .bind (each a) fun _ => ih

/-- A step that is taken under a condition upholds what the step and the rest uphold. -/
theorem Upholds.when {x : EStateM Fault σ Unit} {rest : EStateM Fault σ β} (b : Bool)
    (step : Upholds P x) (after : Upholds P rest) :
    Upholds P (if b then x >>= fun _ => rest else rest) := by
  cases b with
  | true => exact .bind step fun _ => after
  | false => exact after

/-- What a computation upholds on the device, its use through a session keeps. -/
theorem Bus.Keeps.onDevice {x : EStateM Fault σ α} (upholds : Upholds P x) :
    Keeps P (Bus.onDevice x) := by
  apply Leads.onDevice
  intro device holds
  have reached := upholds device holds
  rw [stateAfter] at reached
  cases ended : x.run device with
  | ok a after => simpa only [ended] using reached
  | error fault after => simpa only [ended] using reached

/-- Seen through a view of the state, one computation is another. -/
def Projects (view : σ → τ) (x : EStateM Fault σ α) (y : EStateM Fault τ α) : Prop :=
  ∀ s, y.run (view s) =
    match x.run s with
    | .ok a t => .ok a (view t)
    | .error fault t => .error fault (view t)

variable {view : σ → τ} {x : EStateM Fault σ α} {y : EStateM Fault τ α}

theorem Projects.stateAfter (projects : Projects view x y) (s : σ) :
    view (stateAfter x s) = Peripherals.stateAfter y (view s) := by
  rw [Peripherals.stateAfter, Peripherals.stateAfter, projects s]
  cases x.run s <;> rfl

theorem Projects.pure (a : α) : Projects view (Pure.pure a) (Pure.pure a) :=
  fun _ => rfl

theorem Projects.bind {f : α → EStateM Fault σ β} {g : α → EStateM Fault τ β}
    (first : Projects view x y) (rest : ∀ a, Projects view (f a) (g a)) :
    Projects view (x >>= f) (y >>= g) := by
  intro s
  rw [EStateM.run_bind, EStateM.run_bind, first s]
  cases x.run s with
  | ok a t => exact rest a t
  | error fault t => rfl

theorem Projects.forM {f : α → EStateM Fault σ Unit} {g : α → EStateM Fault τ Unit}
    (each : ∀ a, Projects view (f a) (g a)) (xs : List α) :
    Projects view (forM xs f) (forM xs g) := by
  induction xs with
  | nil => exact .pure ()
  | cons a rest ih =>
    rw [List.forM_cons, List.forM_cons]
    exact .bind (each a) fun _ => ih

theorem Projects.rounds {x : EStateM Fault σ Bool} {y : EStateM Fault τ Bool}
    (each : Projects view x y) (bound : Nat) :
    Projects view (Peripherals.untilTrue bound x) (Peripherals.untilTrue bound y) := by
  induction bound with
  | zero => exact fun _ => rfl
  | succ bound ih =>
    apply Projects.bind each
    intro done
    cases done with
    | true => exact .pure ()
    | false => exact ih

end States

namespace Chip

/-! ## Parts and moments -/

/-- Whether an action takes no time. -/
def Action.instant : Action → Bool
  | .read _ | .nop => false
  | .write _ _ | .breakpoint | .share _ | .drive _ _ | .release _ | .connect _ _ | .pushReceived _
  | .setLatency _ | .clearEvents => true

/-- How many ticks some actions take. -/
def Action.ticksOf (actions : List Action) : Nat :=
  actions.countP (!·.instant)

theorem Action.ticksOf_cons (action : Action) (rest : List Action) (t : Nat) :
    t + ticksOf (action :: rest) = (if action.instant then t else t + 1) + ticksOf rest := by
  rw [ticksOf, ticksOf, List.countP_cons]
  cases action.instant
  · simp only [Bool.not_false, if_true, Bool.false_eq_true, if_false]
    omega
  · simp only [Bool.not_true, Bool.false_eq_true, if_false, if_true]
    omega

/-- An indivisible part of what is done to the chip. -/
inductive Part
  /-- A tick begins. -/
  | countDown
  /-- A `nop` is counted. -/
  | countNop
  | turn (c : Channel)
  | load (address : Word)
  /-- An action that takes no time. -/
  | whole (action : Action)

/-- The chip after a part. -/
def Part.after (chip : Chip) : Part → Chip
  | .countDown => chip.countedDown
  | .countNop => { chip with nops := chip.nops + 1 }
  | .turn c => stateAfter (serveChannel c) chip
  | .load address => stateAfter (Chip.load address) chip
  | .whole action => stateAfter action.perform chip

/-- A part of a run, with the chip that it found. -/
structure Moment where
  part : Part
  chip : Chip

/-- The chip that a moment leaves. -/
def Moment.after (moment : Moment) : Chip :=
  moment.part.after moment.chip

end Chip

/-- Moments that lead from one chip to another, each from where the one before it ended. -/
def Chip.Linked (first : Chip) (moments : List Chip.Moment) (last : Chip) : Prop :=
  match moments with
  | [] => last = first
  | moment :: later => moment.chip = first ∧ Linked moment.after later last

theorem Chip.Linked.concat {first last : Chip} {moments : List Chip.Moment}
    (linked : Linked first moments last) (part : Chip.Part) :
    Linked first (moments ++ [⟨part, last⟩]) (part.after last) := by
  induction moments generalizing first with
  | nil => exact ⟨linked, rfl⟩
  | cons moment later ih => exact ⟨linked.1, ih linked.2⟩

/-- A chip with a record of what was done to it, the oldest part first. -/
structure Recorded where
  chip : Chip
  moments : List Chip.Moment

namespace Recorded

open Chip

variable {α : Type} {P : Recorded → Prop} {part : Part}

/-- The record after one more part. -/
def extend (r : Recorded) (part : Part) : Recorded :=
  ⟨part.after r.chip, r.moments ++ [⟨part, r.chip⟩]⟩

/-- Perform what is one part, and record it. -/
def note (part : Part) (x : EStateM Fault Chip α) : EStateM Fault Recorded α := fun r =>
  match x.run r.chip with
  | .ok a after => .ok a ⟨after, r.moments ++ [⟨part, r.chip⟩]⟩
  | .error fault after => .error fault ⟨after, r.moments ++ [⟨part, r.chip⟩]⟩

/-- Let one tick pass, and record its parts. -/
def tick : EStateM Fault Recorded Unit := fun r =>
  let r := r.extend .countDown
  if r.chip.clocked (.dma1 0) then
    (forM Channel.all fun c => note (.turn c) (serveChannel c)).run r
  else
    .ok () r

instance : Target Recorded where
  accepts _ _ := true
  peek r := r.chip.peek
  load address := do
    tick
    note (.load address) (Chip.load address)
  store address value := note (.whole (.write address value)) (modify (·.write address value))
  place _ := pure 0
  share buffer := note (.whole (.share buffer.bytes)) (Chip.share buffer.bytes)
  nop := do
    note .countNop (modify fun chip => { chip with nops := chip.nops + 1 })
    tick
  breakpoint := note (.whole .breakpoint) (modify Chip.breakpoint)

/-- What an action does to a recorded chip. -/
def act : Action → EStateM Fault Recorded Unit
  | .read address => do
    let _ ← (Target.load address : EStateM Fault Recorded Word)
    pure ()
  | .nop => Target.nop
  | action => note (.whole action) action.perform

/-! ## Recording changes nothing -/

theorem run_note (part : Part) (x : EStateM Fault Chip α) (r : Recorded) :
    (note part x).run r =
      match x.run r.chip with
      | .ok a after => .ok a ⟨after, r.moments ++ [⟨part, r.chip⟩]⟩
      | .error fault after => .error fault ⟨after, r.moments ++ [⟨part, r.chip⟩]⟩ :=
  rfl

theorem run_tick (r : Recorded) :
    tick.run r =
      if (r.extend .countDown).chip.clocked (.dma1 0) then
        (forM Channel.all fun c => note (.turn c) (serveChannel c)).run (r.extend .countDown)
      else .ok () (r.extend .countDown) :=
  rfl

theorem note_projects (part : Part) (x : EStateM Fault Chip α) :
    Projects Recorded.chip (note part x) x := by
  intro r
  rw [run_note]
  cases x.run r.chip <;> rfl

theorem tick_projects : Projects Recorded.chip tick Chip.tick := by
  intro r
  have begun : (r.extend .countDown).chip = r.chip.countedDown := rfl
  have turns : Projects Recorded.chip (forM Channel.all fun c => note (.turn c) (serveChannel c))
      (forM Channel.all serveChannel) := .forM (fun c => note_projects _ _) _
  have clock : r.chip.countedDown.clocked (.dma1 0) = r.chip.clocked (.dma1 0) := rfl
  rw [tick_eq, run_tick, begun, clock]
  by_cases clocked : r.chip.clocked (.dma1 0) = true
  · rw [if_pos clocked, if_pos clocked]
    exact turns (r.extend .countDown)
  · rw [if_neg clocked, if_neg clocked]
    rfl

theorem load_projects (address : Word) :
    Projects Recorded.chip (Target.load address) (Target.load address) :=
  .bind tick_projects fun _ => note_projects _ _

theorem nop_projects : Projects Recorded.chip Target.nop Target.nop :=
  .bind (note_projects _ _) fun _ => tick_projects

/-- An action does to a recorded chip what it does to the chip. -/
theorem act_projects (action : Action) : Projects Recorded.chip (act action) action.perform := by
  cases action with
  | read address => exact .bind (load_projects address) fun _ => .pure ()
  | nop => exact nop_projects
  | write | breakpoint | share | drive | release | connect | pushReceived | setLatency
  | clearEvents => exact note_projects _ _

/-! ### Sessions -/

/-- A session with the record left out. -/
def unrecorded (session : Session Recorded) : Session Chip :=
  ⟨session.device.chip, session.ticks, session.log⟩

theorem onDevice_projects {x : EStateM Fault Recorded α} {y : EStateM Fault Chip α}
    (projects : Projects Recorded.chip x y) :
    Projects unrecorded (Bus.onDevice x) (Bus.onDevice y) := by
  intro session
  have device : (unrecorded session).device = session.device.chip := rfl
  rw [run_onDevice, run_onDevice, device, projects session.device]
  cases x.run session.device <;> rfl

theorem spend_projects : Projects unrecorded Bus.spend Bus.spend := by
  rintro ⟨r, ticks, log⟩
  cases ticks <;> rfl

theorem read_projects (address : Word) :
    Projects unrecorded (Bus.read address) (Bus.read address) := by
  refine .bind (fun _ => rfl) fun _ => ?_
  refine .bind spend_projects fun _ => ?_
  refine .bind (onDevice_projects (load_projects address)) fun value => ?_
  exact .bind (fun _ => rfl) fun _ => .pure value

theorem write_projects (address value : Word) :
    Projects unrecorded (Bus.write address value) (Bus.write address value) := by
  refine .bind (fun _ => rfl) fun _ => ?_
  exact .bind (fun _ => rfl) fun _ => onDevice_projects (note_projects _ _)

theorem untilTrue_projects {x : BusM Recorded Bool} {y : BusM Chip Bool}
    (each : Projects unrecorded x y) :
    Projects unrecorded (Bus.untilTrue x) (Bus.untilTrue y) :=
  fun session => Projects.rounds each (session.ticks + 1) session

theorem waitSet_projects (address mask : Word) :
    Projects unrecorded (Bus.waitSet address mask) (Bus.waitSet address mask) :=
  untilTrue_projects (.bind (read_projects address) fun _ => .pure _)

/-! ## What every part keeps -/

/-- Time and loads keep a property of the record. A turn may use how its tick began, with DMA1
clocked, and that the record only grew since. -/
structure Lasting (P : Recorded → Prop) : Prop where
  countDown : ∀ r, P r → P (r.extend .countDown)
  countNop : ∀ r, P r → P (r.extend .countNop)
  load : ∀ r address, P r → P (r.extend (.load address))
  turn : ∀ start r c, P start → start.chip.clocked (.dma1 0) = true →
    start.moments <+: r.moments → P r → P (r.extend (.turn c))

/-- What every part except an action keeps is kept by time and loads. -/
theorem Lasting.of_parts
    (keeps : ∀ r part, (∀ action, part ≠ .whole action) → P r → P (r.extend part)) :
    Lasting P where
  countDown r := keeps r _ (by simp)
  countNop r := keeps r _ (by simp)
  load r address := keeps r _ (by simp)
  turn _ r c _ _ _ := keeps r _ (by simp)

theorem note_upholds {x : EStateM Fault Chip α} (same : ∀ chip, stateAfter x chip = part.after chip)
    (keeps : ∀ r, P r → P (r.extend part)) : Upholds P (note part x) := by
  intro r holds
  have extended : stateAfter (note part x) r = r.extend part := by
    rw [extend, ← same, stateAfter, stateAfter, run_note]
    cases x.run r.chip <;> rfl
  rw [extended]
  exact keeps r holds

section Lasting

variable (lasting : Lasting P)

include lasting

theorem tick_upholds : Upholds P tick := by
  intro r holds
  have begun : P (r.extend .countDown) := lasting.countDown r holds
  rw [stateAfter, run_tick]
  by_cases clocked : (r.extend .countDown).chip.clocked (.dma1 0) = true
  · have turns : Upholds (fun s => P s ∧ (r.extend .countDown).moments <+: s.moments)
        (forM Channel.all fun c => note (.turn c) (serveChannel c)) := by
      apply Upholds.forM
      intro c
      refine note_upholds (fun _ => rfl) ?_
      rintro s ⟨holds, grown⟩
      exact ⟨lasting.turn _ s c begun clocked grown holds, grown.trans (List.prefix_append _ _)⟩
    rw [if_pos clocked]
    exact (turns _ ⟨begun, List.prefix_rfl⟩).1
  · rw [if_neg clocked]
    exact begun

theorem load_upholds (address : Word) :
    Upholds P (Target.load address : EStateM Fault Recorded Word) :=
  .bind (tick_upholds lasting) fun _ =>
    note_upholds (fun _ => rfl) fun r => lasting.load r address

theorem nop_upholds : Upholds P (Target.nop : EStateM Fault Recorded Unit) :=
  .bind (note_upholds (fun _ => rfl) lasting.countNop) fun _ => tick_upholds lasting

/-- An action keeps what time and loads keep, if the action keeps it where it takes no time. -/
theorem act_upholds {action : Action}
    (own : action.instant = true → ∀ r, P r → P (r.extend (.whole action))) :
    Upholds P (act action) := by
  have single (instant : action.instant = true) : Upholds P (note (.whole action) action.perform) :=
    note_upholds (fun _ => rfl) (own instant)
  cases action with
  | read address => exact .bind (load_upholds lasting address) fun _ => .pure ()
  | nop => exact nop_upholds lasting
  | write | breakpoint | share | drive | release | connect | pushReceived | setLatency
  | clearEvents => exact single rfl

/-- Reads through a session keep it as well. -/
theorem read_keeps (address : Word) : Keeps P (Bus.read address : BusM Recorded Word) := by
  apply Keeps.bind (Keeps.require address)
  intro _
  apply Keeps.bind Keeps.spend
  intro _
  apply Keeps.bind (.onDevice (load_upholds lasting address))
  intro value
  apply Keeps.bind (Keeps.record _)
  intro _
  exact Keeps.pure value

/-- A read that returns shows what its load showed. -/
theorem read_shows {Q : Word → Recorded → Prop} {address : Word}
    (shows : ∀ {r : Recorded} {value : Word} {after : Recorded},
      (Target.load address : EStateM Fault Recorded Word).run r = .ok value after →
        Q value after) :
    Leads P (Bus.read address : BusM Recorded Word) (fun value r => P r ∧ Q value r) P := by
  apply Leads.bind (R := fun _ => P) (Keeps.require _)
  intro _
  apply Leads.bind (R := fun _ => P) Keeps.spend
  intro _
  apply Leads.bind (R := fun value r => P r ∧ Q value r)
  · apply Leads.onDevice
    intro r holds
    have kept := load_upholds lasting address r holds
    rw [stateAfter] at kept
    cases ended : (Target.load address : EStateM Fault Recorded Word).run r with
    | ok value after =>
      simp only [ended] at kept
      exact ⟨kept, shows ended⟩
    | error fault after => simpa only [ended] using kept
  · intro value
    exact fun _ reached => reached

end Lasting

/-- Where a list that grew at its end is split at one entry, this is the new one or an old one. -/
theorem split_concat {α : Type} {xs earlier later : List α} {new entry : α}
    (split : xs ++ [new] = earlier ++ entry :: later) :
    (xs = earlier ∧ new = entry ∧ later = []) ∨
      ∃ rest, later = rest ++ [new] ∧ xs = earlier ++ entry :: rest := by
  obtain rfl | ⟨rest, last, rfl⟩ := List.eq_nil_or_concat later
  · obtain ⟨rfl, same⟩ := List.append_inj' split rfl
    exact .inl ⟨rfl, List.head_eq_of_cons_eq same, rfl⟩
  · rw [List.concat_eq_append, ← List.cons_append, ← List.append_assoc] at split
    obtain ⟨rfl, same⟩ := List.append_inj' split rfl
    obtain rfl := List.head_eq_of_cons_eq same
    exact .inr ⟨rest, List.concat_eq_append, rfl⟩

/-- The record has no gaps. -/
theorem linked_lasting (first : Chip) :
    Lasting fun r => Linked first r.moments r.chip :=
  .of_parts fun _ part _ linked => linked.concat part

end Recorded

end Peripherals
