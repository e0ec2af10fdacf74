import Peripherals.Proofs.BringUp
import Peripherals.Proofs.PartEffects

/-! # Rules for writes

A driver call that configures something is known by its amendments. Where no
channel is active, nothing but a write changes a register, so that what the
amendments have made of the registers is what the next write finds. A rule about
what writes may find and make, followed by the amendments in order, is thus
followed by every part of the recorded run, wherever it ends. -/

namespace Peripherals

open Bus Chip

/-! ## Rules for writes -/

/-- A rule for writes: what an address, a value, and the registers before and after the write
must satisfy. -/
abbrev WriteRule := Word → Word → (Word → Word) → (Word → Word) → Prop

/-- A write follows a rule, and any other part of a run leaves the registers alone. -/
def Chip.Moment.Follows (rule : WriteRule) (moment : Moment) : Prop :=
  match moment.part with
  | .whole (.write address value) => rule address value moment.chip.peek moment.after.peek
  | _ => moment.after.peek = moment.chip.peek

/-- A record leads from a chip to the present one without a gap, and each part follows a rule. -/
structure Recorded.Follows (rule : WriteRule) (start : Chip) (r : Recorded) : Prop where
  linked : Linked start r.moments r.chip
  parts : ∀ moment ∈ r.moments, moment.Follows rule

namespace Amendment

variable {rule other : WriteRule} {values : Word → Word} {amendment : Amendment}
  {first second amendments : List Amendment}

/-- The write that carries out an amendment follows a rule. -/
def Obeys (rule : WriteRule) (values : Word → Word) (amendment : Amendment) : Prop :=
  rule amendment.address (amendment.change (values amendment.address)) values (amendment.on values)

/-- Amendments follow a rule, each on the registers that those before it leave. -/
def Along (rule : WriteRule) (values : Word → Word) : List Amendment → Prop
  | [] => True
  | amendment :: rest => amendment.Obeys rule values ∧ Along rule (amendment.on values) rest

theorem along_append : Along rule values (first ++ second) ↔
    Along rule values first ∧ Along rule (first.foldl on values) second := by
  induction first generalizing values with
  | nil => exact (iff_of_eq (true_and _)).symm
  | cons amendment rest ih =>
    rw [List.cons_append, Along, ih, ← and_assoc]
    rfl

theorem along_singleton : Along rule values [amendment] ↔ amendment.Obeys rule values :=
  iff_of_eq (and_true _)

theorem along_of_forall (each : ∀ amendment ∈ amendments, ∀ values, amendment.Obeys rule values) :
    Along rule values amendments := by
  induction amendments generalizing values with
  | nil => trivial
  | cons amendment rest ih =>
    obtain ⟨first, others⟩ := List.forall_mem_cons.mp each
    exact ⟨first values, ih others⟩

theorem Along.mono (along : Along rule values amendments)
    (more : ∀ address value before after, rule address value before after →
      other address value before after) : Along other values amendments := by
  induction amendments generalizing values with
  | nil => trivial
  | cons amendment rest ih => exact ⟨more _ _ _ _ along.1, ih along.2⟩

theorem Along.and (along : Along rule values amendments) (along' : Along other values amendments) :
    Along (fun address value before after =>
      rule address value before after ∧ other address value before after) values amendments := by
  induction amendments generalizing values with
  | nil => trivial
  | cons amendment rest ih => exact ⟨⟨along.1, along'.1⟩, ih along.2 along'.2⟩

end Amendment

/-! ## Runs that follow a rule -/

/-- No channel of a recorded chip is active, its registers have some values, and its record follows
a rule. -/
structure Recorded.Traced (rule : WriteRule) (start : Chip) (values : Word → Word) (r : Recorded) :
    Prop where
  inactive : ∀ c, (r.chip.latch c).active = false
  holds : r.chip.peek = values
  follows : r.Follows rule start

/-- Where the registers have some values, a write makes others of them, and nothing of a channel. -/
def Chip.Stores (address value : Word) (values values' : Word → Word) : Prop :=
  ∀ chip : Chip, chip.peek = values → (chip.write address value).peek = values' ∧
    ∀ c, (chip.write address value).latch c = chip.latch c

/-- A part leaves the registers and what the channels work with. -/
structure Chip.Part.Leaves (part : Part) (chip : Chip) : Prop where
  peek : (part.after chip).peek = chip.peek
  latch : ∀ c, (part.after chip).latch c = chip.latch c

/-- Where no channel is active, time and loads leave the registers. -/
theorem Chip.Part.leaves {chip : Chip} (inactive : ∀ c, (chip.latch c).active = false)
    {part : Part} (time : ∀ action, part ≠ .whole action) : part.Leaves chip := by
  cases part with
  | countDown | countNop => exact ⟨rfl, fun _ => rfl⟩
  | turn c =>
    have rests : (Part.turn c).after chip = chip := by
      rw [after, stateAfter, run_serveChannel, if_neg (by simp [inactive])]
    exact ⟨congrArg Chip.peek rests, fun d => congrArg (·.latch d) rests⟩
  | load address =>
    obtain ⟨rest, same⟩ := stateAfter_load chip address
    have left : (Part.load address).after chip = { chip with received := rest } := same
    exact ⟨by rw [left]; rfl, fun d => by rw [left]; rfl⟩
  | whole action => exact absurd rfl (time action)

namespace Recorded

variable {rule : WriteRule} {start : Chip} {values values' : Word → Word} {r : Recorded}
  {part : Part}

theorem Traced.nothing (inactive : ∀ c, (start.latch c).active = false) :
    Traced rule start start.peek ⟨start, []⟩ :=
  ⟨inactive, rfl, rfl, List.forall_mem_nil _⟩

theorem Traced.extend (traced : Traced rule start values r)
    (peek : (part.after r.chip).peek = values')
    (latch : ∀ c, (part.after r.chip).latch c = r.chip.latch c)
    (follows : Moment.Follows rule ⟨part, r.chip⟩) : Traced rule start values' (r.extend part) where
  inactive c := by
    change ((part.after r.chip).latch c).active = false
    rw [latch]
    exact traced.inactive c
  holds := peek
  follows.linked := traced.follows.linked.concat part
  follows.parts := List.forall_mem_append.mpr
    ⟨traced.follows.parts, List.forall_mem_singleton.mpr follows⟩

theorem traced_lasting (rule : WriteRule) (start : Chip) (values : Word → Word) :
    Lasting (Traced rule start values) := by
  refine .of_parts fun r part time traced => ?_
  have leaves := Part.leaves traced.inactive time
  refine traced.extend (leaves.peek.trans traced.holds) leaves.latch ?_
  cases part with
  | countDown | countNop | turn | load => exact leaves.peek
  | whole action => exact absurd rfl (time action)

/-- The record of a computation that gets some ticks on a chip. -/
def of {α : Type} (x : BusM Recorded α) (start : Chip) (ticks : Nat) : Recorded :=
  (stateAfter x ⟨⟨start, []⟩, ticks, #[]⟩).device

/-- The last thing that was done is one part. -/
def Closes (part : Part) (r : Recorded) : Prop :=
  ∃ earlier chip, r.moments = earlier ++ [⟨part, chip⟩]

end Recorded

namespace Bus

open Recorded

variable {rule : WriteRule} {start : Chip} {values values' : Word → Word} {address value : Word}

/-- With a tick to spend, a read gives what the register shows. -/
theorem Runs.read_traced (shows : ∀ chip : Chip, chip.peek = values → chip.Shows address value) :
    Runs 1 (fun session => Traced rule start values session.device)
      (Bus.read address : BusM Recorded Word)
      (fun found session => found = value ∧ Traced rule start values session.device)
      fun session => session.device.Follows rule start := by
  rintro ⟨r, ticks, log⟩ traced
  cases ticks with
  | zero => exact ⟨traced.follows, rfl, Nat.one_pos⟩
  | succ ticks =>
    have quiet : r.chip.Quiet := .of_inactive traced.inactive
    have kept := read_keeps (traced_lasting rule start values) address ⟨r, ticks + 1, log⟩ traced
    have unseen := read_projects address ⟨r, ticks + 1, log⟩
    have ran : (Bus.read address).run (unrecorded ⟨r, ticks + 1, log⟩) = _ :=
      run_read (quiet.tick r.chip.busy r.chip.written) (shows r.chip traced.holds _ _)
    rw [ran] at unseen
    cases ended : (Bus.read address : BusM Recorded Word).run ⟨r, ticks + 1, log⟩ with
    | ok found after =>
      simp only [ended] at kept unseen
      obtain ⟨same, left⟩ := EStateM.Result.ok.inj unseen
      have spent : ticks = after.ticks := congrArg Session.ticks left
      exact ⟨⟨same.symm, kept⟩, Nat.le_of_eq (congrArg (· + 1) spent)⟩
    | error fault after =>
      simp only [ended] at unseen
      cases unseen

/-- A write does to the registers what it does on every chip that has the same. -/
theorem Runs.write_closes {E : Session Recorded → Prop}
    (stores : Chip.Stores address value values values')
    (obeys : rule address value values values') :
    Runs 0 (fun session => Traced rule start values session.device)
      (Bus.write address value : BusM Recorded Unit)
      (fun _ session => Traced rule start values' session.device ∧
        session.device.Closes (.whole (.write address value))) E := by
  rintro ⟨r, ticks, log⟩ traced
  obtain ⟨peek, latch⟩ := stores r.chip traced.holds
  have follows : Moment.Follows rule ⟨.whole (.write address value), r.chip⟩ := by
    change rule address value r.chip.peek (r.chip.write address value).peek
    rwa [traced.holds, peek]
  have extended : Traced rule start values' (r.extend (.whole (.write address value))) :=
    traced.extend peek latch follows
  exact ⟨⟨extended, r.moments, r.chip, rfl⟩, Nat.le_refl _⟩

theorem Runs.write_traced (stores : Chip.Stores address value values values')
    (obeys : rule address value values values') :
    Runs 0 (fun session => Traced rule start values session.device)
      (Bus.write address value : BusM Recorded Unit)
      (fun _ session => Traced rule start values' session.device)
      fun session => session.device.Follows rule start :=
  (Runs.write_closes stores obeys).weaken (Nat.le_refl 0) (fun _ traced => traced)
    (fun _ _ reached => reached.1) fun _ left => left

/-- Reading a register and writing what a function makes of its value. -/
theorem Runs.update_traced {f : Word → Word}
    (shows : ∀ chip : Chip, chip.peek = values → chip.Shows address value)
    (stores : Chip.Stores address (f value) values values')
    (obeys : rule address (f value) values values') :
    Runs 1 (fun session => Traced rule start values session.device)
      (Bus.update address f : BusM Recorded Unit)
      (fun _ session => Traced rule start values' session.device)
      fun session => session.device.Follows rule start := by
  change Runs (1 + 0) _ _ _ _
  apply Runs.bind (Runs.read_traced shows)
  rintro found session ⟨rfl, traced⟩
  exact Runs.write_traced stores obeys session traced

/-- A computation that follows a rule whether it returns or not leaves such a record. -/
theorem Ends.follows {α : Type} {x : BusM Recorded α}
    (ends : Ends (fun session => Traced rule start start.peek session.device) x
      (fun _ session => session.device.Follows rule start)
      fun session => session.device.Follows rule start)
    (inactive : ∀ c, (start.latch c).active = false) (ticks : Nat) :
    (Recorded.of x start ticks).Follows rule start := by
  have reached := ends ⟨⟨start, []⟩, ticks, #[]⟩ (.nothing inactive)
  rw [Recorded.of, stateAfter]
  split at reached
  · next ended => rwa [ended]
  · next ended => rwa [ended]

/-! ### Amendments that are carried out -/

/-- With some ticks, a computation on a chip without active channel carries out amendments that
are admitted. Its record follows every rule that they follow. -/
def Carries (n : Nat) (x : BusM Recorded Unit) (amendments : List Amendment) : Prop :=
  ∀ (rule : WriteRule) (start : Chip) (values : Word → Word),
    Amendment.admitted values amendments = true → Amendment.Along rule values amendments →
      Runs n (fun session => Traced rule start values session.device) x
        (fun _ session => Traced rule start (amendments.foldl Amendment.on values) session.device)
        fun session => session.device.Follows rule start

section Carries

variable {amendment : Amendment} {first second amendments : List Amendment} {m n : Nat}

/-- A write into plain storage of a clocked block replaces one value. -/
theorem stores_clocked (plain : Amendment.storage (Block.decode address) = true)
    (clock : Amendment.clocked values (Block.decode address) = true) :
    Chip.Stores address value values (Amendment.on values ⟨address, fun _ => value⟩) := by
  rintro chip rfl
  have clocked : ({ chip with written := chip.written.insert address value } : Chip).clocked
      (Block.decode address) = true := (clocked_eq _ _).trans clock
  rw [Chip.write, store_storage plain clocked]
  refine ⟨?_, fun _ => rfl⟩
  funext other
  exact peek_poke _ _ _ _

theorem Carries.pure : Carries 0 (Pure.pure ()) [] :=
  fun _ _ _ _ _ => Runs.pure () fun _ traced => traced

theorem Carries.bind {x : BusM Recorded Unit} {f : Unit → BusM Recorded Unit}
    (begins : Carries m x first) (rest : Carries n (f ()) second) :
    Carries (m + n) (x >>= f) (first ++ second) := by
  intro rule start values admitted along
  rw [Amendment.admitted_append, Bool.and_eq_true] at admitted
  rw [Amendment.along_append] at along
  rw [List.foldl_append]
  exact Runs.bind (begins rule start values admitted.1 along.1) fun _ =>
    rest rule start _ admitted.2 along.2

theorem Carries.write (address value : Word) :
    Carries 0 (Bus.write address value) [⟨address, fun _ => value⟩] := by
  intro rule start values admitted along
  simp only [Amendment.admitted, Bool.and_true, Bool.and_eq_true] at admitted
  rw [Amendment.along_singleton] at along
  exact Runs.write_traced (stores_clocked admitted.1 admitted.2) along

theorem Carries.update (address : Word) (f : Word → Word) :
    Carries 1 (Bus.update address f) [⟨address, f⟩] := by
  intro rule start values admitted along
  simp only [Amendment.admitted, Bool.and_true, Bool.and_eq_true] at admitted
  rw [Amendment.along_singleton] at along
  have shows (chip : Chip) (holds : chip.peek = values) : chip.Shows address (values address) := by
    subst holds
    exact shows_storage admitted.1 ((clocked_eq _ _).trans admitted.2)
  have stores : Chip.Stores address (f (values address)) values
      (Amendment.on values ⟨address, fun _ => f (values address)⟩) :=
    stores_clocked admitted.1 admitted.2
  exact Runs.update_traced shows stores along

theorem Carries.amendAll (amendments : List Amendment) :
    Carries amendments.length (Bus.amendAll amendments) amendments := by
  induction amendments with
  | nil => exact Carries.pure
  | cons amendment rest ih =>
    rw [List.length_cons, Nat.add_comm]
    exact Carries.bind (f := fun _ => Bus.amendAll rest) (Carries.update _ _) ih

end Carries

/-! ### Amendments that are lost -/

/-- A write into a block without clock is lost. -/
theorem stores_gated (clock : Amendment.clocked values (Block.decode address) = false) :
    Chip.Stores address value values values := by
  rintro chip rfl
  have off : ({ chip with written := chip.written.insert address value } : Chip).clocked
      (Block.decode address) = false := (clocked_eq _ _).trans clock
  rw [Chip.write, store, if_neg (Bool.not_eq_true _ ▸ off)]
  exact ⟨rfl, fun _ => rfl⟩

/-- A block without clock reads as zero. -/
theorem shows_gated (clock : Amendment.clocked values (Block.decode address) = false) (chip : Chip)
    (holds : chip.peek = values) : chip.Shows address 0 := by
  subst holds
  intro busy written
  have off : (chip.timed busy written).clocked (Block.decode address) = false :=
    (clocked_eq _ _).trans clock
  simp only [load, EStateM.run, off, Bool.false_eq_true, if_false]

/-- Where no amended register has a clock, nothing changes. -/
theorem Runs.amendAll_gated {amendments : List Amendment}
    (clock : ∀ amendment ∈ amendments,
      Amendment.clocked values (Block.decode amendment.address) = false)
    (idle : ∀ address value, rule address value values values) :
    Runs amendments.length (fun session => Traced rule start values session.device)
      (Bus.amendAll amendments : BusM Recorded Unit)
      (fun _ session => Traced rule start values session.device)
      fun session => session.device.Follows rule start := by
  induction amendments with
  | nil => exact Runs.pure () fun _ traced => traced
  | cons amendment rest ih =>
    obtain ⟨first, others⟩ := List.forall_mem_cons.mp clock
    rw [List.length_cons, Nat.add_comm]
    exact Runs.bind (Runs.update_traced (shows_gated first) (stores_gated first) (idle _ _))
      fun _ => ih others

end Bus

/-! ## Recording changes nothing -/

theorem Bus.amendAll_projects (amendments : List Amendment) :
    Projects Recorded.unrecorded (amendAll amendments) (amendAll amendments) := by
  apply Projects.forM
  intro amendment
  exact .bind (Recorded.read_projects _) fun _ => Recorded.write_projects _ _

end Peripherals
