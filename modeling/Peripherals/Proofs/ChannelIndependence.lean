import Peripherals.Proofs.ChannelProgramming
import Peripherals.Proofs.ChannelShadow

/-! # Channels do not disturb each other

All channels share one block of registers and one word of flags. Still, as long
as none of them stores into DMA1 or into the register with its clock, the calls
on one channel do nothing to another. A disabled channel stays as it is. And if a
channel stores only where nothing depends on it, then the other channels end as
if it had been left alone and the ticks of the calls on it had passed. -/

namespace Peripherals

open Bus

/-! ## Calls -/

namespace DmaCall

open Chip

variable {suits : Channel → Word → Prop} {overrun : Prop} {chip other first last : Chip}
  {c d n : Channel} {call : DmaCall} {steps : List (DmaCall × Nat)}

/-- A buffer that a call shares has a length that addresses can count. -/
def Addressable : DmaCall → Prop
  | .share buffer => buffer.bytes.size < 0x100000000
  | _ => True

/-! ### A call on one chip -/

/-- A call that starts no channel lets none store elsewhere than before. -/
theorem heeds_perform (unstarted : ∀ c config, call ≠ .start c config) :
    InStep False (Itself fun _ chip => chip.Heeds suits) call.perform
      (Itself fun _ chip => chip.Heeds suits) := by
  have kept : KeptBy call fun _ chip => chip.Heeds suits := by
    constructor
    · exact fun _ _ _ heeds => heeds.tick
    · exact fun _ _ heeds _ _ _ _ adjusts => heeds.adjusted adjusts
    · exact fun _ _ heeds => heeds.gated
    · exact fun _ _ heeds bytes next _ => heeds.shared bytes next
    · exact fun _ _ heeds => heeds.of_engine ⟨rfl, rfl, rfl, rfl⟩
  refine kept.perform (fun c config called => ?_) fun _ _ heeds => heeds
  exact (unstarted c config called).elim

/-- A call on another channel, or on none, leaves a channel alone. -/
theorem bypassed_perform (others : call.channel? ≠ some n) :
    InStep False (Itself fun _ => Bypassed suits n first) call.perform
      (Itself fun _ chip => (∀ d, chip.Consistent d) ∧ SameState n first chip) := by
  have kept : KeptBy call fun _ => Bypassed suits n first := by
    constructor
    · exact fun _ _ _ bypassed => bypassed.tick
    · intro _ chip bypassed c address value about adjusts
      have ne : n ≠ c := by
        rintro rfl
        exact others about
      exact bypassed.of_same (bypassed.heeds.adjusted adjusts)
        ((AlikeBeside.adjusted adjusts).sameState ne)
    · intro _ chip bypassed value
      exact bypassed.of_same (bypassed.heeds.gated value) (sameState_gate chip value n)
    · intro _ chip bypassed bytes next _
      exact bypassed.of_same (bypassed.heeds.shared bytes next)
        (sameState_shared chip bytes next n)
    · exact fun _ _ bypassed => bypassed.of_engine ⟨rfl, rfl, rfl, rfl⟩
  refine kept.perform ?_ fun _ _ => Bypassed.settled
  rintro c config rfl _ chip bypassed
  have ne : n ≠ c := by
    rintro rfl
    exact others rfl
  exact ⟨consistent_write bypassed.heeds.consistent _ _,
    bypassed.same.trans ((AlikeBeside.controlled _).sameState ne)⟩

/-! ### The same call on both chips -/

/-- A chip has a shadow, and its channels heed what the shadow needs. -/
def Shadowed (c : Channel) (overrun : Prop) (_ : Nat) (chip other : Chip) : Prop :=
  Shadow c overrun chip other ∧ chip.Heeds (Plainly c)

theorem Shadowed.along : TicksAlong overrun (Shadowed c overrun) := by
  rintro ticks chip other after ⟨shadow, heeds⟩ passed
  obtain ⟨after', passed', shadow⟩ | fault := shadow.tick heeds passed
  · exact .inl ⟨after', passed', shadow, heeds.tick passed⟩
  · exact .inr fault

theorem Shadowed.shown {ticks : Nat} (shadowed : Shadowed c overrun ticks chip other)
    {address : Word} (same : other.peek address = chip.peek address) :
    other.shown address = chip.shown address := by
  rw [Chip.shown, Chip.shown, shadowed.1.alike.clocked, same]

/-- A call on another channel finds the same on both chips. -/
theorem Shadowed.carried (ne : d ≠ c) : Carried overrun d (Shadowed c overrun) where
  along := Shadowed.along
  register ticks chip other shadowed field small :=
    shadowed.shown (shadowed.1.alike.peek_register ne small)
  flag ticks chip other shadowed flag := by
    have group := shadowed.1.alike.flags d ne
    rw [flagGroup, flagGroup] at group
    have inside : Dma1.flagsOf d Dma1.channelFlags &&& Dma1.flagsOf d flag.bit =
        Dma1.flagsOf d flag.bit := channelFlags_and d (.only flag)
    rw [Chip.shown, Chip.shown, shadowed.1.alike.clocked]
    split
    · rw [← inside, ← BitVec.and_assoc, group, BitVec.and_assoc]
    · rfl
  write := by
    rintro ticks chip other ⟨shadow, heeds⟩ address value adjusts
    have outside : ¬Owns c address := by
      cases adjusts with
      | off => exact not_owns_register ne Dma1.ccr_inside
      | program _ small => exact not_owns_register ne small
      | clear =>
        rintro ⟨field, small, same⟩
        exact Dma1.register_ne_clear c small same.symm
    have there : AlikeBeside d other (other.write address value) := .adjusted adjusts
    refine ⟨shadow.next (shadow.alike.write outside value) (fun _ aims => ?_) ?_,
      heeds.adjusted adjusts⟩
    · exact aims.of_same (there.sameState ne.symm).toSameChannel
    · exact fun _ layout => layout.of_same (store_effect _ _ _).regions_eq

theorem Shadowed.carriedAside (addressable : ¬overrun → call.Addressable) :
    CarriedAside overrun call (Shadowed c overrun) where
  along := Shadowed.along
  gate ticks chip other shadowed := shadowed.shown (shadowed.1.alike.peek_gate .dma)
  write := by
    rintro ticks chip other ⟨shadow, heeds⟩ value
    have decoded : Block.decode Rcc.ahb1enr = .other := rfl
    have outside : ¬Owns c Rcc.ahb1enr := not_owns_of_decode (by rw [decoded]; exact nofun)
    refine ⟨shadow.next (shadow.alike.write outside value) (fun _ aims => ?_) ?_,
      heeds.gated value⟩
    · exact aims.of_same (sameState_gate other value c).toSameChannel
    · exact fun _ layout => layout.of_same (store_effect _ _ _).regions_eq
  base ticks chip other shadowed := shadowed.1.alike.of_around Chip.nextRegion fun _ => rfl
  shared := by
    rintro ticks chip other ⟨shadow, heeds⟩ buffer next rfl fits
    have base : other.nextRegion = chip.nextRegion :=
      shadow.alike.of_around Chip.nextRegion fun _ => rfl
    refine ⟨shadow.next (shadow.alike.shared _ _) (fun _ aims => ?_) ?_,
      heeds.shared _ _⟩
    · exact aims.of_same (sameState_shared other _ _ c).toSameChannel
    · intro clear layout
      rw [← base] at fits
      exact layout.shared (addressable clear) fits
  counted := by
    rintro ticks chip other ⟨shadow, heeds⟩
    have alike := shadow.alike
    exact ⟨shadow.of_engine ⟨alike.registers, alike.flags, alike.latches, alike.around⟩
      ⟨rfl, rfl, rfl, rfl⟩, heeds.of_engine ⟨rfl, rfl, rfl, rfl⟩⟩

/-- A chip that has just had a call, and its shadow. -/
def Between (c : Channel) (overrun : Prop) (_ : Nat) (chip other : Chip) : Prop :=
  Shadow c overrun chip other ∧ ∀ d, chip.Consistent d

theorem Shadowed.leads (ticks : Nat) (chip other : Chip)
    (shadowed : Shadowed c overrun ticks chip other) : Between c overrun ticks chip other :=
  ⟨shadowed.1, shadowed.2.consistent⟩

/-- A call that is not about the channel ends in the same way on the shadow. -/
theorem Shadowed.perform (aside : call.channel? ≠ some c)
    (addressable : ¬overrun → call.Addressable) :
    InStep overrun (Shadowed c overrun) call.perform (Between c overrun) := by
  cases about : call.channel? with
  | some d =>
    have ne : d ≠ c := by
      rintro rfl
      exact aside about
    refine (Shadowed.carried ne).perform about ?_ Shadowed.leads
    rintro config rfl ticks chip other ⟨shadow, heeds⟩
    have outside : ¬Owns c (Dma1.register d Dma1.ccr) := not_owns_register ne Dma1.ccr_inside
    have there : AlikeBeside d other _ := .controlled (config.bits ||| Dma1.enable)
    refine ⟨shadow.next (shadow.alike.write outside _) (fun _ aims => ?_) ?_,
      consistent_write heeds.consistent _ _⟩
    · exact aims.of_same (there.sameState ne.symm).toSameChannel
    · exact fun _ layout => layout.of_same (store_effect _ _ _).regions_eq
  | none => exact ((Shadowed.carriedAside addressable).perform about).weaken Shadowed.leads

/-! ### A call on one chip, and its ticks on the other

How many ticks a call on the channel makes depends on the channel, which the
second chip does not follow. So while the call goes on, the second chip is kept
as a function of the ticks that are gone. -/

/-- The chip after ticks in which nothing else is done. -/
def idle (n : Nat) (chip : Chip) : Option Chip :=
  (List.replicate n (DmaCall.nop, 1)).foldlM runOn chip

theorem idle_succ (n : Nat) (chip : Chip) :
    idle (n + 1) chip = (idle n chip).bind fun now => runOn now (.nop, 1) := by
  rw [idle, List.replicate_succ', List.foldlM_append, idle]
  simp only [List.foldlM_cons, List.foldlM_nil, bind_pure]
  rfl

theorem runOn_nop (chip : Chip) :
    runOn chip (.nop, 1) =
      match Chip.tick.run { chip with nops := chip.nops + 1 } with
      | .ok _ after => some after
      | .error _ _ => none := by
  rw [runOn, perform, run_nop]
  cases ticked : Chip.tick.run { chip with nops := chip.nops + 1 } with
  | ok => rfl
  | error fault =>
    obtain rfl := tick_overflows _ _ _ ticked
    rfl

/-- A tick of the first chip goes with a `nop` on its shadow. -/
theorem shadow_nop {after : Chip} (shadow : Shadow c overrun chip other)
    (heeds : chip.Heeds (Plainly c)) (passed : Chip.tick.run chip = .ok () after) :
    (∃ after', runOn other (.nop, 1) = some after' ∧ Shadow c overrun after after') ∨
      overrun ∧ runOn other (.nop, 1) = none := by
  have counted : Shadow c overrun chip { other with nops := other.nops + 1 } :=
    shadow.of_engine (shadow.alike.trans (.of_engine ⟨rfl, rfl, rfl, rfl⟩ rfl)) ⟨rfl, rfl, rfl, rfl⟩
  rw [runOn_nop]
  obtain ⟨after', passed', shadow⟩ | ⟨provided, left, fault⟩ := counted.tick heeds passed
  · rw [passed']
    exact .inl ⟨after', rfl, shadow⟩
  · rw [fault]
    exact .inr ⟨provided, rfl⟩

/-- Of the ticks that a call had, the second chip was left alone in those that are gone, and ended
as a shadow of the first. -/
def Idled (c : Channel) (overrun : Prop) (budget : Nat) (other : Chip) (ticks : Nat)
    (chip : Chip) : Prop :=
  ticks ≤ budget ∧
    ((∃ idled, idle (budget - ticks) other = some idled ∧ Shadow c overrun chip idled) ∨
      overrun ∧ idle (budget - ticks) other = none)

namespace Idled

variable {budget ticks : Nat} {after : Chip}

theorem start (shadow : Shadow c overrun chip other) :
    Idled c overrun budget other budget chip := by
  refine ⟨Nat.le_refl _, .inl ⟨other, ?_, shadow⟩⟩
  rw [Nat.sub_self]
  rfl

theorem tick (idled : Idled c overrun budget other (ticks + 1) chip)
    (heeds : chip.Heeds (Plainly c)) (passed : Chip.tick.run chip = .ok () after) :
    Idled c overrun budget other ticks after := by
  obtain ⟨bound, reached⟩ := idled
  have one_more : budget - ticks = budget - (ticks + 1) + 1 := by omega
  refine ⟨Nat.le_of_succ_le bound, ?_⟩
  rw [one_more, idle_succ]
  obtain ⟨now, ran, shadow⟩ | ⟨provided, ran⟩ := reached
  · rw [ran]
    exact shadow_nop shadow heeds passed
  · rw [ran]
    exact .inr ⟨provided, rfl⟩

theorem wrote (idled : Idled c overrun budget other ticks chip)
    (alike : AlikeBeside c chip after) : Idled c overrun budget other ticks after :=
  ⟨idled.1, idled.2.imp (fun ⟨now, ran, shadow⟩ => ⟨now, ran, shadow.first alike⟩) id⟩

/-- While a call on the channel is made on the first chip, its ticks pass on the second. -/
theorem perform (about : call.channel? = some c) :
    InStep False
      (Itself fun ticks chip =>
        chip.Heeds (Plainly c) ∧ Idled c overrun budget other ticks chip) call.perform
      (Itself fun ticks chip =>
        (∀ d, chip.Consistent d) ∧ Idled c overrun budget other ticks chip) := by
  refine (Carried.itself ?_ ?_).perform about ?_ (Itself.mono fun _ _ => .imp_left (·.consistent))
  · rintro ticks chip after ⟨heeds, idled⟩ passed
    exact ⟨heeds.tick passed, idled.tick heeds passed⟩
  · rintro ticks chip ⟨heeds, idled⟩ address value adjusts
    exact ⟨heeds.adjusted adjusts, idled.wrote (.adjusted adjusts)⟩
  · rintro config - ticks chip _ ⟨rfl, heeds, idled⟩
    exact ⟨rfl, consistent_write heeds.consistent _ _, idled.wrote (.controlled _)⟩

end Idled

/-! ### Runs -/

/-- A property of the chip before and after every call of a run. -/
def Throughout (P : Chip → Prop) : Chip → List (DmaCall × Nat) → Prop
  | chip, [] => P chip
  | chip, step :: rest => P chip ∧ ∀ next, runOn chip step = some next → Throughout P next rest

/-- A run in which each call on a channel is replaced by the ticks it makes. -/
def idled (c : Channel) : Chip → List (DmaCall × Nat) → List (DmaCall × Nat)
  | _, [] => []
  | chip, step :: rest =>
    (if step.1.channel? = some c then List.replicate (ticksMade chip step) (.nop, 1) else [step]) ++
      match runOn chip step with
      | some next => idled c next rest
      | none => []

/-- A channel that is disabled at first is as it was after a run of calls on others. -/
theorem run_bypassed (inactive : (first.latch n).active = false)
    (others : ∀ step ∈ steps, step.1.channel? ≠ some n) (sparing : Throughout SparesDma chip steps)
    (consistent : ∀ d, chip.Consistent d) (same : SameState n first chip)
    (ran : steps.foldlM runOn chip = some last) : SameState n first last := by
  induction steps generalizing chip with
  | nil =>
    obtain rfl := Option.some.inj ran
    exact same
  | cons step rest ih =>
    obtain ⟨spares, sparing⟩ := sparing
    rw [List.foldlM_cons] at ran
    obtain ⟨next, stepped, ran⟩ := Option.bind_eq_some_iff.mp ran
    have bypassed : Bypassed (fun _ _ => True) n first chip :=
      ⟨⟨consistent, spares, fun _ _ _ => trivial⟩, same, by rw [same.latch]; exact inactive⟩
    obtain ⟨_, -, consistent, same⟩ := runOn_of_itself
      (bypassed_perform (others step List.mem_cons_self)) (fun _ _ => Bypassed.settled) bypassed
      stepped
    exact ih (fun step member => others step (List.mem_cons_of_mem _ member))
      (sparing next stepped) consistent same ran

theorem Throughout.start {P : Chip → Prop} (throughout : Throughout P chip steps) : P chip := by
  cases steps with
  | nil => exact throughout
  | cons => exact throughout.1

theorem Throughout.mono {P Q : Chip → Prop} (throughout : Throughout P chip steps)
    (more : ∀ chip, P chip → Q chip) : Throughout Q chip steps := by
  induction steps generalizing chip with
  | nil => exact more chip throughout
  | cons step rest ih =>
    exact ⟨more chip throughout.1, fun next stepped => ih (throughout.2 next stepped)⟩

/-- In a run that starts no channel, what channels heed at first they heed throughout. -/
theorem Throughout.of_heeds (heeds : chip.Heeds suits)
    (unstarted : ∀ step ∈ steps, ∀ c config, step.1 ≠ .start c config) :
    Throughout (fun chip => chip.Heeds suits) chip steps := by
  induction steps generalizing chip with
  | nil => exact heeds
  | cons step rest ih =>
    refine ⟨heeds, fun next stepped => ?_⟩
    obtain ⟨_, -, heeds⟩ := runOn_of_itself (heeds_perform (unstarted step List.mem_cons_self))
      (fun _ _ heeds => heeds) heeds stepped
    exact ih heeds fun step member => unstarted step (List.mem_cons_of_mem _ member)

/-- A run on a chip goes with the run on its shadow in which the channel is left alone. -/
theorem run_shadow (addressable : ¬overrun → ∀ step ∈ steps, step.1.Addressable)
    (sparing : Throughout SparesDma chip steps) (plain : Throughout (StoresPlainly c) chip steps)
    (consistent : ∀ d, chip.Consistent d) (shadow : Shadow c overrun chip other)
    (ran : steps.foldlM runOn chip = some last) :
    (∃ rest, (idled c chip steps).foldlM runOn other = some rest ∧ Shadow c overrun last rest) ∨
      overrun ∧ (idled c chip steps).foldlM runOn other = none := by
  induction steps generalizing chip other with
  | nil =>
    obtain rfl := Option.some.inj ran
    exact .inl ⟨other, rfl, shadow⟩
  | cons step rest ih =>
    obtain ⟨spares, sparing⟩ := sparing
    obtain ⟨plainly, plain⟩ := plain
    rw [List.foldlM_cons] at ran
    obtain ⟨next, stepped, ran⟩ := Option.bind_eq_some_iff.mp ran
    have heeds : chip.Heeds (Plainly c) :=
      ⟨consistent, spares, fun d address aims own => plainly address (own ▸ aims)⟩
    have onward {now : Chip} (consistent : ∀ d, next.Consistent d)
        (shadow : Shadow c overrun next now) :=
      ih (fun clear step member => addressable clear step (List.mem_cons_of_mem _ member))
        (sparing next stepped) (plain next stepped) consistent shadow ran
    rw [idled, stepped, List.foldlM_append]
    by_cases about : step.1.channel? = some c
    · obtain ⟨left, made, consistent, -, reached⟩ := runOn_of_itself (Idled.perform about)
        (fun _ _ => .imp_left (·.consistent)) ⟨heeds, Idled.start shadow⟩ stepped
      rw [if_pos about, made]
      change (∃ rest, (idle (step.2 - left) other).bind _ = some rest ∧ _) ∨
        overrun ∧ (idle (step.2 - left) other).bind _ = none
      obtain ⟨now, passed, shadow⟩ | ⟨provided, passed⟩ := reached
      · rw [passed]
        exact onward consistent shadow
      · rw [passed]
        exact .inr ⟨provided, rfl⟩
    · simp only [if_neg about, List.foldlM_cons, List.foldlM_nil, bind_pure]
      obtain ⟨now, _, passed, -, shadow, consistent⟩ | ⟨provided, passed⟩ := runOn_of_inStep
        (Shadowed.perform about fun clear => addressable clear step List.mem_cons_self)
        Shadowed.leads ⟨shadow, heeds⟩ stepped
      · rw [passed]
        exact onward consistent shadow
      · rw [passed]
        exact .inr ⟨provided, rfl⟩

/-- The calls on a channel do nothing to the others. A channel that is disabled stays as it is while
there is no call on it. And what becomes of all channels but one is what becomes of them when the
calls on that one are replaced by the ticks they make, as long as it stores only where nothing
depends on it. These ticks do not fault either, unless it goes on to the last address. All this
holds with DMA1's clock enabled and without. -/
theorem channels_independent (reachable : Reachable (fun _ => True) first)
    (sparing : Throughout SparesDma first steps) (ran : steps.foldlM runOn first = some last) :
    (∀ n, first.channelEnabled n = false → (∀ step ∈ steps, step.1.channel? ≠ some n) →
      SameState n first last) ∧
    ∀ b, Throughout (StoresPlainly b) first steps →
      (∃ rest, (idled b first steps).foldlM runOn first = some rest ∧
        ∀ a, a ≠ b → SameState a rest last) ∨
      (first.Layout → (∀ step ∈ steps, step.1.Addressable) → first.Aims b lastAddress) ∧
        (idled b first steps).foldlM runOn first = none := by
  have consistent : ∀ d, first.Consistent d := reachable.consistent
  refine ⟨fun n disabled others => ?_, fun b plain => ?_⟩
  · exact run_bypassed ((consistent n).active_eq.trans disabled) others sparing consistent
      (.refl n first) ran
  · generalize provided : (first.Layout → (∀ step ∈ steps, step.1.Addressable) →
      first.Aims b lastAddress) = overrun
    have safe (clear : ¬overrun) : first.Layout ∧ (∀ step ∈ steps, step.1.Addressable) ∧
        ¬first.Aims b lastAddress := by
      rw [← provided] at clear
      simpa only [Classical.not_imp] using clear
    have shadow : Shadow b overrun first first :=
      ⟨.refl b first, plain.start, fun clear => ⟨(safe clear).1, (safe clear).2.2⟩⟩
    have run := run_shadow (fun clear => (safe clear).2.1) sparing plain consistent shadow ran
    exact run.imp_left fun ⟨rest, passed, shadow⟩ =>
      ⟨rest, passed, fun a ne => shadow.alike.symm.sameState ne⟩

/-- Two channels are running when the second one is watched, stopped and programmed anew. -/
def interrupted (c : Channel) : List (DmaCall × Nat) :=
  [(.remaining c, 1), (.configure c 0x10000008 0x20000000 1, 4), (.nop, 1)]

theorem interrupted_calls {step : DmaCall × Nat} (member : step ∈ interrupted 5) :
    (∀ c config, step.1 ≠ .start c config) ∧ step.1.Addressable ∧ step.1.channel? ≠ some 1 := by
  simp only [interrupted, List.mem_cons, List.not_mem_nil, or_false] at member
  obtain rfl | rfl | rfl := member <;> simp [Addressable, channel?]

theorem interrupted_heeds :
    Throughout (fun chip => chip.Heeds (Plainly 5)) (Dma.twoRunning 0 5) (interrupted 5) := by
  apply Throughout.of_heeds
  · constructor
    · exact (Dma.twoRunning_reachable 0 5).consistent
    · exact fun d address aims => (Dma.twoRunning_clear d address aims).1
    · rintro d address aims rfl
      obtain ⟨impossible, -⟩ | ⟨-, rfl | rfl⟩ := Dma.twoRunning_aims aims
      · cases impossible
      · exact storage_of_decode rfl (by decide)
      · exact storage_of_decode rfl (by decide)
  · exact fun step member => (interrupted_calls member).1

theorem channels_independent_interrupted :
    ∃ last, (interrupted 5).foldlM runOn (Dma.twoRunning 0 5) = some last ∧
      SameState 1 (Dma.twoRunning 0 5) last ∧
      ∃ rest, (idled 5 (Dma.twoRunning 0 5) (interrupted 5)).foldlM runOn (Dma.twoRunning 0 5) =
          some rest ∧
        SameState 0 rest last := by
  have heeds := interrupted_heeds
  have returns : ((interrupted 5).foldlM runOn (Dma.twoRunning 0 5)).isSome = true := by
    decide +kernel
  obtain ⟨last, ran⟩ := Option.isSome_iff_exists.mp returns
  have reachable := Dma.twoRunning_reachable 0 5
  obtain ⟨bypassed, independent⟩ := channels_independent
    (reachable.mono fun _ _ => trivial) (heeds.mono fun _ heeds => heeds.beyond) ran
  refine ⟨last, ran, bypassed 1 (by decide +kernel)
    fun step member => (interrupted_calls member).2.2, ?_⟩
  obtain ⟨rest, passed, same⟩ | ⟨overruns, -⟩ := independent 5 <|
    heeds.mono fun _ heeds address aims => heeds.suits 5 address aims rfl
  · exact ⟨rest, passed, same 0 (by decide)⟩
  · have aims := overruns reachable.layout fun step member => (interrupted_calls member).2.1
    exact ((Dma.twoRunning_clear 5 _ aims).2 rfl).elim

end DmaCall

end Peripherals
