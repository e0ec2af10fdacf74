import Mathlib.Data.List.Nodup
import Peripherals.Proofs.FlagHistory

/-! # The passes of a channel

A pass begins when a channel is enabled, or where the pass before it ended, and
ends with its last item. While it is open, its items so far left one less each,
down to what the channel's count says. So a whole pass over `n` items counts
down from `n - 1` to zero, and exactly one of its items leaves half of `n`. -/

namespace Peripherals

namespace Chip

variable {chip after : Chip} {c d : Channel} {n : Nat}

/-! ## Items of a pass -/

namespace Moment

/-- A write enables the channel, which was disabled. -/
def enables (c : Channel) (moment : Moment) : Bool :=
  match moment.part with
  | .whole (.write address value) => address == Dma1.register c Dma1.ccr &&
    value &&& Dma1.enable != 0 && !moment.chip.channelEnabled c
  | .countDown | .countNop | .load _ | .turn _ | .whole _ => false

theorem moves_iff {moment : Moment} : moment.moves c = true ↔
    moment.part = .turn c ∧ (moment.chip.itemTarget? c).isSome = true := by
  obtain ⟨part, chip⟩ := moment
  cases part with
  | turn d =>
    rw [moves, Bool.and_eq_true, beq_iff_eq]
    simp
  | countDown | countNop | load | whole => simp [moves]

/-- A channel that moves an item is active, and it has an item left. -/
theorem active_of_moves {moment : Moment} (moves : moment.moves c = true) :
    (moment.chip.latch c).active = true ∧ moment.chip.itemsLeft c ≠ 0 := by
  have aimed := (moves_iff.mp moves).2
  rw [itemTarget?] at aimed
  split at aimed
  · next able =>
    obtain ⟨active, able, -⟩ := able
    simp only [canMove, Bool.and_eq_true, bne_iff_ne] at able
    exact ⟨active, able.1.1⟩
  · cases aimed

/-- The last item of a pass is an item. -/
theorem finishes_of_still {moment : Moment} (still : moment.moves c = false) :
    moment.finishes c = false := by
  rw [finishes, still, Bool.false_and]

/-- An enabled channel is not enabled once more. -/
theorem enables_of_enabled {moment : Moment} (on : moment.chip.channelEnabled c = true) :
    moment.enables c = false := by
  rw [enables, on]
  split
  · simp
  all_goals rfl

/-- Its control register enables a disabled channel. -/
theorem enables_control {value : Word} (enabling : value &&& Dma1.enable ≠ 0)
    (disabled : chip.channelEnabled c = false) :
    enables c ⟨.whole (.write (Dma1.register c Dma1.ccr) value), chip⟩ = true := by
  have wanted : (value &&& Dma1.enable != 0) = true := bne_iff_ne.mpr enabling
  simp only [enables, wanted, disabled, beq_self_eq_true, Bool.not_false, Bool.and_self]

end Moment

/-- An item that is stored outside of DMA1 leaves the length of its pass alone. -/
theorem reload_moved {byte : Byte}
    (outside : ∀ offset, Block.decode (chip.latch d).target ≠ .dma1 offset) :
    ((chip.moved d byte).latch d).reload = (chip.latch d).reload := by
  have stored : ((chip.stored d byte).latch d).reload = (chip.latch d).reload :=
    congrArg Latch.reload ((store_outside outside _ _).1 d).latch
  rw [latch_moved]
  split
  · exact stored
  · exact stored

/-- Items that a channel moved, of a pass over `n` of them, with `left` to go. -/
structure ItemsOf (c : Channel) (items : List Moment) (n left : Nat) : Prop where
  moves : ∀ item ∈ items, item.moves c = true
  reload : ∀ item ∈ items, (item.chip.latch c).reload.toNat = n
  counts : items.map (fun item => (item.left c).toNat) = (List.range' left (n - left)).reverse

theorem ItemsOf.start (c : Channel) (n : Nat) : ItemsOf c [] n n where
  moves := List.forall_mem_nil _
  reload := List.forall_mem_nil _
  counts := by
    rw [Nat.sub_self]
    rfl

/-- The next item leaves one less. -/
theorem ItemsOf.concat {items : List Moment} {item : Moment} {left : Nat}
    (before : ItemsOf c items n (left + 1)) (more : left < n) (moves : item.moves c = true)
    (reload : (item.chip.latch c).reload.toNat = n) (count : (item.left c).toNat = left) :
    ItemsOf c (items ++ [item]) n left where
  moves := List.forall_mem_append.mpr ⟨before.moves, List.forall_mem_singleton.mpr moves⟩
  reload := List.forall_mem_append.mpr ⟨before.reload, List.forall_mem_singleton.mpr reload⟩
  counts := by
    have longer : n - left = (n - (left + 1)) + 1 := by omega
    rw [List.map_append, before.counts, List.map_singleton, count, longer, List.range'_succ,
      List.reverse_cons]

/-- All items of a pass over `n` of them. -/
structure WholePass (c : Channel) (items : List Moment) (n : Nat) : Prop extends
    ItemsOf c items n 0 where
  nonempty : 1 ≤ n

namespace WholePass

variable {items : List Moment}

theorem counts_down (whole : WholePass c items n) :
    items.map (fun item => (item.left c).toNat) = (List.range n).reverse := by
  rw [whole.counts, Nat.sub_zero, List.range_eq_range']

/-- What is told by how many items an item leaves happens once, if it is one of the counts. -/
theorem countP_eq_one (whole : WholePass c items n) {happens : Moment → Bool} (left : Nat)
    (inside : left < n)
    (tells : ∀ item ∈ items, happens item = true ↔ (item.left c).toNat = left) :
    items.countP happens = 1 := by
  have counted : items.countP happens =
      (items.map fun item => (item.left c).toNat).count left := by
    rw [List.count, List.countP_map]
    apply List.countP_congr
    intro item member
    rw [tells item member]
    simp
  rw [counted, whole.counts_down, List.count_reverse]
  exact List.count_eq_one_of_mem List.nodup_range (List.mem_range.mpr inside)

/-- Exactly one item of a pass leaves half of it. -/
theorem halves_once (whole : WholePass c items n) : items.countP (Moment.halves c) = 1 := by
  apply whole.countP_eq_one (n / 2)
  · have := whole.nonempty
    omega
  · intro item member
    have half : ((item.chip.latch c).reload / 2).toNat = n / 2 := by
      rw [BitVec.toNat_udiv, whole.reload item member]
      rfl
    rw [Moment.halves, whole.moves item member, Bool.true_and, beq_iff_eq, ← half,
      BitVec.toNat_inj]

/-- Exactly one item of a pass is the last. -/
theorem finishes_once (whole : WholePass c items n) : items.countP (Moment.finishes c) = 1 := by
  apply whole.countP_eq_one 0 whole.nonempty
  intro item member
  have zero : (0 : Word).toNat = 0 := rfl
  rw [Moment.finishes, whole.moves item member, Bool.true_and, beq_iff_eq, ← zero,
    BitVec.toNat_inj]

end WholePass

end Chip

/-! ## Passes in a run -/

/-- The items of the open pass after one more happening. -/
def passStep (c : Channel) (items : List Chip.Moment) : Happening → List Chip.Moment
  | .part _ moment =>
    if moment.enables c || moment.finishes c then []
    else if moment.moves c then items ++ [moment] else items
  | .returned _ => items

/-- The items that a channel moved since it was last enabled or finished a pass. -/
def openPass (c : Channel) (happenings : List Happening) : List Chip.Moment :=
  happenings.foldl (passStep c) []

theorem openPass_concat (c : Channel) (happenings : List Happening) (last : Happening) :
    openPass c (happenings ++ [last]) = passStep c (openPass c happenings) last := by
  rw [openPass, List.foldl_append, openPass]
  rfl

section PassStep

variable {c : Channel} {items : List Chip.Moment} {call : DmaCall} {moment : Chip.Moment}

theorem passStep_of_enables (enables : moment.enables c = true) :
    passStep c items (.part call moment) = [] := by
  rw [passStep, enables, Bool.true_or, if_pos rfl]

theorem passStep_of_finishes (finishes : moment.finishes c = true) :
    passStep c items (.part call moment) = [] := by
  rw [passStep, finishes, Bool.or_true, if_pos rfl]

theorem passStep_of_moves (disabled : moment.enables c = false) (moves : moment.moves c = true)
    (goes : moment.finishes c = false) :
    passStep c items (.part call moment) = items ++ [moment] := by
  rw [passStep, disabled, goes, moves]
  rfl

theorem passStep_of_still (disabled : moment.enables c = false) (still : moment.moves c = false) :
    passStep c items (.part call moment) = items := by
  rw [passStep, disabled, Chip.Moment.finishes_of_still still, still]
  rfl

end PassStep

namespace History

/-- An active channel is in the pass that its count tells of, and every pass it finished counted
down its items. -/
structure PassesTell (history : History) : Prop where
  consistent : ∀ c, history.chip.Consistent c
  underway : ∀ c, (history.chip.latch c).active = true → history.chip.itemsLeft c ≠ 0 →
    Chip.ItemsOf c (openPass c history.happenings) (history.chip.latch c).reload.toNat
      (history.chip.itemsLeft c).toNat
  finished : ∀ c earlier call moment later,
    history.happenings = earlier ++ .part call moment :: later → moment.finishes c = true →
      Chip.WholePass c (openPass c earlier ++ [moment]) (moment.chip.latch c).reload.toNat

variable {happenings : List Happening} {chip after : Chip} {call : DmaCall} {c : Channel}
  {part : Chip.Part}

/-- A channel that finishes a pass has moved all items of that pass. -/
theorem PassesTell.whole (tell : PassesTell ⟨happenings, chip⟩) {moment : Chip.Moment}
    (found : moment.chip = chip) (finishes : moment.finishes c = true) :
    Chip.WholePass c (openPass c happenings ++ [moment]) (moment.chip.latch c).reload.toNat := by
  rw [Chip.Moment.finishes, Bool.and_eq_true, beq_iff_eq] at finishes
  obtain ⟨moves, last⟩ := finishes
  obtain ⟨active, some_left⟩ := Chip.Moment.active_of_moves moves
  rw [Chip.Moment.left] at last
  have one : (moment.chip.itemsLeft c).toNat = 0 + 1 := by bv_omega
  rw [found] at active some_left one
  have open_pass := tell.underway c active some_left
  have count := (tell.consistent c).count_le active
  dsimp only at open_pass count
  rw [one] at open_pass count
  rw [found]
  have left : (moment.left c).toNat = 0 := by
    rw [Chip.Moment.left, last]
    rfl
  refine ⟨open_pass.concat count moves (by rw [found]) left, count⟩

/-- After one more part, the channels have to be looked at: their passes were. -/
theorem PassesTell.extend (tell : PassesTell ⟨happenings, chip⟩)
    (consistent : ∀ c, after.Consistent c)
    (underway : ∀ c, (after.latch c).active = true → after.itemsLeft c ≠ 0 →
      Chip.ItemsOf c (openPass c (happenings ++ [.part call ⟨part, chip⟩]))
        (after.latch c).reload.toNat (after.itemsLeft c).toNat) :
    PassesTell ⟨happenings ++ [.part call ⟨part, chip⟩], after⟩ where
  consistent := consistent
  underway := underway
  finished c earlier other moment later split finishes := by
    obtain ⟨rfl, same, -⟩ | ⟨rest, rfl, old⟩ := Recorded.split_concat split
    · obtain ⟨-, rfl⟩ := Happening.part.inj same
      exact tell.whole rfl finishes
    · exact tell.finished c earlier other moment rest old finishes

/-- That a call returns leaves all passes as they are. -/
theorem PassesTell.returned (tell : PassesTell ⟨happenings, chip⟩) (call : DmaCall) :
    PassesTell ⟨happenings ++ [.returned call], chip⟩ where
  consistent := tell.consistent
  underway c active some_left := by
    rw [openPass_concat]
    exact tell.underway c active some_left
  finished c earlier other moment later split finishes := by
    obtain ⟨-, same, -⟩ | ⟨rest, -, old⟩ := Recorded.split_concat split
    · cases same
    · exact tell.finished c earlier other moment rest old finishes

/-- A part that is not about a channel leaves its open pass as it is. -/
theorem PassesTell.same (tell : PassesTell ⟨happenings, chip⟩)
    (same : Chip.SameChannel c chip after) (still : Chip.Moment.moves c ⟨part, chip⟩ = false)
    (disabled : (chip.latch c).active = true → Chip.Moment.enables c ⟨part, chip⟩ = false)
    (active : (after.latch c).active = true) (some_left : after.itemsLeft c ≠ 0) :
    Chip.ItemsOf c (openPass c (happenings ++ [.part call ⟨part, chip⟩]))
      (after.latch c).reload.toNat (after.itemsLeft c).toNat := by
  rw [same.latch] at active ⊢
  rw [same.itemsLeft] at some_left ⊢
  rw [openPass_concat, passStep_of_still (disabled active) still]
  exact tell.underway c active some_left

/-- Parts that are neither turns nor writes leave all passes as they are. -/
theorem PassesTell.silent (tell : PassesTell ⟨happenings, chip⟩)
    (timeless : ∀ c, Chip.Moment.moves c ⟨part, chip⟩ = false)
    (reading : ∀ c, Chip.Moment.enables c ⟨part, chip⟩ = false)
    (same : ∀ c, Chip.SameChannel c chip after) :
    PassesTell ⟨happenings ++ [.part call ⟨part, chip⟩], after⟩ :=
  tell.extend (fun c => (tell.consistent c).of_same (same c))
    fun c => tell.same (same c) (timeless c) fun _ => reading c

/-- A write into a channel's control register disables the channel, leaves its pass alone, or
begins a pass. -/
theorem PassesTell.control (tell : PassesTell ⟨happenings, chip⟩) {value : Word}
    (becomes : after = (chip.noted (Dma1.register c Dma1.ccr) value).storeControl c value)
    (active : (after.latch c).active = true) (some_left : after.itemsLeft c ≠ 0) :
    Chip.ItemsOf c (openPass c (happenings ++
        [.part call ⟨.whole (.write (Dma1.register c Dma1.ccr) value), chip⟩]))
      (after.latch c).reload.toNat (after.itemsLeft c).toNat := by
  have count : after.itemsLeft c = chip.itemsLeft c := by
    rw [becomes, Chip.itemsLeft, Chip.peek_storeControl, if_neg]
    · rfl
    · exact Dma1.register_ne_register Dma1.ccr_inside Dma1.cndtr_inside (.inr (by decide))
  have latch : after.latch c = _ := (congrArg (Chip.latch · c) becomes).trans
    (Chip.latch_storeControl (chip.noted (Dma1.register c Dma1.ccr) value) c value)
  rw [count] at some_left ⊢
  by_cases off : value &&& Dma1.enable = 0
  · rw [latch, if_pos off] at active
    cases active
  rw [if_neg off] at latch
  by_cases on : chip.channelEnabled c = true
  · have same : after.latch c = chip.latch c := latch.trans (if_pos on)
    have disabled : Chip.Moment.enables c
        ⟨.whole (.write (Dma1.register c Dma1.ccr) value), chip⟩ = false :=
      Chip.Moment.enables_of_enabled on
    rw [same] at active ⊢
    rw [openPass_concat, passStep_of_still disabled rfl]
    exact tell.underway c active some_left
  · have begun : after.latch c =
        ⟨true, chip.peek (Dma1.register c Dma1.cmar), chip.peek (Dma1.register c Dma1.cpar),
          chip.itemsLeft c⟩ := latch.trans (if_neg on)
    have enables := Chip.Moment.enables_control off (Bool.eq_false_iff.mpr on)
    rw [openPass_concat, passStep_of_enables enables, begun]
    exact .start c _

/-- A write begins the pass of the channel that it enables, and leaves all others alone. -/
theorem PassesTell.write (tell : PassesTell ⟨happenings, chip⟩) (address value : Word) :
    PassesTell ⟨happenings ++ [.part call ⟨.whole (.write address value), chip⟩],
      chip.write address value⟩ := by
  have noted (c : Channel) : Chip.SameChannel c chip (chip.noted address value) :=
    ⟨rfl, fun _ _ => rfl⟩
  have effect : Chip.StoreEffect (chip.noted address value) address value
      (chip.write address value) := Chip.store_effect _ _ _
  refine tell.extend (fun c => ((tell.consistent c).of_same (noted c)).store effect) fun c => ?_
  have enabled := (tell.consistent c).active_eq
  intro active some_left
  cases effect.channel c with
  | same same =>
    exact tell.same ((noted c).trans same) rfl
      (fun was => Chip.Moment.enables_of_enabled (enabled.symm.trans was)) active some_left
  | programmed field small notControl place disabled becomes =>
    have off : (chip.latch c).active = false := enabled.trans disabled
    have kept : ((chip.noted address value).poke (Dma1.register c field) value).latch c =
        chip.latch c := rfl
    rw [becomes, kept, off] at active
    cases active
  | control place becomes =>
    subst place
    exact tell.control becomes active some_left

/-- An item of a channel takes its pass further, or ends it. -/
theorem PassesTell.item {d : Channel} (tell : PassesTell ⟨happenings, chip⟩) {byte : Byte}
    (outside : ∀ offset, Block.decode (chip.latch d).target ≠ .dma1 offset)
    (active : (chip.latch d).active = true) (able : chip.canMove d = true)
    (mapped : chip.memoryByte? (chip.latch d).memory = some byte)
    (some_left : (chip.moved d byte).itemsLeft d ≠ 0) :
    Chip.ItemsOf d (openPass d (happenings ++ [.part call ⟨.turn d, chip⟩]))
      ((chip.moved d byte).latch d).reload.toNat ((chip.moved d byte).itemsLeft d).toNat := by
  have moves : Chip.Moment.moves d ⟨.turn d, chip⟩ = true := by
    simp [Chip.Moment.moves, Chip.itemTarget?_eq_some active able mapped]
  have count := chip.itemsLeft_moved d byte
  rw [openPass_concat, Chip.reload_moved outside]
  by_cases last : chip.itemsLeft d - 1 = 0
  · by_cases circular : chip.controlOf d &&& Dma1.circular = 0
    · rw [count, if_neg fun both => both.2 circular] at some_left
      exact (some_left last).elim
    · have finishes : Chip.Moment.finishes d ⟨.turn d, chip⟩ = true := by
        rw [Chip.Moment.finishes, moves, Chip.Moment.left, last]
        rfl
      have stored : (chip.stored d byte).latch d = chip.latch d :=
        ((Chip.store_outside outside _ _).1 d).latch
      rw [passStep_of_finishes finishes, count, if_pos ⟨last, circular⟩, stored]
      exact .start d _
  · have goes : Chip.Moment.finishes d ⟨.turn d, chip⟩ = false := by
      rw [Chip.Moment.finishes, Chip.Moment.left, beq_eq_false_iff_ne.mpr last, Bool.and_false]
    have some_before := (Chip.Moment.active_of_moves moves).2
    have before := tell.underway d active some_before
    have bound := (tell.consistent d).count_le active
    have one_more : (chip.itemsLeft d).toNat = (chip.itemsLeft d - 1).toNat + 1 := by bv_omega
    dsimp only at before bound
    rw [one_more] at before bound
    rw [passStep_of_moves rfl moves goes, count, if_neg fun both => last both.1]
    exact before.concat bound moves rfl rfl

/-- A turn takes the pass of its own channel further, ends it, or leaves it alone. -/
theorem PassesTell.turn {d : Channel} (tell : PassesTell ⟨happenings, chip⟩)
    (spares : Chip.Moment.spares ⟨.turn d, chip⟩ = true) (turn : Chip.Turn chip d after) :
    PassesTell ⟨happenings ++ [.part call ⟨.turn d, chip⟩], after⟩ := by
  refine tell.extend (fun c => .turn turn (tell.consistent c)) fun c => ?_
  by_cases own : d = c
  · subst own
    cases turn with
    | rest idle =>
      have still : Chip.Moment.moves d ⟨.turn d, chip⟩ = false := by
        simp [Chip.Moment.moves, Chip.itemTarget?_eq_none idle]
      exact tell.same (.refl d chip) still fun _ => rfl
    | failed active able unmapped =>
      intro active
      rw [Chip.latch_busError] at active
      cases active
    | moved byte active able mapped steps =>
      obtain ⟨outside, -⟩ := Chip.target_of_spares spares active able mapped
      exact fun _ => tell.item outside active able mapped
  · have same : Chip.SameChannel c chip after := by
      cases turn with
      | rest => exact .refl c chip
      | failed => exact .busError own _
      | moved byte active able mapped steps =>
        obtain ⟨outside, -⟩ := Chip.target_of_spares spares active able mapped
        exact ((Chip.store_outside outside _ _).1 c).trans (.moved own byte)
    have still : Chip.Moment.moves c ⟨.turn d, chip⟩ = false := by
      simp [Chip.Moment.moves, own]
    exact tell.same same still fun _ => rfl

/-- The passes go on being told, whatever part of a call comes next. -/
theorem passesTell_kept : Kept (fun moment => moment.spares = true) PassesTell where
  countDown call tell := tell.silent (fun _ => rfl) (fun _ => rfl) fun _ => ⟨rfl, fun _ _ => rfl⟩
  countNop call tell := tell.silent (fun _ => rfl) (fun _ => rfl) fun _ => ⟨rfl, fun _ _ => rfl⟩
  load {happenings chip} call address tell := by
    obtain ⟨rest, loaded⟩ := Chip.stateAfter_load chip address
    rw [Chip.Part.after, loaded]
    exact tell.silent (fun _ => rfl) (fun _ => rfl) fun _ => ⟨rfl, fun _ _ => rfl⟩
  turn call spares turn tell := tell.turn spares turn
  share {happenings chip} call bytes tell := by
    obtain ⟨regions, next, shared⟩ := Chip.stateAfter_share chip bytes
    rw [Chip.Part.after, shared]
    exact tell.silent (fun _ => rfl) (fun _ => rfl) fun _ => ⟨rfl, fun _ _ => rfl⟩
  write programs tell := tell.write _ _
  returned cleared tell := tell.returned _
  cleared cleared tell := (tell.write _ _).returned _

end History

/-! ## Runs from a quiet controller -/

/-- DMA1 is clocked, none of its flags is set, and none of its channels is enabled. -/
structure Chip.DmaQuiet (chip : Chip) : Prop where
  clocked : chip.clocked (.dma1 0) = true
  flags : chip.peek (Dma1.base + Dma1.isr) = 0
  idle : ∀ c, chip.channelEnabled c = false ∧ (chip.latch c).active = false

theorem Chip.DmaQuiet.flagsTell {first : Chip} (quiet : first.DmaQuiet) :
    History.FlagsTell ⟨[], first⟩ where
  clocked := quiet.clocked
  signals c signal := by
    have unset : (0 : Word) &&& Dma1.flagsOf c signal.bit = 0 := BitVec.zero_and
    rw [Chip.Signals, quiet.flags, unset]
    exact iff_of_false (fun set => set rfl) (raisedSince_nil c signal)

theorem Chip.DmaQuiet.passesTell {first : Chip} (quiet : first.DmaQuiet) :
    History.PassesTell ⟨[], first⟩ where
  consistent c := .of_inactive (quiet.idle c).2 (quiet.idle c).1
  underway c active := by
    rw [(quiet.idle c).2] at active
    cases active
  finished c earlier call moment later split := by simp at split

/-- The flags of a channel are the history of that channel. In every run of calls from a quiet
controller that does not panic, and in which no channel stores into DMA1 or its clock, a flag of a
channel is set exactly if what it reports has happened since a call last cleared it. Each of the
three flags comes with the global one. What belongs to no call on a channel and is not its turn
leaves its flags alone. A pass that a channel finishes counted down its items: exactly one of them
left half of them, and exactly one left none. -/
theorem History.flags_are_history {first : Chip} (quiet : first.DmaQuiet)
    {steps : List (DmaCall × Nat)} {history : History} (ran : run first steps = some history)
    (spares : ∀ call moment, .part call moment ∈ history.happenings → moment.spares = true) :
    steps.foldlM DmaCall.runOn first = some history.chip ∧
      Chip.Linked first (moments history.happenings) history.chip ∧
      (∀ c signal, history.chip.Signals c signal ↔ RaisedSince c signal history.happenings) ∧
      (∀ c flag, history.chip.Signals c (.only flag) → history.chip.Signals c .any) ∧
      (∀ call moment, .part call moment ∈ history.happenings → ∀ c, call.channel? ≠ some c →
        moment.part ≠ .turn c → moment.after.flagGroup c = moment.chip.flagGroup c) ∧
      ∀ c earlier call moment later, history.happenings = earlier ++ .part call moment :: later →
        moment.finishes c = true →
          Chip.WholePass c (openPass c earlier ++ [moment]) (moment.chip.latch c).reload.toNat ∧
            (openPass c earlier ++ [moment]).countP (Chip.Moment.halves c) = 1 ∧
            (openPass c earlier ++ [moment]).countP (Chip.Moment.finishes c) = 1 := by
  have chip := run_chip first steps
  rw [ran] at chip
  have tell := run_keeps flagsTell_kept quiet.flagsTell ran spares
  have passes := run_keeps passesTell_kept quiet.passesTell ran spares
  refine ⟨chip.symm, run_keeps (linked_kept first) rfl ran spares, tell.signals, ?_,
    run_keeps flagsApart_kept (fun _ _ member => nomatch member) ran spares, ?_⟩
  · intro c flag
    rw [tell.signals, tell.signals]
    exact RaisedSince.any
  · intro c earlier call moment later split finishes
    have whole := passes.finished c earlier call moment later split finishes
    exact ⟨whole, whole.halves_once, whole.finishes_once⟩

/-- The chip after reset with DMA1's clock on. -/
def Chip.dmaClocked : Chip :=
  Chip.reset.write Rcc.ahb1enr Rcc.dma1Enable

/-- One channel moves three of its four items, and then another one is started. -/
def DmaCall.threeItems (c d : Channel) : List (DmaCall × Nat) :=
  [(.share ⟨0, #[1, 2, 3, 4]⟩, 0), (.configure c 0x40010000 0x20000000 4, 1),
    (.start c .default, 0), (.nop, 1), (.nop, 1), (.configure d 0x40010000 0x30000000 2, 1),
    (.start d .default, 0)]

theorem History.flags_are_history_of_three :
    ∃ history, Chip.dmaClocked.DmaQuiet ∧
      run Chip.dmaClocked (DmaCall.threeItems 0 1) = some history ∧
      (∀ call moment, .part call moment ∈ history.happenings → moment.spares = true) ∧
      RaisedSince 0 (.only .half) history.happenings ∧
      ¬RaisedSince 0 (.only .complete) history.happenings := by
  have quiet : Chip.dmaClocked.DmaQuiet :=
    ⟨by decide +kernel, by decide +kernel, by decide +kernel⟩
  have facts : ((run Chip.dmaClocked (DmaCall.threeItems 0 1)).any fun history =>
      (moments history.happenings).all Chip.Moment.spares &&
        decide (history.chip.Signals 0 (.only .half)) &&
        !decide (history.chip.Signals 0 (.only .complete))) = true := by
    decide +kernel
  cases ran : run Chip.dmaClocked (DmaCall.threeItems 0 1) with
  | none =>
    rw [ran] at facts
    cases facts
  | some history =>
    rw [ran, Option.any_some, Bool.and_eq_true, Bool.and_eq_true, decide_eq_true_iff,
      Bool.not_eq_true', decide_eq_false_iff_not] at facts
    obtain ⟨⟨spares, half⟩, complete⟩ := facts
    have spares : ∀ call moment, .part call moment ∈ history.happenings → moment.spares = true :=
      fun call moment member => List.all_eq_true.mp spares moment
        (List.mem_filterMap.mpr ⟨_, member, rfl⟩)
    obtain ⟨-, -, signals, -⟩ := flags_are_history quiet ran spares
    exact ⟨history, quiet, rfl, spares, (signals 0 _).mp half,
      fun since => complete ((signals 0 _).mpr since)⟩

end Peripherals
