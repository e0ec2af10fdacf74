import Peripherals.Proofs.BufferPlacement
import Peripherals.Proofs.ChannelRenewal
import Peripherals.Proofs.FlagHistory

/-! # Running off a buffer

A channel that is started on more items than its buffer has bytes runs into the
gap behind the buffer. By then it has sent every byte of the buffer and no
other one, and it ends in a bus error: its error flag is raised, it is disabled,
and its count stays where it was. When this happens is known to the tick. The
channel stays so until it is set up again, and then works like any other. -/

namespace Peripherals

open Bus Chip

namespace Chip

variable {chip after : Chip} {c : Channel} {config : ChannelConfig} {region : Region}
  {before : List Byte} {n k latency total t : Nat} {byte : Byte} {address value : Word}

/-! ## Gaps -/

theorem spaced_preserved : Preserved Action.Addressable
    fun chip => Spaced chip.regions chip.nextRegion where
  unseen spaced same := by
    rw [same.regions, same.nextRegion]
    exact spaced
  store spaced _ effect := by
    rw [effect.regions_eq.1, effect.regions_eq.2]
    exact spaced
  turn spaced turn := by
    rw [turn.regions_eq.1, turn.regions_eq.2]
    exact spaced
  share {chip bytes next} spaced small fits := by
    rw [regionAfter_eq _ small] at fits
    split at fits
    · next room =>
      obtain rfl := Except.ok.inj fits
      exact spaced.concat room
    · cases fits

/-- In every reachable state, there are gaps between the buffers. -/
theorem Reachable.spaced (reachable : Reachable Action.Addressable chip) :
    Spaced chip.regions chip.nextRegion :=
  reachable.invariant spaced_nil spaced_preserved

/-- Right behind a buffer there is nothing. -/
theorem Spaced.behind (spaced : Spaced chip.regions chip.nextRegion)
    (member : region ∈ chip.regions) :
    chip.memoryByte? (region.base + BitVec.ofNat 32 region.bytes.size) = none :=
  spaced.places.gap region member 0 (by decide)

/-! ## What leaves a channel on the line alone -/

/-- Nothing changed that a channel on the line depends on, except that there may be more buffers and
that the transmitter may be closer to its next byte. -/
structure Calm (chip after : Chip) : Prop where
  channels : ∀ c, SameChannel c chip after
  line : SameLine chip after
  flags : after.peek (Dma1.base + Dma1.isr) = chip.peek (Dma1.base + Dma1.isr)
  transmitted : after.transmitted = chip.transmitted
  latency : after.latency = chip.latency
  regions : ∀ region ∈ chip.regions, region ∈ after.regions
  spaced : Spaced chip.regions chip.nextRegion → Spaced after.regions after.nextRegion

/-- The transmitter is not closer to its next byte either. -/
structure Timeless (chip after : Chip) : Prop extends Calm chip after where
  busy : after.busy = chip.busy

theorem Undisturbed.calm (undisturbed : Undisturbed chip after)
    (latency : after.latency = chip.latency) : Calm chip after where
  channels := undisturbed.channels
  line := undisturbed.line
  flags := undisturbed.flags
  transmitted := undisturbed.transmitted
  latency := latency
  regions := by
    rw [undisturbed.memory.1]
    exact fun _ member => member
  spaced := by
    rw [undisturbed.memory.1, undisturbed.memory.2]
    exact id

theorem Calm.countedDown (chip : Chip) : Calm chip chip.countedDown :=
  chip.countedDown_undisturbed.calm rfl

theorem SameEngine.timeless (same : SameEngine chip after) (events : after.events = chip.events)
    (latency : after.latency = chip.latency) (busy : after.busy = chip.busy) :
    Timeless chip after :=
  ⟨(same.undisturbed events).calm latency, busy⟩

/-- An action that has nothing to do with the line, its pace or what is seen of it. -/
def Action.Bystands : Action → Prop
  | .write address _ => Aside address
  | .share bytes => bytes.size < 0x100000000
  | .read _ | .nop | .breakpoint | .drive _ _ | .release _ | .connect _ _ | .pushReceived _ => True
  | .setLatency _ | .clearEvents => False

theorem StoreEffect.pace (effect : StoreEffect chip address value after)
    (notData : address ≠ Usart3.base + Usart3.tdr) :
    after.busy = chip.busy ∧ after.latency = chip.latency := by
  cases effect with
  | lost | output | cleared | replaced => exact ⟨rfl, rfl⟩
  | sent place => exact (notData place).elim
  | control c =>
    obtain ⟨_, _, same⟩ := Gated.storeControl_eq chip c value
    rw [same]
    exact ⟨rfl, rfl⟩

theorem Timeless.write (aside : Aside address) (chip : Chip) (value : Word) :
    Timeless chip (chip.write address value) := by
  have effect : StoreEffect (chip.noted address value) address value
      (chip.write address value) := store_effect _ _ _
  obtain ⟨busy, latency⟩ := effect.pace aside.data
  exact ⟨(Undisturbed.write aside chip value).calm latency, busy⟩

theorem Timeless.share (chip : Chip) {bytes : Array Byte} (small : bytes.size < 0x100000000) :
    Timeless chip (stateAfter (Action.share bytes).perform chip) := by
  rw [stateAfter_perform_share, stateAfter, run_share_eq chip small]
  by_cases room : chip.nextRegion.toNat + bytes.size + 0x13 < 0x100000000
  · rw [if_pos room]
    exact
      { channels := fun _ => ⟨rfl, fun _ _ => rfl⟩
        line := fun _ _ => rfl
        flags := rfl
        transmitted := rfl
        latency := rfl
        regions := fun _ member => List.mem_append_left _ member
        spaced := fun spaced => spaced.concat room
        busy := rfl }
  · rw [if_neg room]
    exact SameEngine.timeless ⟨rfl, rfl, rfl, rfl⟩ rfl rfl rfl

theorem Timeless.instant (chip : Chip) {action : Action} (instant : action.instant = true)
    (bystands : action.Bystands) : Timeless chip (stateAfter action.perform chip) := by
  cases action with
  | read | nop => cases instant
  | write address value => exact .write bystands chip value
  | share bytes => exact .share chip bystands
  | breakpoint =>
    have undisturbed : Undisturbed chip chip.breakpoint := by
      refine ⟨fun _ => ⟨rfl, fun _ _ => rfl⟩, fun _ _ => rfl, rfl, ?_, rfl, rfl⟩
      change (chip.observe [.breakpoint]).transmitted = _
      rw [transmitted_observe]
      exact List.append_nil _
    exact ⟨undisturbed.calm rfl, rfl⟩
  | drive | release | connect | pushReceived =>
    exact SameEngine.timeless ⟨rfl, rfl, rfl, rfl⟩ rfl rfl rfl
  | setLatency | clearEvents => exact bystands.elim

theorem Timeless.load (chip : Chip) (address : Word) :
    Timeless chip (stateAfter (load address) chip) := by
  obtain ⟨rest, loaded⟩ := stateAfter_load chip address
  rw [loaded]
  exact SameEngine.timeless ⟨rfl, rfl, rfl, rfl⟩ rfl rfl rfl

/-! ## Two phases -/

/-- A channel moves bytes of a buffer to the data register, and more items than there are bytes. -/
structure Overlong (config : ChannelConfig) (region : Region) (n : Nat) : Prop where
  reads : config.direction = .fromMemory
  walks : config.memoryIncrement = true
  stays : config.peripheralIncrement = false
  beyond : region.bytes.size < n
  short : n ≤ 0xFFFF

/-- A channel has the line for itself, at some latency, and a buffer is shared. -/
structure Attached (c : Channel) (region : Region) (latency : Nat) (chip : Chip) : Prop where
  line : chip.LineReady
  spaced : Spaced chip.regions chip.nextRegion
  shared : region ∈ chip.regions
  alone : ∀ d, d ≠ c → (chip.latch d).active = false
  latency : chip.latency = latency

/-- The channel is still within its buffer, and has sent `k` bytes of it. -/
structure Within (before : List Byte) (c : Channel) (config : ChannelConfig) (region : Region)
    (n latency k : Nat) (chip : Chip) : Prop extends Attached c region latency chip where
  few : k ≤ region.bytes.size
  progress : Progress c config Serial.target region.base n k chip
  transmitted : chip.transmitted = before ++ region.bytes.toList.take k

/-- The channel ran off its buffer after it sent all of it. -/
structure RanOff (before : List Byte) (c : Channel) (config : ChannelConfig) (region : Region)
    (n latency : Nat) (chip : Chip) : Prop extends Attached c region latency chip where
  inactive : (chip.latch c).active = false
  control : chip.controlOf c = (config.bits ||| Dma1.enable) &&& ~~~Dma1.enable
  left : (chip.itemsLeft c).toNat = n - region.bytes.size
  error : chip.Signals c (.only .error)
  any : chip.Signals c .any
  complete : ¬ chip.Signals c (.only .complete)
  transmitted : chip.transmitted = before ++ region.bytes.toList

theorem Attached.of_calm (attached : Attached c region latency chip) (calm : Calm chip after) :
    Attached c region latency after where
  line := attached.line.of_same calm.line
  spaced := calm.spaced attached.spaced
  shared := calm.regions region attached.shared
  alone d ne := by
    rw [(calm.channels d).latch]
    exact attached.alone d ne
  latency := calm.latency.trans attached.latency

theorem Within.of_calm (within : Within before c config region n latency k chip)
    (calm : Calm chip after) : Within before c config region n latency k after where
  toAttached := within.toAttached.of_calm calm
  few := within.few
  progress := within.progress.of_same (calm.channels c) (flagRaised_iff_of_eq calm.flags)
  transmitted := calm.transmitted.trans within.transmitted

theorem signals_of_flags {signal : Signal}
    (same : after.peek (Dma1.base + Dma1.isr) = chip.peek (Dma1.base + Dma1.isr)) :
    after.Signals c signal ↔ chip.Signals c signal := by
  rw [Signals, same, Signals]

theorem RanOff.of_calm (ranOff : RanOff before c config region n latency chip)
    (calm : Calm chip after) : RanOff before c config region n latency after where
  toAttached := ranOff.toAttached.of_calm calm
  inactive := by
    rw [(calm.channels c).latch]
    exact ranOff.inactive
  control := (calm.channels c).controlOf.trans ranOff.control
  left := by
    rw [(calm.channels c).itemsLeft]
    exact ranOff.left
  error := (signals_of_flags calm.flags).mpr ranOff.error
  any := (signals_of_flags calm.flags).mpr ranOff.any
  complete set := ranOff.complete ((signals_of_flags calm.flags).mp set)
  transmitted := calm.transmitted.trans ranOff.transmitted

/-! ### Turns -/

section Turn

variable (overlong : Overlong config region n)

include overlong

theorem Within.place (within : Within before c config region n latency k chip) :
    config.place n k = k :=
  ChannelConfig.place_of_lt (Nat.lt_of_le_of_lt within.few overlong.beyond)

/-- The channel is at the byte after those it sent, and at the data register. -/
theorem Within.latch (within : Within before c config region n latency k chip) :
    chip.latch c = ⟨true, region.base + BitVec.ofNat 32 k, Serial.target, BitVec.ofNat 32 n⟩ := by
  rw [within.progress.latch, ChannelConfig.sourceAt, ChannelConfig.targetAt, if_pos overlong.walks,
    within.place overlong, overlong.stays]
  simp

/-- The channel moves a byte whenever the transmitter is ready. -/
theorem Within.canMove_iff (within : Within before c config region n latency k chip) :
    chip.canMove c = true ↔ chip.busy = 0 := by
  have few := within.few
  have beyond := overlong.beyond
  have short := overlong.short
  have count : chip.peek (Dma1.register c Dma1.cndtr) ≠ 0 := by
    rw [← itemsLeft, within.progress.left, within.place overlong]
    bv_omega
  have reads : chip.peek (Dma1.register c Dma1.ccr) &&& Dma1.fromMemory ≠ 0 := by
    rw [← controlOf, within.progress.control]
    exact config.control_fromMemory_iff.mpr overlong.reads
  have target : (chip.latch c).target = Usart3.base + Usart3.tdr := by
    rw [within.latch overlong]
    rfl
  simp only [canMove, requestsData, Bool.and_eq_true, Bool.or_eq_true, bne_iff_ne, beq_iff_eq]
  constructor
  · rintro ⟨-, elsewhere | ⟨-, ready⟩⟩
    · exact (elsewhere target).elim
    · exact ready
  · intro ready
    exact ⟨⟨count, reads⟩, .inr ⟨⟨within.line.serialClocked, within.line.requests⟩, ready⟩⟩

theorem Within.stored (within : Within before c config region n latency k chip) (byte : Byte) :
    chip.stored c byte = chip.transmit byte := by
  rw [Chip.stored, within.latch overlong]
  exact within.line.toLineOn.store_data byte

/-- The next byte of the buffer takes the channel on by one, and the transmitter is busy with it. -/
theorem Within.moved (within : Within before c config region n latency k chip)
    (next : region.bytes.toList[k]? = some byte) (inside : k < region.bytes.size) :
    Within before c config region n latency (k + 1) (chip.moved c byte) ∧
      (chip.moved c byte).busy = latency := by
  have stored := within.stored overlong byte
  have hidden := chip.hidden_moved c byte
  have line : SameLine (chip.stored c byte) (chip.moved c byte) := .moved c byte
  have own : SameChannel c chip (chip.stored c byte) := by
    rw [stored]
    exact ⟨rfl, fun _ _ => rfl⟩
  have flags : (chip.stored c byte).peek (Dma1.base + Dma1.isr) =
      chip.peek (Dma1.base + Dma1.isr) := by
    rw [stored]
    rfl
  have more : config.place n k < n := by
    rw [within.place overlong]
    exact Nat.lt_trans inside overlong.beyond
  rw [stored] at hidden line
  obtain ⟨transmitted, busy, regions, nextRegion, latency⟩ := hidden
  refine ⟨⟨⟨?_, ?_, ?_, ?_, ?_⟩, inside, ?_, ?_⟩, busy.trans within.latency⟩
  · have same : SameLine chip (chip.moved c byte) := line
    exact within.line.of_same same
  · rw [regions, nextRegion]
    exact within.spaced
  · rw [regions]
    exact within.shared
  · intro d ne
    rw [latch_moved_of_ne _ _ _ ne, stored]
    exact within.alone d ne
  · exact latency.trans within.latency
  · exact within.progress.moved overlong.short more own flags
  · rw [transmitted, transmitted_transmit, within.transmitted, List.take_add_one, next,
      List.append_assoc]
    rfl

/-- A byte of the buffer is sent when the transmitter is ready for it. -/
theorem Within.sends (within : Within before c config region n latency k chip)
    (ready : chip.busy = 0) (inside : k < region.bytes.size) :
    ∃ after, Turn chip c after ∧ Within before c config region n latency (k + 1) after ∧
      after.busy = latency := by
  have latch := within.latch overlong
  have mapped : chip.memoryByte? (chip.latch c).memory = some region.bytes[k] := by
    rw [latch]
    exact within.spaced.layout.memoryByte?_add within.shared inside
  have next : region.bytes.toList[k]? = some region.bytes[k] := by
    rw [Array.getElem?_toList, Array.getElem?_eq_getElem inside]
  have steps : ((chip.stored c region.bytes[k]).latch c).Steps (chip.controlOf c) := by
    rw [within.stored overlong]
    refine ⟨fun _ => within.spaced.layout.room mapped, fun moves => ?_⟩
    rw [within.progress.control, config.control_peripheralIncrement_iff, overlong.stays] at moves
    cases moves
  have turn : Turn chip c (chip.moved c region.bytes[k]) :=
    .moved _ (by rw [latch]) ((within.canMove_iff overlong).mpr ready) mapped steps
  exact ⟨_, turn, within.moved overlong next inside⟩

/-- Where the buffer ends, the channel fails when the transmitter is ready for another byte. -/
theorem Within.fails
    (within : Within before c config region n latency region.bytes.size chip)
    (ready : chip.busy = 0) :
    Turn chip c (chip.busError c (chip.controlOf c)) ∧
      RanOff before c config region n latency (chip.busError c (chip.controlOf c)) := by
  have latch := within.latch overlong
  have unmapped : chip.memoryByte? (chip.latch c).memory = none := by
    rw [latch]
    exact within.spaced.behind within.shared
  have beyond := overlong.beyond
  have short := overlong.short
  have raised (signal : Signal) : (chip.busError c (chip.controlOf c)).Signals c signal ↔
      chip.Signals c signal ∨ (signal = .any ∨ signal = .only .error) := by
    rw [Signals, flags_busError, or_and_ne_zero_iff, Signals]
    exact or_congr_right ((raised_and_ne_zero_iff .error).trans (and_iff_right rfl))
  refine ⟨.failed (by rw [latch]) ((within.canMove_iff overlong).mpr ready) unmapped, ?_⟩
  constructor
  · constructor
    · exact within.line.of_same ((SameLine.poke flags_not_line _).trans
        (.poke (register_not_line c Dma1.ccr_inside) _))
    · exact within.spaced
    · exact within.shared
    · intro d ne
      rw [(SameChannel.busError ne.symm _).latch]
      exact within.alone d ne
    · exact within.latency
  · rw [latch_busError]
  · rw [controlOf_busError, within.progress.control]
  · rw [itemsLeft_busError, within.progress.left, within.place overlong, BitVec.toNat_ofNat]
    omega
  · exact (raised _).mpr (.inr (.inr rfl))
  · exact (raised _).mpr (.inr (.inl rfl))
  · rw [raised]
    rintro (complete | none | other)
    · have all := within.progress.complete.mp complete
      omega
    · cases none
    · cases other
  · have all : region.bytes.toList.take region.bytes.size = region.bytes.toList :=
      List.take_of_length_le (Nat.le_of_eq rfl)
    rw [← all]
    exact within.transmitted

/-! ### Ticks -/

/-- After `t` ticks, the channel is within its buffer and the rest of the ticks that it needs to
run off is known, or it ran off. -/
inductive Overruns (before : List Byte) (c : Channel) (config : ChannelConfig) (region : Region)
    (n latency total t : Nat) (chip : Chip) : Prop
  | within (k : Nat) (within : Within before c config region n latency k chip)
      (rest : t + (region.bytes.size - k) * max latency 1 + max chip.busy 1 = total)
  | ranOff (ranOff : RanOff before c config region n latency chip) (late : total ≤ t)

end Turn

theorem Overruns.of_timeless
    (overruns : Overruns before c config region n latency total t chip)
    (timeless : Timeless chip after) :
    Overruns before c config region n latency total t after := by
  cases overruns with
  | within k within rest =>
    refine .within k (within.of_calm timeless.toCalm) ?_
    rw [timeless.busy]
    exact rest
  | ranOff ranOff late => exact .ranOff (ranOff.of_calm timeless.toCalm) late

/-- A tick in which one channel has its turn and all others rest. -/
theorem tick_attached {served : Chip} (attached : Attached c region latency chip)
    (turn : Turn chip.countedDown c served) (after : Attached c region latency served) :
    tick.run chip = .ok () served := by
  rw [tick_eq, if_pos attached.line.dmaClocked]
  exact serve_one turn (fun d ne => attached.alone d ne) fun d ne => after.alone d ne

/-- Every tick takes the channel closer to the end of its buffer. -/
theorem Overruns.tick (overlong : Overlong config region n)
    (overruns : Overruns before c config region n latency total t chip) :
    ∃ after, Chip.tick.run chip = .ok () after ∧
      Overruns before c config region n latency total (t + 1) after := by
  cases overruns with
  | within k within rest =>
    -- whether a byte is sent, the buffer ends or the transmitter is busy: one tick less is left
    have begun := within.of_calm (.countedDown chip)
    have busy : chip.countedDown.busy = chip.busy - 1 := rfl
    by_cases ready : chip.busy - 1 = 0
    · obtain inside | rfl := Nat.lt_or_eq_of_le within.few
      · obtain ⟨after, turn, within', slow⟩ := begun.sends overlong ready inside
        refine ⟨after, tick_attached within.toAttached turn within'.toAttached,
          .within (k + 1) within' ?_⟩
        have one_less : region.bytes.size - k = region.bytes.size - (k + 1) + 1 := by omega
        rw [one_less, Nat.add_mul] at rest
        rw [slow]
        omega
      · obtain ⟨turn, ranOff⟩ := begun.fails overlong ready
        refine ⟨_, tick_attached within.toAttached turn ranOff.toAttached, .ranOff ranOff ?_⟩
        rw [Nat.sub_self, Nat.zero_mul] at rest
        omega
    · have rests : Turn chip.countedDown c chip.countedDown := by
        refine .rest fun _ => ?_
        rw [← Bool.not_eq_true, begun.canMove_iff overlong]
        exact ready
      refine ⟨_, tick_attached within.toAttached rests begun.toAttached, .within k begun ?_⟩
      rw [busy]
      omega
  | ranOff ranOff late =>
    have begun := ranOff.of_calm (.countedDown chip)
    have rests : Turn chip.countedDown c chip.countedDown :=
      .rest fun active => by rw [begun.inactive] at active; cases active
    exact ⟨_, tick_attached ranOff.toAttached rests begun.toAttached, .ranOff begun (by omega)⟩

/-! ### Runs -/

/-- An action that stands by lets a tick pass, or it does not. -/
theorem Overruns.act {action : Action} (overlong : Overlong config region n)
    (bystands : action.Bystands)
    (overruns : Overruns before c config region n latency total t chip) :
    Overruns before c config region n latency total
      (if action.instant then t else t + 1) (stateAfter action.perform chip) := by
  cases action with
  | read address =>
    obtain ⟨ticked, passed, overruns⟩ := overruns.tick overlong
    have left : stateAfter (Action.read address).perform chip =
        stateAfter (Chip.load address) ticked :=
      (stateAfter_dropped _ chip).trans (stateAfter_bind_of_ok passed)
    rw [left]
    exact overruns.of_timeless (.load ticked address)
  | nop =>
    have counted : Timeless chip { chip with nops := chip.nops + 1 } :=
      SameEngine.timeless ⟨rfl, rfl, rfl, rfl⟩ rfl rfl rfl
    obtain ⟨ticked, passed, overruns⟩ := (overruns.of_timeless counted).tick overlong
    have ran : Action.nop.perform.run chip = .ok () ticked := passed
    rw [stateAfter_of_ok ran]
    exact overruns
  | write | breakpoint | share | drive | release | connect | pushReceived | setLatency
  | clearEvents => exact overruns.of_timeless (.instant chip rfl bystands)

theorem Overruns.run {actions : List Action} (overlong : Overlong config region n)
    (bystand : ∀ action ∈ actions, action.Bystands)
    (overruns : Overruns before c config region n latency total t chip) :
    Overruns before c config region n latency total (t + Action.ticksOf actions)
      ((actions.map Move.act).foldl Move.apply chip) := by
  induction actions generalizing chip t with
  | nil => exact overruns
  | cons action rest ih =>
    obtain ⟨bystands, bystand'⟩ := List.forall_mem_cons.mp bystand
    rw [Action.ticksOf_cons]
    exact ih bystand' (overruns.act overlong bystands)

/-- How many ticks a channel that was just started needs to run off its buffer: each byte keeps the
transmitter busy, as may one from before. -/
def ticksToOverrun (chip : Chip) (region : Region) : Nat :=
  region.bytes.size * max chip.latency 1 + max chip.busy 1

theorem RanOff.renewable (ranOff : RanOff before c config region n latency chip) :
    Renewable c chip := by
  apply renewable_of_idle ranOff.line.dmaClocked
  · intro d
    by_cases own : d = c
    · rw [own]
      exact ranOff.inactive
    · exact ranOff.alone d own
  · rw [channelEnabled, ← controlOf, ranOff.control, and_not_and_self]
    rfl

end Chip

/-- A channel that is set up for more bytes than its buffer has sends those of the buffer, one after
the other and none of another buffer, and then fails: at a tick that is known beforehand, and
whatever stands by meanwhile. From then on it moves nothing until it is set up again, and this
leaves nothing of the failure. -/
theorem Dma.setUp_overruns {first started : Chip} {c : Channel} {config : ChannelConfig}
    {region : Region} {n ticks left : Nat} {log log' : Array Access} {actions : List Chip.Action}
    (reachable : Reachable Action.Addressable first) (overlong : Overlong config region n)
    (returned : (Dma.setUp c Serial.target region.base (BitVec.ofNat 32 n) config).run
      ⟨first, ticks, log⟩ = .ok () ⟨started, left, log'⟩)
    (line : started.LineReady) (alone : ∀ d, d ≠ c → (started.latch d).active = false)
    (shared : region ∈ started.regions)
    (bystand : ∀ action ∈ actions, action.Bystands) :
    (Action.ticksOf actions < started.ticksToOverrun region →
      ∃ k, Within started.transmitted c config region n started.latency k
        ((actions.map Move.act).foldl Move.apply started)) ∧
    (started.ticksToOverrun region ≤ Action.ticksOf actions →
      RanOff started.transmitted c config region n started.latency
        ((actions.map Move.act).foldl Move.apply started) ∧
      Renewable c ((actions.map Move.act).foldl Move.apply started)) ∧
    ∃ after, Chip.tick.run ((actions.map Move.act).foldl Move.apply started) = .ok () after := by
  have nonempty : 1 ≤ n := Nat.lt_of_le_of_lt (Nat.zero_le _) overlong.beyond
  obtain ⟨reached, progress⟩ := Dma.setUp_returned reachable returned line.dmaClocked nonempty
  have start : Within started.transmitted c config region n started.latency 0 started :=
    ⟨⟨line, reached.spaced, shared, alone, rfl⟩, Nat.zero_le _, progress,
      (List.append_nil _).symm⟩
  have begun : Overruns started.transmitted c config region n started.latency
      (started.ticksToOverrun region) 0 started := by
    refine .within 0 start ?_
    rw [Nat.zero_add]
    rfl
  have overruns := begun.run overlong bystand
  rw [Nat.zero_add] at overruns
  obtain ⟨after, passed, -⟩ := overruns.tick overlong
  refine ⟨fun early => ?_, fun late => ?_, after, passed⟩
  · cases overruns with
    | within k within => exact ⟨k, within⟩
    | ranOff _ late => exact absurd late (Nat.not_le.mpr early)
  · cases overruns with
    | within k within rest => omega
    | ranOff ranOff => exact ⟨ranOff, ranOff.renewable⟩

theorem Dma.setUp_overruns_byOne :
    ∃ started log, Reachable Action.Addressable broughtUp ∧
      Overlong .default ⟨0x20000000, #[7, 8]⟩ 3 ∧
      (Dma.setUp 3 Serial.target 0x20000000 3 .default).run ⟨broughtUp, 1, #[]⟩ =
        .ok () ⟨started, 0, log⟩ ∧
      started.LineReady ∧ (∀ d, d ≠ 3 → (started.latch d).active = false) ∧
      ⟨0x20000000, #[7, 8]⟩ ∈ started.regions ∧
      (∀ action ∈ [.share #[9], .nop, .nop, .nop], Action.Bystands action) ∧
      RanOff [] 3 .default ⟨0x20000000, #[7, 8]⟩ 3 0
        (([.share #[9], .nop, .nop, .nop].map Move.act).foldl Move.apply started) := by
  obtain ⟨started, log, ran, line, alone, shares, silent, ready, fast⟩ :=
    Dma.setUp_broughtUp 3 Serial.target 0x20000000 3 (by decide) .default
  have overlong : Overlong .default ⟨0x20000000, #[7, 8]⟩ 3 :=
    ⟨rfl, rfl, rfl, by decide, by decide⟩
  have bystand : ∀ action ∈ [.share #[9], .nop, .nop, .nop], Action.Bystands action := by
    simp [Action.Bystands]
  have overruns := Dma.setUp_overruns broughtUp_reachable.addressable overlong ran line alone shares
    bystand
  have enough : started.ticksToOverrun ⟨0x20000000, #[7, 8]⟩ ≤
      Action.ticksOf [.share #[9], .nop, .nop, .nop] := by
    rw [ticksToOverrun, fast, ready]
    decide
  have ranOff := (overruns.2.1 enough).1
  rw [silent, fast] at ranOff
  exact ⟨started, log, broughtUp_reachable.addressable, overlong, ran, line, alone, shares, bystand,
    ranOff⟩

end Peripherals
