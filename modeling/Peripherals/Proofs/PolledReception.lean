import Peripherals.Proofs.ReceiveQueue
import Peripherals.Proofs.TickFaults

/-! # Polled reception

A call that receives looks at the status and then loads the receive register,
with a tick before each. While the receiver is on and a byte waits, it returns
the oldest one after these two ticks; otherwise it waits for ever and takes
nothing. Channels that have their turns in between can change this in two ways:
they store into a register that the receiver depends on, or one of their
addresses overflows. -/

namespace Peripherals

open Bus

/-! ## What the receiver depends on -/

namespace Chip

variable {chip middle after : Chip} {c : Channel}

/-- A channel stores in its turn into neither of the registers that the receiver depends on. -/
def Moment.SparesReceiver (moment : Moment) : Prop :=
  match moment.part with
  | .turn c => moment.chip.itemTarget? c ≠ some Rcc.apb1lenr ∧
    moment.chip.itemTarget? c ≠ some (Usart3.base + Usart3.cr1)
  | .countDown | .countNop | .load _ | .whole _ => True

instance : DecidablePred Moment.SparesReceiver
  | ⟨.turn _, _⟩ => inferInstanceAs (Decidable (_ ∧ _))
  | ⟨.countDown, _⟩ | ⟨.countNop, _⟩ | ⟨.load _, _⟩ | ⟨.whole _, _⟩ => isTrue trivial

/-- The receiver is as enabled as it was, and the same bytes wait. -/
structure SameReceiver (chip after : Chip) : Prop where
  gate : after.peek Rcc.apb1lenr = chip.peek Rcc.apb1lenr
  control : after.peek (Usart3.base + Usart3.cr1) = chip.peek (Usart3.base + Usart3.cr1)
  received : after.received = chip.received

theorem SameReceiver.trans (first : SameReceiver chip middle) (second : SameReceiver middle after) :
    SameReceiver chip after where
  gate := second.gate.trans first.gate
  control := second.control.trans first.control
  received := second.received.trans first.received

theorem SameReceiver.takes? (same : SameReceiver chip after) : after.takes? = chip.takes? := by
  have on : after.ReceiverOn ↔ chip.ReceiverOn := by
    simp only [ReceiverOn, clocked, usartHas, same.gate, same.control]
  simp only [Chip.takes?, on, same.received]

theorem SameReceiver.turn (spares : Moment.SparesReceiver ⟨.turn c, chip⟩) :
    SameReceiver chip (Part.after chip (.turn c)) where
  gate := by
    have decoded : Block.decode Rcc.apb1lenr = .other := rfl
    exact peek_turn (by simp [decoded]) (by simp [decoded]) spares.1
  control := by
    have decoded : Block.decode (Usart3.base + Usart3.cr1) = .usart3 Usart3.cr1 := rfl
    exact peek_turn (by simp [decoded]) (by simp [decoded]) spares.2
  received := received_turn chip c

end Chip

namespace Recorded

open Chip

variable {P : Recorded → Prop} {first : Chip} {r : Recorded} {address : Word}

/-! ## A tick and a load -/

/-- A channel stored into a register that the receiver depends on. -/
def Meddled (r : Recorded) : Prop :=
  ∃ moment ∈ r.moments, ¬moment.SparesReceiver

theorem meddled_lasting : Lasting Meddled :=
  .of_parts fun _ _ _ ⟨moment, member, meddles⟩ =>
    ⟨moment, List.mem_append_left _ member, meddles⟩

/-- The receiver is as it was, unless a channel meddled with it. -/
def Spared (first : Chip) (r : Recorded) : Prop :=
  r.Meddled ∨ SameReceiver first r.chip

theorem Spared.extend {part : Part} (spared : r.Spared first)
    (same : Moment.SparesReceiver ⟨part, r.chip⟩ → SameReceiver r.chip (part.after r.chip)) :
    (r.extend part).Spared first := by
  by_cases spares : Moment.SparesReceiver ⟨part, r.chip⟩
  · obtain ⟨moment, member, meddles⟩ | kept := spared
    · exact .inl ⟨moment, List.mem_append_left _ member, meddles⟩
    · exact .inr (kept.trans (same spares))
  · exact .inl ⟨_, List.mem_append_right _ List.mem_cons_self, spares⟩

theorem tick_spared (first : Chip) : Upholds (Spared first) tick :=
  tick_keeps (fun _ spared => spared.extend fun _ => ⟨rfl, rfl, rfl⟩)
    fun _ _ spared => spared.extend .turn

/-- A load lets a tick pass. Where that overflows the load is not done. -/
theorem load_cases {Q : Word → Recorded → Prop} (spared : r.Spared first)
    (loads : ∀ ticked : Recorded, ticked.Spared first →
      ∃ value after, (note (.load address) (Chip.load address)).run ticked = .ok value after ∧
        Q value after) :
    match (Target.load address : EStateM Fault Recorded Word).run r with
    | .ok value after => Q value after
    | .error _ after => after.Spared first ∧ after.Overflowed := by
  have kept := tick_spared first r spared
  have run : (Target.load address : EStateM Fault Recorded Word).run r =
      (tick >>= fun _ => note (.load address) (Chip.load address)).run r := rfl
  rw [run, EStateM.run_bind]
  rw [stateAfter] at kept
  cases ticks : tick.run r with
  | ok value ticked =>
    rw [ticks] at kept
    obtain ⟨value, after, loaded, reached⟩ := loads ticked kept
    simp only [loaded]
    exact reached
  | error fault after =>
    rw [ticks] at kept
    exact ⟨kept, (tick_fault ticks).2⟩

/-- A look at the status shows whether a byte can be taken. -/
theorem look_cases (spared : r.Spared first) :
    match (Target.load (Usart3.base + Usart3.isr) : EStateM Fault Recorded Word).run r with
    | .ok status after => after.Spared first ∧
      (after.Meddled ∨ (status &&& Usart3.rxne != 0) = first.takes?.isSome)
    | .error _ after => after.Spared first ∧ after.Overflowed := by
  apply load_cases (Q := fun status after => after.Spared first ∧
    (after.Meddled ∨ (status &&& Usart3.rxne != 0) = first.takes?.isSome)) spared
  intro ticked spared
  obtain ⟨status, loaded, shows⟩ := load_status ticked.chip
  have left : Part.after ticked.chip (.load (Usart3.base + Usart3.isr)) = ticked.chip :=
    stateAfter_of_ok loaded
  have extended : (ticked.extend (.load (Usart3.base + Usart3.isr))).Spared first :=
    spared.extend fun _ => by rw [left]; exact ⟨rfl, rfl, rfl⟩
  refine ⟨status, ticked.extend (.load (Usart3.base + Usart3.isr)), ?_, extended, ?_⟩
  · rw [run_note, loaded, extend, left]
  · obtain meddled | same := extended
    · exact .inl meddled
    · have chip : (ticked.extend (.load (Usart3.base + Usart3.isr))).chip = ticked.chip := left
      rw [chip] at same
      exact .inr (by rw [shows, same.takes?])

/-- Loading the receive register takes the byte that can be taken. -/
theorem take_cases {byte : Byte} (takes : first.takes? = some byte)
    (spared : r.Spared first) :
    match (Target.load (Usart3.base + Usart3.rdr) : EStateM Fault Recorded Word).run r with
    | .ok value after => after.Meddled ∨
      value = byte.setWidth 32 ∧ after.chip.received = first.received.tail
    | .error _ after => after.Spared first ∧ after.Overflowed := by
  apply load_cases (Q := fun value after => after.Meddled ∨
    value = byte.setWidth 32 ∧ after.chip.received = first.received.tail) spared
  intro ticked spared
  obtain ⟨moment, member, meddles⟩ | same := spared
  · rw [run_note, load_received]
    cases ticked.chip.takes? with
    | none => exact ⟨_, _, rfl, .inl ⟨moment, List.mem_append_left _ member, meddles⟩⟩
    | some other => exact ⟨_, _, rfl, .inl ⟨moment, List.mem_append_left _ member, meddles⟩⟩
  · rw [run_note, load_received, same.takes?, takes]
    exact ⟨_, _, rfl, .inr ⟨rfl, congrArg List.tail same.received⟩⟩

/-! ## A call that receives -/

/-- A read takes the ticks and the cases of its load. -/
theorem read_ends {Q : Word → Recorded → Prop} {E : Recorded → Prop} {n : Nat}
    (cases : ∀ r, P r →
      match (Target.load address : EStateM Fault Recorded Word).run r with
      | .ok value after => Q value after
      | .error _ after => E after) :
    Ends (fun session => P session.device ∧ session.ticks = n)
      (Bus.read address : BusM Recorded Word)
      (fun value session => Q value session.device ∧ session.ticks + 1 = n)
      fun session => P session.device ∧ n = 0 ∨ E session.device := by
  rintro ⟨r, ticks, log⟩ ⟨holds, rfl⟩
  cases ticks with
  | zero => exact .inl ⟨holds, rfl⟩
  | succ ticks =>
    have run : (Bus.read address : BusM Recorded Word).run ⟨r, ticks + 1, log⟩ =
        (Bus.onDevice (Target.load address) >>= fun value => do
          Bus.record (.read address value)
          pure value : BusM Recorded Word).run ⟨r, ticks, log⟩ := rfl
    have reached := cases r holds
    rw [run, EStateM.run_bind, run_onDevice]
    split at reached
    · next loaded =>
      rw [loaded]
      exact ⟨reached, rfl⟩
    · next faulted =>
      rw [faulted]
      exact .inr reached

/-- One round of waiting for a byte. -/
theorem round_ends (first : Chip) (n : Nat) :
    Ends (fun session => session.device.Spared first ∧ session.ticks = n)
      (Bus.anySet (Usart3.base + Usart3.isr) Usart3.rxne : BusM Recorded Bool)
      (fun done session => session.device.Spared first ∧ session.ticks + 1 = n ∧
        (session.device.Meddled ∨ done = first.takes?.isSome))
      fun session => session.device.Spared first ∧ (n = 0 ∨ session.device.Overflowed) := by
  apply Ends.bind
  · exact (read_ends fun r spared => look_cases spared).weaken (fun _ _ reached => reached)
      fun session faulted => by
        obtain ⟨spared, none⟩ | ⟨spared, overflowed⟩ := faulted
        · exact ⟨spared, .inl none⟩
        · exact ⟨spared, .inr overflowed⟩
  · rintro status session ⟨⟨spared, shows⟩, ticks⟩
    exact ⟨spared, ticks, shows⟩

/-- While no byte can be taken, the wait does not return, unless a channel meddled. -/
theorem wait_ends (nothing : first.takes? = none) :
    Ends (fun session => session.device.Spared first)
      (Bus.waitSet (Usart3.base + Usart3.isr) Usart3.rxne : BusM Recorded Unit)
      (fun _ session => session.device.Meddled) fun session => session.device.Spared first := by
  apply Ends.untilDone
  · intro session spared
    have round := round_ends first session.ticks session ⟨spared, rfl⟩
    split at round
    · next done after _ =>
      obtain ⟨spared, -, meddled | shows⟩ := round
      · change if done = true then _ else _
        split
        · exact meddled
        · exact spared
      · rw [nothing] at shows
        rw [shows]
        exact spared
    · exact round.1
  · exact fun _ spared => spared

/-- While a byte can be taken, the wait returns after one tick, unless a channel meddled or an
address overflows. -/
theorem ready_ends (ready : first.takes?.isSome = true) (n : Nat) :
    Ends (fun session => session.device.Spared first ∧ session.ticks = n)
      (Bus.waitSet (Usart3.base + Usart3.isr) Usart3.rxne : BusM Recorded Unit)
      (fun _ session => session.device.Spared first ∧
        (session.device.Meddled ∨ session.ticks + 1 = n))
      fun session => session.device.Spared first ∧
        (session.device.Meddled ∨ n = 0 ∨ session.device.Overflowed) := by
  intro session start
  have again : Keeps Meddled
      (Bus.anySet (Usart3.base + Usart3.isr) Usart3.rxne : BusM Recorded Bool) :=
    Keeps.bind (read_keeps meddled_lasting _) fun _ => Keeps.pure _
  have rounds : Ends (fun session => session.device.Meddled)
      (Peripherals.untilTrue session.ticks
        (Bus.anySet (Usart3.base + Usart3.isr) Usart3.rxne) : BusM Recorded Unit)
      (fun _ session => session.device.Meddled) fun session => session.device.Meddled :=
    Ends.rounds again (fun _ meddled => meddled) session.ticks
  have unrolled : (Bus.waitSet (Usart3.base + Usart3.isr) Usart3.rxne : BusM Recorded Unit).run
      session = (Bus.anySet (Usart3.base + Usart3.isr) Usart3.rxne >>= fun done =>
        if done then pure () else Peripherals.untilTrue session.ticks
          (Bus.anySet (Usart3.base + Usart3.isr) Usart3.rxne) : BusM Recorded Unit).run session :=
    rfl
  rw [unrolled]
  refine Ends.bind ((round_ends first n).weaken (fun _ _ reached => reached) ?_) ?_ session start
  · exact fun _ faulted => ⟨faulted.1, .inr faulted.2⟩
  · rintro done middle ⟨spared, ticks, shows⟩
    cases done with
    | true => exact ⟨spared, .inr ticks⟩
    | false =>
      obtain meddled | shows := shows
      · have reached := rounds middle meddled
        simp only [Bool.false_eq_true, if_false]
        split at reached
        · exact ⟨.inl reached, .inl reached⟩
        · exact ⟨.inl reached, .inl reached⟩
      · rw [ready] at shows
        cases shows

/-- A call that receives takes the oldest byte in two ticks, or it does not return and takes
nothing, unless a channel meddled. -/
theorem receive_ends (first : Chip) (n : Nat) :
    Ends (fun session => session.device.Spared first ∧ session.ticks = n)
      (Serial.receive : BusM Recorded Byte)
      (fun byte session => session.device.Meddled ∨ first.takes? = some byte ∧
        session.device.chip.received = first.received.tail ∧ session.ticks + 2 = n)
      fun session => session.device.Meddled ∨ session.device.chip.received = first.received ∧
        (first.takes?.isSome = true → n < 2 ∨ session.device.Overflowed) := by
  have taking : Keeps Meddled (do
      let value ← Bus.read (Usart3.base + Usart3.rdr)
      pure (value.setWidth 8) : BusM Recorded Byte) :=
    Keeps.bind (read_keeps meddled_lasting _) fun _ => Keeps.pure _
  cases takes : first.takes? with
  | none =>
    refine fun session start => Ends.bind ((wait_ends takes).weaken (fun _ _ meddled => meddled) ?_)
      (fun _ => taking.weaken (fun _ _ meddled => .inl meddled) fun _ meddled => .inl meddled)
      session start.1
    rintro session (meddled | same)
    · exact .inl meddled
    · exact .inr ⟨same.received, nofun⟩
  | some byte =>
    have ready : first.takes?.isSome = true := by rw [takes]; rfl
    refine Ends.bind ((ready_ends ready n).weaken (fun _ _ reached => reached) ?_) ?_
    · rintro session ⟨meddled | same, faulted⟩
      · exact .inl meddled
      · obtain meddled | none | overflowed := faulted
        · exact .inl meddled
        · exact .inr ⟨same.received, fun _ => .inl (by omega)⟩
        · exact .inr ⟨same.received, fun _ => .inr overflowed⟩
    · rintro ⟨⟩ session ⟨spared, meddled | ticks⟩
      · exact (taking.weaken (fun _ _ meddled => .inl meddled) fun _ meddled => .inl meddled)
          session meddled
      · have takes := read_ends (n := session.ticks) fun r spared => take_cases takes spared
        refine Ends.bind (takes.weaken (fun _ _ reached => reached) ?_) ?_ session ⟨spared, rfl⟩
        · rintro last (⟨meddled | same, none⟩ | ⟨meddled | same, overflowed⟩)
          · exact .inl meddled
          · exact .inr ⟨same.received, fun _ => .inl (by omega)⟩
          · exact .inl meddled
          · exact .inr ⟨same.received, fun _ => .inr overflowed⟩
        · rintro value last ⟨meddled | ⟨rfl, received⟩, spent⟩
          · exact .inl meddled
          · have narrow : (byte.setWidth 32).setWidth 8 = byte := by simp
            exact .inr ⟨by rw [narrow], received, by omega⟩

end Recorded

namespace Chip

variable {ticks : Nat}

/-- What happens while a call that receives has so many ticks. -/
def receiving (chip : Chip) (ticks : Nat) : List Moment :=
  ((Use.receive ticks).note ⟨chip, []⟩).moments

/-- A call that receives either returns the byte that can be taken, after two ticks, or takes
nothing. If a byte can be taken, it returns unless it has less than two ticks or an address of a
channel overflows in one of them. -/
def Receives (chip : Chip) (ticks : Nat) : Prop :=
  match (Serial.receive : BusM Chip Byte).run ⟨chip, ticks, #[]⟩ with
  | .ok byte after => chip.takes? = some byte ∧ after.device.received = chip.received.tail ∧
    after.ticks + 2 = ticks
  | .error _ after => after.device.received = chip.received ∧ (chip.takes?.isSome = true →
    ticks < 2 ∨ ∃ moment ∈ chip.receiving ticks, moment.Overflows)

theorem receives {chip : Chip}
    (spares : ∀ moment ∈ chip.receiving ticks, moment.SparesReceiver) : chip.Receives ticks := by
  have start : Recorded.Spared chip ⟨chip, []⟩ := .inr ⟨rfl, rfl, rfl⟩
  have ended := Recorded.receive_ends chip ticks ⟨⟨chip, []⟩, ticks, #[]⟩ ⟨start, rfl⟩
  have same : (Serial.receive : BusM Chip Byte).run ⟨chip, ticks, #[]⟩ = _ :=
    Use.receive_projects ⟨⟨chip, []⟩, ticks, #[]⟩
  have record : chip.receiving ticks =
      (stateAfter (Serial.receive : BusM Recorded Byte) ⟨⟨chip, []⟩, ticks, #[]⟩).device.moments :=
    rfl
  rw [stateAfter] at record
  rw [Receives, same]
  split at ended
  · next byte after returned =>
    rw [returned] at record ⊢
    obtain ⟨moment, member, meddles⟩ | reached := ended
    · exact (meddles (spares moment (record ▸ member))).elim
    · exact reached
  · next fault after faulted =>
    rw [faulted] at record ⊢
    obtain ⟨moment, member, meddles⟩ | ⟨received, fails⟩ := ended
    · exact (meddles (spares moment (record ▸ member))).elim
    · refine ⟨received, fun ready => ?_⟩
      rw [record]
      exact fails ready

end Chip

/-- No received byte is lost or taken twice. At every moment of a run, what waited at first and
what was put on the line since is what loads of the receive register took, in order, and what still
waits. Such a load takes the oldest byte if one waits and the receiver is on, and otherwise gives
zero. A call that receives then returns the oldest byte after two ticks, or never returns and takes
nothing, unless a channel stores into the registers that the receiver depends on. -/
theorem Use.record_conserves (first : Chip) (uses : List Use) :
    (record first uses).chip = uses.foldl apply first ∧
      Chip.Linked first (record first uses).moments (record first uses).chip ∧
      Chip.pushed (record first uses).moments = uses.flatMap pushes ∧
      (∀ earlier moment later, (record first uses).moments = earlier ++ moment :: later →
        first.received ++ Chip.pushed earlier = Chip.taken earlier ++ moment.chip.received ∧
        (moment.part = .load (Usart3.base + Usart3.rdr) →
          (Chip.load (Usart3.base + Usart3.rdr)).run moment.chip =
            match moment.taken? with
            | some byte => .ok (byte.setWidth 32)
              { moment.chip with received := moment.chip.received.tail }
            | none => .ok 0 moment.chip)) ∧
      first.received ++ uses.flatMap pushes =
        Chip.taken (record first uses).moments ++ (record first uses).chip.received ∧
      ∀ ticks, (∀ moment ∈ (record first uses).chip.receiving ticks, moment.SparesReceiver) →
        (record first uses).chip.Receives ticks := by
  have linked := record_linked first uses
  have single := record_single first uses
  have pushes := pushed_record first uses
  refine ⟨record_chip first uses, linked, pushes, ?_, ?_, fun ticks => Chip.receives⟩
  · intro earlier moment later split
    rw [split] at linked single
    have before := linked.to_moment
    refine ⟨before.conserves fun other member => single other (List.mem_append_left _ member), ?_⟩
    obtain ⟨part, chip⟩ := moment
    rintro rfl
    have taken : Chip.Moment.taken? ⟨.load (Usart3.base + Usart3.rdr), chip⟩ = chip.takes? := by
      simp only [Chip.Moment.taken?, if_true]
    rw [taken]
    exact Chip.load_received chip
  · rw [← pushes]
    exact linked.conserves single

/-- The receiver is switched on, a channel transmits two bytes, and of two bytes that arrive the
first is received. -/
def Use.twoArrive (c : Channel) : List Use :=
  [.step (.act (.write Rcc.ahb1enr Rcc.dma1Enable)),
    .step (.act (.write Rcc.apb1lenr Rcc.usart3Enable)),
    .step (.act (.write (Usart3.base + Usart3.cr1)
      (Usart3.enable ||| Usart3.transmitterEnable ||| Usart3.receiverEnable))),
    .step (.act (.write (Usart3.base + Usart3.cr3) Usart3.dmaTransmit)),
    .step (.act (.share #[7, 8])),
    .step (.act (.write (Dma1.register c Dma1.cpar) Serial.target)),
    .step (.act (.write (Dma1.register c Dma1.cmar) 0x20000000)),
    .step (.act (.write (Dma1.register c Dma1.cndtr) 2)),
    .step (.act (.write (Dma1.register c Dma1.ccr) 0x91)),
    .step (.act (.pushReceived [1, 2])), .receive 2]

theorem Use.record_conserves_of_two :
    (∀ moment ∈ (record .reset (twoArrive 0)).chip.receiving 2, moment.SparesReceiver) ∧
      (record .reset (twoArrive 0)).chip.takes? = some 2 ∧
      (record .reset (twoArrive 0)).chip.Receives 2 := by
  have spares : ∀ moment ∈ (record .reset (twoArrive 0)).chip.receiving 2,
      moment.SparesReceiver := by
    decide +kernel
  have waits : (record .reset (twoArrive 0)).chip.takes? = some 2 := by decide +kernel
  have conserves := record_conserves .reset (twoArrive 0)
  -- With the run out of sight no step below evaluates it again.
  generalize record .reset (twoArrive 0) = r at spares waits conserves ⊢
  obtain ⟨-, -, -, -, -, receives⟩ := conserves
  exact ⟨spares, waits, receives 2 spares⟩

/-- A byte has arrived, and a channel that steps its target is at the last address. -/
def Use.atLastAddress (c : Channel) : List Use :=
  [.step (.act (.write Rcc.ahb1enr Rcc.dma1Enable)),
    .step (.act (.write Rcc.apb1lenr Rcc.usart3Enable)),
    .step (.act (.write (Usart3.base + Usart3.cr1) (Usart3.enable ||| Usart3.receiverEnable))),
    .step (.act (.share #[7])),
    .step (.act (.write (Dma1.register c Dma1.cpar) 0xFFFFFFFF)),
    .step (.act (.write (Dma1.register c Dma1.cmar) 0x20000000)),
    .step (.act (.write (Dma1.register c Dma1.cndtr) 1)),
    .step (.act (.pushReceived [65])),
    .step (.act (.write (Dma1.register c Dma1.ccr) 0x51))]

/-- The fault that stops a computation, if one does. -/
def faultOf? {σ α : Type} (x : EStateM Fault σ α) (s : σ) : Option Fault :=
  match x.run s with
  | .ok _ _ => none
  | .error fault _ => some fault

/-- Then a call that receives faults in a tick, although a byte can be taken and no channel stores
into a register that the receiver depends on. -/
theorem Use.receive_overflows :
    (record .reset (atLastAddress 0)).chip.takes? = some 65 ∧
      (∀ moment ∈ (record .reset (atLastAddress 0)).chip.receiving 2, moment.SparesReceiver) ∧
      faultOf? (Serial.receive : BusM Chip Byte)
        ⟨(record .reset (atLastAddress 0)).chip, 2, #[]⟩ = some .addOverflow := by
  decide +kernel

end Peripherals
