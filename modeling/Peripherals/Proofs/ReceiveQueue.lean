import Peripherals.Proofs.GatedBlocks
import Peripherals.Proofs.LinePacing

/-! # The receive queue

Bytes wait on the receive line until a load of the receive register takes them,
which it does one at a time, the oldest first, while the receiver is on. Nothing
else takes a byte and nothing is lost, whatever else is done to the chip. -/

namespace Peripherals

open Bus

namespace Chip

variable {chip after : Chip} {c : Channel} {address value : Word}

/-! ## Taking a byte -/

/-- USART3 is clocked, and it and its receiver are enabled. -/
def ReceiverOn (chip : Chip) : Prop :=
  chip.clocked (.usart3 0) = true ∧
    chip.usartHas (Usart3.enable ||| Usart3.receiverEnable) = true

instance (chip : Chip) : Decidable chip.ReceiverOn :=
  inferInstanceAs (Decidable (_ ∧ _))

/-- The byte that a load of the receive register takes, if it takes one. -/
def takes? (chip : Chip) : Option Byte :=
  if chip.ReceiverOn then chip.received.head? else none

theorem received_of_takes? {byte : Byte} (takes : chip.takes? = some byte) :
    chip.received = byte :: chip.received.tail := by
  rw [takes?] at takes
  split at takes
  · obtain ⟨rest, queue⟩ := List.head?_eq_some_iff.mp takes
    rw [queue]
    rfl
  · cases takes

theorem receiveReady_eq (clocked : chip.clocked (.usart3 0) = true) :
    chip.receiveReady = chip.takes?.isSome := by
  rw [takes?, receiveReady]
  by_cases on : chip.usartHas (Usart3.enable ||| Usart3.receiverEnable) = true
  · rw [if_pos ⟨clocked, on⟩, on]
    cases chip.received <;> rfl
  · rw [if_neg fun both => on both.2, Bool.eq_false_iff.mpr on]
    rfl

/-- A load of the receive register takes the oldest byte, or it gives zero and takes nothing. -/
theorem load_received (chip : Chip) :
    (load (Usart3.base + Usart3.rdr)).run chip =
      match chip.takes? with
      | some byte => .ok (byte.setWidth 32) { chip with received := chip.received.tail }
      | none => .ok 0 chip := by
  have decoded : Block.decode (Usart3.base + Usart3.rdr) = .usart3 Usart3.rdr := rfl
  have clock : chip.clocked (.usart3 Usart3.rdr) = chip.clocked (.usart3 0) := rfl
  have notStatus : Usart3.rdr ≠ Usart3.isr := by decide
  simp only [load, EStateM.run, decoded, clock, if_neg notStatus, if_true]
  by_cases clocked : chip.clocked (.usart3 0) = true
  · have ready := receiveReady_eq clocked
    rw [if_pos clocked, receive]
    cases takes : chip.takes? with
    | none =>
      rw [takes] at ready
      split
      · rfl
      · rw [if_neg (by rw [ready]; exact Bool.false_ne_true)]
    | some byte =>
      have queue := received_of_takes? takes
      rw [takes] at ready
      split
      · next empty =>
        rw [empty] at queue
        cases queue
      · next first rest full =>
        rw [full] at queue
        obtain ⟨rfl, -⟩ := List.cons.inj queue
        rw [if_pos (by rw [ready]; rfl), full]
        rfl
  · have off : chip.takes? = none := if_neg fun on => clocked on.1
    rw [if_neg clocked, off]

/-- The status shows whether a byte can be taken. -/
theorem load_status (chip : Chip) : ∃ status,
    (load (Usart3.base + Usart3.isr)).run chip = .ok status chip ∧
      (status &&& Usart3.rxne != 0) = chip.takes?.isSome := by
  have decoded : Block.decode (Usart3.base + Usart3.isr) = .usart3 Usart3.isr := rfl
  have clock : chip.clocked (.usart3 Usart3.isr) = chip.clocked (.usart3 0) := rfl
  simp only [load, EStateM.run, decoded, clock, if_true]
  by_cases clocked : chip.clocked (.usart3 0) = true
  · rw [if_pos clocked, ← receiveReady_eq clocked]
    refine ⟨_, rfl, ?_⟩
    rw [usartStatus]
    by_cases idle : chip.busy = 0 <;> cases chip.receiveReady <;> simp only [idle] <;> decide
  · have off : chip.takes? = none := if_neg fun on => clocked on.1
    rw [if_neg clocked, off]
    exact ⟨0, rfl, rfl⟩

/-- No other load changes anything. -/
theorem stateAfter_load_of_ne (chip : Chip) (other : address ≠ Usart3.base + Usart3.rdr) :
    stateAfter (load address) chip = chip := by
  by_cases holds : Gated.serial.Holds address
  · rw [stateAfter]
    cases decoded : Block.decode address with
    | usart3 offset =>
      obtain ⟨place, -⟩ := Block.decode_eq_usart3_iff.mp decoded
      have notData : offset ≠ Usart3.rdr := by
        rintro rfl
        exact other place
      simp only [load, EStateM.run, decoded, if_neg notData]
      split_ifs <;> rfl
    | gpio | dma1 | other => simp [Gated.Holds, decoded] at holds
  · exact Gated.stateAfter_load_elsewhere chip holds

theorem received_store (chip : Chip) (address value : Word) :
    (chip.store address value).received = chip.received := by
  have effect := store_effect chip address value
  generalize chip.store address value = after at effect ⊢
  cases effect with
  | lost | output | sent | cleared | replaced => rfl
  | control c =>
    obtain ⟨registers, channels, same⟩ := Gated.storeControl_eq chip c value
    rw [same]

theorem received_turn (chip : Chip) (c : Channel) :
    (stateAfter (serveChannel c) chip).received = chip.received := by
  have effect := turn_effect c chip
  generalize stateAfter (serveChannel c) chip = after at effect ⊢
  cases effect with
  | rest => rfl
  | failed books => exact books.received
  | carried byte _ _ _ books => exact books.received.trans (received_store _ _ _)

/-! ## Every byte is taken once -/

/-- The byte that a moment took, if it took one. -/
def Moment.taken? (moment : Moment) : Option Byte :=
  match moment.part with
  | .load address => if address = Usart3.base + Usart3.rdr then moment.chip.takes? else none
  | _ => none

/-- The bytes that a moment put on the receive line. -/
def Moment.pushed (moment : Moment) : List Byte :=
  match moment.part with
  | .whole (.pushReceived bytes) => bytes
  | _ => []

/-- Each part of a run stands for itself: what takes time is recorded by its own parts. -/
def Moment.Single (moment : Moment) : Prop :=
  ∀ action, moment.part = .whole action → action.instant = true

/-- What waited and what is put on the line is what is taken and what waits then. -/
theorem Moment.conserves {moment : Moment} (single : moment.Single) :
    moment.chip.received ++ moment.pushed = moment.taken?.toList ++ moment.after.received := by
  obtain ⟨part, chip⟩ := moment
  have unchanged (same : (part.after chip).received = chip.received)
      (none : Moment.taken? ⟨part, chip⟩ = none) (nothing : Moment.pushed ⟨part, chip⟩ = []) :
      chip.received ++ Moment.pushed ⟨part, chip⟩ =
        (Moment.taken? ⟨part, chip⟩).toList ++ (part.after chip).received := by
    rw [same, none, nothing, List.append_nil]
    rfl
  cases part with
  | countDown | countNop => exact unchanged rfl rfl rfl
  | turn c => exact unchanged (received_turn chip c) rfl rfl
  | load address =>
    by_cases data : address = Usart3.base + Usart3.rdr
    · subst data
      simp only [pushed, List.append_nil, taken?, if_true, after, Part.after, stateAfter,
        load_received]
      cases takes : chip.takes? with
      | none => rfl
      | some byte => exact received_of_takes? takes
    · apply unchanged _ (if_neg data) rfl
      rw [Part.after, stateAfter_load_of_ne chip data]
  | whole action =>
    cases action with
    | read | nop => cases single _ rfl
    | pushReceived bytes => rfl
    | write address value => exact unchanged (received_store _ _ _) rfl rfl
    | share bytes =>
      obtain ⟨regions, next, shared⟩ := stateAfter_share chip bytes
      exact unchanged (by rw [Part.after, shared]) rfl rfl
    | breakpoint | drive | release | connect | setLatency | clearEvents =>
      exact unchanged rfl rfl rfl

/-- The bytes that were taken in a run. -/
def taken (moments : List Moment) : List Byte :=
  moments.filterMap Moment.taken?

/-- The bytes that were put on the line in a run. -/
def pushed (moments : List Moment) : List Byte :=
  moments.flatMap Moment.pushed

/-- What waited and what was put on the line is what was taken, in order, and what still waits. -/
theorem Linked.conserves {first last : Chip} {moments : List Moment}
    (linked : Linked first moments last) (single : ∀ moment ∈ moments, moment.Single) :
    first.received ++ pushed moments = taken moments ++ last.received := by
  induction moments generalizing first with
  | nil =>
    obtain rfl : last = first := linked
    exact List.append_nil _
  | cons moment later ih =>
    obtain ⟨rfl, linked⟩ := linked
    have now := Moment.conserves (single moment List.mem_cons_self)
    have rest := ih linked fun other member => single other (List.mem_cons_of_mem _ member)
    have split : taken (moment :: later) = moment.taken?.toList ++ taken later := by
      rw [taken, List.filterMap_cons, taken]
      cases moment.taken? <;> rfl
    rw [pushed, List.flatMap_cons, ← List.append_assoc, now, split, List.append_assoc,
      List.append_assoc, ← rest]
    rfl

/-- A record without gaps leads to each of its moments. -/
theorem Linked.to_moment {first last : Chip} {earlier later : List Moment} {moment : Moment}
    (linked : Linked first (earlier ++ moment :: later) last) :
    Linked first earlier moment.chip := by
  induction earlier generalizing first with
  | nil => exact linked.1
  | cons other earlier ih => exact ⟨linked.1, ih linked.2⟩

end Chip

/-! ## Runs with calls that receive -/

/-- What a computation keeps holds where it leaves the device. -/
theorem Bus.Keeps.device {δ α : Type} {P : δ → Prop} {m : BusM δ α} (keeps : Keeps P m)
    (session : Session δ) (holds : P session.device) : P (stateAfter m session).device := by
  have kept := keeps session holds
  rw [stateAfter]
  split at kept
  · next ended => rwa [ended]
  · next ended => rwa [ended]

/-- A step of a run: a move, or a call that gets some ticks and waits for a byte or for the line to
fall silent. -/
inductive Use
  | step (move : Move)
  | receive (ticks : Nat)
  | flush (ticks : Nat)

namespace Use

/-- Where a use leaves the chip, whether it returns or stops. -/
def apply (chip : Chip) : Use → Chip
  | .step move => move.apply chip
  | .receive ticks => (stateAfter Serial.receive ⟨chip, ticks, #[]⟩).device
  | .flush ticks => (stateAfter Serial.flush ⟨chip, ticks, #[]⟩).device

/-- Where a use leaves a recorded chip. -/
def note (r : Recorded) : Use → Recorded
  | .step move => move.note r
  | .receive ticks => (stateAfter Serial.receive ⟨r, ticks, #[]⟩).device
  | .flush ticks => (stateAfter Serial.flush ⟨r, ticks, #[]⟩).device

/-- The record of a run. -/
def record (first : Chip) (uses : List Use) : Recorded :=
  uses.foldl note ⟨first, []⟩

/-- The bytes that a use puts on the receive line. -/
def pushes : Use → List Byte
  | .step (.act (.pushReceived bytes)) => bytes
  | .step _ | .receive _ | .flush _ => []

theorem receive_projects : Projects Recorded.unrecorded Serial.receive Serial.receive :=
  .bind (Recorded.waitSet_projects _ _) fun _ =>
    .bind (Recorded.read_projects _) fun _ => .pure _

theorem note_chip (r : Recorded) (use : Use) : (use.note r).chip = use.apply r.chip := by
  cases use with
  | step move => exact move.note_chip r
  | receive ticks => exact congrArg Session.device (receive_projects.stateAfter ⟨r, ticks, #[]⟩)
  | flush ticks =>
    have projects := Recorded.waitSet_projects (Usart3.base + Usart3.isr) Usart3.tc
    exact congrArg Session.device (projects.stateAfter ⟨r, ticks, #[]⟩)

/-- Recording a run changes nothing of it. -/
theorem record_chip (first : Chip) (uses : List Use) :
    (record first uses).chip = uses.foldl apply first := by
  have folded (r : Recorded) : (uses.foldl note r).chip = uses.foldl apply r.chip := by
    induction uses generalizing r with
    | nil => rfl
    | cons use rest ih => rw [List.foldl_cons, List.foldl_cons, ih, note_chip]
  exact folded ⟨first, []⟩

section Keeps

variable {P : Recorded → Prop} (lasting : Recorded.Lasting P)

include lasting

theorem waitSet_keeps (address mask : Word) :
    Keeps P (Bus.waitSet address mask : BusM Recorded Unit) :=
  Keeps.untilTrue (Keeps.bind (Recorded.read_keeps lasting _) fun _ => Keeps.pure _)

theorem receive_keeps : Keeps P (Serial.receive : BusM Recorded Byte) :=
  Keeps.bind (waitSet_keeps lasting _ _) fun _ =>
    Keeps.bind (Recorded.read_keeps lasting _) fun _ => Keeps.pure _

/-- A use keeps what time, loads and its own action keep. -/
theorem note_keeps {use : Use}
    (own : ∀ action : Chip.Action, action.instant = true →
      (use = .step (.act action) ∨ ∃ value, action = .write Serial.target value) →
      ∀ r, P r → P (r.extend (.whole action))) {r : Recorded} (holds : P r) :
    P (use.note r) := by
  cases use with
  | step move =>
    refine Move.note_keeps (fun action same => ?_) ?_ holds
    · subst same
      exact Recorded.act_upholds lasting fun instant => own action instant (.inl rfl)
    · exact Recorded.sendByte_keeps lasting fun value => own _ rfl (.inr ⟨value, rfl⟩)
  | receive ticks => exact Keeps.device (receive_keeps lasting) ⟨r, ticks, #[]⟩ holds
  | flush ticks => exact Keeps.device (waitSet_keeps lasting _ _) ⟨r, ticks, #[]⟩ holds

theorem record_keeps {first : Chip} {uses : List Use}
    (own : ∀ action : Chip.Action, action.instant = true →
      ∀ r, P r → P (r.extend (.whole action)))
    (start : P ⟨first, []⟩) : P (record first uses) := by
  rw [record]
  generalize (⟨first, []⟩ : Recorded) = r at start ⊢
  induction uses generalizing r with
  | nil => exact start
  | cons use rest ih =>
    exact ih (use.note r) (note_keeps lasting (fun action instant _ => own action instant) start)

end Keeps

/-- The record of a run has no gaps. -/
theorem record_linked (first : Chip) (uses : List Use) :
    Chip.Linked first (record first uses).moments (record first uses).chip :=
  record_keeps (Recorded.linked_lasting first) (fun _ _ _ linked => linked.concat _) rfl

theorem record_single (first : Chip) (uses : List Use) :
    ∀ moment ∈ (record first uses).moments, moment.Single := by
  apply record_keeps (P := fun r => ∀ moment ∈ r.moments, moment.Single)
  · refine .of_parts fun r part timed single => List.forall_mem_append.mpr ⟨single, ?_⟩
    exact List.forall_mem_singleton.mpr fun action whole => (timed action whole).elim
  · refine fun action instant r single => List.forall_mem_append.mpr ⟨single, ?_⟩
    refine List.forall_mem_singleton.mpr fun other whole => ?_
    obtain rfl := Chip.Part.whole.inj whole
    exact instant
  · exact List.forall_mem_nil _

theorem pushed_note (r : Recorded) (use : Use) :
    Chip.pushed (use.note r).moments = Chip.pushed r.moments ++ use.pushes := by
  have concat (moments : List Chip.Moment) (moment : Chip.Moment) :
      Chip.pushed (moments ++ [moment]) = Chip.pushed moments ++ moment.pushed := by
    rw [Chip.pushed, List.flatMap_append, Chip.pushed, List.flatMap_singleton]
  by_cases pushing : ∃ bytes, use = .step (.act (.pushReceived bytes))
  · obtain ⟨bytes, rfl⟩ := pushing
    exact concat r.moments _
  · have nothing : use.pushes = [] := by
      rw [pushes.eq_def]
      split
      · next bytes => exact (pushing ⟨bytes, rfl⟩).elim
      · rfl
      · rfl
      · rfl
    rw [nothing, List.append_nil]
    have same {s : Recorded} {part : Chip.Part}
        (kept : Chip.pushed s.moments = Chip.pushed r.moments)
        (none : Chip.Moment.pushed ⟨part, s.chip⟩ = []) :
        Chip.pushed (s.extend part).moments = Chip.pushed r.moments := by
      rw [Recorded.extend, concat, none, List.append_nil, kept]
    apply note_keeps (P := fun s => Chip.pushed s.moments = Chip.pushed r.moments) _ _ rfl
    · refine .of_parts fun s part timed kept => same kept ?_
      cases part with
      | whole action => exact (timed action rfl).elim
      | countDown | countNop | turn | load => rfl
    · intro action instant acts s kept
      refine same kept ?_
      cases action with
      | pushReceived bytes =>
        obtain acts | ⟨value, acts⟩ := acts
        · exact (pushing ⟨bytes, acts⟩).elim
        · cases acts
      | read | nop | write | breakpoint | share | drive | release | connect | setLatency
      | clearEvents => rfl

/-- The bytes that a run puts on the line are those of its uses. -/
theorem pushed_record (first : Chip) (uses : List Use) :
    Chip.pushed (record first uses).moments = uses.flatMap pushes := by
  have folded (r : Recorded) : Chip.pushed (uses.foldl note r).moments =
      Chip.pushed r.moments ++ uses.flatMap pushes := by
    induction uses generalizing r with
    | nil => exact (List.append_nil _).symm
    | cons use rest ih =>
      rw [List.foldl_cons, ih, pushed_note, List.flatMap_cons, List.append_assoc]
  exact folded ⟨first, []⟩

end Use

end Peripherals
