import Peripherals.Proofs.RestingChip

/-! # Driver calls on a chip at rest

Polled transmission, pauses and the use of pins while every channel rests. A
polled byte waits until the transmitter is free, which takes no longer than the
transmitter was busy, and then follows what was sent before. Driving a pin is
observed exactly if its level changes. -/

namespace Peripherals

open Bus Chip

variable {base : Chip} {limit : Nat} {wrote : List Byte} {E : Session Chip → Prop}

/-! ## Polled transmission -/

namespace Serial

/-- A wait for the transmitter ends when it is free. -/
theorem waitReady_executes (on : base.TransmitterOn) (quiet : base.Quiet)
    (kept : ∀ session, StandsAt base limit wrote session → E session) :
    Executes (limit + 1) (StandsAt base limit wrote)
      (Bus.waitSet (Usart3.base + Usart3.isr) Usart3.txe) ()
      (StandsAt base limit wrote) E := by
  have waits : Runs (limit + 1) (fun session => limit ≤ limit ∧ StandsAt base limit wrote session)
      (Bus.waitSet (Usart3.base + Usart3.isr) Usart3.txe)
      (fun _ session => StandsAt base limit wrote session) E := by
    apply Runs.untilTrue (J := fun n session => n ≤ limit ∧ StandsAt base n wrote session)
    · intro n
      change Runs (1 + 0) _ _ _ _
      refine Runs.bind (R := fun value session => value = session.device.usartStatus ∧
        n ≤ limit ∧ StandsAt base (n - 1) wrote session) ?_ fun value => Runs.pure _ ?_
      · rintro session ⟨few, stands⟩
        have reached := Runs.read_shown (E := E) (fun s stands => kept s (stands.mono few))
          usartStatus quiet
          (fun busy written => (on.timed busy written).load_status) session stands
        split at reached
        · exact ⟨⟨reached.1.1, few, reached.1.2⟩, reached.2⟩
        · exact reached
      · rintro session ⟨rfl, few, stands⟩
        by_cases free : session.device.busy = 0
        · rw [if_pos ((ready_iff _).mpr free)]
          exact stands.mono (by omega)
        · rw [if_neg fun ready => free ((ready_iff _).mp ready)]
          obtain ⟨busy, written, bound, same⟩ := stands.device
          have waiting : session.device.busy = busy := by rw [same]; rfl
          exact ⟨n - 1, by omega, by omega, stands⟩
    · exact fun n session holds => kept session (holds.2.mono holds.1)
  exact waits.weaken (Nat.le_refl _) (fun _ stands => ⟨Nat.le_refl _, stands⟩)
    (fun _ _ stands => ⟨rfl, stands⟩) fun _ left => left

theorem sendByte_executes (on : base.TransmitterOn) (quiet : base.Quiet)
    (slow : base.latency ≤ limit) (byte : Byte)
    (kept : ∀ session, StandsAt base limit wrote session → E session) :
    Executes (limit + 1) (StandsAt base limit wrote) (sendByte byte) ()
      (StandsAt (base.spoke [byte]) limit (wrote ++ [byte])) E := by
  change Executes (limit + 1 + 0) _ _ _ _ _
  apply Executes.bind (waitReady_executes on quiet kept)
  exact (Executes.write_data on byte).weaken (Nat.le_refl 0) (fun _ stands => stands)
    (fun _ stands => stands.mono slow) fun _ left => left

/-- Polled bytes follow what was sent before. Running out of ticks leaves a part of them sent. -/
theorem send_executes (on : base.TransmitterOn) (quiet : base.Quiet) (slow : base.latency ≤ limit)
    (bytes : List Byte)
    (kept : ∀ sent, sent <+: bytes → ∀ session,
      StandsAt (base.spoke sent) limit (wrote ++ sent) session → E session) :
    Executes (bytes.length * (limit + 1)) (StandsAt base limit wrote) (send bytes) ()
      (StandsAt (base.spoke bytes) limit (wrote ++ bytes)) E := by
  induction bytes generalizing base wrote with
  | nil =>
    rw [spoke_nil, List.append_nil, List.length_nil, Nat.zero_mul]
    exact Executes.pure () fun _ stands => stands
  | cons byte rest ih =>
    have total : (byte :: rest).length * (limit + 1) =
        limit + 1 + rest.length * (limit + 1) := by
      rw [List.length_cons, Nat.succ_mul, Nat.add_comm]
    rw [total]
    refine Executes.bind (sendByte_executes on quiet slow byte fun session stands => ?_) ?_
    · apply kept [] List.nil_prefix session
      rwa [spoke_nil, List.append_nil]
    · have others : Executes (rest.length * (limit + 1))
          (StandsAt (base.spoke [byte]) limit (wrote ++ [byte])) (send rest) ()
          (StandsAt ((base.spoke [byte]).spoke rest) limit (wrote ++ [byte] ++ rest)) E := by
        apply ih (on.spoke _) (quiet.spoke _) slow
        intro sent part session stands
        apply kept (byte :: sent) (List.cons_prefix_cons.mpr ⟨rfl, part⟩) session
        rwa [spoke_spoke, List.append_assoc] at stands
      rw [spoke_spoke, List.append_assoc] at others
      exact others

/-- From any moment at rest, polled bytes follow what was sent before. -/
theorem send_runs (on : base.TransmitterOn) (quiet : base.Quiet) (log : Array Access)
    (bytes : List Byte) :
    Runs (bytes.length * (max base.busy base.latency + 1))
      (fun session => ∃ ticks, session = ⟨base, ticks, log⟩) (send bytes)
      (fun _ session => session.device.transmitted = base.transmitted ++ bytes) fun _ => True := by
  have sends : Executes _ (StandsAt base (max base.busy base.latency) (polled log)) (send bytes) ()
      _ fun _ => True :=
    send_executes on quiet (Nat.le_max_right _ _) bytes fun _ _ _ _ => trivial
  refine Runs.weaken sends (Nat.le_refl _) ?_ ?_ fun _ left => left
  · rintro _ ⟨ticks, rfl⟩
    exact .start base ticks log
  · rintro _ session ⟨-, ⟨busy, written, -, same⟩, -⟩
    rw [same]
    exact base.transmitted_spoke bytes

/-- A text without NUL is sent as it is. -/
theorem sendText_executes (on : base.TransmitterOn) (quiet : base.Quiet)
    (slow : base.latency ≤ limit) {text : String} (plain : Text.Plain text)
    (kept : ∀ sent, sent <+: Text.bytes text → ∀ session,
      StandsAt (base.spoke sent) limit (wrote ++ sent) session → E session) :
    Executes ((Text.bytes text).length * (limit + 1)) (StandsAt base limit wrote) (sendText text)
      () (StandsAt (base.spoke (Text.bytes text)) limit (wrote ++ Text.bytes text)) E := by
  rw [sendText, plain]
  exact send_executes on quiet slow _ kept

end Serial

/-! ## Pauses -/

theorem Bus.pause_executes (quiet : base.Quiet) (n : Nat) :
    Executes n (StandsAt base limit wrote) (times n nop) () (StandsAt (base.idled n) limit wrote)
      fun _ => True := by
  induction n generalizing base with
  | zero => exact Executes.pure () fun _ stands => stands
  | succ n ih =>
    have rest : (base.idled 1).idled n = base.idled (n + 1) := by
      rw [idled, idled, idled, Nat.add_assoc, Nat.add_comm 1 n]
    have more := ih (quiet.idled 1)
    rw [rest] at more
    have executes : Executes (1 + n) (StandsAt base limit wrote) (nop >>= fun _ => times n nop) ()
        (StandsAt (base.idled (n + 1)) limit wrote) fun _ => True :=
      Executes.bind (Executes.nop (fun _ _ => trivial) quiet) more
    rw [Nat.add_comm] at executes
    exact executes

/-! ## Output -/

theorem getLsbD_one_shiftLeft {k : Nat} (small : k < 32) (i : Nat) :
    ((1 : Word) <<< k).getLsbD i = decide (i = k) := by
  rw [BitVec.getLsbD_shiftLeft]
  by_cases below : i < k
  · simp [below, Nat.ne_of_lt below]
  · by_cases same : i = k
    · simp [same, small]
    · have above : i - k ≠ 0 := by omega
      simp [same, above, BitVec.getLsbD_one]

/-- A mask with one bit tells whether this bit is set. -/
theorem and_one_shiftLeft_ne_zero {k : Nat} (small : k < 32) (data : Word) :
    (data &&& (1 : Word) <<< k != 0) = data.getLsbD k := by
  have bits (i : Nat) : (data &&& (1 : Word) <<< k).getLsbD i =
      (data.getLsbD k && decide (i = k)) := by
    rw [BitVec.getLsbD_and, getLsbD_one_shiftLeft small]
    by_cases same : i = k <;> simp [same]
  cases set : data.getLsbD k with
  | true =>
    rw [bne_iff_ne]
    intro zero
    have bit := bits k
    rw [zero, set] at bit
    simp at bit
  | false =>
    rw [bne_eq_false_iff_eq]
    apply BitVec.eq_of_getLsbD_eq
    intro i _
    rw [bits, set, Bool.false_and]
    exact BitVec.getLsbD_zero.symm

/-- The bit of a pin in its port's data registers. -/
def PinId.mask (pin : PinId) : Word :=
  (1 : Word) <<< pin.number.toNat

theorem PinId.getLsbD_mask {pin : PinId} (valid : pin.number.toNat < 16) (i : Nat) :
    pin.mask.getLsbD i = decide (i = pin.number.toNat) :=
  getLsbD_one_shiftLeft (by omega) i

/-- A port's output register with the bit of one pin given a level. -/
def PinId.driven (pin : PinId) (level : Level) (output : Word) : Word :=
  match level with
  | .low => output &&& ~~~pin.mask
  | .high => output ||| pin.mask

theorem PinId.getLsbD_driven {pin : PinId} (valid : pin.number.toNat < 16) (level : Level)
    (output : Word) {i : Nat} (small : i < 32) :
    (pin.driven level output).getLsbD i =
      if i = pin.number.toNat then level.isHigh else output.getLsbD i := by
  cases level with
  | low =>
    simp only [driven, BitVec.getLsbD_and, BitVec.getLsbD_not, getLsbD_mask valid, small]
    split <;> simp_all [Level.isHigh]
  | high =>
    simp only [driven, BitVec.getLsbD_or, getLsbD_mask valid]
    split <;> simp_all [Level.isHigh]

/-- The value that drives a pin in its port's set and reset register. -/
def PinId.drive (pin : PinId) : Level → Word
  | .low => (1 : Word) <<< (16 + pin.number.toNat)
  | .high => (1 : Word) <<< pin.number.toNat

/-- Driving a pin is a single write. -/
theorem PinId.setLevel_eq {δ : Type} [Target δ] {pin : PinId} (valid : pin.number.toNat < 16)
    (level : Level) :
    (pin.setLevel level : BusM δ Unit) =
      Bus.write (pin.port.base + Gpio.bsrr) (pin.drive level) := by
  have checked {offset place : Byte} (fits : offset.uaddOverflow pin.number = false)
      (same : offset + pin.number = place) (inside : place.toNat < 32) :
      (do
        let position ← liftM (Checked.add offset pin.number)
        let mask ← liftM (Checked.shiftLeft (1 : Word) position)
        Bus.write (pin.port.base + Gpio.bsrr) mask : BusM δ Unit) =
        Bus.write (pin.port.base + Gpio.bsrr) ((1 : Word) <<< place.toNat) := by
    rw [Checked.add_eq_ok fits, same]
    change (liftM (Checked.shiftLeft (1 : Word) place) >>= fun mask =>
      Bus.write (pin.port.base + Gpio.bsrr) mask : BusM δ Unit) = _
    rw [Checked.shiftLeft_eq_ok inside]
    rfl
  have none_over {offset : Byte} (low : offset.toNat ≤ 16) :
      offset.uaddOverflow pin.number = false := by
    rw [BitVec.uaddOverflow, decide_eq_false_iff_not]
    omega
  cases level with
  | low =>
    have place : (Gpio.resetShift + pin.number).toNat = 16 + pin.number.toNat := by
      simp only [Gpio.resetShift]
      bv_omega
    rw [drive, ← place]
    exact checked (none_over (by decide)) rfl (by omega)
  | high => exact checked (none_over (by decide)) (BitVec.zero_add _) (by omega)

namespace Chip

variable {chip : Chip} {pin : PinId} {level : Level}

/-- The level to which a port's output register drives a pin. -/
def outputBit (chip : Chip) (pin : PinId) : Bool :=
  (chip.peek (pin.port.base + Gpio.odr)).getLsbD pin.number.toNat

/-- The chip with one pin driven to a level. -/
def withLevel (chip : Chip) (pin : PinId) (level : Level) : Chip :=
  chip.setOutput pin.port (pin.driven level (chip.peek (pin.port.base + Gpio.odr)))

/-- Storing the value that drives a pin drives this pin and no other. -/
theorem store_drive (clocked : chip.clocked (.gpio pin.port 0) = true)
    (valid : pin.number.toNat < 16) (level : Level) :
    chip.store (pin.port.base + Gpio.bsrr) (pin.drive level) = chip.withLevel pin level := by
  have decoded : Block.decode (pin.port.base + Gpio.bsrr) = .gpio pin.port Gpio.bsrr :=
    Block.decode_eq_gpio_iff.mpr ⟨rfl, by decide⟩
  have clock : chip.clocked (.gpio pin.port Gpio.bsrr) = true := clocked
  have halves : ∀ n : Fin 16, ((1 : Word) <<< n.val) >>> 16 = 0 ∧
      ((1 : Word) <<< n.val) &&& 0xFFFF = (1 : Word) <<< n.val ∧
      ((1 : Word) <<< (16 + n.val)) >>> 16 = (1 : Word) <<< n.val ∧
      ((1 : Word) <<< (16 + n.val)) &&& 0xFFFF = 0 := by
    decide
  obtain ⟨none_reset, own_set, own_reset, none_set⟩ := halves ⟨_, valid⟩
  simp only [store, decoded, clock, if_true, storeGpio, withLevel, PinId.drive, PinId.driven,
    PinId.mask]
  cases level with
  | low =>
    simp only at own_reset none_set ⊢
    rw [own_reset, none_set]
    exact congrArg _ BitVec.or_zero
  | high =>
    simp only at none_reset own_set ⊢
    have kept (output : Word) : output &&& ~~~0 = output := BitVec.and_allOnes
    rw [none_reset, own_set, kept]

/-- A selection that takes something at one position at most gives that. -/
theorem filterMap_range_single {α : Type} {select : Nat → Option α} {found : Option α} {k m : Nat}
    (inside : k < m) (each : ∀ n, n < m → select n = if n = k then found else none) :
    (List.range m).filterMap select = found.toList := by
  induction m with
  | zero => omega
  | succ m ih =>
    rw [List.range_succ, List.filterMap_append]
    have last := each m (Nat.lt_succ_self m)
    by_cases here : m = k
    · have nothing : (List.range m).filterMap select = [] := by
        rw [List.filterMap_eq_nil_iff]
        intro n member
        have before := List.mem_range.mp member
        rw [each n (by omega), if_neg (by omega)]
      rw [if_pos here] at last
      rw [nothing, List.filterMap_cons, last]
      cases found <;> rfl
    · rw [if_neg here] at last
      rw [ih (by omega) fun n before => each n (by omega), List.filterMap_cons, last]
      exact List.append_nil _

theorem outputBit_withLevel (valid : pin.number.toNat < 16) (chip : Chip) (level : Level) :
    (chip.withLevel pin level).outputBit pin = level.isHigh := by
  rw [outputBit, withLevel, peek_setOutput, if_pos rfl, PinId.getLsbD_driven valid _ _ (by omega),
    if_pos rfl]

theorem peek_withLevel {address : Word} (other : address ≠ pin.port.base + Gpio.odr)
    (level : Level) : (chip.withLevel pin level).peek address = chip.peek address := by
  rw [withLevel, peek_setOutput, if_neg other.symm]

/-- Driving a pin is observed exactly if its level changes, and then on this pin only. -/
theorem events_withLevel (valid : pin.number.toNat < 16) (chip : Chip) (level : Level) :
    (chip.withLevel pin level).events = chip.events ++
      if chip.outputBit pin = level.isHigh then [] else [Event.levelChanged pin level] := by
  rw [withLevel, setOutput]
  change chip.events ++ (List.range 16).filterMap _ = _
  congr 1
  have own : (⟨pin.port, BitVec.ofNat 8 pin.number.toNat⟩ : PinId) = pin := by simp
  have same_level : Level.ofBool level.isHigh = level := by cases level <;> rfl
  have found : ((List.range 16).filterMap fun n =>
      if (chip.peek (pin.port.base + Gpio.odr) ^^^
          pin.driven level (chip.peek (pin.port.base + Gpio.odr))).getLsbD n then
        some (Event.levelChanged ⟨pin.port, BitVec.ofNat 8 n⟩ (Level.ofBool
          ((pin.driven level (chip.peek (pin.port.base + Gpio.odr))).getLsbD n)))
      else none) =
      (if chip.outputBit pin = level.isHigh then none
        else some (Event.levelChanged pin level)).toList := by
    apply filterMap_range_single valid
    intro n small
    simp only [BitVec.getLsbD_xor,
      PinId.getLsbD_driven valid level _ (Nat.lt_trans small (by decide : 16 < 32))]
    by_cases here : n = pin.number.toNat
    · subst here
      rw [if_pos rfl, if_pos rfl, own, same_level, outputBit]
      by_cases same : (chip.peek (pin.port.base + Gpio.odr)).getLsbD pin.number.toNat =
        level.isHigh
      · rw [if_pos same, same, Bool.xor_self]
        rfl
      · rw [if_neg same]
        exact if_pos (by simpa using same)
    · rw [if_neg here, if_neg here, Bool.xor_self]
      rfl
  refine found.trans ?_
  split <;> rfl

end Chip

/-- Driving a pin takes no time. -/
theorem PinId.setLevel_executes {pin : PinId} (valid : pin.number.toNat < 16)
    (clocked : base.clocked (.gpio pin.port 0) = true) (level : Level) :
    Executes 0 (StandsAt base limit wrote) (pin.setLevel level) ()
      (StandsAt (base.withLevel pin level) limit wrote) E := by
  have notData : pin.port.base + Gpio.bsrr ≠ Serial.target := by
    have position := pin.port.toNat_base
    have index := pin.port.index_lt
    have data : Serial.target.toNat = 0x40004828 := rfl
    simp only [Gpio.bsrr]
    bv_omega
  rw [PinId.setLevel_eq valid, ← store_drive clocked valid]
  exact Executes.write notData

/-! ## Input -/

/-- Every wire comes from a pin of its port. -/
def Wiring.InRange (wiring : Wiring) : Prop :=
  ∀ wire ∈ wiring.wires, wire.1.number.toNat < 16

namespace Wiring

variable {wiring : Wiring}

theorem InRange.of_unwired (unwired : wiring.wires = []) : wiring.InRange := by
  rw [InRange, unwired]
  exact List.forall_mem_nil _

theorem InRange.source {input source : PinId} (inRange : wiring.InRange)
    (wired : wiring.source? input = some source) : source.number.toNat < 16 := by
  obtain ⟨wire, found, rfl⟩ := Option.map_eq_some_iff.mp wired
  exact inRange wire (List.mem_of_find?_eq_some found)

end Wiring

namespace Chip

variable {chip : Chip}

/-- A port's register besides the input register reads as it was stored. -/
theorem shows_gpio {port : Port} {offset : Word} (clocked : chip.clocked (.gpio port 0) = true)
    (inside : offset.toNat < 0x400) (notInput : offset ≠ Gpio.idr) :
    chip.Shows (port.base + offset) (chip.peek (port.base + offset)) := by
  intro busy written
  have decoded : Block.decode (port.base + offset) = .gpio port offset :=
    Block.decode_eq_gpio_iff.mpr ⟨rfl, inside⟩
  have clock : chip.clocked (.gpio port offset) = true := clocked
  simp only [load, EStateM.run, decoded, clocked_timed, clock, if_true, if_neg notInput,
    peek_timed]

/-- The input register shows the level of every pin, if every pin has one. -/
theorem inputData_eq {port : Port} {levels : Nat → Bool}
    (each : ∀ n, n < 16 → chip.pinLevel port n = .ok (levels n)) :
    ∃ data, chip.inputData port = .ok data ∧ ∀ n, n < 16 → data.getLsbD n = levels n := by
  have upTo (m : Nat) (few : m ≤ 16) :
      ∃ data : Word, (List.range m).foldlM (fun (levels : Word) n => do
          let high ← chip.pinLevel port n
          pure (if high then levels ||| 1 <<< n else levels)) 0 = .ok data ∧
        ∀ n, n < 32 → data.getLsbD n = (decide (n < m) && levels n) := by
    induction m with
    | zero => exact ⟨0, rfl, by simp⟩
    | succ m ih =>
      obtain ⟨data, before, bits⟩ := ih (by omega)
      refine ⟨if levels m then data ||| 1 <<< m else data, ?_, fun n small => ?_⟩
      · rw [List.range_succ, List.foldlM_append, before]
        change ((chip.pinLevel port m >>= fun high => pure _) >>= _ : Except Fault Word) = _
        rw [each m (by omega)]
        rfl
      · have cast : ((1 <<< m : Nat) : Word) = (1 : Word) <<< m := by
          apply BitVec.eq_of_toNat_eq
          simp [BitVec.toNat_shiftLeft]
        have before : decide (n < m + 1) = (decide (n < m) || decide (n = m)) := by
          rw [← Bool.decide_or]
          exact decide_eq_decide.mpr (by omega)
        have bit := getLsbD_one_shiftLeft (k := m) (by omega) n
        rw [cast, before, Bool.and_or_distrib_right, ← bits n small]
        cases high : levels m with
        | true =>
          rw [if_pos rfl, BitVec.getLsbD_or, bit]
          by_cases here : n = m <;> simp [here, high]
        | false =>
          rw [if_neg Bool.false_ne_true]
          by_cases here : n = m <;> simp [here, high]
  obtain ⟨data, found, bits⟩ := upTo 16 (Nat.le_refl 16)
  refine ⟨data, found, fun n small => ?_⟩
  rw [bits n (by omega), decide_eq_true small, Bool.true_and]

/-- A pin is not driven from outside and wired to an output: it is at the level of this output. -/
theorem inputLevel_wired {port : Port} {n : Nat} {source : PinId}
    (inside : source.number.toNat < 16)
    (undriven : chip.wiring.driven? ⟨port, BitVec.ofNat 8 n⟩ = none)
    (wired : chip.wiring.source? ⟨port, BitVec.ofNat 8 n⟩ = some source) :
    chip.inputLevel port n = .ok (chip.outputBit source) := by
  have small : source.number.toNat < 32 := by omega
  simp only [inputLevel, undriven, wired, Checked.shiftLeft_eq_ok small]
  exact congrArg Except.ok (and_one_shiftLeft_ne_zero small _)

/-- Where every wire comes from a pin of its port, every pin has a level. -/
theorem pinLevel_inRange (inRange : chip.wiring.InRange) (port : Port) (n : Nat) :
    ∃ high, chip.pinLevel port n = .ok high := by
  rw [pinLevel]
  split
  · cases driven : chip.wiring.driven? ⟨port, BitVec.ofNat 8 n⟩ with
    | some level =>
      rw [inputLevel, driven]
      exact ⟨_, rfl⟩
    | none =>
      cases wired : chip.wiring.source? ⟨port, BitVec.ofNat 8 n⟩ with
      | some source => exact ⟨_, inputLevel_wired (inRange.source wired) driven wired⟩
      | none =>
        rw [inputLevel, driven, wired]
        exact ⟨_, rfl⟩
  split <;> exact ⟨_, rfl⟩

/-- Without wires, an input that is pulled up is at the level that drives it, or high. -/
theorem pinLevel_pulledUp (unwired : chip.wiring.wires = []) {pin : PinId}
    (input : chip.pinField pin.port Gpio.moder pin.number.toNat = 0)
    (pulledUp : chip.pinField pin.port Gpio.pupdr pin.number.toNat = 1) :
    chip.pinLevel pin.port pin.number.toNat =
      .ok ((chip.wiring.driven? pin).getD .high).isHigh := by
  have own : (⟨pin.port, BitVec.ofNat 8 pin.number.toNat⟩ : PinId) = pin := by simp
  have source : chip.wiring.source? pin = none := by
    rw [Wiring.source?, unwired]
    rfl
  rw [pinLevel, if_pos input, inputLevel, own]
  cases chip.wiring.driven? pin with
  | some level => rfl
  | none =>
    rw [source, pulledUp]
    rfl

theorem shows_input {port : Port} {data : Word} (clocked : chip.clocked (.gpio port 0) = true)
    (found : chip.inputData port = .ok data) : chip.Shows (port.base + Gpio.idr) data := by
  intro busy written
  have decoded : Block.decode (port.base + Gpio.idr) = .gpio port Gpio.idr :=
    Block.decode_eq_gpio_iff.mpr ⟨rfl, by decide⟩
  have clock : chip.clocked (.gpio port Gpio.idr) = true := clocked
  have same : (chip.timed busy written).inputData port = .ok data := found
  simp only [load, EStateM.run, decoded, clocked_timed, clock, if_true, same]

end Chip

namespace PinId

variable {pin : PinId} {offset data : Word}
  (kept : ∀ session, StandsAt base limit wrote session → E session) (quiet : base.Quiet)

include kept quiet

theorem readLevel_executes (inside : pin.number.toNat < 32)
    (shows : base.Shows (pin.port.base + offset) data) :
    Executes 1 (StandsAt base limit wrote) (pin.readLevel offset)
      (Level.ofBool (data.getLsbD pin.number.toNat)) (StandsAt base limit wrote) E := by
  have bit := and_one_shiftLeft_ne_zero inside data
  rw [readLevel, Checked.shiftLeft_eq_ok inside, ← bit]
  change Executes (1 + 0) _ (Bus.anySet (pin.port.base + offset)
    ((1 : Word) <<< pin.number.toNat) >>= fun high => pure (Level.ofBool high)) _ _ _
  exact Executes.bind (Executes.anySet kept quiet shows _) (Executes.pure _ fun _ stands => stands)

variable (clocked : base.clocked (.gpio pin.port 0) = true)

include clocked

theorem outputLevel_executes (inside : pin.number.toNat < 32) :
    Executes 1 (StandsAt base limit wrote) pin.outputLevel (Level.ofBool (base.outputBit pin))
      (StandsAt base limit wrote) E :=
  readLevel_executes kept quiet inside (shows_gpio clocked (by decide) (by decide))

/-- An input is at the level that the wiring gives it. -/
theorem inputLevel_executes (valid : pin.number.toNat < 16) (inRange : base.wiring.InRange)
    {high : Bool} (level : base.pinLevel pin.port pin.number.toNat = .ok high) :
    Executes 1 (StandsAt base limit wrote) pin.inputLevel (Level.ofBool high)
      (StandsAt base limit wrote) E := by
  choose levels each using pinLevel_inRange inRange pin.port
  obtain ⟨data, found, bits⟩ := inputData_eq fun n _ => each n
  have own : data.getLsbD pin.number.toNat = high := by
    rw [bits _ valid]
    exact Except.ok.inj ((each _).symm.trans level)
  rw [← own]
  exact readLevel_executes kept quiet (by omega) (shows_input clocked found)

omit kept

theorem outputLevel_transforms {n : Nat} (inside : pin.number.toNat < 32) :
    Transforms n base pin.outputLevel (Level.ofBool (base.outputBit pin)) base :=
  fun wrote => ⟨1, wrote, outputLevel_executes (fun _ _ => trivial) quiet clocked inside⟩

theorem inputLevel_transforms {n : Nat} (valid : pin.number.toNat < 16)
    (inRange : base.wiring.InRange) {high : Bool}
    (level : base.pinLevel pin.port pin.number.toNat = .ok high) :
    Transforms n base pin.inputLevel (Level.ofBool high) base :=
  fun wrote =>
    ⟨1, wrote, inputLevel_executes (fun _ _ => trivial) quiet clocked valid inRange level⟩

end PinId

end Peripherals
