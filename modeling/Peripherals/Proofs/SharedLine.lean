import Peripherals.Proofs.Bystanders
import Peripherals.Proofs.EngineConsistency
import Peripherals.Proofs.Interleaving
import Peripherals.Proofs.Programming

/-! # A line shared by several producers

Up to seven channels and the program itself put bytes on one line. Whatever the
order of their steps, the line carries an interleaving of the bytes that the
program polled out and of the first bytes of every channel's buffer, none of
them lost, repeated or out of order. -/

namespace Peripherals

namespace Chip

variable {chip after : Chip} {c d : Channel} {region : Region} {before polled : List Byte}
  {feeds : Channel → Option Region}

/-- What a producer put on the line so far: the program what it polled out, a channel what it moved
of its buffer. -/
def produced (chip : Chip) (feeds : Channel → Option Region) (polled : List Byte) :
    Option Channel → List Byte
  | none => polled
  | some c =>
    match feeds c with
    | none => []
    | some region => chip.movedBytes c region

/-- Some channels were given a buffer, the others are disabled, and the line carries an
interleaving of what was produced, behind what had been transmitted before. -/
structure Sharing (before : List Byte) (feeds : Channel → Option Region) (polled : List Byte)
    (chip : Chip) : Prop where
  line : chip.LineReady
  layout : chip.Layout
  idle : ∀ c, feeds c = none → chip.channelEnabled c = false ∧ (chip.latch c).active = false
  feed : ∀ c region, feeds c = some region → chip.Feed c region
  /-- A channel that is not active yet is programmed for its buffer. -/
  ready : ∀ c region, feeds c = some region → (chip.latch c).active = false → chip.Ready c region
  merged : ∃ out, chip.transmitted = before ++ out ∧ Interleaves (chip.produced feeds polled) out

theorem produced_of_same (same : ∀ c region, feeds c = some region →
      after.movedBytes c region = chip.movedBytes c region) (producer : Option Channel) :
    after.produced feeds polled producer = chip.produced feeds polled producer := by
  cases producer with
  | none => rfl
  | some c =>
    simp only [produced]
    split
    · rfl
    · next region fed => exact same c region fed

namespace Sharing

theorem of_undisturbed (sharing : Sharing before feeds polled chip)
    (undisturbed : Undisturbed chip after) : Sharing before feeds polled after where
  line := sharing.line.of_same undisturbed.line
  layout := sharing.layout.of_same undisturbed.memory
  idle c none_given := by
    rw [(undisturbed.channels c).enabled, (undisturbed.channels c).latch]
    exact sharing.idle c none_given
  feed c region fed := by
    apply (sharing.feed c region fed).of_same (undisturbed.channels c)
    rw [undisturbed.memory.1]
    exact (sharing.feed c region fed).registered
  ready c region fed inactive := by
    rw [(undisturbed.channels c).latch] at inactive
    exact (sharing.ready c region fed inactive).of_same (undisturbed.channels c)
  merged := by
    obtain ⟨out, transmitted, interleaves⟩ := sharing.merged
    refine ⟨out, undisturbed.transmitted.trans transmitted, interleaves.of_eq ?_⟩
    exact produced_of_same fun c _ _ => movedBytes_of_same (undisturbed.channels c)

/-- Where only one channel changed, it is enough to know that this channel works on a buffer. -/
theorem of_others {feeds' : Channel → Option Region} (sharing : Sharing before feeds polled chip)
    (others : ∀ d, d ≠ c → SameChannel d chip after) (given : ∀ d, d ≠ c → feeds' d = feeds d)
    (line : SameLine chip after)
    (memory : after.regions = chip.regions ∧ after.nextRegion = chip.nextRegion)
    (fed : feeds' c = some region) (feed : after.Feed c region)
    (ready : (after.latch c).active = false → after.Ready c region)
    (merged : ∃ out, after.transmitted = before ++ out ∧
      Interleaves (after.produced feeds' polled) out) : Sharing before feeds' polled after where
  line := sharing.line.of_same line
  layout := sharing.layout.of_same memory
  idle d none_given := by
    have ne : d ≠ c := by
      rintro rfl
      rw [fed] at none_given
      cases none_given
    rw [given d ne] at none_given
    rw [(others d ne).enabled, (others d ne).latch]
    exact sharing.idle d none_given
  feed d other given' := by
    by_cases same : d = c
    · subst same
      obtain rfl := Option.some.inj (given'.symm.trans fed)
      exact feed
    · rw [given d same] at given'
      apply (sharing.feed d other given').of_same (others d same)
      rw [memory.1]
      exact (sharing.feed d other given').registered
  ready d other given' inactive := by
    by_cases same : d = c
    · subst same
      obtain rfl := Option.some.inj (given'.symm.trans fed)
      exact ready inactive
    · rw [given d same] at given'
      rw [(others d same).latch] at inactive
      exact (sharing.ready d other given' inactive).of_same (others d same)
  merged := merged

/-- A channel that puts its next byte on the line extends its own part of the interleaving. -/
theorem of_sends (sharing : Sharing before feeds polled chip) (fed : feeds d = some region)
    (sends : Sends chip d region after) : Sharing before feeds polled after := by
  apply sharing.of_others sends.others (fun _ _ => rfl) sends.line sends.memory fed sends.feed
  · intro inactive
    rw [sends.active] at inactive
    cases inactive
  · obtain ⟨out, transmitted, interleaves⟩ := sharing.merged
    obtain ⟨byte, sent, moved⟩ := sends.sent
    refine ⟨out ++ [byte], by rw [sent, transmitted, List.append_assoc],
      interleaves.snoc (i := some d) ?_ ?_⟩
    · simp only [produced, fed]
      exact moved
    · intro producer ne
      cases producer with
      | none => rfl
      | some c =>
        have ne : c ≠ d := fun same => ne (congrArg some same)
        simp only [produced]
        split
        · rfl
        · exact movedBytes_of_same (sends.others c ne)

/-- Every channel's turn keeps the line shared. -/
theorem serve (sharing : Sharing before feeds polled chip) (d : Channel) :
    ∃ after, (serveChannel d).run chip = .ok () after ∧ Sharing before feeds polled after ∧
      after.regions = chip.regions := by
  simp only [serveChannel_eq_ok_iff]
  cases fed : feeds d with
  | none =>
    refine ⟨chip, .rest fun active => ?_, sharing, rfl⟩
    rw [(sharing.idle d fed).2] at active
    cases active
  | some region =>
    obtain ⟨turn, -⟩ | ⟨after, turn, sends⟩ :=
      (sharing.feed d region fed).turn sharing.layout sharing.line
    · exact ⟨chip, turn, sharing, rfl⟩
    · exact ⟨after, turn, sharing.of_sends fed sends, sends.memory.1⟩

theorem tick (sharing : Sharing before feeds polled chip) :
    ∃ after, Chip.tick.run chip = .ok () after ∧ Sharing before feeds polled after ∧
      after.regions = chip.regions := by
  have clocked : chip.clocked (.dma1 0) = true := sharing.line.dmaClocked
  rw [tick_eq, if_pos clocked]
  apply forM_returns (P := fun now => Sharing before feeds polled now ∧ now.regions = chip.regions)
  · rintro d now ⟨sharing, regions⟩
    obtain ⟨after, served, sharing', regions'⟩ := sharing.serve d
    exact ⟨after, served, sharing', regions'.trans regions⟩
  · exact ⟨sharing.of_undisturbed chip.countedDown_undisturbed, rfl⟩

theorem steady (before : List Byte) (feeds : Channel → Option Region) (polled : List Byte) :
    Steady (Sharing before feeds polled) where
  tick sharing := by
    obtain ⟨after, passed, sharing', -⟩ := sharing.tick
    exact ⟨after, passed, sharing'⟩
  undisturbed sharing undisturbed := sharing.of_undisturbed undisturbed

/-! ### Steps of the program -/

/-- A polled byte extends the program's part of the interleaving. -/
theorem of_polled (sharing : Sharing before feeds polled chip) (byte : Byte) :
    Sharing before feeds (polled ++ [byte]) (chip.write Serial.target (byte.setWidth 32)) := by
  have noted : Sharing before feeds polled (chip.noted Serial.target (byte.setWidth 32)) :=
    sharing.of_undisturbed (SameEngine.undisturbed ⟨rfl, rfl, rfl, rfl⟩ rfl)
  have wrote : chip.write Serial.target (byte.setWidth 32) =
      (chip.noted Serial.target (byte.setWidth 32)).transmit byte :=
    noted.line.toLineOn.store_data byte
  rw [wrote]
  generalize chip.noted Serial.target (byte.setWidth 32) = now at noted ⊢
  obtain ⟨line, layout, idle, feed, ready, out, transmitted, interleaves⟩ := noted
  have same (c : Channel) : SameChannel c now (now.transmit byte) := ⟨rfl, fun _ _ => rfl⟩
  have sameLine : SameLine now (now.transmit byte) := fun _ _ => rfl
  constructor
  · exact line.of_same sameLine
  · exact layout.of_same ⟨rfl, rfl⟩
  · exact idle
  · intro c region fed
    exact (feed c region fed).of_same (same c) (feed c region fed).registered
  · intro c region fed inactive
    exact (ready c region fed inactive).of_same (same c)
  · refine ⟨out ++ [byte], by rw [transmitted_transmit, transmitted, List.append_assoc],
      interleaves.snoc (i := none) rfl ?_⟩
    intro producer ne
    cases producer with
    | none => exact (ne rfl).elim
    | some c => rfl

/-- Sharing another buffer takes nothing from those that are shared. -/
theorem of_shared (sharing : Sharing before feeds polled chip) {bytes : Array Byte} {next : Word}
    (small : bytes.size < 0x100000000)
    (fits : regionAfter chip.nextRegion bytes.size = .ok next) :
    Sharing before feeds polled (chip.shared bytes next) := by
  have same (c : Channel) : SameChannel c chip (chip.shared bytes next) := ⟨rfl, fun _ _ => rfl⟩
  have sameLine : SameLine chip (chip.shared bytes next) := fun _ _ => rfl
  constructor
  · exact sharing.line.of_same sameLine
  · exact sharing.layout.shared small fits
  · exact sharing.idle
  · intro c region fed
    apply (sharing.feed c region fed).of_same (same c)
    exact List.mem_append_left _ (sharing.feed c region fed).registered
  · intro c region fed inactive
    exact (sharing.ready c region fed inactive).of_same (same c)
  · exact sharing.merged

/-- Programming an idle channel for a shared buffer adds it to the producers. -/
theorem of_programmed (sharing : Sharing before feeds polled chip) (free : feeds c = none)
    (member : region ∈ chip.regions) (short : region.bytes.size ≤ 0xFFFF)
    (programmed : Programmed chip c Serial.target region.base
      (BitVec.ofNat 32 region.bytes.size) after) :
    Sharing before (Function.update feeds c (some region)) polled after := by
  obtain ⟨disabled, inactive⟩ := sharing.idle c free
  have ready := programmed.ready disabled inactive
  have member' : region ∈ after.regions := by
    rw [programmed.confined.memory.1]
    exact member
  apply sharing.of_others programmed.confined.others (fun d ne => Function.update_of_ne ne _ _)
    programmed.confined.line programmed.confined.memory (Function.update_self _ _ _)
    (ready.feed member' short) (fun _ => ready)
  obtain ⟨out, transmitted, interleaves⟩ := sharing.merged
  refine ⟨out, programmed.confined.transmitted.trans transmitted, interleaves.of_eq ?_⟩
  intro producer
  cases producer with
  | none => rfl
  | some d =>
    simp only [produced]
    by_cases same : d = c
    · rw [same, Function.update_self, free]
      simp only
      rw [movedBytes, movedCount_eq_zero short ready.length, List.take_zero]
    · rw [Function.update_of_ne same]
      split
      · rfl
      · exact movedBytes_of_same (programmed.confined.others d same)

/-- Starting a channel that was given a buffer changes nothing that was produced. -/
theorem of_started {value : Word} (sharing : Sharing before feeds polled chip)
    (fed : feeds c = some region) (on : value &&& Dma1.enable ≠ 0) (streams : Streams value)
    (wrote : Controlled c value chip after) : Sharing before feeds polled after := by
  have feed := sharing.feed c region fed
  have started : after.Feed c region ∧ (after.latch c).active = true := by
    by_cases active : (chip.latch c).active = true
    · have latch := wrote.latch
      rw [if_neg on, ← feed.active_eq, if_pos active] at latch
      refine ⟨⟨?_, feed.short, ?_, ?_, ?_, ?_⟩, by rw [latch]; exact active⟩
      · rw [wrote.confined.memory.1]
        exact feed.registered
      · rw [wrote.itemsLeft]
        exact feed.count_le
      · rw [latch, active, wrote.enabled, eq_comm, bne_iff_ne]
        exact on
      · rw [latch, movedCount, wrote.itemsLeft]
        exact feed.working
      · intro _
        rw [wrote.control]
        exact streams
    · exact (sharing.ready c region fed (by simpa using active)).start feed.registered feed.short on
        streams wrote
  apply sharing.of_others wrote.confined.others (fun _ _ => rfl) wrote.confined.line
    wrote.confined.memory fed started.1
  · intro off
    rw [started.2] at off
    cases off
  · obtain ⟨out, transmitted, interleaves⟩ := sharing.merged
    refine ⟨out, wrote.confined.transmitted.trans transmitted, interleaves.of_eq ?_⟩
    apply produced_of_same
    intro d other given
    by_cases same : d = c
    · rw [same, movedBytes, movedCount, wrote.itemsLeft, movedBytes, movedCount]
    · exact movedBytes_of_same (wrote.confined.others d same)

end Sharing

end Chip

end Peripherals
