import Peripherals.Chip.State
import Peripherals.Text

/-! # Transcripts

What has been observed of the chip, as lines of text. Bytes that are transmitted
one after the other share a line. -/

namespace Peripherals.Bench

/-- A line of a transcript. -/
inductive Entry
  | transmitted (bytes : List Byte)
  | levelChanged (pin : PinId) (level : Level)
  | breakpoint

namespace Entry

/-- Put an event in front of the entries of what follows. -/
def cons (event : Event) (entries : List Entry) : List Entry :=
  match event, entries with
  | .transmitted byte, .transmitted bytes :: rest => .transmitted (byte :: bytes) :: rest
  | .transmitted byte, entries => .transmitted [byte] :: entries
  | .levelChanged pin level, entries => .levelChanged pin level :: entries
  | .breakpoint, entries => .breakpoint :: entries

/-- The events that an entry stands for. -/
def events : Entry → List Event
  | .transmitted bytes => bytes.map .transmitted
  | .levelChanged pin level => [.levelChanged pin level]
  | .breakpoint => [.breakpoint]

/-- The text of an entry. -/
def line : Entry → String
  | .transmitted bytes => "tx " ++ Text.hexPairs bytes
  | .levelChanged pin level =>
    "pin " ++ pin.port.letter ++ toString pin.number.toNat ++ " " ++ toString level.bit.toNat
  | .breakpoint => "bkpt"

theorem flatMap_events_cons (event : Event) (entries : List Entry) :
    (cons event entries).flatMap events = event :: entries.flatMap events := by
  unfold cons
  split <;> simp [events]

end Entry

/-- The entries of events, in order. -/
def entries (events : List Event) : List Entry :=
  events.foldr Entry.cons []

theorem flatMap_events_entries (events : List Event) :
    (entries events).flatMap Entry.events = events := by
  induction events with
  | nil => rfl
  | cons event rest ih => simpa [entries, Entry.flatMap_events_cons] using ih

/-- The lines of events. -/
def transcript (events : List Event) : List String :=
  (entries events).map Entry.line

end Peripherals.Bench
