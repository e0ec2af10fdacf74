import Peripherals.Application.StatusReport
import Peripherals.Application.StreamTest

/-! # Handles of a script

The drivers and applications that a script has set up so far. A step for one
that was never set up fails with the slot that is empty, and changes nothing. -/

namespace Peripherals.Bench

/-- A place for a driver or application. -/
inductive Slot
  | pin
  | leds
  | serial
  | dma
  | delay
  | status
  | stream
  deriving DecidableEq

/-- The name of a slot in a report. -/
def Slot.name : Slot → String
  | .pin => "pin"
  | .leds => "leds"
  | .serial => "uart"
  | .dma => "dma"
  | .delay => "delay"
  | .status => "blink"
  | .stream => "stress"

/-- Why a step failed. -/
inductive Failure
  | fault (cause : Fault)
  | missing (slot : Slot)
  deriving DecidableEq

/-- The text of a failure in a report. -/
def Failure.message : Failure → String
  | .fault cause => cause.message
  | .missing slot => slot.name

/-- What has been set up. -/
structure Handles where
  pins : List (String × PinId)
  leds : Option Leds
  serial : Option Serial
  dma : Bool
  delay : Option Delay
  status : Option StatusReport
  stream : Option StreamTest

namespace Handles

/-- Nothing set up. -/
def none : Handles := ⟨[], .none, .none, false, .none, .none, .none⟩

/-- The pin with a name. Three names belong to the LEDs. -/
def pin? (handles : Handles) (name : String) : Option PinId :=
  match name with
  | "ld1" => handles.leds.map (·.green)
  | "ld2" => handles.leds.map (·.yellow)
  | "ld3" => handles.leds.map (·.red)
  | _ => handles.pins.lookup name

/-- Keep a new pin under a name, in place of an older one. -/
def addPin (handles : Handles) (name : String) (pin : PinId) : Handles :=
  { handles with pins := (name, pin) :: handles.pins.filter (·.1 != name) }

/-- Replace the pin with a name, which may be one of the LEDs'. -/
def setPin (handles : Handles) (name : String) (pin : PinId) : Handles :=
  match name with
  | "ld1" => { handles with leds := handles.leds.map ({ · with green := pin }) }
  | "ld2" => { handles with leds := handles.leds.map ({ · with yellow := pin }) }
  | "ld3" => { handles with leds := handles.leds.map ({ · with red := pin }) }
  | _ => handles.addPin name pin

end Handles

end Peripherals.Bench
