import Peripherals.Driver.Dma
import Peripherals.Held
import Peripherals.Text
import Peripherals.Timing.BaudRate

/-! # Serial communication

USART3 for polled transmission of bytes, text and decimal numbers, for polled
reception, and for transmission that a DMA channel feeds. Every wait lasts until
its flag is set, for as long as there are ticks. -/

namespace Peripherals

/-- How the line is set up. -/
structure SerialConfig where
  divisor : Word
  /-- Whether a DMA channel may feed the transmitter. -/
  dmaTransmit : Bool
  receiver : Bool
  deriving DecidableEq

/-- The console's rate, with the receiver on and without DMA. -/
def SerialConfig.default : SerialConfig := ⟨BaudRate.consoleDivisor, false, true⟩

/-- The serial line, as it was set up. -/
structure Serial where
  config : SerialConfig

namespace Serial

variable {δ : Type} [Target δ]

/-- Set up the line. The control registers are cleared first, since the divisor may only be
written while the peripheral is off. A divisor of zero is noticed after the last write, when
the rate that it gives is computed. -/
def setUp (config : SerialConfig) : BusM δ Serial := do
  Bus.write (Usart3.base + Usart3.cr1) 0
  Bus.write (Usart3.base + Usart3.cr2) 0
  Bus.write (Usart3.base + Usart3.cr3) 0
  Bus.write (Usart3.base + Usart3.brr) config.divisor
  if config.dmaTransmit then
    Bus.write (Usart3.base + Usart3.cr3) Usart3.dmaTransmit
  Bus.write (Usart3.base + Usart3.cr1)
    (Usart3.transmitterEnable ||| Usart3.enable |||
      (if config.receiver then Usart3.receiverEnable else 0))
  let _ ← BaudRate.ofDivisor BaudRate.kernelClock config.divisor
  pure ⟨config⟩

/-! ## Polled transmission and reception -/

/-- Transmit one byte as soon as the transmitter can take it. -/
def sendByte (byte : Byte) : BusM δ Unit := do
  Bus.waitSet (Usart3.base + Usart3.isr) Usart3.txe
  Bus.write (Usart3.base + Usart3.tdr) (byte.setWidth 32)

/-- Transmit bytes in order. -/
def send (bytes : List Byte) : BusM δ Unit :=
  forM bytes sendByte

/-- Transmit a text up to its first NUL. -/
def sendText (text : String) : BusM δ Unit :=
  send ((Text.bytes text).takeWhile (· != 0))

/-- Transmit a whole text, NULs included. -/
def sendWhole (text : String) : BusM δ Unit :=
  send (Text.bytes text)

/-- Transmit bytes, and tell how many there were. -/
def sendCounted (bytes : List Byte) : BusM δ Nat := do
  send bytes
  pure bytes.length

/-- Transmit a number in decimal digits. They come out lowest first and go out highest first. -/
def sendDecimal (n : Word) : BusM δ Unit :=
  if n = 0 then
    sendByte 0x30
  else do
    let digits ← Text.collectDigits n .empty
    send digits.collected.reverse

/-- Wait for a received byte and take it. -/
def receive : BusM δ Byte := do
  Bus.waitSet (Usart3.base + Usart3.isr) Usart3.rxne
  let value ← Bus.read (Usart3.base + Usart3.rdr)
  pure (value.setWidth 8)

/-- Wait until the transmitter reports that it has sent everything. -/
def flush : BusM δ Unit :=
  Bus.waitSet (Usart3.base + Usart3.isr) Usart3.tc

/-! ## Transmission by DMA -/

/-- The transmit register's address, as the target of a channel. -/
def target : Word := Usart3.base + Usart3.tdr

/-- Let a DMA channel feed the transmitter. -/
def enableDma : HeldM δ Serial Unit := do
  Held.onBus (Bus.setBits (Usart3.base + Usart3.cr3) Usart3.dmaTransmit)
  Held.change fun serial => { serial with config.dmaTransmit := true }

/-- Start a channel that transmits a buffer. Requests are enabled before the channel starts,
and the completion flag is cleared, so that it reports this transfer. -/
def sendBuffer (buffer : Buffer) (c : Channel) (config : ChannelConfig) :
    HeldM δ Serial Unit := do
  enableDma
  Held.onBus do
    Bus.write (Usart3.base + Usart3.icr) Usart3.tcClear
    let source ← Bus.share buffer
    Dma.configure c target source (BitVec.ofNat 32 buffer.bytes.size)
    Dma.start c config

end Serial

end Peripherals
