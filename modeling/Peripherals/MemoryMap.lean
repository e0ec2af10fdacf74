import Peripherals.Port

/-! # Memory map

Base addresses, register offsets and bit positions of the four kinds of block
the drivers use: clock control, GPIO ports, USART3 and DMA1. The DMA controller
has the channel layout: two shared registers, then four registers for each of
seven channels. Addresses of a channel's registers and positions of its flags
are also given in checked form, for a channel number that may be out of range. -/

namespace Peripherals

/-! ## Reset and clock control -/

namespace Rcc

def base : Word := 0x44020C00

def ahb1enr : Word := base + 0x088
def ahb2enr : Word := base + 0x08C
def apb1lenr : Word := base + 0x09C
def ccipr1 : Word := base + 0x0D8

/-- Clock enable bit of DMA1, in `ahb1enr`. -/
def dma1Enable : Word := 1

/-- Clock enable bit of USART3, in `apb1lenr`. -/
def usart3Enable : Word := 1 <<< 18

/-- Position of the field of `ccipr1` that selects USART3's kernel clock. -/
def usart3SelectShift : Byte := 6

/-- Width of the field of `ccipr1` that selects USART3's kernel clock. -/
def usart3SelectWidth : Byte := 3

/-- Clock enable bit of a GPIO port, in `ahb2enr`. -/
def portEnable (port : Port) : Word := 1 <<< port.index

/-- Clock enable bit at a port position that may lie outside the register. -/
def portEnableAt (index : Byte) : Except Fault Word :=
  Checked.shiftLeft 1 index

theorem portEnableAt_index (port : Port) :
    portEnableAt (BitVec.ofNat 8 port.index) = .ok (portEnable port) := by
  cases port <;> rfl

end Rcc

/-! ## General-purpose input and output -/

namespace Gpio

def base : Word := 0x42020000

/-- Distance between the blocks of neighbouring ports. -/
def stride : Word := 0x400

def moder : Word := 0x00
def otyper : Word := 0x04
def ospeedr : Word := 0x08
def pupdr : Word := 0x0C
def idr : Word := 0x10
def odr : Word := 0x14

/-- Set and reset register: the low half sets bits of `odr`, the high half resets them. -/
def bsrr : Word := 0x18
def lckr : Word := 0x1C
def afrl : Word := 0x20
def afrh : Word := 0x24

/-- Reset register: the low half resets bits of `odr`. -/
def brr : Word := 0x28

/-- Position of the reset half of `bsrr`. -/
def resetShift : Byte := 16

end Gpio

/-- Base address of a port's registers. -/
def Port.base (port : Port) : Word :=
  Gpio.base + Gpio.stride * BitVec.ofNat 32 port.index

/-! ## USART3 -/

namespace Usart3

def base : Word := 0x40004800

def cr1 : Word := 0x00
def cr2 : Word := 0x04
def cr3 : Word := 0x08
def brr : Word := 0x0C
def isr : Word := 0x1C
def icr : Word := 0x20
def rdr : Word := 0x24
def tdr : Word := 0x28

/-- Peripheral enable, in `cr1`. -/
def enable : Word := 1 <<< 0

/-- Receiver enable, in `cr1`. -/
def receiverEnable : Word := 1 <<< 2

/-- Transmitter enable, in `cr1`. -/
def transmitterEnable : Word := 1 <<< 3

/-- DMA requests on reception, in `cr3`. -/
def dmaReceive : Word := 1 <<< 6

/-- DMA requests on transmission, in `cr3`. -/
def dmaTransmit : Word := 1 <<< 7

/-- Receive register not empty, in `isr`. -/
def rxne : Word := 1 <<< 5

/-- Transmission complete, in `isr`. -/
def tc : Word := 1 <<< 6

/-- Transmit register empty, in `isr`. -/
def txe : Word := 1 <<< 7

/-- Clears `tc`, in `icr`. -/
def tcClear : Word := 1 <<< 6

end Usart3

/-! ## DMA1 -/

/-- A DMA channel, counted from zero here and from one in its number. -/
abbrev Channel := Fin 7

/-- All channels, in the order in which they are served. -/
def Channel.all : List Channel := List.finRange 7

/-- The number of a channel, from one. -/
def Channel.number (c : Channel) : Byte :=
  BitVec.ofNat 8 (c.val + 1)

namespace Dma1

def base : Word := 0x40020000

def isr : Word := 0x00

/-- Flag clear register: a one clears the same bit of `isr`. -/
def ifcr : Word := 0x04

/-- Offset of the first channel's registers. -/
def channelBase : Word := 0x08

/-- Distance between the registers of neighbouring channels. -/
def channelStride : Word := 0x14

/-- How many channels there are. -/
def channelCount : Byte := 7

def ccr : Word := 0x00
def cndtr : Word := 0x04
def cpar : Word := 0x08
def cmar : Word := 0x0C

def enable : Word := 1 <<< 0
def completeInterrupt : Word := 1 <<< 1
def halfInterrupt : Word := 1 <<< 2
def errorInterrupt : Word := 1 <<< 3

/-- Direction bit: set for a transfer that reads memory. -/
def fromMemory : Word := 1 <<< 4
def circular : Word := 1 <<< 5
def peripheralIncrement : Word := 1 <<< 6
def memoryIncrement : Word := 1 <<< 7
def peripheralSizeShift : Byte := 8
def memorySizeShift : Byte := 10
def priorityShift : Byte := 12
def memoryToMemory : Word := 1 <<< 14

/-- Largest item count, since the count has sixteen bits. -/
def countMax : Word := 0xFFFF

def globalFlag : Word := 1 <<< 0
def completeFlag : Word := 1 <<< 1
def halfFlag : Word := 1 <<< 2
def errorFlag : Word := 1 <<< 3

/-- The four flags of one channel, before they are moved to its place. -/
def channelFlags : Word := 0xF

/-- Address of a register of a channel. -/
def register (c : Channel) (offset : Word) : Word :=
  base + channelBase + channelStride * BitVec.ofNat 32 c.val + offset

/-- Flags moved to a channel's place in `isr` and `ifcr`. -/
def flagsOf (c : Channel) (flags : Word) : Word :=
  flags <<< (4 * c.val)

/-- Address of a register of the channel with a number from one, in a controller at `origin`. -/
def registerAt (origin : Word) (number : Byte) (offset : Word) : Except Fault Word := do
  let first ← Checked.add origin channelBase
  let index ← Checked.sub (number.setWidth 32) 1
  let distance ← Checked.mul channelStride index
  let start ← Checked.add first distance
  Checked.add start offset

/-- Position of the flags of the channel with a number from one. -/
def flagShift (number : Byte) : Except Fault Word := do
  let index ← Checked.sub (number.setWidth 32) 1
  Checked.mul 4 index

theorem registerAt_number_eq_add : ∀ (c : Channel) (offset : Word),
    registerAt base (Channel.number c) offset = Checked.add (register c 0) offset
  | 0, _ | 1, _ | 2, _ | 3, _ | 4, _ | 5, _ | 6, _ => rfl

theorem register_toNat_le : ∀ c : Channel, (register c 0).toNat ≤ 0x40020080 := by
  decide

theorem registerAt_number (c : Channel) {offset : Word} (h : offset.toNat < 0x14) :
    registerAt base (Channel.number c) offset = .ok (register c offset) := by
  have below := register_toNat_le c
  have fits : (register c 0).uaddOverflow offset = false := by
    rw [BitVec.uaddOverflow, decide_eq_false_iff_not]
    omega
  rw [registerAt_number_eq_add, Checked.add_eq_ok fits]
  simp [register]

theorem flagShift_number : ∀ c : Channel,
    flagShift (Channel.number c) = .ok (BitVec.ofNat 32 (4 * c.val))
  | 0 | 1 | 2 | 3 | 4 | 5 | 6 => rfl

end Dma1

end Peripherals
