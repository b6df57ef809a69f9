import Pca9536Driver.Model.Process

/-!
# TestFB

The function block: `TestFB::Execute` of `test_fb.cpp`. The runtime sets the five inputs
between two calls; the rest of the object is the memory of the block. `Execute` is
divided as in the source: the mask, the one-time write of the direction register, the
edge and the counter of the USB reset pulse, the two commands at the end.
-/

set_option autoImplicit false

namespace Pca9536Driver.Model

open Pca9536Driver.Library

/-- The input parameters of the block.
SOURCE: test_fb.cpp:42-48 -/
structure TestFBInputs where
  blueLed : Bool
  redLed : Bool
  buzzer : Bool
  usbPower : Bool
  dout : Bool
  deriving DecidableEq

/-- The function block: its inputs and its memory.
SOURCE: test_fb.h:4-15 -/
structure TestFB where
  inputs : TestFBInputs
  wasUsbPower : Bool
  usbReset : Bool
  usbCounter : Int16
  initCM : Bool
  deriving DecidableEq

namespace TestFB

/-- The block the SDK creates: `new T()` zero-initialises it.
SOURCE: type.h:101-105, test_fb.h:15 -/
def new : TestFB := ⟨⟨false, false, false, false, false⟩, false, false, 0, false⟩

/-- `if (on) { mask = mask & ~((uint8_t)1 << b); }` -/
def clearBit (on : Bool) (b : ℕ) (mask : BitVec 8) : BitVec 8 :=
  if on then mask &&& ~~~(1#8 <<< b) else mask

/-- The mask, rebuilt from 0xFF in every call.
SOURCE: test_fb.cpp:5-11 -/
def mask (fb : TestFB) : BitVec 8 :=
  clearBit fb.inputs.dout 1
    (clearBit fb.inputs.buzzer 2 (clearBit fb.inputs.redLed 0 (clearBit fb.inputs.blueLed 3 0xFF)))

/-- The direction register is written in the first call only.
SOURCE: test_fb.cpp:13-16 -/
def initStep (fb : TestFB) (p : Process) : TestFB × Process :=
  if !fb.initCM then
    ({ fb with initCM := true }, p.system (lit "i2cset -y 2 0x41 0x03 0x00"))
  else (fb, p)

/-- A rising edge of `USB_Power` starts the pulse.
SOURCE: test_fb.cpp:18 -/
def edgeStep (fb : TestFB) : TestFB :=
  if !fb.wasUsbPower && fb.inputs.usbPower then { fb with usbReset := true, usbCounter := 0 }
  else fb

/-- A running pulse is counted and ends behind the count of 100.
SOURCE: test_fb.cpp:20-24 -/
def countStep (fb : TestFB) : TestFB :=
  if fb.usbReset then
    let fb := { fb with usbCounter := fb.usbCounter + 1 }
    if 100 < fb.usbCounter then { fb with usbReset := false, usbCounter := 0 } else fb
  else fb

/-- The command for the USB power line.
SOURCE: test_fb.cpp:26-33 -/
def usbCommand (fb : TestFB) : Bytes :=
  if fb.usbReset then lit "gpioset 0 268=0" else lit "gpioset 0 268=1"

/-- The text of the command that writes a mask to the output register.
SOURCE: test_fb.cpp:35 -/
def outputCommand (mask : BitVec 8) : Bytes :=
  lit "i2cset -y 2 0x41 0x01 " ++ decimal mask.toNat

/-- `TestFB::Execute()`.
SOURCE: test_fb.cpp:3-40 -/
def execute (fb : TestFB) (p : Process) : TestFB × Process :=
  let mask := fb.mask
  let (fb, p) := fb.initStep p
  let fb := fb.edgeStep.countStep
  let p := p.system fb.usbCommand
  let p := p.system (outputCommand mask)
  ({ fb with wasUsbPower := fb.inputs.usbPower }, p)

/-- The runtime sets the inputs and calls `Execute`. -/
def call (i : TestFBInputs) (s : TestFB × Process) : TestFB × Process :=
  execute { s.1 with inputs := i } s.2

end TestFB

end Pca9536Driver.Model
