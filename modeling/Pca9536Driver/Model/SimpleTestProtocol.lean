import Pca9536Driver.Model.Conversion

/-!
# SimpleTestProtocol

The protocol module: `Init` and `Execute` of `simple_test_protocol.cpp`, statement by
statement. A scan has two passes over the channels. The first one decides which of the
shared strings are needed (`Need.mark`) and refreshes them (`refresh`); the second one
publishes the input channels (`publish`) and drives the output channels (`drive`).

Both passes follow the pointer `m_var` of every engaged parameter. A null pointer there
is undefined behaviour and ends the scan without a result: `execute` is `none`.

`Emulator`, whose `init` is empty, is left out.
-/

set_option autoImplicit false

namespace Pca9536Driver.Model

open Pca9536Driver.Library

/-- An instance of the class. `emulator` is left out.
SOURCE: simple_test_protocol.h:6-11 -/
structure SimpleTestProtocol where
  channels : List ScadaChannel
  mask : BitVec 8
  usbModConned : Bool

/-- An instance together with the process it runs in. -/
structure Runtime where
  self : SimpleTestProtocol
  proc : Process

namespace Runtime

/-- `ch->Write(LuaProvider(), value)` on a channel with a resolved input variable.
SOURCE: scada_channel.h:94-101 -/
def write (r : Runtime) (var : Variable) (value : Value) : Runtime :=
  { r with proc := r.proc.emit (.write var value) }

/-- `system(cmd)`. -/
def system (r : Runtime) (cmd : Bytes) : Runtime := { r with proc := r.proc.system cmd }

/-- `exec_command(cmd)`, with what follows it. -/
def exec (r : Runtime) (env : Env) (cmd : Bytes) (next : Bytes → Runtime → Runtime) : Runtime :=
  let (out, proc) := execCommand env cmd r.proc
  next out { r with proc := proc }

/-- An assignment to `mask`. -/
def setMask (r : Runtime) (mask : BitVec 8) : Runtime :=
  { r with self := { r.self with mask := mask } }

/-- An assignment to `USB_MOD_CONNED`. -/
def setConned (r : Runtime) (b : Bool) : Runtime :=
  { r with self := { r.self with usbModConned := b } }

end Runtime

/-- The constructor. It leaves `mask` uninitialised, so any value may stand there.
SOURCE: simple_test_protocol.cpp:80-82, simple_test_protocol.h:8-11 -/
def SimpleTestProtocol.new (mask : BitVec 8) : SimpleTestProtocol := ⟨[], mask, false⟩

/-- `SimpleTestProtocol::Create(channel)`: a channel without parameters, behind the others.
SOURCE: simple_test_protocol.cpp:308-312 -/
def SimpleTestProtocol.create (self : SimpleTestProtocol) : SimpleTestProtocol :=
  { self with channels := self.channels ++ [⟨none, none⟩] }

/-- `SimpleTestProtocol::Init()`.
SOURCE: simple_test_protocol.cpp:89-93 -/
def init (r : Runtime) : Runtime :=
  (r.setMask 0xFF).system (lit "i2cset -y 2 0x41 0x03 0x00")

/-! ## First pass -/

/-- The flags `need_…` of a scan. -/
abbrev Need := Cache → Bool

/-- The flags a channel of this name sets.
SOURCE: simple_test_protocol.cpp:120-127 -/
def Need.mark (need : Need) (path : Bytes) : Need :=
  if path = lit "CPU_TEMP" then Function.update need .cpuTemp true
  else if path = lit "CPU_LOAD" then Function.update need .cpuLoad true
  else if path = lit "RAM_PERCENT" then Function.update need .ramPercent true
  else if path = lit "DISK_PERCENT" then Function.update need .diskPercent true
  else if path = lit "UPTIME" then Function.update need .uptime true
  else if path = lit "MODEM_STATUS" ∨ path = lit "MODEM_IFACE" then
    Function.update need .modemCheck true
  else if contains path (lit "USB_FLASH_") then Function.update need .usbMount true
  else if contains path (lit "SD_CARD_") then Function.update need .sdMount true
  else need

/-- The first loop over the channels.
SOURCE: simple_test_protocol.cpp:117-129 -/
def collectNeeds (channels : List ScadaChannel) : Option Need :=
  channels.foldlM (fun need ch =>
    match ch.inVar with
    | none => some need
    | some param =>
      match param.m_var with
      | none => none
      | some var => some (need.mark var.projectPath)) (fun _ => false)

/-- The command each of the shared strings is refreshed with.
SOURCE: simple_test_protocol.cpp:133-154 -/
def Cache.command : Cache → Bytes
  | .cpuTemp => lit "cat /sys/class/thermal/thermal_zone0/temp"
  | .cpuLoad => lit "top -b -n1 | grep \"Cpu(s)\" | awk '\x7bprint $2 + $4\x7d'"
  | .ramPercent => lit "free | grep Mem | awk '\x7bprint $3/$2 * 100.0\x7d'"
  | .diskPercent => lit "df -h / | awk 'NR==2\x7bprint $5\x7d' | tr -d '%'"
  | .uptime => lit "awk '\x7bprint $1\x7d' /proc/uptime"
  | .modemCheck => lit "ls /sys/class/net/ | grep 'usb0'"
  | .usbMount => lit "mount | grep '/media/usb'"
  | .sdMount => lit "mount | grep '/media/sdcard'"

/-- The order in which `Execute` looks at the flags. -/
def Cache.all : List Cache :=
  [.cpuTemp, .cpuLoad, .ramPercent, .diskPercent, .uptime, .modemCheck, .usbMount, .sdMount]

/-- `if (need_…) …_cache = exec_command(…);` for one of the strings. -/
def refreshOne (env : Env) (need : Need) (r : Runtime) (c : Cache) : Runtime :=
  if need c then
    r.exec env c.command fun out r =>
      { r with proc := { r.proc with caches := Function.update r.proc.caches c out } }
  else r

/-- The refresh of the shared strings.
SOURCE: simple_test_protocol.cpp:131-155 -/
def refresh (env : Env) (need : Need) (r : Runtime) : Runtime :=
  Cache.all.foldl (refreshOne env need) r

/-! ## Second pass: input channels -/

/-- The size of a medium as published: the megabytes `df` prints, in gigabytes, rounded
up to a power of two.
SOURCE: simple_test_protocol.cpp:217-219 -/
def mediaSize (A : Arithmetic) (sizeStr : Bytes) : Int16 :=
  let sizeMb := atofWith A.double sizeStr
  let sizeGb := A.double.divConst 1024 sizeMb
  roundToPowerOfTwo sizeGb

/-- The branches for the size, the used space and the percentage of a medium: 0 if it is
not mounted, else a command and what is made of its output.
SOURCE: simple_test_protocol.cpp:213-221 -/
def publishMedia (env : Env) (var : Variable) (mountCache : Bytes) (cmd : Bytes)
    (convert : Bytes → Option Int16) (r : Runtime) : Runtime :=
  if mountCache = [] then r.write var (.int16 (some 0))
  else r.exec env cmd fun out r => r.write var (.int16 (convert out))

/-- The chain of branches for an input channel.
SOURCE: simple_test_protocol.cpp:162-274 -/
def publish (env : Env) (var : Variable) (r : Runtime) : Runtime :=
  let path := var.projectPath
  let cache := r.proc.caches
  let toInt16 := toInt16 env.arith
  if path = lit "CPU_TEMP" then r.write var (.int16 (toInt16 (cache .cpuTemp) 0.001))
  else if path = lit "CPU_LOAD" then r.write var (.int16 (toInt16 (cache .cpuLoad) 1))
  else if path = lit "RAM_PERCENT" then r.write var (.int16 (toInt16 (cache .ramPercent) 1))
  else if path = lit "DISK_PERCENT" then r.write var (.int16 (toInt16 (cache .diskPercent) 1))
  else if path = lit "UPTIME" then
    r.write var (.int16 (uptimeSecondsToHours env.arith (cache .uptime)))
  else if path = lit "SYS_TIME" then
    r.exec env (lit "date \"+%Y-%m-%d %H:%M:%S\"") fun time r => r.write var (.string time)
  else if path = lit "RTC_TIME" then
    r.exec env (lit "hwclock -r -f /dev/rtc0") fun rtc r => r.write var (.string rtc)
  else if path = lit "MODEM_STATUS" then
    if contains (cache .modemCheck) (lit "usb0") then
      r.exec env (lit "ip link show usb0 | awk '\x7bprint $9\x7d' | head -n 1") fun status r =>
        r.write var (.string status)
    else r.write var (.string (lit "NOT CONNECTED"))
  else if path = lit "MODEM_IFACE" then
    if contains (cache .modemCheck) (lit "usb0") then
      (r.setConned true).write var (.string (lit "/sys/class/net/usb0"))
    else (r.setConned false).write var (.string (lit "NOT CONNECTED"))
  else if path = lit "USB_FLASH_DEV" then
    r.write var (.string (if cache .usbMount = [] then lit "NOT CONNECTED" else lit "/media/usb"))
  else if path = lit "USB_FLASH_SIZE" then
    publishMedia env var (cache .usbMount) (lit "df -m /media/usb | awk 'NR==2\x7bprint $2\x7d'")
      (fun out => some (mediaSize env.arith out)) r
  else if path = lit "USB_FLASH_USED" then
    publishMedia env var (cache .usbMount) (lit "df -m /media/usb | awk 'NR==2\x7bprint $3\x7d'")
      (toInt16 · 1) r
  else if path = lit "USB_FLASH_PERC" then
    publishMedia env var (cache .usbMount) (lit "df -m /media/usb | awk 'NR==2\x7bprint $5\x7d'")
      (toInt16 · 1) r
  else if path = lit "SD_CARD_DEV" then
    r.write var (.string (if cache .sdMount = [] then lit "NOT CONNECTED" else lit "/media/sdcard"))
  else if path = lit "SD_CARD_SIZE" then
    publishMedia env var (cache .sdMount) (lit "df -m /media/sdcard | awk 'NR==2\x7bprint $2\x7d'")
      (fun out => some (mediaSize env.arith out)) r
  else if path = lit "SD_CARD_USED" then
    publishMedia env var (cache .sdMount) (lit "df -m /media/sdcard | awk 'NR==2\x7bprint $3\x7d'")
      (toInt16 · 1) r
  else if path = lit "SD_CARD_PERC" then
    publishMedia env var (cache .sdMount) (lit "df -m /media/sdcard | awk 'NR==2\x7bprint $5\x7d'")
      (toInt16 · 1) r
  else r

/-! ## Second pass: output channels -/

/-- `if (buff == "true") mask &= ~(1 << b); else mask |= (1 << b);` -/
def assignBit (buff : Bytes) (b : ℕ) (mask : BitVec 8) : BitVec 8 :=
  if buff = lit "true" then mask &&& ~~~(1#8 <<< b) else mask ||| (1#8 <<< b)

/-- The text of the command that writes a mask to the output register.
SOURCE: simple_test_protocol.cpp:302 -/
def outputCommand (mask : BitVec 8) : Bytes :=
  lit "i2cset -y 2 0x41 0x01 " ++ decimal mask.toNat

/-- The chain of branches for an output channel with the string read from it, and the
write of the mask that follows whatever branch is taken.
SOURCE: simple_test_protocol.cpp:282-303 -/
def drive (path buff : Bytes) (r : Runtime) : Runtime :=
  let r :=
    if path = lit "BLUE_LED" then r.setMask (assignBit buff 3 r.self.mask)
    else if path = lit "RED_LED" then r.setMask (assignBit buff 0 r.self.mask)
    else if path = lit "BUZZER" then r.setMask (assignBit buff 2 r.self.mask)
    else if path = lit "USB_POWER" then
      r.system (if buff = lit "true" then lit "gpioset 0 268=0" else lit "gpioset 0 268=1")
    else if path = lit "DOUT" then r.setMask (assignBit buff 1 r.self.mask)
    else r
  r.system (outputCommand r.self.mask)

/-! ## The scan -/

/-- The input part of the second loop for one channel. -/
def inputPart (env : Env) (ch : ScadaChannel) (r : Runtime) : Option Runtime :=
  match ch.inVar with
  | none => some r
  | some param =>
    match param.m_var with
    | none => none
    | some var => some (publish env var r)

/-- The output part of the second loop for one channel: `Read` and `GetString`, then the
chain of branches.
SOURCE: simple_test_protocol.cpp:277-304 -/
def outputPart (env : Env) (ch : ScadaChannel) (r : Runtime) : Option Runtime :=
  match ch.outVar with
  | none => some r
  | some param =>
    match param.m_var with
    | none => none
    | some var =>
      let buff := env.read r.proc.log var
      some (drive var.projectPath buff { r with proc := r.proc.emit (.read var buff) })

/-- The body of the second loop. -/
def processChannel (env : Env) (r : Runtime) (ch : ScadaChannel) : Option Runtime :=
  (inputPart env ch r).bind (outputPart env ch)

/-- `SimpleTestProtocol::Execute()`; `none` if it follows a null pointer.
SOURCE: simple_test_protocol.cpp:95-306 -/
def execute (env : Env) (r : Runtime) : Option Runtime :=
  (collectNeeds r.self.channels).bind fun need =>
    r.self.channels.foldlM (processChannel env) (refresh env need r)

/-- `Execute` again and again. -/
def scans (env : Env) : ℕ → Runtime → Option Runtime
  | 0, r => some r
  | n + 1, r => (scans env n r).bind (execute env)

end Pca9536Driver.Model
