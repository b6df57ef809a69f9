import Pca9536Driver.Library.Assignment
import Pca9536Driver.Model.SimpleTestProtocol

/-!
# The diagnostic channels

What the input side of the protocol module is for: 17 named channels, each with a probe
command whose output it is made from and, for some of them, a second command that runs
only if the probe found the device.

`publish_of_name` and `publish_of_unknown` connect the table to the chain of branches in
`Execute`.
-/

set_option autoImplicit false

namespace Pca9536Driver.Interface

open Pca9536Driver.Library Pca9536Driver.Model

/-- The names the input side knows. -/
inductive Diagnostic where
  | cpuTemp | cpuLoad | ramPercent | diskPercent | uptime | sysTime | rtcTime
  | modemStatus | modemIface
  | usbDev | usbSize | usbUsed | usbPerc
  | sdDev | sdSize | sdUsed | sdPerc
  deriving DecidableEq

namespace Diagnostic

/-- The project path of a diagnostic variable. -/
def name : Diagnostic → Bytes
  | cpuTemp => lit "CPU_TEMP"
  | cpuLoad => lit "CPU_LOAD"
  | ramPercent => lit "RAM_PERCENT"
  | diskPercent => lit "DISK_PERCENT"
  | uptime => lit "UPTIME"
  | sysTime => lit "SYS_TIME"
  | rtcTime => lit "RTC_TIME"
  | modemStatus => lit "MODEM_STATUS"
  | modemIface => lit "MODEM_IFACE"
  | usbDev => lit "USB_FLASH_DEV"
  | usbSize => lit "USB_FLASH_SIZE"
  | usbUsed => lit "USB_FLASH_USED"
  | usbPerc => lit "USB_FLASH_PERC"
  | sdDev => lit "SD_CARD_DEV"
  | sdSize => lit "SD_CARD_SIZE"
  | sdUsed => lit "SD_CARD_USED"
  | sdPerc => lit "SD_CARD_PERC"

/-- All diagnostics. -/
def all : List Diagnostic :=
  [cpuTemp, cpuLoad, ramPercent, diskPercent, uptime, sysTime, rtcTime, modemStatus, modemIface,
    usbDev, usbSize, usbUsed, usbPerc, sdDev, sdSize, sdUsed, sdPerc]

/-- The list is complete. -/
theorem mem_all (d : Diagnostic) : d ∈ all := by cases d <;> decide

/-- Different diagnostics have different names. -/
theorem name_injective : Function.Injective name := by
  have h : ∀ d ∈ all, ∀ e ∈ all, name d = name e → d = e := by decide
  exact fun d e => h d (mem_all d) e (mem_all e)

/-- The diagnostic of a project path, if the path is the name of one. -/
def ofPath (path : Bytes) : Option Diagnostic := all.find? (fun d => decide (d.name = path))

/-- A diagnostic is found by its name. -/
theorem ofPath_eq_some_iff (path : Bytes) (d : Diagnostic) :
    ofPath path = some d ↔ path = d.name :=
  find?_name_eq_some_iff mem_all name_injective path d

/-- INTERNAL: no diagnostic is found iff the path is none of the names. -/
theorem ofPath_eq_none_iff (path : Bytes) :
    ofPath path = none ↔ ∀ d : Diagnostic, path ≠ d.name :=
  find?_name_eq_none_iff mem_all path

/-- The shared string a channel is made from. -/
def cache : Diagnostic → Option Cache
  | cpuTemp => some .cpuTemp
  | cpuLoad => some .cpuLoad
  | ramPercent => some .ramPercent
  | diskPercent => some .diskPercent
  | uptime => some .uptime
  | sysTime | rtcTime => none
  | modemStatus | modemIface => some .modemCheck
  | usbDev | usbSize | usbUsed | usbPerc => some .usbMount
  | sdDev | sdSize | sdUsed | sdPerc => some .sdMount

/-- The content of that string; empty for a channel without one. -/
def shared (d : Diagnostic) (caches : Cache → Bytes) : Bytes :=
  match d.cache with
  | some c => caches c
  | none => []

/-- The second command of a channel, given the output `c` of its probe. -/
def command (c : Bytes) : Diagnostic → Option Bytes
  | sysTime => some (lit "date \"+%Y-%m-%d %H:%M:%S\"")
  | rtcTime => some (lit "hwclock -r -f /dev/rtc0")
  | modemStatus =>
    if contains c (lit "usb0") then some (lit "ip link show usb0 | awk '\x7bprint $9\x7d' | head -n 1")
    else none
  | usbSize => if c = [] then none else some (lit "df -m /media/usb | awk 'NR==2\x7bprint $2\x7d'")
  | usbUsed => if c = [] then none else some (lit "df -m /media/usb | awk 'NR==2\x7bprint $3\x7d'")
  | usbPerc => if c = [] then none else some (lit "df -m /media/usb | awk 'NR==2\x7bprint $5\x7d'")
  | sdSize => if c = [] then none else some (lit "df -m /media/sdcard | awk 'NR==2\x7bprint $2\x7d'")
  | sdUsed => if c = [] then none else some (lit "df -m /media/sdcard | awk 'NR==2\x7bprint $3\x7d'")
  | sdPerc => if c = [] then none else some (lit "df -m /media/sdcard | awk 'NR==2\x7bprint $5\x7d'")
  | _ => none

/-- The value of a channel, given the output `c` of its probe and the output `out` of its
second command. -/
def value (A : Arithmetic) (c out : Bytes) : Diagnostic → Value
  | cpuTemp => .int16 (toInt16 A c 0.001)
  | cpuLoad | ramPercent | diskPercent => .int16 (toInt16 A c 1)
  | uptime => .int16 (uptimeSecondsToHours A c)
  | sysTime | rtcTime => .string out
  | modemStatus => .string (if contains c (lit "usb0") then out else lit "NOT CONNECTED")
  | modemIface =>
    .string (if contains c (lit "usb0") then lit "/sys/class/net/usb0" else lit "NOT CONNECTED")
  | usbDev => .string (if c = [] then lit "NOT CONNECTED" else lit "/media/usb")
  | sdDev => .string (if c = [] then lit "NOT CONNECTED" else lit "/media/sdcard")
  | usbSize | sdSize => .int16 (some (if c = [] then 0 else mediaSize A out))
  | usbUsed | usbPerc | sdUsed | sdPerc => .int16 (if c = [] then some 0 else toInt16 A out 1)

/-- What publishing a channel does, given the output `c` of its probe. -/
def publish (env : Env) (var : Variable) (c : Bytes) (d : Diagnostic) (r : Runtime) : Runtime :=
  let r := if d = modemIface then r.setConned (contains c (lit "usb0")) else r
  match d.command c with
  | none => r.write var (d.value env.arith c [])
  | some cmd => r.exec env cmd fun out r => r.write var (d.value env.arith c out)

end Diagnostic

/-- INTERNAL: on a path that names nothing, the chain of branches does nothing. -/
theorem publish_of_unknown (env : Env) (var : Variable) (r : Runtime)
    (h : Diagnostic.ofPath var.projectPath = none) : publish env var r = r := by
  rw [Diagnostic.ofPath_eq_none_iff] at h
  have h1 := h .cpuTemp
  have h2 := h .cpuLoad
  have h3 := h .ramPercent
  have h4 := h .diskPercent
  have h5 := h .uptime
  have h6 := h .sysTime
  have h7 := h .rtcTime
  have h8 := h .modemStatus
  have h9 := h .modemIface
  have h10 := h .usbDev
  have h11 := h .usbSize
  have h12 := h .usbUsed
  have h13 := h .usbPerc
  have h14 := h .sdDev
  have h15 := h .sdSize
  have h16 := h .sdUsed
  have h17 := h .sdPerc
  simp only [Diagnostic.name] at *
  simp [publish, *]

/-- INTERNAL: **the chain of branches follows the table** on every name. -/
theorem publish_of_name (env : Env) (var : Variable) (r : Runtime) (d : Diagnostic)
    (h : var.projectPath = d.name) :
    publish env var r = d.publish env var (d.shared r.proc.caches) r := by
  -- The name selects the branch; in some branches the shared string decides the rest.
  cases d <;>
    simp +decide only [publish, h, Diagnostic.name, if_true, if_false,
      Diagnostic.publish, Diagnostic.command, Diagnostic.value, Diagnostic.shared,
      Diagnostic.cache, publishMedia]
  case modemStatus | modemIface =>
    rcases Bool.eq_false_or_eq_true (contains (r.proc.caches .modemCheck) (lit "usb0")) with
      hm | hm <;> simp only [hm, Bool.false_eq_true, if_true, if_false]
  case usbDev | usbSize | usbUsed | usbPerc =>
    by_cases hu : r.proc.caches .usbMount = [] <;> simp only [hu, if_true, if_false]
  case sdDev | sdSize | sdUsed | sdPerc =>
    by_cases hs : r.proc.caches .sdMount = [] <;> simp only [hs, if_true, if_false]

end Pca9536Driver.Interface
