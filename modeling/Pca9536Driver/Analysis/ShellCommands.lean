import Pca9536Driver.Interface.UsbLine
import Pca9536Driver.Analysis.Lifecycle

/-!
# The commands the modules give to the shell

The modules hand texts to a shell. None of these texts depends on what a command has
printed or a variable has held: they come from two fixed lists, and the texts of one list
only ask. A scan asks in a fixed order and runs no probe that no channel needs.
-/

set_option autoImplicit false

namespace Pca9536Driver.Analysis

open Pca9536Driver.Library Pca9536Driver.Model Pca9536Driver.Interface

variable {ι κ : Type*} [DecidableEq ι] [DecidableEq κ]

/-! ## Fixed texts -/

/-- The commands channels ask with, apart from the probes. -/
def channelInquiries : List Bytes :=
  [lit "date \"+%Y-%m-%d %H:%M:%S\"", lit "hwclock -r -f /dev/rtc0",
    lit "ip link show usb0 | awk '\x7bprint $9\x7d' | head -n 1",
    lit "df -m /media/usb | awk 'NR==2\x7bprint $2\x7d'",
    lit "df -m /media/usb | awk 'NR==2\x7bprint $3\x7d'",
    lit "df -m /media/usb | awk 'NR==2\x7bprint $5\x7d'",
    lit "df -m /media/sdcard | awk 'NR==2\x7bprint $2\x7d'",
    lit "df -m /media/sdcard | awk 'NR==2\x7bprint $3\x7d'",
    lit "df -m /media/sdcard | awk 'NR==2\x7bprint $5\x7d'"]

/-- What is run through `popen`. -/
def inquiries : List Bytes := Cache.all.map Cache.command ++ channelInquiries

/-- What is run through `system`. -/
def orders : List Bytes :=
  [lit "i2cset -y 2 0x41 0x03 0x00", lit "gpioset 0 268=0", lit "gpioset 0 268=1"] ++
    (List.range 256).map fun v => lit "i2cset -y 2 0x41 0x01 " ++ decimal v

/-- INTERNAL: the second command of a diagnostic is in the list. -/
theorem mem_channelInquiries {d : Diagnostic} {c cmd : Bytes} (h : d.command c = some cmd) :
    cmd ∈ channelInquiries := by
  unfold Diagnostic.command at h
  cases d
  case sysTime | rtcTime =>
    obtain rfl := Option.some.inj h
    simp only [channelInquiries, List.mem_cons, true_or, or_true]
  case modemStatus | usbSize | usbUsed | usbPerc | sdSize | sdUsed | sdPerc =>
    -- The command is run only if the probe has found the device.
    simp only at h
    split_ifs at h
    obtain rfl := Option.some.inj h
    simp only [channelInquiries, List.mem_cons, true_or, or_true]
  all_goals cases h

/-- INTERNAL: the output command of every mask is an order. -/
theorem outputCommand_mem_orders (mask : BitVec 8) : outputCommand mask ∈ orders := by
  unfold orders
  apply List.mem_append_right
  exact List.mem_map.mpr ⟨mask.toNat, List.mem_range.mpr mask.isLt, rfl⟩

/-- A command comes from the list its function is given. -/
def FixedText : Event → Prop
  | .popen cmd => cmd ∈ inquiries
  | .system cmd => cmd ∈ orders
  | _ => True

/-- INTERNAL: the commands of a scan. -/
theorem fixedText_scan (env : Env) (chs : List Channel) (r : Runtime) :
    ∃ new, (scan env chs r).proc.log = r.proc.log ++ new ∧ ∀ e ∈ new, FixedText e := by
  apply forall_scan
  · intro c
    have hall : c ∈ Cache.all := by cases c <;> decide
    exact List.mem_append_left _ (List.mem_map_of_mem hall)
  · exact fun d c cmd hcmd => List.mem_append_right _ (mem_channelInquiries hcmd)
  · exact fun var d c out _ _ => trivial
  · exact fun var buff => trivial
  · intro path buff cmd hcmd
    unfold lineCommands at hcmd
    show cmd ∈ orders
    unfold orders
    split_ifs at hcmd <;> simp_all
  · exact outputCommand_mem_orders

/-- INTERNAL: the commands of a call of the function block. -/
theorem fixedText_block (fb : TestFB) : ∀ cmd ∈ blockCommands fb, cmd ∈ orders := by
  intro cmd hcmd
  unfold blockCommands at hcmd
  rw [block_outputCommand, List.mem_append] at hcmd
  rcases hcmd with hcmd | hcmd
  · cases hinit : fb.initCM <;> simp_all [orders]
  · rcases List.mem_pair.mp hcmd with rfl | rfl
    · rcases usbCommand_cases fb.edgeStep.countStep with h | h <;> simp [h, orders]
    · exact outputCommand_mem_orders _

/-- INTERNAL: **the commands of every action** of a run. -/
theorem fixedText_trace (s : Plant ι κ) (as : List (HostAction ι κ)) :
    ∀ x ∈ s.trace as, ∀ e ∈ x.2, FixedText e := by
  refine Plant.forall_trace (fun op r r' es hrun hlog => ?_) fixedText_block s as
  rcases operation_cases hrun hlog with ⟨rfl, -⟩ | ⟨-, -, rfl⟩ | ⟨env, chs, -, -, rfl⟩
  · exact fun e he => absurd he List.not_mem_nil
  · intro e he
    rw [List.mem_singleton.mp he]
    exact List.mem_append_left _ (by simp)
  · obtain ⟨new, hnew, hfixed⟩ := fixedText_scan env chs r
    obtain rfl := List.append_cancel_left (hlog.symm.trans hnew)
    exact hfixed

/-- INTERNAL: a text of `orders` is a register write or switches the line. -/
theorem orders_wellFormed {cmd : Bytes} (h : cmd ∈ orders) :
    (∃ mask, registerWrite cmd = some (1, mask)) ∨ registerWrite cmd = some (3, 0x00) ∨
      ∃ high, lineWrite cmd = some high := by
  unfold orders at h
  rcases List.mem_append.mp h with h | h
  · simp only [List.mem_cons, List.not_mem_nil, or_false] at h
    rcases h with rfl | rfl | rfl
    · exact Or.inr (Or.inl (by decide))
    · exact Or.inr (Or.inr ⟨_, lineWrite_gpioset.1⟩)
    · exact Or.inr (Or.inr ⟨_, lineWrite_gpioset.2⟩)
  · obtain ⟨v, hv, rfl⟩ := List.mem_map.mp h
    have hmask : (BitVec.ofNat 8 v).toNat = v := by
      rw [BitVec.toNat_ofNat]
      exact Nat.mod_eq_of_lt (List.mem_range.mp hv)
    refine Or.inl ⟨BitVec.ofNat 8 v, ?_⟩
    have hwrite := registerWrite_outputCommand (BitVec.ofNat 8 v)
    rwa [outputCommand, hmask] at hwrite

/-- INTERNAL: the pins are made outputs, if anything. -/
theorem directionWrite_orders {cmd : Bytes} (h : cmd ∈ orders) {x : BitVec 8}
    (hx : directionWrite cmd = some x) : x = 0 := by
  unfold directionWrite writeTo at hx
  rcases orders_wellFormed h with ⟨mask, hw⟩ | hw | ⟨high, hline⟩
  · simp [hw] at hx
  · rw [hw] at hx
    exact (Option.some.inj hx).symm
  · simp [registerWrite_of_lineWrite hline] at hx

/-- **No text from outside reaches the shell.** In every run of any number of instances and
blocks, from every state and in any environments: what is run through `popen` is one of 17
fixed texts, none of which touches the expander or the line; what is run through `system`
is a write of a mask, the write of the direction register, or a switch of the line.
SOURCE: simple_test_protocol.cpp:89-155,183-304, test_fb.cpp:13-36 -/
theorem shell_texts_are_fixed (s : Plant ι κ) (as : List (HostAction ι κ)) :
    (∀ x ∈ s.trace as, ∀ cmd, .popen cmd ∈ x.2 → cmd ∈ inquiries) ∧
    (∀ x ∈ s.trace as, ∀ cmd, .system cmd ∈ x.2 →
      (∃ mask, registerWrite cmd = some (1, mask)) ∨ registerWrite cmd = some (3, 0x00) ∨
        ∃ high, lineWrite cmd = some high) ∧
    ∀ cmd ∈ inquiries, registerWrite cmd = none ∧ lineWrite cmd = none := by
  have htrace := fixedText_trace s as
  refine ⟨fun x hx cmd hcmd => htrace x hx _ hcmd, fun x hx cmd hcmd => ?_, by decide +kernel⟩
  exact orders_wellFormed (htrace x hx _ hcmd)

/-! ## The order of the inquiries -/

/-- Different shared strings have different commands. -/
theorem command_injective : Function.Injective Cache.command := by
  have hall : ∀ c ∈ Cache.all, ∀ c' ∈ Cache.all, c.command = c'.command → c = c' := by
    decide +kernel
  have hmem (c : Cache) : c ∈ Cache.all := by cases c <;> decide
  exact fun c c' => hall c (hmem c) c' (hmem c')

/-- INTERNAL: no probe is run twice. -/
theorem nodup_probes (need : Need) : (probes need).Nodup := by
  have hall : Cache.all.Nodup := by decide
  exact (hall.filter _).map command_injective

/-- INTERNAL: a probe is run iff its flag is set. -/
theorem command_mem_probes (need : Need) (c : Cache) :
    c.command ∈ probes need ↔ need c = true := by
  have hall : c ∈ Cache.all := by cases c <;> decide
  simp [probes, command_injective.eq_iff, hall]

/-- INTERNAL: no second command is a probe. -/
theorem command_not_mem_channelInquiries (c : Cache) : c.command ∉ channelInquiries := by
  have hall : ∀ c ∈ Cache.all, c.command ∉ channelInquiries := by decide +kernel
  exact hall c (by cases c <;> decide)

/-- **A scan asks in a fixed order and not more than it needs.** In every scan, from every
state and however the environment changes: the probes come first, in the order of the
source, before any other event; the channels follow in list order with at most one command
each; and every probe is run once if the name of an input channel asks for its string, and
else not at all.
SOURCE: simple_test_protocol.cpp:106-155,183-274 -/
theorem scan_asks_in_order (env : Env) (chs : List Channel) (mask : BitVec 8) (conned : Bool)
    (p : Process) :
    ∃ r' rest, execute env ⟨⟨chs.map Channel.toScada, mask, conned⟩, p⟩ = some r' ∧
      r'.proc.log = p.log ++ ((probes (needs chs)).map .popen ++ rest) ∧
      popens rest = chs.filterMap (Channel.inquiry r'.proc.caches) ∧
      ∀ c : Cache, (probes (needs chs) ++ popens rest).count c.command ≤ 1 ∧
        (c.command ∈ probes (needs chs) ++ popens rest ↔
          ∃ ch ∈ chs, ∃ var, ch.inVar = some var ∧ neededBy var.projectPath = some c) := by
  set r : Runtime := ⟨⟨chs.map Channel.toScada, mask, conned⟩, p⟩ with hr
  obtain ⟨rest, hlog, hask⟩ := scan_spec env chs r
  refine ⟨scan env chs r, rest, execute_eq_scan env chs r rfl, hlog, hask, fun c => ?_⟩
  have hrest : c.command ∉ popens rest := by
    rw [hask]
    intro hmem
    obtain ⟨ch, -, hinquiry⟩ := List.mem_filterMap.mp hmem
    obtain ⟨x, -, hcmd⟩ := Option.bind_eq_some_iff.mp hinquiry
    exact command_not_mem_channelInquiries c (mem_channelInquiries hcmd)
  constructor
  · rw [List.count_append, List.count_eq_zero.mpr hrest, Nat.add_zero]
    exact List.nodup_iff_count_le_one.mp (nodup_probes _) _
  · rw [List.mem_append, or_iff_left hrest, command_mem_probes, needs_iff]
    simp only [List.mem_filterMap]
    constructor
    · rintro ⟨var, ⟨ch, hch, hin⟩, hneeded⟩
      exact ⟨ch, hch, var, hin, hneeded⟩
    · rintro ⟨ch, hch, var, hin, hneeded⟩
      exact ⟨var, ⟨ch, hch, hin⟩, hneeded⟩

end Pca9536Driver.Analysis
