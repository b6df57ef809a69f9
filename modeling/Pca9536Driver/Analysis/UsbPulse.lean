import Pca9536Driver.Interface.Run

/-!
# The reset pulse of the USB power line

`TestFB::Execute` keeps a counter and a flag and issues one `gpioset` command per call.
The abstract view is a retriggerable one-shot of width 100 that reads `USB_Power`: the
block simulates it (`pulseSimulation`), with the counter at `101 - left` while `left`
steps are left. The law of the one-shot then says at which calls the line is low.
-/

set_option autoImplicit false

namespace Pca9536Driver.Analysis

open Pca9536Driver.Library Pca9536Driver.Model Pca9536Driver.Interface

/-- The one-shot the pulse logic implements, reading the inputs of the block. -/
def pulse : Machine Oneshot TestFBInputs := (Oneshot.machine 100).comap TestFBInputs.usbPower

/-- The memory of the block agrees with a one-shot: the last input, a flag that tells
whether steps are left, and the number of steps made since the edge. -/
structure Tracks (fb : TestFB) (o : Oneshot) : Prop where
  was : fb.wasUsbPower = o.was
  reset : fb.usbReset = decide (0 < o.left)
  left : o.left ≤ 100
  counter : fb.usbCounter.toInt = if o.left = 0 then 0 else 101 - (o.left : ℤ)

/-- INTERNAL: the 16-bit counter does not wrap as long as it is at most 100. -/
theorem toInt_succ (c : Int16) (h0 : 0 ≤ c.toInt) (h : c.toInt ≤ 100) :
    (c + 1).toInt = c.toInt + 1 := by
  have hone : (1 : Int16).toInt = 1 := by decide
  rw [Int16.toInt_add, hone, Int.bmod_eq_of_le] <;> omega

/-- INTERNAL: without a reset the counter rests. -/
theorem countStep_of_not_reset (fb : TestFB) (h : fb.usbReset = false) : fb.countStep = fb := by
  simp [TestFB.countStep, h]

/-- INTERNAL: a call with a pulse running counts up to 100 and then ends it. -/
theorem countStep_of_reset (fb : TestFB) (h : fb.usbReset = true) (h0 : 0 ≤ fb.usbCounter.toInt)
    (h100 : fb.usbCounter.toInt ≤ 100) :
    fb.countStep.usbReset = decide (fb.usbCounter.toInt < 100) ∧
      fb.countStep.usbCounter.toInt =
        if fb.usbCounter.toInt < 100 then fb.usbCounter.toInt + 1 else 0 := by
  have hsucc := toInt_succ fb.usbCounter h0 h100
  have hlt : 100 < fb.usbCounter + 1 ↔ ¬ fb.usbCounter.toInt < 100 := by
    have hval : (100 : Int16).toInt = 100 := by decide
    rw [Int16.lt_iff_toInt_lt, hval, hsucc]
    omega
  by_cases hc : fb.usbCounter.toInt < 100
  · have hnot : ¬ 100 < fb.usbCounter + 1 := fun hgt => hlt.mp hgt hc
    simp [TestFB.countStep, h, hnot, hc, hsucc]
  · have hgt := hlt.mpr hc
    simp [TestFB.countStep, h, hgt, hc]

/-- INTERNAL: one step of the abstract pulse. -/
theorem pulse_step (o : Oneshot) (i : TestFBInputs) :
    pulse.step o i = ⟨i.usbPower, if !o.was && i.usbPower then 100 else o.left - 1⟩ := rfl

/-- INTERNAL: **a call advances the block as the one-shot advances.** -/
theorem Tracks.step {fb : TestFB} {o : Oneshot} (h : Tracks fb o) :
    Tracks (blockNext fb) (pulse.step o fb.inputs) := by
  obtain ⟨hwas, hreset, hleft, hcounter⟩ := h
  rw [pulse_step]
  cases hedge : !o.was && fb.inputs.usbPower with
  | true =>
    -- A rising edge: the count starts again and stands at 1 behind the call.
    have he : fb.edgeStep = { fb with usbReset := true, usbCounter := 0 } := by
      simp only [TestFB.edgeStep, hwas, hedge, if_true]
    have hzero : (0 : Int16).toInt = 0 := by decide
    obtain ⟨hr, hc⟩ := countStep_of_reset fb.edgeStep (by rw [he]) (by simp [he, hzero])
      (by simp [he, hzero])
    rw [he] at hr hc
    constructor <;> simp [blockNext, he, hr, hc, hzero]
  | false =>
    have he : fb.edgeStep = fb := by simp [TestFB.edgeStep, hwas, hedge]
    by_cases hl : o.left = 0
    · -- No pulse is running.
      have hc := countStep_of_not_reset fb (by simp [hreset, hl])
      constructor <;> simp [blockNext, he, hc, hl, hreset, hcounter]
    · -- A pulse is running: the count goes up, from 100 it goes back to 0.
      have hcounter' : fb.usbCounter.toInt = 101 - (o.left : ℤ) := by simpa [hl] using hcounter
      obtain ⟨hr, hc⟩ := countStep_of_reset fb (by rw [hreset, decide_eq_true_eq]; omega)
        (by omega) (by omega)
      constructor
      · rfl
      · simp only [blockNext, he, hr, hcounter', Bool.false_eq_true, if_false, decide_eq_decide]
        omega
      · simp only [Bool.false_eq_true, if_false]
        omega
      · simp only [blockNext, he, hc, hcounter', Bool.false_eq_true, if_false]
        split_ifs <;> omega

/-- **The function block refines the pulse**. -/
def pulseSimulation (p : Process) : Simulation (block p) pulse where
  rel s o := Tracks s.1 o
  start := by constructor <;> simp [block, TestFB.new, pulse, Machine.comap, Oneshot.machine]
  step s o i h := by
    have hinputs : Tracks { s.1 with inputs := i } o := ⟨h.was, h.reset, h.left, h.counter⟩
    simpa [block, TestFB.call, block_execute_eq] using hinputs.step

/-! ## The commands -/

/-- Whether the command sets the USB line. -/
def isGpioset (cmd : Bytes) : Bool := (lit "gpioset ").isPrefixOf cmd

/-- INTERNAL: the function block sets the line once a call. -/
theorem filter_blockCommands (fb : TestFB) :
    (blockCommands fb).filter isGpioset = [fb.edgeStep.countStep.usbCommand] := by
  have hdir : isGpioset (lit "i2cset -y 2 0x41 0x03 0x00") = false := by decide
  have hout : isGpioset (TestFB.outputCommand fb.mask) = false := rfl
  have husb : isGpioset fb.edgeStep.countStep.usbCommand = true := by
    unfold TestFB.usbCommand
    split_ifs <;> decide
  cases hinit : fb.initCM <;> simp [blockCommands, hinit, hdir, hout, husb]

/-- **The reset pulse.** At every call of every run exactly one `gpioset` command is
issued. It is the one for the low level iff an edge of `USB_Power` lies at most 99 calls
back; otherwise it is the one for the high level. The counter stays within 0 and 100.
SOURCE: test_fb.cpp:18-33, README.md:223 -/
theorem usb_reset_pulse (p : Process) (inp : ℕ → TestFBInputs) (t : ℕ) :
    let before := (block p).run inp t
    let after := (block p).run inp (t + 1)
    let recentEdge := ∃ s ≤ t, RisingEdge (fun k => (inp k).usbPower) s ∧ t ≤ s + 99
    (∃ cmds cmd, systems after.2.log = systems before.2.log ++ cmds ∧
      cmds.filter isGpioset = [cmd] ∧
      (cmd = lit "gpioset 0 268=0" ↔ recentEdge) ∧
      (cmd = lit "gpioset 0 268=1" ↔ ¬ recentEdge)) ∧
    0 ≤ after.1.usbCounter.toInt ∧ after.1.usbCounter.toInt ≤ 100 := by
  intro before after recentEdge
  set fb := { before.1 with inputs := inp t } with hfb
  have hafter : after = (blockNext fb, { before.2 with
      log := before.2.log ++ (blockCommands fb).map .system }) := block_run_succ p inp t
  have htracks : Tracks after.1 (pulse.run inp (t + 1)) := (pulseSimulation p).rel_run inp (t + 1)
  have hreset : fb.edgeStep.countStep.usbReset = true ↔ recentEdge := by
    have hlaw := Oneshot.lt_left_iff 100 (fun k => (inp k).usbPower) t 0
    have hflag : after.1.usbReset = fb.edgeStep.countStep.usbReset := by rw [hafter]; rfl
    rw [← hflag, htracks.reset, decide_eq_true_eq, pulse, Machine.run_comap]
    refine hlaw.trans (exists_congr fun s => and_congr_right fun _ => and_congr_right fun _ => ?_)
    omega
  refine ⟨⟨blockCommands fb, fb.edgeStep.countStep.usbCommand, ?_, filter_blockCommands fb, ?_, ?_⟩,
    ?_⟩
  · rw [hafter]
    simp
  · rw [← hreset, TestFB.usbCommand]
    cases fb.edgeStep.countStep.usbReset <;> decide
  · rw [← hreset, TestFB.usbCommand]
    cases fb.edgeStep.countStep.usbReset <;> decide
  · have hleft := htracks.left
    rw [htracks.counter]
    split_ifs <;> omega

end Pca9536Driver.Analysis
