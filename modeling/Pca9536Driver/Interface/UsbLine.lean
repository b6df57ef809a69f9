import Pca9536Driver.Interface.Host

/-!
# The USB power line

Both modules switch the power of the USB port by `gpioset 0 268=0` and `gpioset 0 268=1`.
A command is read the way `gpioset` reads its arguments (`lineWrite`), and the line keeps
the level of the last command that sets it (`level`). `line_scan` and `line_block` say
what the two modules do to the line, from every state.
-/

set_option autoImplicit false

namespace Pca9536Driver.Interface

open Pca9536Driver.Library Pca9536Driver.Model

/-- The level a command sets line 268 of chip 0 to, if it is a call of `gpioset` for this
line.
SOURCE: README.md:91 -/
def lineWrite (cmd : Bytes) : Option Bool :=
  match fields cmd with
  | [prog, chip, assignment] =>
    if prog = lit "gpioset" ∧ wholeNat chip = some 0 then
      match assignment.splitOnP (· = 61) with
      | [line, value] =>
        if wholeNat line = some 268 then (wholeNat value).map fun v => decide (v ≠ 0) else none
      | _ => none
    else none
  | _ => none

/-- The level of the line behind some commands, from its level at the start. -/
def level (start : Bool) (cmds : List Bytes) : Bool :=
  (cmds.filterMap lineWrite).getLast?.getD start

/-- Two lists of commands in a row. -/
theorem level_append (start : Bool) (cmds cmds' : List Bytes) :
    level start (cmds ++ cmds') = level (level start cmds) cmds' := by
  unfold level
  rw [List.filterMap_append, List.getLast?_append]
  cases (cmds'.filterMap lineWrite).getLast? <;> simp

/-- INTERNAL: commands that do not set the line leave it. -/
theorem level_of_quiet (start : Bool) {cmds : List Bytes} (h : ∀ cmd ∈ cmds, lineWrite cmd = none) :
    level start cmds = start := by
  unfold level
  rw [List.filterMap_eq_nil_iff.mpr h]
  rfl

/-! ## The commands of the modules -/

/-- The levels of the two commands. -/
theorem lineWrite_gpioset :
    lineWrite (lit "gpioset 0 268=0") = some false ∧
      lineWrite (lit "gpioset 0 268=1") = some true := by
  constructor <;> decide

/-- The direction command does not set the line. -/
@[simp] theorem lineWrite_direction :
    lineWrite (lit "i2cset -y 2 0x41 0x03 0x00") = none := by decide

/-- INTERNAL: a command with more than three words is no call of `gpioset` for a line. -/
@[simp] theorem lineWrite_outputCommand (mask : BitVec 8) :
    lineWrite (outputCommand mask) = none := by
  have hsplit : outputCommand mask = lit "i2cset" ++ 32 :: (lit "-y" ++ 32 :: (lit "2" ++
      32 :: (lit "0x41" ++ 32 :: (lit "0x01" ++ 32 :: decimal mask.toNat)))) := rfl
  unfold lineWrite
  rw [hsplit]
  iterate 4 rw [fields_word_cons _ _ _ (by decide) (by decide) rfl]

/-- INTERNAL: a call of `gpioset` is none of `i2cset`. -/
theorem registerWrite_of_lineWrite {cmd : Bytes} {high : Bool} (h : lineWrite cmd = some high) :
    registerWrite cmd = none := by
  unfold lineWrite at h
  split at h
  · unfold registerWrite
    rw [‹fields cmd = _›]
  · cases h

/-- INTERNAL: a reading of `USB_POWER` sets the line, high for everything but `true`. -/
theorem lineWrite_lineCommands (path buff : Bytes) :
    (lineCommands path buff).filterMap lineWrite =
      if path = lit "USB_POWER" then [decide (buff ≠ lit "true")] else [] := by
  unfold lineCommands
  split_ifs with hpath hbuff
  · simp [lineWrite_gpioset, hbuff]
  · simp [lineWrite_gpioset, hbuff]
  · rfl

/-- The levels the strings read under the name of the line stand for. -/
def lineLevels (rs : List (Variable × Bytes)) : List Bool :=
  (rs.filter fun x => x.1.projectPath = lit "USB_POWER").map fun x => decide (x.2 ≠ lit "true")

/-- INTERNAL: **what a scan does to the line**: every string read under its name sets it. -/
theorem line_scan (env : Env) (chs : List Channel) (r : Runtime) :
    ∃ new, (scan env chs r).proc.log = r.proc.log ++ new ∧
      (systems new).filterMap lineWrite = lineLevels (reads new) := by
  apply events_scan (P := fun _ l => (systems l).filterMap lineWrite = lineLevels (reads l))
  · exact fun base => rfl
  · intro base l l' h h'
    simp [h, h', lineLevels]
  · exact fun base c => rfl
  · intro base var d c _
    simp [lineLevels]
  · intro base var mask
    simp only [systems_read, systems_map_system, reads_read, reads_map_system,
      List.filterMap_append, lineWrite_lineCommands, List.filterMap_cons, lineWrite_outputCommand,
      List.filterMap_nil, List.append_nil, lineLevels]
    by_cases hpath : var.projectPath = lit "USB_POWER" <;> simp [hpath]

/-- INTERNAL: the level behind a scan is the one of the last string read under the name of
the line. -/
theorem getLast?_lineLevels (rs : List (Variable × Bytes)) :
    (lineLevels rs).getLast? =
      (lastRead (lit "USB_POWER") rs).map fun buff => decide (buff ≠ lit "true") := by
  induction rs using List.reverseRecOn with
  | nil => rfl
  | append_singleton rs x ih =>
    rw [lastRead, List.map_append, List.map_singleton, lastValue_concat]
    by_cases hpath : x.1.projectPath = lit "USB_POWER"
    · simp [lineLevels, hpath]
    · rw [if_neg hpath, ← lastRead, ← ih]
      simp [lineLevels, hpath]

/-- INTERNAL: **what a call of the block does to the line**: it sets it in every call. -/
theorem line_block (fb : TestFB) :
    (blockCommands fb).filterMap lineWrite = [!(blockNext fb).usbReset] := by
  have hout : lineWrite (TestFB.outputCommand fb.mask) = none := by
    rw [block_outputCommand, lineWrite_outputCommand]
  have husb : lineWrite fb.edgeStep.countStep.usbCommand = some !(blockNext fb).usbReset := by
    show _ = some !fb.edgeStep.countStep.usbReset
    unfold TestFB.usbCommand
    cases fb.edgeStep.countStep.usbReset <;> simp [lineWrite_gpioset]
  cases hinit : fb.initCM <;> simp [blockCommands, hinit, hout, husb, List.filterMap_cons]

end Pca9536Driver.Interface
