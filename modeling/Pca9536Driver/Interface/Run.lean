import Pca9536Driver.Interface.Scan
import Pca9536Driver.Library.Machine

/-!
# Runs of the two modules

A run of the protocol module is `Init` followed by any number of scans; a run of the
function block is one call after the other, each with its own inputs. `driven_scans` says
what a whole run of the protocol module does to the outputs, `block_execute_eq` what a
call of the function block does.
-/

set_option autoImplicit false

namespace Pca9536Driver.Interface

open Pca9536Driver.Library Pca9536Driver.Model

/-! ## The protocol module -/

/-- An instance with resolved channels before `Init`. The constructor leaves `mask`
uninitialised; the process may have run for a while.
SOURCE: simple_test_protocol.h:8-11 -/
def load (chs : List Channel) (mask : BitVec 8) (p : Process) : Runtime :=
  ⟨⟨chs.map Channel.toScada, mask, false⟩, p⟩

/-- `Init` switches all outputs off. -/
theorem init_mask (r : Runtime) : (init r).self.mask = encode Panel.off := encode_off.symm

/-- `Init` keeps the channels. -/
@[simp] theorem init_channels (r : Runtime) : (init r).self.channels = r.self.channels := rfl

/-- The instance has the channels of the configuration. -/
@[simp] theorem load_channels (chs : List Channel) (mask : BitVec 8) (p : Process) :
    (load chs mask p).self.channels = chs.map Channel.toScada := rfl

/-- One scan, and then the others. -/
theorem scans_succ (env : Env) (n : ℕ) (r : Runtime) :
    scans env (n + 1) r = (scans env n r).bind (execute env) := rfl

/-- INTERNAL: **what a run does to the outputs is determined by what it reads**, and it
reads output variables of its channels only. -/
theorem driven_scans (env : Env) (chs : List Channel) (n : ℕ) (r : Runtime) (on : Panel)
    (hchs : r.self.channels = chs.map Channel.toScada) (hmask : r.self.mask = encode on) :
    ∃ (r' : Runtime) (rs : List (Variable × Bytes)), scans env n r = some r' ∧ Driven on rs r r' ∧
      ∀ x ∈ rs, x.1 ∈ chs.filterMap Channel.outVar := by
  induction n with
  | zero => exact ⟨r, [], rfl, (Quiet.refl r).driven hmask, by simp⟩
  | succ n ih =>
    obtain ⟨m, rs, hscans, hdriven, hnames⟩ := ih
    obtain ⟨rs', hnames', hdriven'⟩ := driven_scan env chs m _ hdriven.mask
    refine ⟨scan env chs m, rs ++ rs', ?_, hdriven.trans hdriven', ?_⟩
    · rw [scans_succ, hscans, Option.bind_some]
      exact execute_eq_scan env chs m (hdriven.channels.trans hchs)
    · intro x hx
      rcases List.mem_append.mp hx with hx | hx
      · exact hnames x hx
      · exact hnames' ▸ List.mem_map_of_mem hx

/-- INTERNAL: **behind a scan an output is on iff the last string read under its name in
this scan is `true`**. An output without a channel has never been switched on. -/
theorem panel_of_scan {outs : List Variable} {prev rs : List (Variable × Bytes)}
    (hprev : ∀ x ∈ prev, x.1 ∈ outs) (hnames : rs.map Prod.fst = outs) (o : Output) :
    assignAll (assignAll Panel.off (assignments prev)) (assignments rs) o =
      decide (lastRead o.name rs = some (lit "true")) := by
  rw [assignAll_apply, lastValue_assignments]
  cases hrs : lastRead o.name rs with
  | some buff => simp
  | none =>
    have hnone : lastRead o.name prev = none := by
      rw [lastRead_eq_none_iff] at hrs ⊢
      intro x hx
      have hmem := hprev x hx
      rw [← hnames, List.mem_map] at hmem
      obtain ⟨y, hy, hxy⟩ := hmem
      exact hxy ▸ hrs y hy
    rw [assignAll_apply, lastValue_assignments, hnone]
    simp [Panel.off]

/-- The protocol module as a machine that runs a scan in one environment after the other. -/
def scanner (chs : List Channel) (r : Runtime) : Machine Runtime Env where
  start := r
  step r env := scan env chs r

/-- A scan keeps the channels. -/
theorem scan_channels (env : Env) (chs : List Channel) (r : Runtime) :
    (scan env chs r).self.channels = r.self.channels := by
  have hdrive (path buff : Bytes) (r : Runtime) :
      (drive path buff r).self.channels = r.self.channels := by
    unfold drive
    split_ifs <;> rfl
  have hout (ch : Channel) (r : Runtime) :
      (outputStep env ch r).self.channels = r.self.channels := by
    rcases ch with ⟨inVar, _ | var⟩
    · rfl
    · exact hdrive _ _ _
  have hpass (l : List Channel) (r : Runtime) :
      (l.foldl (channelStep env) r).self.channels = r.self.channels := by
    induction l generalizing r with
    | nil => rfl
    | cons ch l ih =>
      rw [List.foldl_cons, ih, channelStep, hout, (quiet_inputStep env ch r).channels]
  unfold scan
  rw [hpass, (quiet_refresh env (needs chs) r).channels]

/-- INTERNAL: **a run in changing environments never fails**: each scan of the machine is
an `Execute`. -/
theorem execute_scanner (chs : List Channel) (r : Runtime)
    (h : r.self.channels = chs.map Channel.toScada) (envs : ℕ → Env) (n : ℕ) :
    ((scanner chs r).run envs n).self.channels = chs.map Channel.toScada ∧
    execute (envs n) ((scanner chs r).run envs n) = some ((scanner chs r).run envs (n + 1)) := by
  have hchs : ((scanner chs r).run envs n).self.channels = chs.map Channel.toScada := by
    refine (scanner chs r).run_invariant envs
      (P := fun _ (s : Runtime) => s.self.channels = chs.map Channel.toScada) h (fun n s hs => ?_) n
    exact (scan_channels _ chs s).trans hs
  exact ⟨hchs, execute_eq_scan (envs n) chs _ hchs⟩

/-! ## The function block -/

/-- The memory of the block behind a call: the pulse has advanced by one step, the
direction register has been written, the last input is remembered. -/
def blockNext (fb : TestFB) : TestFB :=
  { fb.edgeStep.countStep with initCM := true, wasUsbPower := fb.inputs.usbPower }

/-- The commands of a call, in the order they are issued. -/
def blockCommands (fb : TestFB) : List Bytes :=
  (if fb.initCM then [] else [lit "i2cset -y 2 0x41 0x03 0x00"]) ++
    [fb.edgeStep.countStep.usbCommand, TestFB.outputCommand fb.mask]

/-- INTERNAL: the flag of the first call has no part in the reset pulse. -/
theorem pulse_initCM (fb : TestFB) :
    { fb with initCM := true }.edgeStep.countStep =
      { fb.edgeStep.countStep with initCM := true } := by
  simp only [TestFB.edgeStep]
  split_ifs <;> simp only [TestFB.countStep] <;> split_ifs <;> rfl

/-- INTERNAL: the pulse leaves the inputs of the block and the flag alone. -/
theorem pulse_frame (fb : TestFB) :
    fb.edgeStep.countStep.inputs = fb.inputs ∧ fb.edgeStep.countStep.initCM = fb.initCM := by
  simp only [TestFB.edgeStep]
  split_ifs <;> simp only [TestFB.countStep] <;> split_ifs <;> exact ⟨rfl, rfl⟩

/-- INTERNAL: **what a call does**: it issues its commands and updates its memory. -/
theorem block_execute_eq (fb : TestFB) (p : Process) :
    TestFB.execute fb p =
      (blockNext fb, { p with log := p.log ++ (blockCommands fb).map .system }) := by
  obtain ⟨hinputs, hflag⟩ := pulse_frame fb
  cases hinit : fb.initCM with
  | false =>
    simp [TestFB.execute, TestFB.initStep, hinit, pulse_initCM, hinputs, blockNext,
      blockCommands, TestFB.usbCommand, Process.system, Process.emit]
  | true =>
    simp [TestFB.execute, TestFB.initStep, hinit, hinputs, hflag, blockNext, blockCommands,
      Process.system, Process.emit]

/-- The two commands for the USB line. -/
theorem usbCommand_cases (fb : TestFB) :
    fb.usbCommand = lit "gpioset 0 268=0" ∨ fb.usbCommand = lit "gpioset 0 268=1" := by
  unfold TestFB.usbCommand
  split_ifs <;> simp

/-- INTERNAL: both modules print a mask in the same way, so the block writes its panel. -/
theorem block_outputCommand (fb : TestFB) :
    TestFB.outputCommand fb.mask = outputCommand (encode (TestFBInputs.panel fb.inputs)) := by
  rw [mask_eq_encode]
  rfl

/-- INTERNAL: **the function block writes the panel of its inputs**. -/
theorem outputWrite_blockCommands {fb : TestFB} {cmd : Bytes} (hcmd : cmd ∈ blockCommands fb)
    {m : BitVec 8} (hm : outputWrite cmd = some m) : m = encode (TestFBInputs.panel fb.inputs) := by
  unfold blockCommands at hcmd
  rw [block_outputCommand, List.mem_append] at hcmd
  rcases hcmd with hdir | husb
  · have hdir' : cmd = lit "i2cset -y 2 0x41 0x03 0x00" := by
      cases hinit : fb.initCM <;> simp_all
    rw [hdir', outputWrite_direction] at hm
    cases hm
  · rcases List.mem_pair.mp husb with rfl | rfl
    · unfold outputWrite at hm
      rw [writeTo_gpioset (usbCommand_cases _)] at hm
      cases hm
    · simpa using hm.symm

/-- The block as a machine that reads its inputs call by call, in a process that may have
run for a while. -/
def block (p : Process) : Machine (TestFB × Process) TestFBInputs where
  start := (TestFB.new, p)
  step s i := TestFB.call i s

/-- INTERNAL: one call of the function block. -/
theorem block_step (p : Process) (s : TestFB × Process) (inputs : TestFBInputs) :
    let fb := { s.1 with inputs := inputs }
    (block p).step s inputs =
      (blockNext fb, { s.2 with log := s.2.log ++ (blockCommands fb).map .system }) :=
  block_execute_eq _ _

/-- INTERNAL: one call more. -/
theorem block_run_succ (p : Process) (inp : ℕ → TestFBInputs) (n : ℕ) :
    let s := (block p).run inp n
    let fb := { s.1 with inputs := inp n }
    (block p).run inp (n + 1) =
      (blockNext fb, { s.2 with log := s.2.log ++ (blockCommands fb).map .system }) :=
  block_step p _ _

/-- INTERNAL: the commands of one call more. -/
theorem systems_block_run_succ (p : Process) (inp : ℕ → TestFBInputs) (n : ℕ) :
    systems ((block p).run inp (n + 1)).2.log = systems ((block p).run inp n).2.log ++
      blockCommands { ((block p).run inp n).1 with inputs := inp n } := by
  rw [block_run_succ]
  simp

end Pca9536Driver.Interface
