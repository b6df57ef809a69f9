import Pca9536Driver.Interface.Events
import Pca9536Driver.Interface.Run

/-!
# The two modules write the same masks

The protocol module updates its mask channel by channel and keeps it from scan to scan;
the function block rebuilds its mask from four inputs. Told the same, they end up issuing
the same command text.
-/

set_option autoImplicit false

namespace Pca9536Driver.Analysis

open Pca9536Driver.Library Pca9536Driver.Model Pca9536Driver.Interface

/-- Whether the command writes to the bus. -/
def isI2cset (cmd : Bytes) : Bool := (lit "i2cset ").isPrefixOf cmd

/-- Whether the command writes the output register. -/
def isOutputWrite (cmd : Bytes) : Bool := (lit "i2cset -y 2 0x41 0x01 ").isPrefixOf cmd

/-- INTERNAL: the function block writes the output register once a call. -/
theorem filter_isOutputWrite (fb : TestFB) :
    (blockCommands fb).filter isOutputWrite = [TestFB.outputCommand fb.mask] := by
  have hdir : isOutputWrite (lit "i2cset -y 2 0x41 0x03 0x00") = false := by decide
  have hout : isOutputWrite (TestFB.outputCommand fb.mask) = true := by
    simp [isOutputWrite, TestFB.outputCommand]
  have husb : isOutputWrite fb.edgeStep.countStep.usbCommand = false := by
    unfold TestFB.usbCommand
    split_ifs <;> decide
  cases hinit : fb.initCM <;> simp [blockCommands, hinit, hdir, hout, husb]

/-- INTERNAL: where reads under one name agree, the last one is `true` iff one is. -/
theorem lastRead_of_agree {rs : List (Variable × Bytes)}
    (hagree : ∀ x ∈ rs, ∀ y ∈ rs, x.1.projectPath = y.1.projectPath → x.2 = y.2)
    (name buff : Bytes) :
    lastRead name rs = some buff ↔ ∃ x ∈ rs, x.1.projectPath = name ∧ x.2 = buff := by
  constructor
  · intro h
    simpa using mem_of_lastValue h
  · rintro ⟨x, hx, rfl, rfl⟩
    refine lastValue_eq_some_of_agree (List.mem_map_of_mem hx) fun c hc => ?_
    obtain ⟨y, hy, heq⟩ := List.mem_map.mp hc
    obtain ⟨hname, rfl⟩ := Prod.mk.inj heq
    exact hagree y hy x hx hname

/-- **Both modules encode the outputs alike.** Take any scan of any run of an instance
with an output channel, in which channels of one name get the same string of the
environment, and a call of the function block, in any state, whose inputs say of each output
whether its name read `true` in the scan. The last `i2cset` command of the scan and the one
command of the call that writes register 0x01 are the same text.
SOURCE: simple_test_protocol.cpp:277-304, test_fb.cpp:5-36 -/
theorem last_mask_eq_block_mask (env : Env) (chs : List Channel) (mask : BitVec 8) (p : Process)
    (n : ℕ) (hout : chs.filterMap Channel.outVar ≠ []) :
    ∃ m m' rs cmds, scans env n (init (load chs mask p)) = some m ∧ execute env m = some m' ∧
      rs.map Prod.fst = chs.filterMap Channel.outVar ∧
      reads m'.proc.log = reads m.proc.log ++ rs ∧
      (∃ new, m'.proc.log = m.proc.log ++ new ∧ reads new = rs ∧ Answered env m.proc.log new) ∧
      systems m'.proc.log = systems m.proc.log ++ cmds ∧
      ((∀ x ∈ rs, ∀ y ∈ rs, x.1.projectPath = y.1.projectPath → x.2 = y.2) →
        ∀ (fb : TestFB) (q : Process) (i : TestFBInputs),
          (∀ o, TestFBInputs.panel i o = true ↔
            ∃ x ∈ rs, x.1.projectPath = o.name ∧ x.2 = lit "true") →
          ∃ text cmds', (cmds.filter isI2cset).getLast? = some text ∧
            systems (TestFB.call i (fb, q)).2.log = systems q.log ++ cmds' ∧
            cmds'.filter isOutputWrite = [text]) := by
  obtain ⟨m, prev, hscans, hrun, hprev⟩ := driven_scans env chs n (init (load chs mask p))
    Panel.off rfl (init_mask _)
  obtain ⟨rs, hnames, hscan⟩ := driven_scan env chs m _ hrun.mask
  refine ⟨m, scan env chs m, rs, _, hscans, execute_eq_scan env chs m hrun.channels, hnames,
    hscan.reads, answered_of_driven hscan, hscan.systems, ?_⟩
  intro hagree fb q i hi
  -- Both texts carry the encoding of one panel.
  have hpanel : assignAll (assignAll Panel.off (assignments prev)) (assignments rs) =
      TestFBInputs.panel i := by
    funext o
    rw [panel_of_scan hprev hnames, Bool.eq_iff_iff, decide_eq_true_eq, hi,
      lastRead_of_agree hagree]
  have hrs : rs ≠ [] := by
    rintro rfl
    exact hout hnames.symm
  obtain ⟨rs', x, rfl⟩ := (List.eq_nil_or_concat' rs).resolve_left hrs
  obtain ⟨before, hlast⟩ := outputCommands_concat (assignAll Panel.off (assignments prev)) rs' x
  rw [hpanel] at hlast
  set fb' := { fb with inputs := i } with hfb'
  refine ⟨outputCommand (encode (TestFBInputs.panel i)), blockCommands fb', ?_, ?_, ?_⟩
  · have hset : isI2cset (outputCommand (encode (TestFBInputs.panel i))) = true := by
      simp [isI2cset, outputCommand, lit]
    rw [hlast, List.filter_append, List.filter_singleton, hset]
    simp
  · unfold TestFB.call
    rw [block_execute_eq]
    simp [hfb']
  · rw [filter_isOutputWrite, block_outputCommand]

/-- `last_mask_eq_block_mask` for the first scan of an instance with one output channel,
`RED_LED`, that reads `true`, and the first call of a block with `Red_Led` set. -/
theorem last_mask_eq_block_mask_red :
    let env : Env := ⟨.exact, fun _ _ => [], fun _ _ => lit "true"⟩
    let red : Variable := ⟨1, lit "RED_LED"⟩
    let start : Process := ⟨fun _ => [], []⟩
    ∃ m' cmds text cmds', execute env (init (load [⟨none, some red⟩] 0 start)) = some m' ∧
      systems m'.proc.log = lit "i2cset -y 2 0x41 0x03 0x00" :: cmds ∧
      (cmds.filter isI2cset).getLast? = some text ∧
      systems (TestFB.call ⟨false, true, false, false, false⟩ (TestFB.new, start)).2.log = cmds' ∧
      cmds'.filter isOutputWrite = [text] := by
  intro env red start
  obtain ⟨m, m', rs, cmds, hscans, hexec, hnames, hreads, -, hsys, hagree⟩ :=
    last_mask_eq_block_mask env [⟨none, some red⟩] 0 start 0 (by simp)
  obtain rfl := Option.some.inj hscans
  obtain rfl : scan env [⟨none, some red⟩] (init (load [⟨none, some red⟩] 0 start)) = m' :=
    Option.some.inj ((execute_eq_scan env _ _ rfl).symm.trans hexec)
  obtain rfl : [(red, lit "true")] = rs := hreads
  obtain ⟨text, cmds', hlast, hblock, htext⟩ := hagree (by simp) TestFB.new start
    ⟨false, true, false, false, false⟩ (by intro o; cases o <;> decide)
  exact ⟨_, cmds, text, cmds', hexec, hsys, hlast, hblock, htext⟩

end Pca9536Driver.Analysis
