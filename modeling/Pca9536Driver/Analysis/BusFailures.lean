import Pca9536Driver.Interface.Run

/-!
# Runs with failing commands

No exit status is looked at, and each module writes the direction register once: in
`Init`, or in the first call of the block. The output register follows the modules in
spite of earlier failures, because it is written again and again; the direction register
is what that one command has made of it.
-/

set_option autoImplicit false

namespace Pca9536Driver.Analysis

open Pca9536Driver.Library Pca9536Driver.Model Pca9536Driver.Interface

/-- The command that makes all pins outputs. -/
def directionCommand : Bytes := lit "i2cset -y 2 0x41 0x03 0x00"

/-- INTERNAL: **the registers behind a run**: if the first command is the only one for the
direction register and the last one succeeds and writes a mask, the two of them decide. -/
theorem run_first_last (ok : ℕ → Bool) (d : Pca9536) (cmds : List Bytes) (mask : BitVec 8)
    (hcalm : ∀ cmd ∈ cmds, directionWrite cmd = none) (hok : ok (cmds.length + 1) = true) :
    Pca9536.run ok 0 d (directionCommand :: (cmds ++ [outputCommand mask])) =
      ⟨mask, if ok 0 then 0 else d.direction⟩ := by
  have hdir : directionWrite directionCommand = some 0 := by decide
  have hcalm' : ∀ cmd ∈ cmds ++ [outputCommand mask], directionWrite cmd = none := by
    intro cmd hcmd
    rcases List.mem_append.mp hcmd with hcmd | hcmd
    · exact hcalm cmd hcmd
    · rw [List.mem_singleton.mp hcmd, directionWrite_outputCommand]
  have hout : (Pca9536.run ok 0 d (directionCommand :: (cmds ++ [outputCommand mask]))).output =
      mask := by
    rw [Pca9536.run, Pca9536.run_output_concat]
    rw [← hok]
    congr 1
    omega
  have hdirection : (Pca9536.run ok 0 d (directionCommand ::
      (cmds ++ [outputCommand mask]))).direction = if ok 0 then 0 else d.direction := by
    rw [Pca9536.run, Pca9536.run_direction _ _ _ _ hcalm']
    split_ifs
    · simp [Pca9536.apply_eq, hdir]
    · rfl
  exact congrArg₂ Pca9536.mk hout hdirection

/-- INTERNAL: the commands of a run of the block: the first one is for the direction
register, no other is, and the last one writes the panel of the last call. -/
theorem block_run_commands (p : Process) (inp : ℕ → TestFBInputs) (n : ℕ) :
    ((block p).run inp (n + 1)).1.initCM = true ∧
    ∃ cmds, systems ((block p).run inp (n + 1)).2.log = systems p.log ++
        directionCommand :: (cmds ++ [outputCommand (encode (TestFBInputs.panel (inp n)))]) ∧
      ∀ cmd ∈ cmds, directionWrite cmd = none := by
  have husb (fb : TestFB) : directionWrite fb.usbCommand = none :=
    writeTo_gpioset (usbCommand_cases fb) 3
  refine ⟨by rw [block_run_succ]; rfl, ?_⟩
  induction n with
  | zero =>
    set fb := { ((block p).run inp 0).1 with inputs := inp 0 } with hfb
    refine ⟨[fb.edgeStep.countStep.usbCommand], ?_, by simp [husb]⟩
    have hinit : fb.initCM = false := rfl
    rw [systems_block_run_succ, ← hfb, blockCommands, hinit, block_outputCommand]
    rfl
  | succ n ih =>
    obtain ⟨cmds, hcmds, hcalm⟩ := ih
    set fb := { ((block p).run inp (n + 1)).1 with inputs := inp (n + 1) } with hfb
    have hinit : fb.initCM = true := by
      rw [hfb, block_run_succ]
      rfl
    refine ⟨cmds ++ [outputCommand (encode (TestFBInputs.panel (inp n))),
      fb.edgeStep.countStep.usbCommand], ?_, ?_⟩
    · rw [systems_block_run_succ, ← hfb, hcmds, blockCommands, hinit, block_outputCommand]
      simp [hfb]
    · intro cmd hcmd
      simp only [List.mem_append, List.mem_cons, List.not_mem_nil, or_false] at hcmd
      rcases hcmd with hcmd | rfl | rfl
      · exact hcalm cmd hcmd
      · exact directionWrite_outputCommand _
      · exact husb _

/-- **Failing commands.** Let any of the commands of a run fail. Behind an `Execute` of
either module whose own commands all succeeded and, for the protocol module, among which
is a write of the output register, the output register holds the mask this `Execute`
computed; the direction register is 0x00 if the one command for it, the first of the run,
took effect, and else what it was at the start.
SOURCE: simple_test_protocol.cpp:89-93,302-303, test_fb.cpp:13-36 -/
theorem registers_after_failures (env : Env) (chs : List Channel) (mask : BitVec 8) (p : Process)
    (inp : ℕ → TestFBInputs) (n : ℕ) (ok : ℕ → Bool) (d : Pca9536) :
    (∃ m m' cmds new, scans env n (init (load chs mask p)) = some m ∧ execute env m = some m' ∧
      systems m.proc.log = systems p.log ++ cmds ∧
      systems m'.proc.log = systems m.proc.log ++ new ∧
      ((∀ k < new.length, ok (cmds.length + k) = true) → (∃ cmd ∈ new, outputWrite cmd ≠ none) →
        Pca9536.run ok 0 d (cmds ++ new) = ⟨m'.self.mask, if ok 0 then 0 else d.direction⟩)) ∧
    ∃ cmds new, systems ((block p).run inp n).2.log = systems p.log ++ cmds ∧
      systems ((block p).run inp (n + 1)).2.log = systems ((block p).run inp n).2.log ++ new ∧
      ((∀ k < new.length, ok (cmds.length + k) = true) →
        Pca9536.run ok 0 d (cmds ++ new) =
          ⟨({ ((block p).run inp n).1 with inputs := inp n } : TestFB).mask,
            if ok 0 then 0 else d.direction⟩) := by
  constructor
  · obtain ⟨m, prev, hscans, hrun, -⟩ := driven_scans env chs n (init (load chs mask p))
      Panel.off rfl (init_mask _)
    obtain ⟨rs, -, hscan⟩ := driven_scan env chs m _ hrun.mask
    refine ⟨m, scan env chs m, directionCommand :: outputCommands Panel.off prev, _, hscans,
      execute_eq_scan env chs m hrun.channels, ?_, hscan.systems, fun hok hwrite => ?_⟩
    · rw [hrun.systems]
      simp [init, load, Runtime.system, Runtime.setMask, directionCommand]
    · have hrs : rs ≠ [] := by
        rintro rfl
        obtain ⟨cmd, hcmd, -⟩ := hwrite
        cases hcmd
      obtain ⟨rs', x, rfl⟩ := (List.eq_nil_or_concat' rs).resolve_left hrs
      obtain ⟨before, hlast⟩ := outputCommands_concat (assignAll Panel.off (assignments prev)) rs' x
      have hcalm : ∀ cmd ∈ outputCommands Panel.off prev ++ before, directionWrite cmd = none := by
        intro cmd hcmd
        rcases List.mem_append.mp hcmd with hcmd | hcmd
        · exact directionWrite_outputCommands hcmd
        · exact directionWrite_outputCommands (hlast ▸ List.mem_append_left _ hcmd)
      have hoklast := hok before.length (by rw [hlast]; simp)
      rw [hlast, hscan.mask, List.cons_append, ← List.append_assoc]
      apply run_first_last ok d _ _ hcalm
      rw [← hoklast]
      congr 1
      simp only [List.length_append, List.length_cons]
      omega
  · obtain ⟨-, mid, hmid, hcalm⟩ := block_run_commands p inp n
    set fb := { ((block p).run inp n).1 with inputs := inp n } with hfb
    obtain ⟨cmds, hcmds⟩ : ∃ cmds, systems ((block p).run inp n).2.log = systems p.log ++ cmds := by
      cases n with
      | zero => exact ⟨[], by simp [block]⟩
      | succ n =>
        obtain ⟨-, cmds, h, -⟩ := block_run_commands p inp n
        exact ⟨_, h⟩
    have hnew := systems_block_run_succ p inp n
    rw [← hfb] at hnew
    have hall : cmds ++ blockCommands fb = directionCommand ::
        (mid ++ [outputCommand (encode (TestFBInputs.panel (inp n)))]) := by
      rw [hnew, hcmds, List.append_assoc] at hmid
      exact List.append_cancel_left hmid
    refine ⟨cmds, blockCommands fb, hcmds, hnew, fun hok => ?_⟩
    have hlen := congrArg List.length hall
    have hpos : 0 < (blockCommands fb).length := by simp [blockCommands]
    simp only [List.length_append, List.length_cons, List.length_nil] at hlen
    have hoklast := hok ((blockCommands fb).length - 1) (by omega)
    rw [hall, mask_eq_encode]
    apply run_first_last ok d mid _ hcalm
    rw [← hoklast]
    congr 1
    omega

/-- **A successful `Execute` does not make up for earlier failures**, in both modules: with
the first command lost, the pins are still inputs behind an `Execute` whose own commands
all succeeded. -/
theorem lost_direction_write :
    let ok : ℕ → Bool := fun k => decide (k ≠ 0)
    let d : Pca9536 := ⟨0xFF, 0xFF⟩
    let env : Env := ⟨.exact, fun _ _ => [], fun _ _ => lit "true"⟩
    let start : Process := ⟨fun _ => [], []⟩
    let r := init (load [⟨none, some ⟨1, lit "RED_LED"⟩⟩] 0 start)
    let inp : ℕ → TestFBInputs := fun _ => ⟨false, true, false, false, false⟩
    ((systems r.proc.log).length = 1 ∧
      ∃ r', execute env r = some r' ∧ (systems r'.proc.log).length = 2 ∧
        Pca9536.run ok 0 d (systems r'.proc.log) = ⟨0xFE, 0xFF⟩) ∧
    (systems ((block start).run inp 1).2.log).length = 3 ∧
    Pca9536.run ok 0 d (systems ((block start).run inp 2).2.log) = ⟨0xFE, 0xFF⟩ := by
  refine ⟨⟨rfl, _, execute_eq_scan _ [⟨none, some ⟨1, lit "RED_LED"⟩⟩] _ rfl, ?_, ?_⟩, ?_, ?_⟩ <;>
    decide

end Pca9536Driver.Analysis
