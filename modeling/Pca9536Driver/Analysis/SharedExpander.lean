import Pca9536Driver.Interface.Plant

/-!
# Several writers of one register

Every writer keeps a mask of its own and writes all its bits. Nothing merges the masks, so
the output register belongs to the writer whose `Execute` wrote it last.
-/

set_option autoImplicit false

namespace Pca9536Driver.Analysis

open Pca9536Driver.Library Pca9536Driver.Model Pca9536Driver.Interface

/-- **An output does not stay on until its writer switches it off**: behind a scan that
reads `true` for `BLUE_LED` and a call of a block without inputs, the latest `Execute` of
the instance has switched the output on and its bit is 1. -/
theorem block_overwrites_scan :
    let env : Env := ⟨.exact, fun _ _ => [], fun _ _ => lit "true"⟩
    let chs : Unit → List Channel := fun _ => [⟨none, some ⟨1, lit "BLUE_LED"⟩⟩]
    let s₀ : Observed Unit Unit := Observed.start chs (fun _ => 0) ⟨fun _ => [], []⟩
    ∃ s, s₀.run env [.scan (), .call () ⟨false, false, false, false, false⟩] = some s ∧
      s.commanded (.inl ()) .blueLed = true ∧
      (Pca9536.run (fun _ => true) 0 ⟨0xFF, 0⟩
        (systems s.plant.proc.log)).output.getLsbD Output.blueLed.bit = true := by
  refine ⟨_, rfl, ?_, ?_⟩ <;> decide

/-- **The last writer decides.** In any run of any number of instances and blocks, with
any channel lists and inputs: if the latest `Execute` of a writer has switched an output
on, then the output's bit is 0 iff the `Execute` that wrote the output register last, of
this writer or of another, has switched the output on, too.
SOURCE: simple_test_protocol.cpp:277-304, test_fb.cpp:5-36 -/
theorem register_of_last_writer {ι κ : Type*} [DecidableEq ι] [DecidableEq κ] (env : Env)
    (chs : ι → List Channel) (masks : ι → BitVec 8) (p : Process) (d : Pca9536)
    (steps : List (Step ι κ)) :
    ∃ s cmds, (Observed.start chs masks p).run env steps = some s ∧
      systems s.plant.proc.log = systems p.log ++ cmds ∧
      ∀ v o, s.commanded v o = true → ∃ w, s.last = some w ∧
        ((Pca9536.run (fun _ => true) 0 d cmds).output.getLsbD o.bit = false ↔
          s.commanded w o = true) := by
  have hstart : (Observed.start chs masks p : Observed ι κ).Coherent chs (systems p.log) d :=
    Observed.coherent_start masks p
  obtain ⟨s, hrun, hcoherent⟩ : ∃ s, (Observed.start chs masks p).run env steps = some s ∧
      s.Coherent chs (systems p.log) d := hstart.run steps
  obtain ⟨cmds, hsys, hreg⟩ := hcoherent.register
  refine ⟨s, cmds, hrun, hsys, fun v o hv => ?_⟩
  obtain ⟨w, hw⟩ := Option.ne_none_iff_exists'.mp (hcoherent.noted v o hv)
  refine ⟨w, hw, ?_⟩
  rw [hreg w hw, getLsbD_encode]
  simp

end Pca9536Driver.Analysis
