import Pca9536Driver.Interface.Run

/-!
# Outputs that nobody commanded

Both modules make the pins outputs before they write the output register for the first
time, so a pin drives its load at once if the register happens to hold a 0 for it. From
the first write of the register on, an output is active only if it has been commanded.
-/

set_option autoImplicit false

namespace Pca9536Driver.Analysis

open Pca9536Driver.Library Pca9536Driver.Model Pca9536Driver.Interface

/-- INTERNAL: in a run of the block every write of the output register encodes the inputs
of one of its calls. -/
theorem block_run_writes (p : Process) (inp : ℕ → TestFBInputs) (n : ℕ) :
    ∃ events, ((block p).run inp n).2.log = p.log ++ events ∧
      ∀ cmd ∈ systems events, ∀ m, outputWrite cmd = some m →
        ∃ t < n, m = encode (TestFBInputs.panel (inp t)) := by
  apply (block p).run_invariant inp (P := fun n s => ∃ events, s.2.log = p.log ++ events ∧
    ∀ cmd ∈ systems events, ∀ m, outputWrite cmd = some m →
      ∃ t < n, m = encode (TestFBInputs.panel (inp t)))
  · exact ⟨[], by simp [block], by simp⟩
  · rintro n ⟨fb, q⟩ ⟨events, hlog, hwrites⟩
    refine ⟨events ++ (blockCommands { fb with inputs := inp n }).map .system, ?_, ?_⟩
    · rw [block_step, ← List.append_assoc, ← hlog]
    · intro cmd hcmd m hm
      rw [systems_append, systems_map_system, List.mem_append] at hcmd
      rcases hcmd with hcmd | hcmd
      · obtain ⟨t, ht, hpanel⟩ := hwrites cmd hcmd m hm
        exact ⟨t, by omega, hpanel⟩
      · exact ⟨n, by omega, outputWrite_blockCommands hcmd hm⟩

/-- **Outputs can be active without having been commanded**, in both modules: with an
output register that holds zeros in its low half, as a module that ran before may have
left it, `Init` and the first command of the block's `Execute` switch the outputs on. -/
theorem startup_activates_outputs :
    let d : Pca9536 := ⟨0xF0, 0xFF⟩
    let start : Process := ⟨fun _ => [], []⟩
    let r := init (load [] 0 start)
    let cmds := systems (TestFB.call ⟨false, false, false, false, false⟩ (TestFB.new, start)).2.log
    (reads r.proc.log = [] ∧
      (Pca9536.run (fun _ => true) 0 d (systems r.proc.log)).active .redLed) ∧
    (Pca9536.run (fun _ => true) 0 d (cmds.take 1)).active .redLed := by
  refine ⟨⟨rfl, ?_, ?_⟩, ?_, ?_⟩ <;> decide

/-- **An active output has been commanded, or the module has not written the output
register yet and found it clear.** For each module, for every content of the registers at
its start, every list of channels and every run, and behind every event of the run.
SOURCE: simple_test_protocol.cpp:89-93,277-304, test_fb.cpp:5-36 -/
theorem active_commanded_or_initial (env : Env) (chs : List Channel) (mask : BitVec 8)
    (p : Process) (inp : ℕ → TestFBInputs) (n : ℕ) (d : Pca9536) :
    let device (l : List Event) := Pca9536.run (fun _ => true) 0 d (systems l)
    let untouched (l : List Event) (o : Output) :=
      d.output.getLsbD o.bit = false ∧ ∀ cmd ∈ systems l, outputWrite cmd = none
    (∃ m events, scans env n (init (load chs mask p)) = some m ∧ m.proc.log = p.log ++ events ∧
      ∀ l, l <+: events → ∀ o, (device l).active o →
        (∃ x ∈ reads l, x.1.projectPath = o.name ∧ x.2 = lit "true") ∨ untouched l o) ∧
    ∃ events, ((block p).run inp n).2.log = p.log ++ events ∧
      ∀ l, l <+: events → ∀ o, (device l).active o →
        (∃ t < n, TestFBInputs.panel (inp t) o = true) ∨ untouched l o := by
  intro device untouched
  constructor
  · obtain ⟨m, rs, hscans, hrun, -⟩ := driven_scans env chs n (init (load chs mask p))
      Panel.off rfl (init_mask _)
    obtain ⟨new, hlog, -, -, hhonest⟩ := hrun.log
    have hdir : Honest Panel.off [.system (lit "i2cset -y 2 0x41 0x03 0x00")] :=
      honest_singleton fun m hm => by rw [outputWrite_direction] at hm; cases hm
    have hjust := (hdir.append hhonest).justified
    refine ⟨m, _, hscans, by rw [hlog]; exact List.append_assoc _ _ _, fun l hl o hactive => ?_⟩
    refine (Justified.output ?_ (hjust.of_prefix hl) 0 d o hactive.2).imp ?_ id
    · rintro l l' o ⟨t, rfl⟩ (hon | ⟨x, hx, hread⟩)
      · exact Or.inl hon
      · exact Or.inr ⟨x, by simp [hx], hread⟩
    · rintro (hon | hread)
      · cases hon
      · exact hread
  · obtain ⟨events, hlog, hwrites⟩ := block_run_writes p inp n
    refine ⟨events, hlog, fun l hl o hactive => ?_⟩
    have hjust : Justified (fun _ o => ∃ t < n, TestFBInputs.panel (inp t) o = true) events := by
      refine justified_of_forall fun cmd hcmd m hm o hbit => ?_
      obtain ⟨t, ht, rfl⟩ := hwrites cmd hcmd m hm
      exact ⟨t, ht, by simpa [getLsbD_encode] using hbit⟩
    exact Justified.output (fun _ _ _ _ h => h) (hjust.of_prefix hl) 0 d o hactive.2

end Pca9536Driver.Analysis
