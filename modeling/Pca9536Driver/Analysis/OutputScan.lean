import Pca9536Driver.Interface.Events
import Pca9536Driver.Interface.Run

/-!
# The output side of a scan

Which commands the output part of a scan issues, in any scan of any run and for any list
of channels: one write of the mask behind every output channel, each mask decided bit by
bit by the channels before it in this scan and, where there is none, by the scan before.
-/

set_option autoImplicit false

namespace Pca9536Driver.Analysis

open Pca9536Driver.Library Pca9536Driver.Model Pca9536Driver.Interface

/-- INTERNAL: the commands of a scan, channel by channel, with the panel behind the reads
so far. -/
theorem outputCommands_eq (on : Panel) (rs : List (Variable × Bytes)) :
    outputCommands on rs = (List.finRange rs.length).flatMap fun k : Fin rs.length =>
      driveCommands rs[k].1.projectPath rs[k].2
        (assignAll on (assignments (rs.take (k + 1)))) := by
  induction rs generalizing on with
  | nil => rfl
  | cons x rs ih =>
    have happ (l : List (Variable × Bytes)) :
        assignAll (assignAll on (assignments [x])) (assignments l) =
          assignAll on (assignments (x :: l)) := by
      rw [← assignAll_append, ← assignments_append]
      rfl
    have hrange : List.finRange (x :: rs).length = 0 :: (List.finRange rs.length).map Fin.succ :=
      List.finRange_succ
    rw [outputCommands, ih, hrange, List.flatMap_cons, List.flatMap_map]
    simp [happ]

/-- INTERNAL: the bit of an output behind some reads: the last string read under its name
decides, else the panel before. -/
theorem getLsbD_encode_reads (on : Panel) (rs : List (Variable × Bytes)) (o : Output) :
    (encode (assignAll on (assignments rs))).getLsbD o.bit =
      match lastRead o.name rs with
      | some buff => decide (buff ≠ lit "true")
      | none => (encode on).getLsbD o.bit := by
  rw [getLsbD_encode, getLsbD_encode, assignAll_apply, lastValue_assignments]
  cases lastRead o.name rs <;> simp

/-- INTERNAL: a name that is read once at most has this string. -/
theorem lastRead_eq_some_iff_of_count {name : Bytes} {rs : List (Variable × Bytes)}
    (hcount : (rs.map Prod.fst).countP (fun var => var.projectPath = name) ≤ 1) (buff : Bytes) :
    lastRead name rs = some buff ↔ ∃ x ∈ rs, x.1.projectPath = name ∧ x.2 = buff := by
  rw [List.countP_map] at hcount
  rw [lastRead, lastValue_eq_some_iff_of_count (by rwa [List.countP_map])]
  simp

/-- **The output part of a scan.** In every scan of every run the channels with an output
variable are read in list order, from the environment, and each read is followed by the
command for the USB power line, if the channel is named so, and by one write of the mask.
Bits 4 to 7 of a mask are set; the bit of an output is clear iff the last string read under
its name so far is `true`, and without such a read it is what it was at the end of the scan
before (set before the first scan). At the end of the scan the reads of this scan decide
alone, and for a name that is bound at most once their order does not matter.
SOURCE: simple_test_protocol.cpp:277-304 -/
theorem scan_output_commands (env : Env) (chs : List Channel) (mask : BitVec 8) (p : Process)
    (n : ℕ) :
    ∃ m m', scans env n (init (load chs mask p)) = some m ∧ execute env m = some m' ∧
      (n = 0 → m.self.mask = 0xFF) ∧
      ∃ (rs : List (Variable × Bytes)) (M : ℕ → BitVec 8),
        rs.map Prod.fst = chs.filterMap Channel.outVar ∧
        reads m'.proc.log = reads m.proc.log ++ rs ∧
        (∃ new, m'.proc.log = m.proc.log ++ new ∧ reads new = rs ∧
          Answered env m.proc.log new) ∧
        systems m'.proc.log = systems m.proc.log ++
          (List.finRange rs.length).flatMap (fun k : Fin rs.length =>
            (if rs[k].1.projectPath = lit "USB_POWER" then
              [if rs[k].2 = lit "true" then lit "gpioset 0 268=0" else lit "gpioset 0 268=1"]
            else []) ++
            [lit "i2cset -y 2 0x41 0x01 " ++ decimal (M (k + 1)).toNat]) ∧
        (∀ k, (∀ i, 4 ≤ i → i < 8 → (M k).getLsbD i = true) ∧
          ∀ o : Output, (M k).getLsbD o.bit =
            match lastRead o.name (rs.take k) with
            | some buff => decide (buff ≠ lit "true")
            | none => m.self.mask.getLsbD o.bit) ∧
        m'.self.mask = M rs.length ∧
        ∀ o : Output,
          (m'.self.mask.getLsbD o.bit = false ↔ lastRead o.name rs = some (lit "true")) ∧
          ((chs.filterMap Channel.outVar).countP (fun var => var.projectPath = o.name) ≤ 1 →
            (m'.self.mask.getLsbD o.bit = false ↔
              ∃ x ∈ rs, x.1.projectPath = o.name ∧ x.2 = lit "true")) := by
  obtain ⟨m, prev, hscans, hrun, hprev⟩ := driven_scans env chs n (init (load chs mask p))
    Panel.off rfl (init_mask _)
  obtain ⟨rs, hnames, hscan⟩ := driven_scan env chs m _ hrun.mask
  set on := assignAll Panel.off (assignments prev) with hon
  have hend : ∀ o : Output, (scan env chs m).self.mask.getLsbD o.bit = false ↔
      lastRead o.name rs = some (lit "true") := by
    intro o
    rw [hscan.mask, getLsbD_encode, hon, panel_of_scan hprev hnames]
    simp
  refine ⟨m, scan env chs m, hscans, execute_eq_scan env chs m hrun.channels, ?_, rs,
    fun k => encode (assignAll on (assignments (rs.take k))), hnames, hscan.reads,
    answered_of_driven hscan, ?_, ?_, ?_, ?_⟩
  · rintro rfl
    obtain rfl := Option.some.inj hscans
    rfl
  · rw [hscan.systems, outputCommands_eq]
    rfl
  · intro k
    refine ⟨getLsbD_encode_high _, fun o => ?_⟩
    rw [hrun.mask]
    exact getLsbD_encode_reads on (rs.take k) o
  · simp only [hscan.mask, List.take_length]
  · intro o
    refine ⟨hend o, fun hcount => ?_⟩
    rw [hend o]
    exact lastRead_eq_some_iff_of_count (by rwa [hnames]) _

end Pca9536Driver.Analysis
