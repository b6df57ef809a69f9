import Pca9536Driver.Interface.Publishing
import Pca9536Driver.Interface.Run

/-!
# The cached scan and the naive one

`Execute` runs the probes it needs once per scan, keeps their outputs in strings that all
instances share, and publishes every channel from these strings. While the outputs of the
commands do not change, this publishes exactly what the driver without shared strings
does, whatever the strings held before.
-/

set_option autoImplicit false

namespace Pca9536Driver.Analysis

open Pca9536Driver.Library Pca9536Driver.Model Pca9536Driver.Interface

/-- **The two-pass scan refines the naive one.** From any state of the instance and of the
shared strings, and while the commands print the same throughout the scan, `Execute` makes
the same writes as the driver that runs each channel's own commands when it reaches it:
one per known input channel, in list order, with a value that depends on the name and on
the outputs of the commands alone. Every shared string it uses was marked and refreshed in
this scan.
SOURCE: simple_test_protocol.cpp:96-275 -/
theorem cached_scan_eq_naive (env : Env) (chs : List Channel) (mask : BitVec 8) (conned : Bool)
    (p : Process) (hfixed : FixedFrom env p.log) :
    let r : Runtime := ⟨⟨chs.map Channel.toScada, mask, conned⟩, p⟩
    ∃ r' w, execute env r = some r' ∧
      writes r'.proc.log = writes p.log ++ w ∧
      writes (naiveScan env chs r).proc.log = writes p.log ++ w ∧
      w = (chs.filterMap Channel.diagnostic).map (fun x => (x.1, x.2.ownValue env p.log)) ∧
      ∀ ch ∈ chs, ∀ var d c, ch.diagnostic = some (var, d) → d.cache = some c →
        needs chs c = true ∧
        r'.proc.caches c = collect (env.popen p.log c.command) := by
  intro r
  obtain ⟨cs, hfresh, hcaches, -, w, hw, hall⟩ := published_scan env chs r
  have hcs : ∀ ch ∈ chs, ∀ var d c, ch.diagnostic = some (var, d) → d.cache = some c →
      needs chs c = true ∧ cs c = collect (env.popen p.log c.command) := by
    intro ch hch var d c hd hc
    have hneed := needs_of_diagnostic hch hd hc
    obtain ⟨h, hh⟩ := hfresh c hneed
    exact ⟨hneed, by rw [hh]; exact congrArg collect (hfixed h _)⟩
  have hown : ∀ x ∈ chs.filterMap Channel.diagnostic, ∀ c, x.2.cache = some c →
      ∃ h, cs c = collect (env.popen (p.log ++ h) c.command) := by
    rintro ⟨var, d⟩ hx c hc
    obtain ⟨ch, hch, hd⟩ := List.mem_filterMap.mp hx
    exact hfresh c (needs_of_diagnostic hch hd hc)
  have hw' : w = (chs.filterMap Channel.diagnostic).map
      (fun x => (x.1, x.2.ownValue env p.log)) := by
    rw [eq_comm, ← List.forall₂_eq_eq_eq, List.forall₂_map_left_iff]
    refine ((List.forall₂_and_left _ _).mpr ⟨hown, hall⟩).imp fun x y hxy => ?_
    exact (hxy.2.eq_ownValue hfixed hxy.1).symm
  refine ⟨scan env chs r, w, execute_eq_scan env chs r rfl, hw, ?_, hw', ?_⟩
  · rw [writes_naiveScan hfixed chs r List.prefix_rfl, hw']
  · rw [hcaches]
    exact hcs

/-- `cached_scan_eq_naive` on a list that reports the modem twice and has an unknown name,
with a string left by an earlier scan in which no modem was there. -/
theorem cached_scan_eq_naive_modem :
    let env : Env := ⟨.exact, fun _ _ => lit "usb0\n", fun _ _ => []⟩
    let iface : Channel := ⟨some ⟨1, lit "MODEM_IFACE"⟩, none⟩
    let chs : List Channel := [iface, ⟨some ⟨2, lit "FOO"⟩, none⟩, iface]
    let r : Runtime := ⟨⟨chs.map Channel.toScada, 0, false⟩, ⟨fun _ => [], []⟩⟩
    ∃ r' w, execute env r = some r' ∧ writes r'.proc.log = w ∧
      writes (naiveScan env chs r).proc.log = w := by
  intro env iface chs r
  obtain ⟨r', w, hexec, hw, hnaive, -⟩ :=
    cached_scan_eq_naive env chs 0 false ⟨fun _ => [], []⟩ fun _ _ => rfl
  exact ⟨r', w, hexec, hw, hnaive⟩

end Pca9536Driver.Analysis
