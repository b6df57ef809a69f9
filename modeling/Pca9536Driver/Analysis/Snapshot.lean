import Pca9536Driver.Interface.Publishing

/-!
# One snapshot per resource and scan

The environment may change between any two commands of a scan. All the same, whether a
medium is mounted and whether the modem is there is decided once per scan, by one string:
the channels of a resource never contradict each other.
-/

set_option autoImplicit false

namespace Pca9536Driver.Analysis

open Pca9536Driver.Library Pca9536Driver.Model Pca9536Driver.Interface

/-- What the channels of a medium say: it is not there, and its figures are 0, or it is
mounted at `mountPoint`. -/
def MediumConsistent (w : List (Variable × Value)) (dev size used perc : Diagnostic)
    (mountPoint : Bytes) : Prop :=
  (EveryWrite w dev (.string (lit "NOT CONNECTED")) ∧ EveryWrite w size (.int16 (some 0)) ∧
    EveryWrite w used (.int16 (some 0)) ∧ EveryWrite w perc (.int16 (some 0))) ∨
  EveryWrite w dev (.string mountPoint)

/-- What the channels of the modem say: neither of them sees it, or the interface is
there. -/
def ModemConsistent (w : List (Variable × Value)) : Prop :=
  (EveryWrite w .modemIface (.string (lit "NOT CONNECTED")) ∧
    EveryWrite w .modemStatus (.string (lit "NOT CONNECTED"))) ∨
  EveryWrite w .modemIface (.string (lit "/sys/class/net/usb0"))

/-- **One snapshot per scan.** In every scan, from any state and however the environment
changes between two commands, every known input channel is written once, in list order;
the writes of the USB medium, of the SD card and of the modem are each consistent; and
behind a scan that writes a modem interface channel, `USB_MOD_CONNED` tells what was
written to it.
SOURCE: simple_test_protocol.cpp:147-155,190-274 -/
theorem scan_snapshot (env : Env) (chs : List Channel) (mask : BitVec 8) (conned : Bool)
    (p : Process) :
    ∃ r' w, execute env ⟨⟨chs.map Channel.toScada, mask, conned⟩, p⟩ = some r' ∧
      writes r'.proc.log = writes p.log ++ w ∧
      w.map Prod.fst = (chs.filterMap Channel.diagnostic).map Prod.fst ∧
      MediumConsistent w .usbDev .usbSize .usbUsed .usbPerc (lit "/media/usb") ∧
      MediumConsistent w .sdDev .sdSize .sdUsed .sdPerc (lit "/media/sdcard") ∧
      ModemConsistent w ∧
      ∀ x ∈ w, x.1.projectPath = Diagnostic.modemIface.name →
        (r'.self.usbModConned = true ↔ x.2 ≠ .string (lit "NOT CONNECTED")) := by
  set r : Runtime := ⟨⟨chs.map Channel.toScada, mask, conned⟩, p⟩
  obtain ⟨cs, -, -, hconned, w, hw, hall⟩ := published_scan env chs r
  have hds : ∀ x ∈ chs.filterMap Channel.diagnostic, x.1.projectPath = x.2.name :=
    fun x => mem_diagnostics
  have hevery {d : Diagnostic} {value : Value}
      (hvalue : ∀ out, d.value env.arith (d.shared cs) out = value) : EveryWrite w d value :=
    everyWrite_of_value hds hall hvalue
  refine ⟨scan env chs r, w, execute_eq_scan env chs r rfl, hw, ?_, ?_, ?_, ?_, ?_⟩
  · rw [← List.forall₂_eq_eq_eq, List.forall₂_map_left_iff, List.forall₂_map_right_iff]
    exact (hall.imp fun x y (h : Shows env cs r.proc.log _ x y) => h.1).flip
  · by_cases hu : cs .usbMount = []
    · left
      refine ⟨hevery ?_, hevery ?_, hevery ?_, hevery ?_⟩ <;>
        simp [Diagnostic.value, Diagnostic.shared, Diagnostic.cache, hu]
    · right
      exact hevery (by simp [Diagnostic.value, Diagnostic.shared, Diagnostic.cache, hu])
  · by_cases hs : cs .sdMount = []
    · left
      refine ⟨hevery ?_, hevery ?_, hevery ?_, hevery ?_⟩ <;>
        simp [Diagnostic.value, Diagnostic.shared, Diagnostic.cache, hs]
    · right
      exact hevery (by simp [Diagnostic.value, Diagnostic.shared, Diagnostic.cache, hs])
  · rcases Bool.eq_false_or_eq_true (contains (cs .modemCheck) (lit "usb0")) with hm | hm
    · right
      exact hevery (by simp only [Diagnostic.value, Diagnostic.shared, Diagnostic.cache, hm,
        if_true, implies_true])
    · left
      constructor <;>
        exact hevery (by simp only [Diagnostic.value, Diagnostic.shared, Diagnostic.cache, hm,
          Bool.false_eq_true, if_false, implies_true])
  · intro x hx hname
    obtain ⟨hmem, h, hvalue, -⟩ := mem_writes_of_name hds hall hx hname
    have hne : lit "/sys/class/net/usb0" ≠ lit "NOT CONNECTED" := by decide
    rw [hconned, if_pos hmem, hvalue]
    simp only [Diagnostic.value, Diagnostic.shared, Diagnostic.cache]
    rcases Bool.eq_false_or_eq_true (contains (cs .modemCheck) (lit "usb0")) with hm | hm <;>
      simp [hm, hne]

end Pca9536Driver.Analysis
