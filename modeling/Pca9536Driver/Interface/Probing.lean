import Pca9536Driver.Library.Partial
import Pca9536Driver.Interface.Publishing

/-!
# Which probes a scan runs

The first pass decides by the names of the input channels which probes are run, the
refresh runs them. `neededBy` is the string a name asks for: the one its diagnostic is
made from, and for a name that is no diagnostic the mount string of a medium whose prefix
it contains. `needs_iff` says that nothing else sets a flag, `log_refresh` in which order
the probes are run.
-/

set_option autoImplicit false

namespace Pca9536Driver.Interface

open Pca9536Driver.Library Pca9536Driver.Model

/-! ## The flags -/

/-- The shared string the first pass asks for when it meets a name. -/
def neededBy (path : Bytes) : Option Cache :=
  match Diagnostic.ofPath path with
  | some d => d.cache
  | none =>
    if contains path (lit "USB_FLASH_") then some .usbMount
    else if contains path (lit "SD_CARD_") then some .sdMount
    else none

/-- The name of a diagnostic needs its probe. -/
theorem neededBy_name (d : Diagnostic) : neededBy d.name = d.cache := by
  unfold neededBy
  rw [(Diagnostic.ofPath_eq_some_iff _ _).mpr rfl]

/-- A name that is no diagnostic may start a probe nevertheless. -/
example : neededBy (lit "OLD_USB_FLASH_SIZE") = some .usbMount := by decide

/-- INTERNAL: **the chain of branches of the first pass sets one flag at most.** -/
theorem mark_eq (need : Need) (path : Bytes) :
    need.mark path =
      match neededBy path with
      | none => need
      | some c => Function.update need c true := by
  cases hd : Diagnostic.ofPath path with
  | some d =>
    obtain rfl := (Diagnostic.ofPath_eq_some_iff _ _).mp hd
    rw [neededBy_name]
    cases d <;> simp +decide [Need.mark, Diagnostic.cache]
  | none =>
    rw [Diagnostic.ofPath_eq_none_iff] at hd
    have h1 := hd .cpuTemp
    have h2 := hd .cpuLoad
    have h3 := hd .ramPercent
    have h4 := hd .diskPercent
    have h5 := hd .uptime
    have h6 := hd .modemStatus
    have h7 := hd .modemIface
    have hnone := (Diagnostic.ofPath_eq_none_iff path).mpr hd
    simp only [Diagnostic.name] at h1 h2 h3 h4 h5 h6 h7
    simp only [Need.mark, neededBy, hnone, h1, h2, h3, h4, h5, h6, h7, if_false, or_self]
    split_ifs <;> rfl

/-- INTERNAL: a flag is set by the names that contain its key. -/
theorem mark_iff (need : Need) (path : Bytes) (c : Cache) :
    need.mark path c = true ↔ need c = true ∨ neededBy path = some c := by
  rw [mark_eq]
  cases neededBy path with
  | none => simp
  | some c' =>
    by_cases hc : c = c'
    · simp [hc]
    · have hc' : c' ≠ c := Ne.symm hc
      simp [hc, hc']

/-- INTERNAL: **the first loop sets a flag iff a channel asks for it**. -/
theorem foldl_mark_iff (l : List Variable) (need : Need) (c : Cache) :
    l.foldl (fun need var => need.mark var.projectPath) need c = true ↔
      need c = true ∨ ∃ var ∈ l, neededBy var.projectPath = some c := by
  induction l generalizing need with
  | nil => simp
  | cons var l ih =>
    rw [List.foldl_cons, ih, mark_iff, or_assoc]
    simp only [List.mem_cons, exists_eq_or_imp]

/-- INTERNAL: **a probe is needed iff the name of an input channel asks for it.** -/
theorem needs_iff (chs : List Channel) (c : Cache) :
    needs chs c = true ↔
      ∃ var ∈ chs.filterMap Channel.inVar, neededBy var.projectPath = some c := by
  unfold needs
  rw [foldl_mark_iff]
  simp

/-- INTERNAL: the flags cover the resolved input channels of any list whose first pass
completes. -/
theorem collectNeeds_covers {chs : List ScadaChannel} {need : Need}
    (h : collectNeeds chs = some need) {ch : ScadaChannel} (hch : ch ∈ chs) {var : Variable}
    (hin : ch.inVar = some ⟨some var⟩) {c : Cache} (hc : neededBy var.projectPath = some c) :
    need c = true := by
  apply of_mem_foldlM (P := fun need : Need => need c = true) _ hch _ h
  · -- A flag that is set stays set.
    intro need₀ ch' need₁ h₀ hstep
    rcases ch' with ⟨_ | ⟨_ | var'⟩, out⟩
    · exact Option.some.inj hstep ▸ h₀
    · cases hstep
    · rw [← Option.some.inj hstep]
      exact (mark_iff _ _ _).mpr (Or.inl h₀)
  · intro need₀ need₁ hstep
    simp only [hin, Option.some.injEq] at hstep
    rw [← hstep]
    exact (mark_iff _ _ _).mpr (Or.inr hc)

/-! ## The refresh -/

/-- The probes of a refresh, in the order they are run. -/
def probes (need : Need) : List Bytes := (Cache.all.filter need).map Cache.command

/-- INTERNAL: a probe is run iff its flag is set. -/
theorem log_refreshOne (env : Env) (need : Need) (r : Runtime) (c : Cache) :
    (refreshOne env need r c).proc.log =
      r.proc.log ++ (if need c then [c.command] else []).map .popen := by
  unfold refreshOne
  cases hc : need c <;> simp [Runtime.exec, execCommand]

/-- INTERNAL: **the refresh runs the probes that are needed, each once, in a fixed
order.** -/
theorem log_refresh (env : Env) (need : Need) (r : Runtime) :
    (refresh env need r).proc.log = r.proc.log ++ (probes need).map .popen := by
  unfold refresh probes
  generalize Cache.all = l
  induction l generalizing r with
  | nil => simp
  | cons c l ih =>
    rw [List.foldl_cons, ih, log_refreshOne]
    cases hc : need c <;> simp [hc]

end Pca9536Driver.Interface
