import Pca9536Driver.Interface.Columns
import Pca9536Driver.Analysis.DeviceDetection

/-!
# MODEM_STATUS is the word in the ninth place

The state of the modem is asked for by its place in a line, and the place depends on the
attributes in front of it: for an interface that belongs to a bridge the word found there is
the name of the bridge. If there is no interface `usb0` but one with `usb0` in its name, the
probe is positive and the command prints nothing.
-/

set_option autoImplicit false

namespace Pca9536Driver.Analysis

open Pca9536Driver.Library Pca9536Driver.Model Pca9536Driver.Interface

/-- The interfaces of a system, with what `ip link show usb0` prints: a line and others
behind it, if there is such an interface. -/
structure Modem where
  dev : Devices
  link : Option LinkLine
  others : List Bytes
  present_iff : link ≠ none ↔ HasInterface dev (lit "usb0")

namespace Modem

variable (M : Modem)

/-- What the command of the channel prints. -/
def status : Bytes :=
  match M.link with
  | some l => awkHead 9 (l.text :: M.others)
  | none => awkHead 9 []

/-- An environment in which the commands report on the modem. -/
def report (env : Env) : Env :=
  probed
    { env with
      popen := fun log cmd =>
        if cmd = lit "ip link show usb0 | awk '\x7bprint $9\x7d' | head -n 1" then M.status
        else env.popen log cmd } M.dev

/-- INTERNAL: the probe of the link status. -/
theorem popen_report (env : Env) (log : List Event) :
    (M.report env).popen log (lit "ip link show usb0 | awk '\x7bprint $9\x7d' | head -n 1") =
      M.status := by
  unfold report
  rw [probed_popen_of_ne _ _ _ (by decide) (by decide) (by decide)]
  simp only [if_true]

/-- Whether an interface has `usb0` in its name. -/
def Found : Prop := ∃ l ∈ M.dev.interfaces, lit "usb0" <:+: l.text

/-- An interface whose link is shown is listed. -/
theorem found_of_link {l : LinkLine} (h : M.link = some l) : M.Found :=
  (M.present_iff.mp (by simp [h])).found

/-- INTERNAL: what is collected from the command. -/
theorem collect_status : collect M.status = (M.link.map fun l => l.ninth.text).getD [] := by
  unfold status
  cases M.link with
  | some l => exact collect_statusColumn l M.others
  | none =>
    show collect [] = []
    rw [collect_of_noNul List.not_mem_nil]
    rfl

end Modem

/-- **MODEM_STATUS is the word in the ninth place.** For all interfaces and every line of
`ip`, with any channels and from any state, a scan publishes under `MODEM_STATUS` the state
of `usb0`, if `usb0` belongs to no bridge; the name of the bridge, if it does; an empty text,
if there is no `usb0` but a similar name; `NOT CONNECTED`, if there is neither.
SOURCE: simple_test_protocol.cpp:147-149,190-196 -/
theorem modem_status_is_ninth_word (env : Env) (M : Modem) (chs : List Channel)
    (mask : BitVec 8) (conned : Bool) (p : Process) :
    ∃ r' w, execute (M.report env) ⟨⟨chs.map Channel.toScada, mask, conned⟩, p⟩ = some r' ∧
      writes r'.proc.log = writes p.log ++ w ∧
      (∀ l, M.link = some l → l.master = none →
        Publishes chs w .modemStatus (.string l.state.text)) ∧
      (∀ l b, M.link = some l → l.master = some b →
        Publishes chs w .modemStatus (.string b.text)) ∧
      (M.link = none → M.Found → Publishes chs w .modemStatus (.string [])) ∧
      (¬ M.Found → Publishes chs w .modemStatus (.string (lit "NOT CONNECTED"))) := by
  obtain ⟨r', cs, w, hexec, hw, hall, hfresh⟩ := execute_shows (M.report env) chs mask conned p
  have hstring := (strings_of_probed hfresh).2
  have hfound (h : M.Found) : Publishes chs w .modemStatus
      (.string ((M.link.map fun l => l.ninth.text).getD [])) := by
    apply publishes_of_output hall
    intro log
    have hc := hstring.mpr h
    have hcollect := M.collect_status
    rw [← M.popen_report env log] at hcollect
    simp only [Diagnostic.value, Diagnostic.output, Diagnostic.command, Diagnostic.shared,
      Diagnostic.cache, hc, if_true, hcollect]
  refine ⟨r', w, hexec, hw, fun l hl hm => ?_, fun l b hl hm => ?_, fun hl hf => ?_, fun hf => ?_⟩
  · simpa [hl, LinkLine.ninth, hm] using hfound (M.found_of_link hl)
  · simpa [hl, LinkLine.ninth, hm] using hfound (M.found_of_link hl)
  · simpa [hl] using hfound hf
  · have hc : contains (cs .modemCheck) (lit "usb0") = false :=
      Bool.eq_false_iff.mpr fun hc => hf (hstring.mp hc)
    apply publishes_of_value hall
    intro out
    simp only [Diagnostic.value, Diagnostic.shared, Diagnostic.cache, hc, Bool.false_eq_true,
      if_false]

/-- `modem_status_is_ninth_word` for a modem whose interface is up and belongs to no
bridge. -/
theorem modem_status_is_ninth_word_up :
    let usb0 : Line := ⟨lit "usb0", by decide, by decide⟩
    let link : LinkLine :=
      { index := word (lit "4:") (by decide) (by decide)
        name := word (lit "usb0:") (by decide) (by decide)
        flags := word (lit "<BROADCAST,UP,LOWER_UP>") (by decide) (by decide)
        mtu := word (lit "1500") (by decide) (by decide)
        qdisc := word (lit "pfifo_fast") (by decide) (by decide)
        master := none
        state := word (lit "UP") (by decide) (by decide)
        tail := ⟨lit "mode DEFAULT group default qlen 1000", by decide, by decide⟩ }
    let M : Modem :=
      { dev := ⟨[], [usb0]⟩
        link := some link
        others := [lit "    link/ether 0c:5b:8f:27:9a:64 brd ff:ff:ff:ff:ff:ff"]
        present_iff := iff_of_true (by simp) ⟨usb0, by simp, rfl⟩ }
    let env : Env := ⟨.nearest, fun _ _ => [], fun _ _ => []⟩
    let chs : List Channel := [⟨some ⟨1, lit "MODEM_STATUS"⟩, none⟩]
    ∃ r', execute (M.report env) ⟨⟨chs.map Channel.toScada, 0, false⟩, ⟨fun _ => [], []⟩⟩ =
        some r' ∧
      (⟨1, lit "MODEM_STATUS"⟩, .string (lit "UP")) ∈ writes r'.proc.log := by
  intro usb0 link M env chs
  obtain ⟨r', w, hexec, hw, hup, -⟩ :=
    modem_status_is_ninth_word env M chs 0 false ⟨fun _ => [], []⟩
  refine ⟨r', hexec, ?_⟩
  rw [hw]
  exact (hup link rfl rfl).2 _ (List.mem_singleton_self _) _ rfl rfl

end Pca9536Driver.Analysis
