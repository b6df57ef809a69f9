import Pca9536Driver.Interface.Steady
import Pca9536Driver.Interface.UsbLine

/-!
# Scans while nothing changes

As long as commands print and variables hold the same, all scans behind the first one are
the same, event by event. They need not be calm: two channels of one name that disagree
make an output toggle in every scan, and only such channels do.
-/

set_option autoImplicit false

namespace Pca9536Driver.Analysis

open Pca9536Driver.Library Pca9536Driver.Model Pca9536Driver.Interface

/-- **Nothing new happens while nothing changes.** For any channels: behind the first scan
an instance stays as it is, and every further scan adds the same events. They publish,
read and ask what the first scan does, and end with the same mask.
SOURCE: simple_test_protocol.cpp:89-306 -/
theorem steady_scans_repeat {env : Env} (hsteady : Steady env) (chs : List Channel)
    (mask : BitVec 8) (p : Process) :
    let r := init (load chs mask p)
    ∃ r₁ first es, execute env r = some r₁ ∧ r₁.proc.log = r.proc.log ++ first ∧
      (∀ n, ∃ m, scans env (n + 1) r = some m ∧ m.self = r₁.self ∧
        m.proc.log = r₁.proc.log ++ (List.replicate n es).flatten) ∧
      writes es = writes first ∧ reads es = reads first ∧ popens es = popens first ∧
      (systems es).getLast? = (systems first).getLast? := by
  intro r
  obtain ⟨es, hes, hrun⟩ := steady_scans hsteady chs mask p
  have hself := (steady_settles hsteady chs mask p).1
  obtain ⟨-, first, hfirst, hreads, hsystems, hwrites, hpopens⟩ :=
    steady_scan hsteady chs r Panel.off (init_mask _)
  obtain ⟨-, new, hnew, hreads', hsystems', hwrites', hpopens'⟩ :=
    steady_scan hsteady chs (scan env chs r) (panelOf env chs) (by rw [hself]; rfl)
  obtain rfl : es = new := List.append_cancel_left (hes.symm.trans hnew)
  refine ⟨scan env chs r, first, es, execute_eq_scan env chs r rfl, hfirst, fun n => ?_,
    hwrites'.trans hwrites.symm, hreads'.trans hreads.symm, hpopens'.trans hpopens.symm, ?_⟩
  · obtain ⟨m, hm, hmself, hlog⟩ := hrun n
    exact ⟨m, hm, hmself.trans hself.symm, hlog⟩
  · rw [hsystems, hsystems']
    -- The last command writes the mask behind all reads.
    rcases List.eq_nil_or_concat' (readings env chs) with hnil | ⟨rs, x, hrs⟩
    · rw [hnil]
      rfl
    · obtain ⟨before, hlast⟩ := outputCommands_concat Panel.off rs x
      obtain ⟨before', hlast'⟩ := outputCommands_concat (panelOf env chs) rs x
      rw [hrs, hlast, hlast', List.getLast?_concat, List.getLast?_concat, ← hrs]
      unfold panelOf
      rw [assignAll_idem]

/-- `steady_scans_repeat` for a channel that shows the name of the modem interface and
drives the blue lamp. -/
theorem steady_scans_repeat_lamp :
    let env : Env := ⟨.exact, fun _ _ => lit "usb0\n", fun _ _ => lit "true"⟩
    let ch : Channel := ⟨some ⟨1, lit "MODEM_IFACE"⟩, some ⟨2, lit "BLUE_LED"⟩⟩
    let r := init (load [ch] 0 ⟨fun _ => [], []⟩)
    ∃ r₁ es, execute env r = some r₁ ∧
      ∀ n, ∃ m, scans env (n + 1) r = some m ∧
        m.proc.log = r₁.proc.log ++ (List.replicate n es).flatten := by
  intro env ch r
  have hsteady : Steady env := ⟨fun _ _ _ => rfl, fun _ _ _ => rfl⟩
  obtain ⟨r₁, -, es, hr₁, -, hrun, -⟩ := steady_scans_repeat hsteady [ch] 0 ⟨fun _ => [], []⟩
  refine ⟨r₁, es, hr₁, fun n => ?_⟩
  obtain ⟨m, hm, -, hlog⟩ := hrun n
  exact ⟨m, hm, hlog⟩

/-! ## Toggling outputs -/

/-- Nothing is switched: every mask that is written is `mask`, and the line is set to one
level only. -/
structure Still (es : List Event) (mask : BitVec 8) : Prop where
  masks : ∀ m ∈ (systems es).filterMap outputWrite, m = mask
  line : ∀ b ∈ (systems es).filterMap lineWrite, ∀ b' ∈ (systems es).filterMap lineWrite, b = b'

/-- INTERNAL: each reading writes the output register once. -/
theorem outputWrites_driveCommands (path buff : Bytes) (on : Panel) :
    (driveCommands path buff on).filterMap outputWrite = [encode on] := by
  have hgpio (cmd : Bytes) (h : cmd = lit "gpioset 0 268=0" ∨ cmd = lit "gpioset 0 268=1") :
      outputWrite cmd = none := writeTo_gpioset h 1
  unfold driveCommands
  split_ifs
  · simp [hgpio]
  · simp [hgpio]
  · simp

/-- INTERNAL: **the masks of a scan stay what they were** iff the panel holds everything
that is assigned. By induction on the reads: the first mask decides about the first one. -/
theorem masks_still_iff (on : Panel) (rs : List (Variable × Bytes)) :
    (∀ m ∈ (outputCommands on rs).filterMap outputWrite, m = encode on) ↔
      ∀ a ∈ assignments rs, on a.1 = a.2 := by
  induction rs generalizing on with
  | nil => simp [outputCommands]
  | cons x rs ih =>
    obtain ⟨var, buff⟩ := x
    have hone : assignAll on (assignments [(var, buff)]) = on ↔
        ∀ a ∈ assignments [(var, buff)], on a.1 = a.2 := by
      cases ho : Output.ofPath var.projectPath with
      | none => simp [assignments_singleton_of_none ho]
      | some o => simp [assignments_singleton ho, eq_comm]
    rw [outputCommands, List.filterMap_append, outputWrites_driveCommands, List.singleton_append,
      List.forall_mem_cons, encode_injective.eq_iff, ← List.singleton_append (l := rs),
      assignments_append, List.forall_mem_append, hone]
    apply and_congr_right
    intro h
    rw [hone.mpr h]
    exact ih on

/-- INTERNAL: the line is still iff the readings of `USB_POWER` agree. -/
theorem line_still_iff (rs : List (Variable × Bytes)) :
    (∀ b ∈ lineLevels rs, ∀ b' ∈ lineLevels rs, b = b') ↔ Agree rs (lit "USB_POWER") := by
  unfold Agree
  simp only [lineLevels, List.mem_map, List.mem_filter, decide_eq_true_eq, forall_exists_index,
    and_imp]
  constructor
  · intro h x hx y hy hxn hyn
    have heq := h _ x hx hxn rfl _ y hy hyn rfl
    exact not_iff_not.mp (decide_eq_decide.mp heq)
  · rintro h _ x hx hxn rfl _ y hy hyn rfl
    exact decide_eq_decide.mpr (not_congr (h x hx y hy hxn hyn))

/-- **A settled scan switches nothing iff channels of one name agree.** In a steady
environment, in every scan behind the first one and for any channels: every mask written
is the one of the instance and the USB line is set to one level iff no two channels that
switch the same output read strings of which only one is `true`.
SOURCE: simple_test_protocol.cpp:277-304 -/
theorem settled_scan_still_iff {env : Env} (hsteady : Steady env) (chs : List Channel)
    (mask : BitVec 8) (p : Process) (n : ℕ) :
    ∃ m m' es, scans env (n + 1) (init (load chs mask p)) = some m ∧ execute env m = some m' ∧
      m'.proc.log = m.proc.log ++ es ∧
      (Still es m.self.mask ↔ (∀ o : Output, Agree (readings env chs) o.name) ∧
        Agree (readings env chs) (lit "USB_POWER")) := by
  obtain ⟨_, -, hrun⟩ := steady_scans hsteady chs mask p
  obtain ⟨m, hm, hself, -⟩ := hrun n
  have hmask : m.self.mask = encode (panelOf env chs) := by rw [hself]; rfl
  obtain ⟨-, es, hes, hreads, hsystems, -⟩ := steady_scan hsteady chs m _ hmask
  obtain ⟨es', hes', hline⟩ := line_scan env chs m
  obtain rfl : es = es' := List.append_cancel_left (hes.symm.trans hes')
  have hexec : execute env m = some (scan env chs m) :=
    execute_eq_scan env chs m (congrArg SimpleTestProtocol.channels hself)
  have hmasks : (∀ m' ∈ (systems es).filterMap outputWrite, m' = m.self.mask) ↔
      ∀ o : Output, Agree (readings env chs) o.name := by
    rw [hsystems, hmask, masks_still_iff, ← assignments_agree_iff]
    exact assignAll_holds_iff _ _
  refine ⟨m, scan env chs m, es, hm, hexec, hes, ?_⟩
  rw [← hmasks, ← line_still_iff, ← hreads, ← hline]
  exact ⟨fun h => ⟨h.masks, h.line⟩, fun h => ⟨h.1, h.2⟩⟩

/-- `settled_scan_still_iff` for two channels of the buzzer that disagree: some mask that
is written is not the one of the instance. -/
theorem settled_scan_still_iff_buzzer :
    let on : Variable := ⟨1, lit "BUZZER"⟩
    let off : Variable := ⟨2, lit "BUZZER"⟩
    let env : Env := ⟨.exact, fun _ _ => [], fun _ var => if var = on then lit "true" else []⟩
    let r := init (load [⟨none, some on⟩, ⟨none, some off⟩] 0 ⟨fun _ => [], []⟩)
    ∃ m m' es, scans env 3 r = some m ∧ execute env m = some m' ∧
      m'.proc.log = m.proc.log ++ es ∧ ¬ Still es m.self.mask := by
  intro on off env r
  have hsteady : Steady env := ⟨fun _ _ _ => rfl, fun _ _ _ => rfl⟩
  obtain ⟨m, m', es, hm, hm', hes, hiff⟩ := settled_scan_still_iff hsteady
    [⟨none, some on⟩, ⟨none, some off⟩] 0 ⟨fun _ => [], []⟩ 2
  refine ⟨m, m', es, hm, hm', hes, fun hstill => ?_⟩
  have hagree := (hiff.mp hstill).1 .buzzer (on, lit "true") (by simp [readings, env])
    (off, []) (by simp [readings, env, on, off]) rfl rfl
  exact absurd (hagree.mp rfl) (by decide)

end Pca9536Driver.Analysis
