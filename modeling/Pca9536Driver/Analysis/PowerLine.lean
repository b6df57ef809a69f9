import Pca9536Driver.Interface.UsbLine
import Pca9536Driver.Analysis.Isolation
import Pca9536Driver.Analysis.Lifecycle
import Pca9536Driver.Analysis.UsbPulse

/-!
# Who switches the USB power line

An instance sets the line only when it has a channel for it, a block sets it in every
call. The line belongs to the module that set it last: behind a block it is low while a
pulse of this block is running, whatever the channel of an instance has asked for.
-/

set_option autoImplicit false

namespace Pca9536Driver.Analysis

open Pca9536Driver.Library Pca9536Driver.Model Pca9536Driver.Interface

variable {ι κ : Type*} [DecidableEq ι] [DecidableEq κ]

/-- One of the last 100 calls has raised `USB_Power`. -/
def recentEdge (calls : List TestFBInputs) : Prop :=
  ∃ t < calls.length,
    RisingEdge (fun n => (calls.map TestFBInputs.usbPower).getD n false) t ∧ calls.length ≤ t + 100

/-- INTERNAL: **the pulse of a block follows the calls of this block**, whatever else is
executed in between. -/
theorem usbReset_iff_recentEdge {s₀ s : Plant ι κ} {as : List (HostAction ι κ)} {k : κ}
    (hnew : s₀.blocks k = TestFB.new) (hrun : s₀.run as = some s) :
    (s.blocks k).usbReset = true ↔ recentEdge (callsOf k as) := by
  have halone := (block_alone k hrun s₀.proc).1
  set calls := callsOf k as
  have hfold := (block s₀.proc).foldl_eq_run calls ⟨false, false, false, false, false⟩
  set inp : ℕ → TestFBInputs := fun n => calls.getD n ⟨false, false, false, false, false⟩ with hinp
  have hblock : ((block s₀.proc).run inp calls.length).1 = s.blocks k := by
    rw [← hfold, ← halone, hnew]
    rfl
  have htracks : Tracks (s.blocks k) (pulse.run inp calls.length) :=
    hblock ▸ (pulseSimulation s₀.proc).rel_run inp calls.length
  have hinputs : (TestFBInputs.usbPower ∘ inp) =
      fun n => (calls.map TestFBInputs.usbPower).getD n false := by
    funext n
    simp only [Function.comp, hinp, List.getD_eq_getElem?_getD, List.getElem?_map]
    cases calls[n]? <;> rfl
  rw [htracks.reset, decide_eq_true_eq, pulse, Machine.run_comap, hinputs]
  unfold recentEdge
  cases hlen : calls.length with
  | zero => simp [Oneshot.machine]
  | succ t =>
    rw [Oneshot.lt_left_iff]
    apply exists_congr
    intro e
    exact and_congr Nat.lt_succ_iff.symm (and_congr_right fun _ => by omega)

/-- INTERNAL: behind a run of quiet actions the line is where it was. -/
theorem level_of_quiet_trace {s s' : Plant ι κ} {as : List (HostAction ι κ)}
    (hrun : s.run as = some s')
    (hquiet : ∀ x ∈ s.trace as, ∀ cmd ∈ systems x.2, lineWrite cmd = none) :
    ∃ cmds, systems s'.proc.log = systems s.proc.log ++ cmds ∧
      ∀ start, level start cmds = start := by
  refine ⟨systems ((s.trace as).flatMap Prod.snd), ?_, fun start => level_of_quiet start ?_⟩
  · rw [Plant.log_run hrun, systems_append]
  · generalize s.trace as = tr at hquiet
    induction tr with
    | nil => exact fun cmd h => absurd h List.not_mem_nil
    | cons x tr ih =>
      intro cmd hcmd
      rw [List.flatMap_cons, systems_append, List.mem_append] at hcmd
      rcases hcmd with hcmd | hcmd
      · exact hquiet x (by simp) cmd hcmd
      · exact ih (fun y hy => hquiet y (by simp [hy])) cmd hcmd

/-- **The line belongs to the module that set it last.** In every run of any number of
instances and new blocks, in any order and in any environments: if nothing behind an
action sets the line, then behind a call of a block the line is low iff one of the last
100 calls of this block has raised `USB_Power`, and behind a scan that reads a string
under the name of the line it is low iff the last one is `true`.
SOURCE: simple_test_protocol.cpp:294-296, test_fb.cpp:18-33 -/
theorem line_of_last_writer {s₀ s₁ s₂ s : Plant ι κ} {before after : List (HostAction ι κ)}
    {a : HostAction ι κ} (hnew : ∀ k, s₀.blocks k = TestFB.new) (hbefore : s₀.run before = some s₁)
    (hact : s₁.act a = some s₂) (hafter : s₂.run after = some s)
    (hquiet : ∀ x ∈ s₂.trace after, ∀ cmd ∈ systems x.2, lineWrite cmd = none) (start : Bool) :
    ∃ cmds es, systems s.proc.log = systems s₀.proc.log ++ cmds ∧
      s₂.proc.log = s₁.proc.log ++ es ∧
      (∀ k inputs, a = .block k inputs →
        (level start cmds = false ↔ recentEdge (callsOf k (before ++ [a])))) ∧
      ∀ i op buff, a = .protocol i op → lastRead (lit "USB_POWER") (reads es) = some buff →
        (level start cmds = false ↔ buff = lit "true") := by
  obtain ⟨cmds, hcmds, hlevel⟩ := level_of_quiet_trace hafter hquiet
  obtain ⟨es, hes⟩ := Plant.log_act hact
  set first := systems ((s₀.trace before).flatMap Prod.snd) with hfirst
  refine ⟨first ++ systems es ++ cmds, es, ?_, hes, ?_, ?_⟩
  · rw [hcmds, hes, Plant.log_run hbefore]
    simp [hfirst]
  · rintro k inputs rfl
    have hrun : s₀.run (before ++ [.block k inputs]) = some s₂ := by
      rw [Plant.run_append, hbefore, Option.bind_some, Plant.run_cons, hact]
      rfl
    rw [← usbReset_iff_recentEdge (hnew k) hrun, level_append, hlevel]
    rw [Plant.act_block] at hact
    obtain rfl := Option.some.inj hact
    obtain rfl := List.append_cancel_left hes
    simp [level, line_block]
  · rintro i op buff rfl hread
    obtain ⟨r, hr, rfl⟩ := Plant.act_protocol hact
    rw [level_append, hlevel]
    rcases operation_cases hr hes with ⟨rfl, -⟩ | ⟨-, -, rfl⟩ | ⟨env, chs, -, -, rfl⟩
    · simp [lastRead] at hread
    · simp [lastRead] at hread
    · obtain ⟨new, hnew', hline⟩ := line_scan env chs ⟨s₁.protocols i, s₁.proc⟩
      obtain rfl : es = new := List.append_cancel_left (hes.symm.trans hnew')
      unfold level
      rw [List.filterMap_append, List.getLast?_append, hline, getLast?_lineLevels, hread]
      simp

/-- `line_of_last_writer` for an instance that holds the line low, a block without a pulse
and an instance with a lamp behind it: the call of the block lets the line go, and the lamp
does not touch it. -/
theorem line_of_last_writer_block :
    let env : Env := ⟨.exact, fun _ _ => [], fun _ _ => lit "true"⟩
    let line : ScadaChannel := ⟨none, some ⟨some ⟨1, lit "USB_POWER"⟩⟩⟩
    let lamp : ScadaChannel := ⟨none, some ⟨some ⟨2, lit "RED_LED"⟩⟩⟩
    let s₀ : Plant Bool Unit :=
      ⟨fun i => ⟨[if i then line else lamp], 0xFF, false⟩, fun _ => TestFB.new, ⟨fun _ => [], []⟩⟩
    ∃ s₁ s₂ s cmds, s₀.run [.protocol true (.execute env)] = some s₁ ∧
      level true (systems s₁.proc.log) = false ∧
      s₁.act (.block () ⟨false, false, false, false, false⟩) = some s₂ ∧
      s₂.run [.protocol false (.execute env)] = some s ∧
      systems s.proc.log = cmds ∧ level true cmds = true := by
  intro env line lamp s₀
  obtain ⟨s₁, hrun⟩ : ∃ s₁, s₀.run [.protocol true (.execute env)] = some s₁ := ⟨_, rfl⟩
  obtain ⟨s₂, hact⟩ : ∃ s₂, s₁.act (.block () ⟨false, false, false, false, false⟩) = some s₂ :=
    ⟨_, rfl⟩
  obtain ⟨s, hafter⟩ : ∃ s, s₂.run [.protocol false (.execute env)] = some s := by
    obtain rfl := Option.some.inj hrun
    obtain rfl := Option.some.inj hact
    exact ⟨_, rfl⟩
  have hquiet : ∀ x ∈ s₂.trace [.protocol false (.execute env)], ∀ cmd ∈ systems x.2,
      lineWrite cmd = none := by
    obtain rfl := Option.some.inj hrun
    obtain rfl := Option.some.inj hact
    decide
  obtain ⟨cmds, es, hcmds, -, hblock, -⟩ :=
    line_of_last_writer (fun _ => rfl) hrun hact hafter hquiet true
  have hnone : ¬ recentEdge (callsOf () ([.protocol true (.execute env)] ++
      [.block () ⟨false, false, false, false, false⟩] : List (HostAction Bool Unit))) := by
    rintro ⟨t, ht, hedge, -⟩
    obtain rfl : t = 0 := by simpa [callsOf] using ht
    simp [RisingEdge, callsOf] at hedge
  refine ⟨s₁, s₂, s, cmds, hrun, ?_, hact, hafter, hcmds, ?_⟩
  · obtain rfl := Option.some.inj hrun
    decide
  · simpa using mt (hblock () _ rfl).mp hnone

end Pca9536Driver.Analysis
