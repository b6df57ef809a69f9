import Pca9536Driver.Interface.Publishing

/-!
# A channel without a resolved variable

A parameter of a channel may be engaged while the runtime has not resolved its variable.
`ScadaChannel::Write` looks at both the parameter and the pointer; `Execute` looks at the
parameter only and follows the pointer, so one such channel ends the scan.
-/

set_option autoImplicit false

namespace Pca9536Driver.Analysis

open Pca9536Driver.Library Pca9536Driver.Model Pca9536Driver.Interface

/-! ## Scans with and without the unresolved channels -/

/-- A parameter that is engaged while its variable is still null. -/
def unresolvedParam : Option ScadaParameter → Bool
  | none => false
  | some param => param.m_var.isNone

/-- SOURCE: scada_channel.h:27-28,94-101 -/
def unresolved (ch : ScadaChannel) : Bool := unresolvedParam ch.inVar || unresolvedParam ch.outVar

/-- The instance with the unresolved channels removed from its list. -/
def withoutUnresolved (r : Runtime) : Runtime :=
  { r with self := { r.self with channels := r.self.channels.filter (!unresolved ·) } }

/-- The input variable of a channel, if it has one. -/
def inputVariable (ch : ScadaChannel) : Option Variable := ch.inVar.bind ScadaParameter.m_var

/-- What is written for the channels that are not unresolved. -/
def writesOfOthers (chs : List ScadaChannel) (w : List (Variable × Value)) :
    List (Variable × Value) :=
  w.filter fun x => !((chs.filter unresolved).filterMap inputVariable).contains x.1

/-- `Repeats mask cmds cmds'`: the commands `cmds` are `cmds'`, except that the last write
of a mask may be repeated; `mask` has been written before. -/
inductive Repeats : BitVec 8 → List Bytes → List Bytes → Prop
  | nil (mask : BitVec 8) : Repeats mask [] []
  | again {mask : BitVec 8} {cmds cmds' : List Bytes} (h : Repeats mask cmds cmds') :
      Repeats mask (outputCommand mask :: cmds) cmds'
  | write {mask mask' : BitVec 8} {cmds cmds' : List Bytes} (h : Repeats mask' cmds cmds') :
      Repeats mask (outputCommand mask' :: cmds) (outputCommand mask' :: cmds')
  | other {mask : BitVec 8} {cmd : Bytes} {cmds cmds' : List Bytes}
      (hcmd : ∀ mask', cmd ≠ outputCommand mask') (h : Repeats mask cmds cmds') :
      Repeats mask (cmd :: cmds) (cmd :: cmds')

/-- No repetition at all. -/
theorem Repeats.refl (mask : BitVec 8) (cmds : List Bytes) : Repeats mask cmds cmds := by
  induction cmds generalizing mask with
  | nil => exact .nil mask
  | cons cmd cmds ih =>
    by_cases hcmd : ∃ mask', cmd = outputCommand mask'
    · obtain ⟨mask', rfl⟩ := hcmd
      exact .write (ih mask')
    · push Not at hcmd
      exact .other hcmd (ih mask)

/-- The scan completes, and what it publishes for the other channels and commands is what it
does without the unresolved channels, repeated writes of the mask apart. -/
def Undisturbed (env : Env) (r : Runtime) : Prop :=
  ∃ r' r'' new new', execute env r = some r' ∧ execute env (withoutUnresolved r) = some r'' ∧
    r'.proc.log = r.proc.log ++ new ∧ r''.proc.log = r.proc.log ++ new' ∧
    writesOfOthers r.self.channels (writes new) = writesOfOthers r.self.channels (writes new') ∧
    Repeats r.self.mask (systems new) (systems new')

/-! ## Following a null pointer -/

/-- INTERNAL: a loop fails if its body fails on an element of the list, whatever the
state. -/
theorem foldlM_eq_none_of_mem {α σ : Type*} {f : σ → α → Option σ} {l : List α} {a : α}
    (ha : a ∈ l) (hf : ∀ s, f s a = none) (s : σ) : l.foldlM f s = none := by
  induction l generalizing s with
  | nil => cases ha
  | cons b l ih =>
    rw [List.foldlM_cons]
    rcases List.mem_cons.mp ha with rfl | ha
    · rw [hf s]
      rfl
    · cases f s b with
      | none => rfl
      | some s' => exact ih ha s'

/-- INTERNAL: a parameter is unresolved iff it is there without a variable. -/
theorem unresolvedParam_iff (param : Option ScadaParameter) :
    unresolvedParam param = true ↔ param = some ⟨none⟩ := by
  rcases param with _ | ⟨_ | var⟩ <;> simp [unresolvedParam]

/-- INTERNAL: a parameter that is resolved or missing. -/
theorem exists_variable {param : Option ScadaParameter} (h : unresolvedParam param = false) :
    ∃ v : Option Variable, param = v.map fun var => ⟨some var⟩ := by
  rcases param with _ | ⟨_ | var⟩
  · exact ⟨none, rfl⟩
  · cases h
  · exact ⟨some var, rfl⟩

/-- INTERNAL: **the scan ends at an unresolved channel**. -/
theorem processChannel_of_unresolved {ch : ScadaChannel} (h : unresolved ch = true) (env : Env)
    (r : Runtime) : processChannel env r ch = none := by
  unfold unresolved at h
  rw [Bool.or_eq_true, unresolvedParam_iff, unresolvedParam_iff] at h
  unfold processChannel
  rcases h with hin | hout
  · have hfails : inputPart env ch r = none := by
      unfold inputPart
      rw [hin]
    rw [hfails]
    rfl
  · -- Whatever the input part does, the output part fails.
    have hfails (r : Runtime) : outputPart env ch r = none := by
      unfold outputPart
      rw [hout]
    cases inputPart env ch r with
    | none => rfl
    | some r' => exact hfails r'

/-- INTERNAL: a list without unresolved channels is a resolved configuration. -/
theorem exists_toScada {l : List ScadaChannel} (h : ∀ ch ∈ l, unresolved ch = false) :
    ∃ chs : List Channel, l = chs.map Channel.toScada := by
  induction l with
  | nil => exact ⟨[], rfl⟩
  | cons ch l ih =>
    obtain ⟨chs, rfl⟩ := ih fun c hc => h c (List.mem_cons_of_mem ch hc)
    have hch := h ch (by simp)
    unfold unresolved at hch
    rw [Bool.or_eq_false_iff] at hch
    obtain ⟨inVar, hin⟩ := exists_variable hch.1
    obtain ⟨outVar, hout⟩ := exists_variable hch.2
    refine ⟨⟨inVar, outVar⟩ :: chs, ?_⟩
    rw [List.map_cons, Channel.toScada, ← hin, ← hout]

/-- INTERNAL: **one unresolved channel ends the scan**, wherever it stands in the list. -/
theorem execute_of_unresolved {r : Runtime} {ch : ScadaChannel} (hch : ch ∈ r.self.channels)
    (h : unresolved ch = true) (env : Env) : execute env r = none := by
  unfold execute
  cases collectNeeds r.self.channels with
  | none => rfl
  | some need => exact foldlM_eq_none_of_mem hch (processChannel_of_unresolved h env) _

/-- **When a scan is not disturbed**: in every environment and from every state, the scan
completes and serves the other channels as if the unresolved ones were not there iff no
channel is unresolved.
SOURCE: simple_test_protocol.cpp:117-129,158-160,277-304; scada_channel.h:94-101 -/
theorem undisturbed_iff (env : Env) (r : Runtime) :
    Undisturbed env r ↔ ∀ ch ∈ r.self.channels, unresolved ch = false := by
  constructor
  · rintro ⟨r', -, -, -, hexec, -⟩ ch hch
    rw [← Bool.not_eq_true]
    intro h
    rw [execute_of_unresolved hch h env] at hexec
    cases hexec
  · intro h
    have hsame : withoutUnresolved r = r := by
      have hfilter : r.self.channels.filter (!unresolved ·) = r.self.channels := by
        rw [List.filter_eq_self]
        intro ch hch
        simp [h ch hch]
      unfold withoutUnresolved
      rw [hfilter]
    obtain ⟨chs, hchs⟩ := exists_toScada h
    have hexec := execute_eq_scan env chs r hchs
    obtain ⟨new, hlog⟩ := prefix_scan env chs r
    exact ⟨_, _, new, new, hexec, hsame.symm ▸ hexec, hlog.symm, hlog.symm, rfl, .refl _ _⟩

/-- **A null input variable stops the outputs**: with an unresolved input channel in front
of the channel of a lamp, the scan does not complete; without it, the lamp is driven. -/
theorem unresolved_channel_stops_scan :
    let env : Env := ⟨.exact, fun _ _ => [], fun _ _ => lit "true"⟩
    let r : Runtime :=
      ⟨⟨[⟨some ⟨none⟩, none⟩, ⟨none, some ⟨some ⟨1, lit "BLUE_LED"⟩⟩⟩], 0xFF, false⟩,
        ⟨fun _ => [], []⟩⟩
    execute env r = none ∧
    (execute env (withoutUnresolved r)).map (systems ·.proc.log) =
      some [lit "i2cset -y 2 0x41 0x01 247"] ∧
    ¬ Undisturbed env r := by
  intro env r
  have hnone : execute env r = none := rfl
  refine ⟨hnone, by decide, ?_⟩
  rintro ⟨r', -, -, -, hexec, -⟩
  rw [hnone] at hexec
  cases hexec

end Pca9536Driver.Analysis
