import Pca9536Driver.Library.Cell
import Pca9536Driver.Analysis.ShellCommands

/-!
# What the pins show when commands fail and modules take turns

Any number of instances and blocks write the registers of one expander, and any of their
commands may fail without notice. The output register holds what the last command wrote
that did not fail, and this is what its module wanted at that moment: an instance what it
had read since its last `Init`, a block what it had been given. The direction register
makes the pins outputs as soon as one of the commands for it has not failed.
-/

set_option autoImplicit false

namespace Pca9536Driver.Analysis

open Pca9536Driver.Library Pca9536Driver.Model Pca9536Driver.Interface

variable {ι κ : Type*} [DecidableEq ι] [DecidableEq κ]

/-! ## The device as two cells -/

/-- INTERNAL: **the registers are independent cells** of the device. -/
theorem run_eq_cells (ok : ℕ → Bool) (d : Pca9536) (cmds : List Bytes) :
    Pca9536.run ok 0 d cmds =
      ⟨cell outputWrite ok d.output cmds, cell directionWrite ok d.direction cmds⟩ := by
  induction cmds using List.reverseRecOn with
  | nil => rfl
  | append_singleton cmds cmd ih =>
    rw [Pca9536.run_append, ih, Nat.zero_add, cell_concat, cell_concat]
    cases hok : ok cmds.length <;> simp [Pca9536.run, hok, Pca9536.apply_eq]

/-! ## Commands and events -/

/-- INTERNAL: the place of a command among the events. -/
theorem event_of_command {es : List Event} {k : ℕ} {cmd : Bytes}
    (h : (systems es)[k]? = some cmd) :
    ∃ es₁ es₂, es = es₁ ++ .system cmd :: es₂ ∧ (systems es₁).length = k := by
  induction es generalizing k with
  | nil => simp at h
  | cons e es ih =>
    have hquiet (he : systems [e] = []) (h : (systems es)[k]? = some cmd) :
        ∃ es₁ es₂, e :: es = es₁ ++ .system cmd :: es₂ ∧ (systems es₁).length = k := by
      obtain ⟨es₁, es₂, rfl, hlen⟩ := ih h
      refine ⟨e :: es₁, es₂, rfl, ?_⟩
      rw [← List.singleton_append, systems_append, he]
      exact hlen
    cases e with
    | popen c => exact hquiet rfl (by simpa using h)
    | write var v => exact hquiet rfl (by simpa using h)
    | read var b => exact hquiet rfl (by simpa using h)
    | system c =>
      cases k with
      | zero =>
        obtain rfl : c = cmd := by simpa using h
        exact ⟨[], es, rfl, rfl⟩
      | succ k =>
        obtain ⟨es₁, es₂, rfl, hlen⟩ := ih (by simpa using h)
        exact ⟨.system c :: es₁, es₂, rfl, by simpa using hlen⟩

omit [DecidableEq ι] [DecidableEq κ] in
/-- INTERNAL: a command of a trace is an event of one of its actions. -/
theorem entry_of_command {tr : List (HostAction ι κ × List Event)} {k : ℕ} {cmd : Bytes}
    (h : (systems (tr.flatMap Prod.snd))[k]? = some cmd) :
    ∃ before a es es' after, tr = before ++ (a, es ++ .system cmd :: es') :: after ∧
      (systems (before.flatMap Prod.snd ++ es)).length = k := by
  induction tr generalizing k with
  | nil => simp at h
  | cons x tr ih =>
    obtain ⟨a, es⟩ := x
    change (systems (es ++ tr.flatMap Prod.snd))[k]? = some cmd at h
    rw [systems_append, List.getElem?_append] at h
    split_ifs at h with hk
    · obtain ⟨es₁, es₂, rfl, hlen⟩ := event_of_command h
      exact ⟨[], a, es₁, es₂, tr, rfl, by simpa using hlen⟩
    · obtain ⟨before, b, es₁, es₂, after, rfl, hlen⟩ := ih h
      refine ⟨(a, es) :: before, b, es₁, es₂, after, rfl, ?_⟩
      simp only [List.flatMap_cons, List.append_assoc, systems_append, List.length_append] at hlen ⊢
      omega

/-! ## What a module wants -/

/-- Whether the action is `Init` of this instance. -/
def isInit (i : ι) : HostAction ι κ → Bool
  | .protocol j .init => decide (j = i)
  | _ => false

omit [DecidableEq κ] in
/-- INTERNAL: no other operation is. -/
theorem isInit_protocol (i j : ι) {op : Operation} (hop : op ≠ .init) :
    isInit i (.protocol j op : HostAction ι κ) = false := by
  cases op <;> first | rfl | exact absurd rfl hop

/-- The events of an instance since its last `Init`. -/
def sinceInit (i : ι) (tr : List (HostAction ι κ × List Event)) : List Event :=
  eventsOf (.inl i) (tr.rtakeWhile fun x => !isInit i x.1)

/-- The outputs a module wants on: an instance those for which it has last read `true`
since its last `Init`, a block those it was given in its last call. -/
def wanted (tr : List (HostAction ι κ × List Event)) : ι ⊕ κ → Panel
  | .inl i => fun o => decide (lastRead o.name (reads (sinceInit i tr)) = some (lit "true"))
  | .inr k => ((callsOf k (tr.map Prod.fst)).getLast?.map TestFBInputs.panel).getD Panel.off

/-- Every instance is initialised before its first `Execute`. -/
def InitFirst (as : List (HostAction ι κ)) : Prop :=
  ∀ before i env after, as = before ++ .protocol i (.execute env) :: after →
    .protocol i .init ∈ before

section Traces

variable {s s' s₁ s₂ : Plant ι κ} {as : List (HostAction ι κ)} {a : HostAction ι κ}
  {tr : List (HostAction ι κ × List Event)} {es : List Event} {i : ι}

/-- INTERNAL: `Init` starts the history anew. -/
theorem sinceInit_init : sinceInit i (tr ++ [(.protocol i .init, es)]) = [] := by
  unfold sinceInit
  rw [List.rtakeWhile_concat_neg _ _ _ (by simp [isInit])]
  rfl

/-- INTERNAL: every other action continues it. -/
theorem sinceInit_concat (h : isInit i a = false) : sinceInit i (tr ++ [(a, es)]) =
    sinceInit i tr ++ if a.module = .inl i then es else [] := by
  unfold sinceInit
  rw [List.rtakeWhile_concat_pos _ _ _ (by simp [h])]
  by_cases hm : a.module = .inl i <;> simp [eventsOf, hm]

/-- INTERNAL: one action more. -/
theorem trace_concat (hrun : s.run as = some s₁) (hact : s₁.act a = some s₂)
    (hlog : s₂.proc.log = s₁.proc.log ++ es) : s.trace (as ++ [a]) = s.trace as ++ [(a, es)] := by
  rw [Plant.trace_append hrun, Plant.trace_cons hact hlog]
  rfl

/-- INTERNAL: **from its `Init` on an instance follows what it reads**, whatever else is
executed. -/
theorem follows_sinceInit (hrun : s.run as = some s') (hinit : .protocol i .init ∈ as) :
    Follows (s'.protocols i) (sinceInit i (s.trace as)) := by
  induction as using List.reverseRecOn generalizing s' with
  | nil => cases hinit
  | append_singleton as a ih =>
    rw [Plant.run_append, Option.bind_eq_some_iff] at hrun
    obtain ⟨s₁, hs₁, hlast⟩ := hrun
    have hact : s₁.act a = some s' := by simpa [Plant.run_cons, Plant.run] using hlast
    obtain ⟨es, hlog⟩ := Plant.log_act hact
    rw [trace_concat hs₁ hact hlog]
    cases a with
    | block k inputs =>
      have hmem : .protocol i .init ∈ as := by simpa using hinit
      rw [Plant.act_block] at hact
      obtain rfl := Option.some.inj hact
      rw [sinceInit_concat rfl, if_neg (by simp [HostAction.module]), List.append_nil]
      show Follows (s₁.protocols i) _
      exact ih hs₁ hmem
    | protocol j op =>
      obtain ⟨r, hr, rfl⟩ := Plant.act_protocol hact
      by_cases hj : j = i
      · subst hj
        simp only [Function.update_self]
        by_cases hop : op = .init
        · subst hop
          obtain rfl := Option.some.inj hr
          rw [sinceInit_init]
          constructor
          · simpa using init_mask _
          · exact honest_of_systems_eq_nil _ rfl
        · have hmem : .protocol j .init ∈ as := by simpa [Ne.symm hop] using hinit
          have hself : (HostAction.protocol j op : HostAction ι κ).module = .inl j := rfl
          rw [sinceInit_concat (isInit_protocol j j hop), if_pos hself]
          exact (ih hs₁ hmem).step hop hr hlog
      · have hmem : .protocol i .init ∈ as := by simpa [Ne.symm hj] using hinit
        have hnot : isInit i (.protocol j op : HostAction ι κ) = false := by
          cases op <;> simp [isInit, hj]
        rw [sinceInit_concat hnot, if_neg (by simpa [HostAction.module] using hj), List.append_nil]
        simpa [Function.update_of_ne (Ne.symm hj)] using ih hs₁ hmem

/-- INTERNAL: **every mask that is written is what its module wants** at this moment. -/
theorem mask_eq_wanted {before after : List (HostAction ι κ × List Event)} {es' : List Event}
    {cmd : Bytes} {m : BitVec 8} (hfirst : InitFirst as) (hrun : s.run as = some s')
    (htrace : s.trace as = before ++ (a, es ++ .system cmd :: es') :: after)
    (hcmd : outputWrite cmd = some m) :
    m = encode (wanted (before ++ [(a, es)]) a.module) := by
  obtain ⟨as₁, as₂, s₁, s₂, rfl, hrun₁, rfl, hact, hlog⟩ := Plant.action_of_trace hrun htrace
  have hmem : Event.system cmd ∈ es ++ .system cmd :: es' := by simp
  cases a with
  | block k inputs =>
    rw [Plant.act_block] at hact
    obtain rfl := Option.some.inj hact
    have hes := List.append_cancel_left hlog
    rw [← hes, List.mem_map] at hmem
    obtain ⟨cmd', hcmd', heq⟩ := hmem
    obtain rfl : cmd' = cmd := Event.system.inj heq
    rw [outputWrite_blockCommands hcmd' hcmd]
    simp [wanted, HostAction.module, callsOf]
  | protocol i op =>
    obtain ⟨r, hr, rfl⟩ := Plant.act_protocol hact
    rcases operation_cases hr hlog with ⟨hnil, -⟩ | ⟨-, -, hes⟩ | ⟨env, chs, rfl, -, -⟩
    · simp at hnil
    · have hmem : Event.system cmd ∈ es ++ .system cmd :: es' := by simp
      rw [hes, List.mem_singleton, Event.system.injEq] at hmem
      rw [hmem, outputWrite_direction] at hcmd
      cases hcmd
    · have hfollows := follows_sinceInit hrun₁ (hfirst as₁ i env as₂ rfl)
      have hnext := hfollows.step (by simp) hr hlog
      have hself : (HostAction.protocol i (.execute env) : HostAction ι κ).module = .inl i := rfl
      have hpre : (sinceInit i (s.trace as₁) ++ es) ++ [.system cmd] <+:
          sinceInit i (s.trace as₁) ++ (es ++ .system cmd :: es') := ⟨es', by simp⟩
      have hnot : isInit i (.protocol i (.execute env) : HostAction ι κ) = false := rfl
      have hsince : sinceInit i (s.trace as₁ ++ [(.protocol i (.execute env), es)]) =
          sinceInit i (s.trace as₁) ++ es := by rw [sinceInit_concat hnot, if_pos hself]
      rw [hnext.honest _ cmd m hpre hcmd, assignAll_off, ← hsince]
      rfl

/-! ## The pins -/

/-- **The pins show what the last effective writer wants.** In every run of any number of
instances and blocks, in any order and in any environments, in which every instance is
initialised before it is executed, and whichever of the commands fail: the direction
register is 0x00 if a command for it has not failed, and else what it was at the start; the
output register is what it was at the start, if no command for it has taken effect, and
else the mask of what the module that issued the last one wanted at this moment.
SOURCE: simple_test_protocol.cpp:89-93,277-304, test_fb.cpp:3-36 -/
theorem pins_of_last_effective_write {s s' : Plant ι κ} {as : List (HostAction ι κ)}
    (hfirst : InitFirst as) (hrun : s.run as = some s') (ok : ℕ → Bool) (d : Pca9536) :
    ∃ cmds, systems s'.proc.log = systems s.proc.log ++ cmds ∧
      ((∀ k x, ¬ TakesEffect directionWrite ok cmds k x) ∧
          (Pca9536.run ok 0 d cmds).direction = d.direction ∨
        (∃ k x, TakesEffect directionWrite ok cmds k x) ∧
          (Pca9536.run ok 0 d cmds).direction = 0) ∧
      ((∀ k m, ¬ TakesEffect outputWrite ok cmds k m) ∧
          (Pca9536.run ok 0 d cmds).output = d.output ∨
        ∃ before a es cmd es' after,
          s.trace as = before ++ (a, es ++ .system cmd :: es') :: after ∧
          TakesEffect outputWrite ok cmds (systems (before.flatMap Prod.snd ++ es)).length
            (Pca9536.run ok 0 d cmds).output ∧
          (∀ j m, TakesEffect outputWrite ok cmds j m →
            j ≤ (systems (before.flatMap Prod.snd ++ es)).length) ∧
          (Pca9536.run ok 0 d cmds).output = encode (wanted (before ++ [(a, es)]) a.module)) := by
  set cmds := systems ((s.trace as).flatMap Prod.snd) with hcmds
  refine ⟨cmds, by rw [Plant.log_run hrun, systems_append], ?_, ?_⟩
  · rw [run_eq_cells]
    refine (cell_cases directionWrite ok d.direction cmds).imp id ?_
    rintro ⟨k, hk, -⟩
    obtain ⟨cmd, hcmd, hx⟩ := Option.bind_eq_some_iff.mp hk.2
    obtain ⟨before, a, es, es', after, htrace, -⟩ := entry_of_command hcmd
    have hfixed : FixedText (.system cmd) :=
      fixedText_trace s as (a, es ++ .system cmd :: es') (by simp [htrace]) _ (by simp)
    exact ⟨⟨k, _, hk⟩, directionWrite_orders hfixed hx⟩
  · rw [run_eq_cells]
    refine (cell_cases outputWrite ok d.output cmds).imp id ?_
    rintro ⟨k, hk, hlast⟩
    obtain ⟨cmd, hcmd, hm⟩ := Option.bind_eq_some_iff.mp hk.2
    obtain ⟨before, a, es, es', after, htrace, rfl⟩ := entry_of_command hcmd
    exact ⟨before, a, es, cmd, es', after, htrace, hk, hlast,
      mask_eq_wanted hfirst hrun htrace hm⟩

end Traces

/-- `pins_of_last_effective_write` for a lamp that an instance switches on and a block
behind it, whose write of the output register is lost: the lamp stays on. -/
theorem pins_of_last_effective_write_lost :
    let env : Env := ⟨.exact, fun _ _ => [], fun _ _ => lit "true"⟩
    let ch : ScadaChannel := ⟨none, some ⟨some ⟨1, lit "RED_LED"⟩⟩⟩
    let s : Plant Unit Unit := ⟨fun _ => ⟨[ch], 0, false⟩, fun _ => TestFB.new, ⟨fun _ => [], []⟩⟩
    let as : List (HostAction Unit Unit) := [.protocol () .init, .protocol () (.execute env),
      .block () ⟨false, false, false, false, false⟩]
    let ok : ℕ → Bool := fun k => decide (k ≠ 4)
    ∃ s' cmds before es, ∃ a : HostAction Unit Unit, s.run as = some s' ∧
      systems s'.proc.log = cmds ∧ Pca9536.run ok 0 ⟨0xFF, 0xFF⟩ cmds = ⟨0xFE, 0⟩ ∧
      encode (wanted (before ++ [(a, es)]) a.module) = 0xFE := by
  intro env ch s as ok
  obtain ⟨s', hrun⟩ : ∃ s', s.run as = some s' := ⟨_, rfl⟩
  have hfirst : InitFirst as := by
    intro before i env' after h
    cases before with
    | nil => simp [as] at h
    | cons b before =>
      obtain ⟨rfl, -⟩ := List.cons.inj h
      simp
  have hpins : Pca9536.run ok 0 ⟨0xFF, 0xFF⟩ (systems s'.proc.log) = ⟨0xFE, 0⟩ := by
    obtain rfl := Option.some.inj hrun
    decide
  obtain ⟨cmds, hcmds, -, houtput⟩ := pins_of_last_effective_write hfirst hrun ok ⟨0xFF, 0xFF⟩
  obtain rfl : systems s'.proc.log = cmds := hcmds
  rw [hpins] at houtput
  rcases houtput with ⟨-, hout⟩ | ⟨before, a, es, -, -, -, -, -, -, hout⟩
  · exact absurd hout (by decide)
  · exact ⟨s', _, before, es, a, hrun, rfl, hpins, hout.symm⟩

end Pca9536Driver.Analysis
