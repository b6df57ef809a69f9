import Pca9536Driver.Interface.Host

/-!
# What the modules of a runtime share

The eight strings of `Execute` are function-static, so all instances of the class work on
one set of them. Nothing of it can be seen from outside: the runtime behaves as one in
which every instance has strings of its own, whatever these held at the start. And as
long as the answers of the system do not depend on what the other modules have done, a
module among others does what it does alone.
-/

set_option autoImplicit false

namespace Pca9536Driver.Analysis

open Pca9536Driver.Library Pca9536Driver.Model Pca9536Driver.Interface

variable {ι κ : Type*} [DecidableEq ι] [DecidableEq κ]

/-! ## One set of strings or many -/

/-- A runtime in which every instance of the protocol module has strings of its own. -/
structure PrivatePlant (ι κ : Type*) where
  protocols : ι → SimpleTestProtocol
  blocks : κ → TestFB
  caches : ι → Cache → Bytes
  log : List Event

namespace PrivatePlant

/-- One action, on private strings. -/
def act (s : PrivatePlant ι κ) : HostAction ι κ → Option (PrivatePlant ι κ)
  | .protocol i op =>
    (op.run ⟨s.protocols i, ⟨s.caches i, s.log⟩⟩).map fun r =>
      { s with
        protocols := Function.update s.protocols i r.self
        caches := Function.update s.caches i r.proc.caches
        log := r.proc.log }
  | .block k inputs =>
    let (fb, proc) := TestFB.call inputs (s.blocks k, ⟨fun _ => [], s.log⟩)
    some { s with blocks := Function.update s.blocks k fb, log := proc.log }

/-- The actions one after the other, as long as none fails. -/
def run (s : PrivatePlant ι κ) (as : List (HostAction ι κ)) : Option (PrivatePlant ι κ) :=
  as.foldlM act s

/-- INTERNAL: a call of a function block uses no strings. -/
theorem act_block (s : PrivatePlant ι κ) (k : κ) (inputs : TestFBInputs) :
    let fb := { s.blocks k with inputs := inputs }
    s.act (.block k inputs) = some { s with
      blocks := Function.update s.blocks k (blockNext fb)
      log := s.log ++ (blockCommands fb).map .system } := by
  simp only [act, TestFB.call, block_execute_eq]

end PrivatePlant

/-- What can be seen of a runtime: its modules and the history. -/
def seen (s : Plant ι κ) : (ι → SimpleTestProtocol) × (κ → TestFB) × List Event :=
  (s.protocols, s.blocks, s.proc.log)

/-- What is seen from outside: the modules and the events. -/
def seenPrivate (s : PrivatePlant ι κ) : (ι → SimpleTestProtocol) × (κ → TestFB) × List Event :=
  (s.protocols, s.blocks, s.log)

/-- INTERNAL: **an action looks the same in both runtimes.** -/
theorem seen_act {s : Plant ι κ} {t : PrivatePlant ι κ} (h : seen s = seenPrivate t)
    (a : HostAction ι κ) :
    Option.Rel (fun s t => seen s = seenPrivate t) (s.act a) (t.act a) := by
  simp only [seen, seenPrivate, Prod.mk.injEq] at h
  obtain ⟨hprotocols, hblocks, hlog⟩ := h
  cases a with
  | protocol i op =>
    -- The strings are all that differs, and no operation depends on them.
    have halike : Alike s.proc.log s.proc.log ∅ ⟨s.protocols i, s.proc⟩
        ⟨t.protocols i, ⟨t.caches i, t.log⟩⟩ :=
      ⟨by rw [hprotocols], by simp, [], by simp, by simp [hlog]⟩
    have hrel := op.alike (fun env _ => SameBehind.refl env _) halike
    apply rel_map hrel
    intro r r' hr
    obtain ⟨e, he, he'⟩ := hr.log
    simp [seen, seenPrivate, hprotocols, hblocks, hr.self, he, he']
  | block k inputs =>
    rw [Plant.act_block, PrivatePlant.act_block]
    apply Option.Rel.some
    simp [seen, seenPrivate, hprotocols, hblocks, hlog]

/-- **Sharing the strings cannot be observed.** In every run of any number of instances and
blocks, with channels created, configured, initialised and executed in any order and in
any environments, the runtime with one set of shared strings and the one with private
strings reach the same states of all modules by the same events, or both follow a null
pointer; what the strings held at the start does not matter.
SOURCE: simple_test_protocol.cpp:96-155 -/
theorem shared_strings_unobservable (s : Plant ι κ) (caches : ι → Cache → Bytes)
    (as : List (HostAction ι κ)) :
    let t : PrivatePlant ι κ := ⟨s.protocols, s.blocks, caches, s.proc.log⟩
    (s.run as).map seen = (t.run as).map seenPrivate := by
  intro t
  apply map_eq_of_rel
  have hstart : seen s = seenPrivate t := rfl
  exact rel_foldlM (fun a _ s t hst => seen_act hst a) hstart

/-! ## One module among others -/

/-- INTERNAL: an instance among others does what it does alone. -/
theorem instance_alone {as : List (HostAction ι κ)} (i : ι)
    (hsteady : ∀ env, .execute env ∈ opsOf i as → Steady env) {s s' : Plant ι κ}
    (hrun : s.run as = some s') (p : Process) :
    ∃ r, (opsOf i as).foldlM Operation.run ⟨s.protocols i, p⟩ = some r ∧
      r.self = s'.protocols i ∧ r.proc.log = p.log ++ eventsOf (.inl i) (s.trace as) := by
  induction as generalizing s p with
  | nil =>
    obtain rfl := Option.some.inj hrun
    exact ⟨_, rfl, rfl, by simp [eventsOf, Plant.trace]⟩
  | cons a as ih =>
    rw [Plant.run_cons, Option.bind_eq_some_iff] at hrun
    obtain ⟨s₁, hs₁, hrest⟩ := hrun
    obtain ⟨es, hlog⟩ := Plant.log_act hs₁
    rw [Plant.trace_cons hs₁ hlog]
    cases a with
    | protocol j op =>
      obtain ⟨r, hr, rfl⟩ := Plant.act_protocol hs₁
      by_cases hj : j = i
      · subst hj
        rw [opsOf_protocol_self] at hsteady ⊢
        have halike : Alike s.proc.log p.log ∅ ⟨s.protocols j, s.proc⟩ ⟨s.protocols j, p⟩ :=
          ⟨rfl, by simp, [], by simp, by simp⟩
        have hrel := op.alike (fun env henv => (hsteady env (by simp [henv])).sameBehind _ _) halike
        rw [hr] at hrel
        cases hr' : op.run ⟨s.protocols j, p⟩ with
        | none => rw [hr'] at hrel; cases hrel
        | some r' =>
          rw [hr', Option.rel_some_some] at hrel
          obtain ⟨e, he, he'⟩ := hrel.log
          obtain rfl : es = e := List.append_cancel_left (hlog.symm.trans he)
          obtain ⟨r'', hrun', hself', hlog'⟩ :=
            ih (fun env henv => hsteady env (by simp [henv])) hrest r'.proc
          refine ⟨r'', ?_, hself', ?_⟩
          · rw [List.foldlM_cons, hr', ← hrun']
            simp [← hrel.self]
          · rw [hlog', he', eventsOf_cons_self (m := .inl j) es _ rfl, List.append_assoc]
      · have hne : (HostAction.protocol j op : HostAction ι κ).module ≠ .inl i := by
          simp [HostAction.module, hj]
        rw [opsOf_protocol_of_ne _ _ _ _ hj] at hsteady ⊢
        rw [eventsOf_cons_of_ne _ _ hne]
        have hother : i ≠ j := Ne.symm hj
        simpa [hother] using ih hsteady hrest p
    | block k inputs =>
      have hne : (HostAction.block k inputs : HostAction ι κ).module ≠ .inl i := by
        simp [HostAction.module]
      rw [opsOf_block] at hsteady ⊢
      rw [eventsOf_cons_of_ne _ _ hne]
      rw [Plant.act_block] at hs₁
      obtain rfl := Option.some.inj hs₁
      exact ih hsteady hrest p

/-- INTERNAL: a block among others does what it does alone, in every environment. -/
theorem block_alone {as : List (HostAction ι κ)} (k : κ) {s s' : Plant ι κ}
    (hrun : s.run as = some s') (p : Process) :
    let r := (callsOf k as).foldl (fun r inputs => TestFB.call inputs r) (s.blocks k, p)
    r.1 = s'.blocks k ∧ r.2.log = p.log ++ eventsOf (.inr k) (s.trace as) := by
  induction as generalizing s p with
  | nil =>
    obtain rfl := Option.some.inj hrun
    exact ⟨rfl, by simp [callsOf, eventsOf, Plant.trace]⟩
  | cons a as ih =>
    rw [Plant.run_cons, Option.bind_eq_some_iff] at hrun
    obtain ⟨s₁, hs₁, hrest⟩ := hrun
    obtain ⟨es, hlog⟩ := Plant.log_act hs₁
    rw [Plant.trace_cons hs₁ hlog]
    cases a with
    | protocol i op =>
      have hne : (HostAction.protocol i op : HostAction ι κ).module ≠ .inr k := by
        simp [HostAction.module]
      obtain ⟨r, -, rfl⟩ := Plant.act_protocol hs₁
      rw [callsOf_protocol, eventsOf_cons_of_ne _ _ hne]
      exact ih hrest p
    | block l inputs =>
      rw [Plant.act_block] at hs₁
      obtain rfl := Option.some.inj hs₁
      by_cases hl : l = k
      · subst hl
        obtain rfl := List.append_cancel_left hlog
        have hcall := block_execute_eq { s.blocks l with inputs := inputs } p
        have hnext := ih hrest { p with
          log := p.log ++ (blockCommands { s.blocks l with inputs := inputs }).map .system }
        rw [callsOf_block_self, eventsOf_cons_self (m := .inr l) _ _ rfl, List.foldl_cons,
          TestFB.call, hcall]
        simpa using hnext
      · have hne : (HostAction.block l inputs : HostAction ι κ).module ≠ .inr k := by
          simp [HostAction.module, hl]
        rw [callsOf_block_of_ne _ _ _ _ hl, eventsOf_cons_of_ne _ _ hne]
        have hother : k ≠ l := Ne.symm hl
        simpa [hother] using ih hrest p

/-- **A module among others does what it does alone.** In every run in which the answers
of the system may change from one `Execute` to the next, but not with what has happened
before, each instance and each block ends in the state, and makes the events, of a process
in which it is the only module.
SOURCE: simple_test_protocol.cpp:89-312, test_fb.cpp:3-40 -/
theorem module_among_others_as_alone {as : List (HostAction ι κ)}
    (hsteady : ∀ i env, .execute env ∈ opsOf i as → Steady env) {s s' : Plant ι κ}
    (hrun : s.run as = some s') (p : Process) :
    (∀ i, ∃ r, (opsOf i as).foldlM Operation.run ⟨s.protocols i, p⟩ = some r ∧
      r.self = s'.protocols i ∧ r.proc.log = p.log ++ eventsOf (.inl i) (s.trace as)) ∧
    ∀ k, let r := (callsOf k as).foldl (fun r inputs => TestFB.call inputs r) (s.blocks k, p)
      r.1 = s'.blocks k ∧ r.2.log = p.log ++ eventsOf (.inr k) (s.trace as) :=
  ⟨fun i => instance_alone i (hsteady i) hrun p, fun k => block_alone k hrun p⟩

/-- `module_among_others_as_alone` for an instance that gets a lamp and a block that is
called in between. -/
theorem module_among_others_as_alone_lamp :
    let env : Env := ⟨.exact, fun _ _ => [], fun _ _ => lit "true"⟩
    let start : Process := ⟨fun _ => [], []⟩
    let s : Plant Unit Unit := ⟨fun _ => .new 0, fun _ => TestFB.new, start⟩
    let as : List (HostAction Unit Unit) := [.protocol () .create,
      .protocol () (.configure 0 ⟨none, some ⟨some ⟨1, lit "BLUE_LED"⟩⟩⟩), .protocol () .init,
      .block () ⟨false, true, false, false, false⟩, .protocol () (.execute env)]
    ∃ s' r, s.run as = some s' ∧
      (opsOf () as).foldlM Operation.run ⟨s.protocols (), start⟩ = some r ∧
      r.self = s'.protocols () := by
  intro env start s as
  have hsteady : ∀ i env', .execute env' ∈ opsOf i as → Steady env' := by
    intro i env' hmem
    have heq : env' = env := by simpa [as, opsOf] using hmem
    rw [heq]
    exact ⟨fun _ _ _ => rfl, fun _ _ _ => rfl⟩
  obtain ⟨s', hrun⟩ : ∃ s', s.run as = some s' := ⟨_, rfl⟩
  obtain ⟨r, hops, hself, -⟩ := (module_among_others_as_alone hsteady hrun start).1 ()
  exact ⟨s', r, hrun, hops, hself⟩

end Pca9536Driver.Analysis
