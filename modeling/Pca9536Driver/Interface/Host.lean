import Pca9536Driver.Interface.Locality
import Pca9536Driver.Interface.Plant

/-!
# The life of the modules in a runtime

A runtime creates channels for an instance of the protocol module and fills in their
parameters, initialises the instance and executes it, and executes function blocks, all of
this for any number of modules and in any order. Every `Execute` of an instance has an
environment of its own. The trace of a run lists the events of each action; what concerns
one module are its own operations (`opsOf`, `callsOf`) and its own events (`eventsOf`).

`Plant.act` is the runtime as it is, with one set of shared strings. `Plant.run_instance`
is the invariant rule for one instance among others.
-/

set_option autoImplicit false

namespace Pca9536Driver.Interface

open Pca9536Driver.Library Pca9536Driver.Model

variable {ι κ : Type*} [DecidableEq ι] [DecidableEq κ]

/-! ## What happens to an instance -/

/-- INTERNAL: an operation does the same to states that are alike. -/
theorem Operation.alike {L L' : List Event} {r r' : Runtime} (op : Operation)
    (henv : ∀ env, op = .execute env → SameBehind env env L L') (h : Alike L L' ∅ r r') :
    Option.Rel (Alike L L' ∅) (op.run r) (op.run r') := by
  cases op with
  | create =>
    refine .some (h.advance [] ?_ (by simp) (by simp) (by simp))
    simp only [h.self]
  | configure k ch =>
    refine .some (h.advance [] ?_ (by simp) (by simp) (by simp))
    simp only [h.self]
  | init =>
    refine .some (h.advance [.system (lit "i2cset -y 2 0x41 0x03 0x00")] ?_ (by simp) rfl
      rfl)
    simp only [Model.init, Runtime.setMask, Runtime.system, h.self]
  | execute env => exact execute_alike (henv env rfl) h

/-- INTERNAL: an operation only adds to the history. -/
theorem Operation.log_run {op : Operation} {r r' : Runtime} (h : op.run r = some r') :
    ∃ es, r'.proc.log = r.proc.log ++ es := by
  have hself : Alike r.proc.log r.proc.log ∅ r r := ⟨rfl, by simp, [], by simp, by simp⟩
  have hrel := op.alike (fun env _ => SameBehind.refl env _) hself
  rw [h, Option.rel_some_some] at hrel
  obtain ⟨t, ht, -⟩ := hrel.log
  exact ⟨t, ht⟩

/-! ## What happens in a runtime -/

namespace Plant

/-- The actions one after the other, as long as none fails. -/
def run (s : Plant ι κ) (as : List (HostAction ι κ)) : Option (Plant ι κ) := as.foldlM act s

/-- The actions of a run with the events of each, up to an action that fails. -/
def trace : Plant ι κ → List (HostAction ι κ) → List (HostAction ι κ × List Event)
  | _, [] => []
  | s, a :: as =>
    match s.act a with
    | none => []
    | some s' => (a, s'.proc.log.drop s.proc.log.length) :: s'.trace as

variable {s s' : Plant ι κ} {a : HostAction ι κ} {as : List (HostAction ι κ)}

/-- The first action, and then the others. -/
theorem run_cons (s : Plant ι κ) (a : HostAction ι κ) (as : List (HostAction ι κ)) :
    s.run (a :: as) = (s.act a).bind fun s' => s'.run as := by
  simp [run]

/-- Two lists of actions in a row. -/
theorem run_append (s : Plant ι κ) (as bs : List (HostAction ι κ)) :
    s.run (as ++ bs) = (s.run as).bind fun s' => s'.run bs := by
  simp [run]

/-- INTERNAL: an action only adds to the history. -/
theorem log_act (h : s.act a = some s') : ∃ es, s'.proc.log = s.proc.log ++ es := by
  cases a with
  | protocol i op =>
    obtain ⟨r, hr, rfl⟩ := act_protocol h
    exact Operation.log_run hr
  | block k inputs =>
    rw [act_block] at h
    obtain rfl := Option.some.inj h
    exact ⟨_, rfl⟩

/-- INTERNAL: the first action with its events. -/
theorem trace_cons {es : List Event} (h : s.act a = some s')
    (hlog : s'.proc.log = s.proc.log ++ es) (as : List (HostAction ι κ)) :
    s.trace (a :: as) = (a, es) :: s'.trace as := by
  rw [trace, h]
  simp only [hlog, List.drop_left]

/-- INTERNAL: the trace of two lists of actions in a row. -/
theorem trace_append (h : s.run as = some s') (bs : List (HostAction ι κ)) :
    s.trace (as ++ bs) = s.trace as ++ s'.trace bs := by
  induction as generalizing s with
  | nil =>
    obtain rfl := Option.some.inj h
    rfl
  | cons a as ih =>
    rw [run_cons, Option.bind_eq_some_iff] at h
    obtain ⟨s₁, hs₁, hrest⟩ := h
    obtain ⟨es, hlog⟩ := log_act hs₁
    rw [List.cons_append, trace_cons hs₁ hlog, trace_cons hs₁ hlog, ih hrest, List.cons_append]

/-- INTERNAL: **the history of a run is the events of its trace.** -/
theorem log_run (h : s.run as = some s') :
    s'.proc.log = s.proc.log ++ (s.trace as).flatMap Prod.snd := by
  induction as generalizing s with
  | nil =>
    obtain rfl := Option.some.inj h
    simp [trace]
  | cons a as ih =>
    rw [run_cons, Option.bind_eq_some_iff] at h
    obtain ⟨s₁, hs₁, hrest⟩ := h
    obtain ⟨es, hlog⟩ := log_act hs₁
    rw [ih hrest, trace_cons hs₁ hlog, hlog]
    simp

/-- INTERNAL: an entry of a trace belongs to an action of the run. -/
theorem action_of_trace {es : List Event} {before after : List (HostAction ι κ × List Event)}
    (hrun : s.run as = some s') (htrace : s.trace as = before ++ (a, es) :: after) :
    ∃ as₁ as₂ s₁ s₂, as = as₁ ++ a :: as₂ ∧ s.run as₁ = some s₁ ∧ s.trace as₁ = before ∧
      s₁.act a = some s₂ ∧ s₂.proc.log = s₁.proc.log ++ es := by
  induction before generalizing s as with
  | nil =>
    cases as with
    | nil => simp [trace] at htrace
    | cons b as =>
      rw [run_cons, Option.bind_eq_some_iff] at hrun
      obtain ⟨s₁, hs₁, -⟩ := hrun
      obtain ⟨es', hlog⟩ := log_act hs₁
      rw [trace_cons hs₁ hlog, List.nil_append, List.cons.injEq, Prod.mk.injEq] at htrace
      obtain ⟨⟨rfl, rfl⟩, -⟩ := htrace
      exact ⟨[], as, s, s₁, rfl, rfl, rfl, hs₁, hlog⟩
  | cons x before ih =>
    cases as with
    | nil => simp [trace] at htrace
    | cons b as =>
      rw [run_cons, Option.bind_eq_some_iff] at hrun
      obtain ⟨s₁, hs₁, hrest⟩ := hrun
      obtain ⟨es', hlog⟩ := log_act hs₁
      rw [trace_cons hs₁ hlog, List.cons_append, List.cons.injEq] at htrace
      obtain ⟨rfl, htail⟩ := htrace
      obtain ⟨as₁, as₂, s₂, s₃, rfl, hrun₁, htrace₁, hact, hlog₁⟩ := ih hrest htail
      refine ⟨b :: as₁, as₂, s₂, s₃, rfl, ?_, ?_, hact, hlog₁⟩
      · rw [run_cons, hs₁]
        exact hrun₁
      · rw [trace_cons hs₁ hlog, htrace₁]

end Plant

/-! ## One module among others -/

/-- The operations of one protocol instance. -/
def opsOf (i : ι) (as : List (HostAction ι κ)) : List Operation :=
  as.filterMap fun
    | .protocol j op => if j = i then some op else none
    | .block _ _ => none

/-- The calls of one function block. -/
def callsOf (k : κ) (as : List (HostAction ι κ)) : List TestFBInputs :=
  as.filterMap fun
    | .protocol _ _ => none
    | .block j inputs => if j = k then some inputs else none

/-- The events of a module in a trace. -/
def eventsOf (m : ι ⊕ κ) (tr : List (HostAction ι κ × List Event)) : List Event :=
  (tr.filter fun x => x.1.module = m).flatMap Prod.snd

section Projections

variable (i j : ι) (k l : κ) (op : Operation) (inputs : TestFBInputs) (as : List (HostAction ι κ))

omit [DecidableEq κ] in
/-- An operation of the instance itself. -/
@[simp] theorem opsOf_protocol_self :
    opsOf i (.protocol i op :: as) = op :: opsOf i as := by simp [opsOf]

omit [DecidableEq κ] in
/-- An operation of another instance. -/
theorem opsOf_protocol_of_ne (h : j ≠ i) :
    opsOf i (.protocol j op :: as) = opsOf i as := by simp [opsOf, h]

omit [DecidableEq κ] in
/-- A call of a function block is no operation. -/
@[simp] theorem opsOf_block : opsOf i (.block k inputs :: as) = opsOf i as := rfl

omit [DecidableEq ι] in
/-- An operation of a protocol is no call. -/
@[simp] theorem callsOf_protocol : callsOf k (.protocol i op :: as) = callsOf k as := rfl

omit [DecidableEq ι] in
/-- A call of the block itself. -/
@[simp] theorem callsOf_block_self :
    callsOf k (.block k inputs :: as) = inputs :: callsOf k as := by simp [callsOf]

omit [DecidableEq ι] in
/-- A call of another block. -/
theorem callsOf_block_of_ne (h : l ≠ k) :
    callsOf k (.block l inputs :: as) = callsOf k as := by simp [callsOf, h]

variable {m : ι ⊕ κ} {a : HostAction ι κ} (es : List Event)
  (tr : List (HostAction ι κ × List Event))

/-- INTERNAL: the events of an action of the module itself. -/
theorem eventsOf_cons_self (h : a.module = m) :
    eventsOf m ((a, es) :: tr) = es ++ eventsOf m tr := by simp [eventsOf, h]

/-- INTERNAL: the events of an action of another module. -/
theorem eventsOf_cons_of_ne (h : a.module ≠ m) :
    eventsOf m ((a, es) :: tr) = eventsOf m tr := by simp [eventsOf, h]

end Projections

/-- INTERNAL: **the invariant rule for one instance among others**: what its operations
keep, of the instance and of its own events, holds behind every run. -/
theorem Plant.run_instance {s s' : Plant ι κ} {as : List (HostAction ι κ)} (i : ι)
    {P : SimpleTestProtocol → List Event → Prop}
    (hstep : ∀ op ∈ opsOf i as, ∀ (r r' : Runtime) (done es : List Event), P r.self done →
      op.run r = some r' → r'.proc.log = r.proc.log ++ es → P r'.self (done ++ es))
    (hrun : s.run as = some s') (h : P (s.protocols i) []) :
    P (s'.protocols i) (eventsOf (.inl i) (s.trace as)) := by
  suffices hall : ∀ done, P (s.protocols i) done →
      P (s'.protocols i) (done ++ eventsOf (.inl i) (s.trace as)) from hall [] h
  clear h
  induction as generalizing s with
  | nil =>
    obtain rfl := Option.some.inj hrun
    intro done h
    simpa [eventsOf, trace] using h
  | cons a as ih =>
    intro done h
    rw [run_cons, Option.bind_eq_some_iff] at hrun
    obtain ⟨s₁, hs₁, hrest⟩ := hrun
    obtain ⟨es, hlog⟩ := log_act hs₁
    rw [trace_cons hs₁ hlog]
    cases a with
    | protocol j op =>
      obtain ⟨r, hr, rfl⟩ := act_protocol hs₁
      by_cases hj : j = i
      · subst hj
        rw [opsOf_protocol_self] at hstep
        have hnext := hstep op (by simp) _ r done es h hr hlog
        rw [eventsOf_cons_self (m := .inl j) es _ rfl, ← List.append_assoc]
        apply ih (fun op' hop' => hstep op' (by simp [hop'])) hrest
        simpa using hnext
      · rw [opsOf_protocol_of_ne _ _ _ _ hj] at hstep
        have hne : (HostAction.protocol j op : HostAction ι κ).module ≠ .inl i := by
          simp [HostAction.module, hj]
        rw [eventsOf_cons_of_ne _ _ hne]
        apply ih hstep hrest
        have hother : i ≠ j := Ne.symm hj
        simpa [hother] using h
    | block k inputs =>
      rw [opsOf_block] at hstep
      have hne : (HostAction.block k inputs : HostAction ι κ).module ≠ .inl i := by
        simp [HostAction.module]
      rw [eventsOf_cons_of_ne _ _ hne]
      rw [act_block] at hs₁
      obtain rfl := Option.some.inj hs₁
      exact ih hstep hrest done h

/-- INTERNAL: **what every action's events satisfy, all events of a trace satisfy.** -/
theorem Plant.forall_trace {Q : Event → Prop}
    (hop : ∀ (op : Operation) (r r' : Runtime) (es : List Event), op.run r = some r' →
      r'.proc.log = r.proc.log ++ es → ∀ e ∈ es, Q e)
    (hcall : ∀ (fb : TestFB), ∀ cmd ∈ blockCommands fb, Q (.system cmd)) (s : Plant ι κ)
    (as : List (HostAction ι κ)) : ∀ x ∈ s.trace as, ∀ e ∈ x.2, Q e := by
  induction as generalizing s with
  | nil => exact fun x hx => absurd hx List.not_mem_nil
  | cons a as ih =>
    cases hs₁ : s.act a with
    | none =>
      rw [trace, hs₁]
      exact fun x hx => absurd hx List.not_mem_nil
    | some s₁ =>
      obtain ⟨es, hlog⟩ := log_act hs₁
      have hes : ∀ e ∈ es, Q e := by
        cases a with
        | protocol i op =>
          obtain ⟨r, hr, rfl⟩ := act_protocol hs₁
          exact hop op _ r es hr hlog
        | block k inputs =>
          rw [act_block] at hs₁
          obtain rfl := Option.some.inj hs₁
          obtain rfl := List.append_cancel_left hlog
          intro e he
          obtain ⟨cmd, hcmd, rfl⟩ := List.mem_map.mp he
          exact hcall _ cmd hcmd
      rw [trace_cons hs₁ hlog]
      intro x hx
      rcases List.mem_cons.mp hx with rfl | hx
      · exact hes
      · exact ih s₁ x hx

end Pca9536Driver.Interface
