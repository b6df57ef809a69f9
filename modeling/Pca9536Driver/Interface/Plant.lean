import Pca9536Driver.Interface.Run

/-!
# Several modules on one expander

A runtime in which any number of instances of the protocol module and of function blocks
are loaded. They share the process, its static strings and the expander. `Plant.act` is
what the runtime does with one of them; a step is the action that is a complete `Execute`.
`Observed` is the runtime with what an observer notes down: which outputs the latest
`Execute` of each writer has switched on, and whose `Execute` was the last to write the
output register.
-/

set_option autoImplicit false

namespace Pca9536Driver.Interface

open Pca9536Driver.Library Pca9536Driver.Model

variable {ι κ : Type*} [DecidableEq ι] [DecidableEq κ]

/-- The instances of the protocol module `ι` and the function blocks `κ` of a runtime. -/
structure Plant (ι κ : Type*) where
  protocols : ι → SimpleTestProtocol
  blocks : κ → TestFB
  proc : Process

/-! ## Actions -/

/-- What a runtime does with an instance. `configure k ch` are the parameters the SDK
writes through the pointer that `Create` returned for channel number `k`. -/
inductive Operation where
  | create
  | configure (k : ℕ) (ch : ScadaChannel)
  | init
  | execute (env : Env)

/-- An operation; only `Execute` may fail. -/
def Operation.run (r : Runtime) : Operation → Option Runtime
  | .create => some { r with self := r.self.create }
  | .configure k ch =>
    some { r with self := { r.self with channels := r.self.channels.set k ch } }
  | .init => some (Model.init r)
  | .execute env => Model.execute env r

/-- An action of the runtime: an operation on an instance, or a call of a block that has
been given its inputs. -/
inductive HostAction (ι κ : Type*) where
  | protocol (i : ι) (op : Operation)
  | block (k : κ) (inputs : TestFBInputs)

/-- The module an action is about. -/
def HostAction.module : HostAction ι κ → ι ⊕ κ
  | .protocol i _ => .inl i
  | .block k _ => .inr k

/-- **The runtime executes an action**, on the module it is about and in the shared process. -/
def Plant.act (s : Plant ι κ) : HostAction ι κ → Option (Plant ι κ)
  | .protocol i op =>
    (op.run ⟨s.protocols i, s.proc⟩).map fun r =>
      { s with protocols := Function.update s.protocols i r.self, proc := r.proc }
  | .block k inputs =>
    let (fb, proc) := TestFB.call inputs (s.blocks k, s.proc)
    some { s with blocks := Function.update s.blocks k fb, proc := proc }

/-- INTERNAL: a call of a block never fails. -/
theorem Plant.act_block (s : Plant ι κ) (k : κ) (inputs : TestFBInputs) :
    let fb := { s.blocks k with inputs := inputs }
    s.act (.block k inputs) = some { s with
      blocks := Function.update s.blocks k (blockNext fb)
      proc := { s.proc with log := s.proc.log ++ (blockCommands fb).map .system } } := by
  simp only [act, TestFB.call, block_execute_eq]

/-- INTERNAL: what an operation on an instance does to the runtime. -/
theorem Plant.act_protocol {s s' : Plant ι κ} {i : ι} {op : Operation}
    (h : s.act (.protocol i op) = some s') :
    ∃ r, op.run ⟨s.protocols i, s.proc⟩ = some r ∧
      s' = { s with protocols := Function.update s.protocols i r.self, proc := r.proc } := by
  obtain ⟨r, hr, rfl⟩ := Option.map_eq_some_iff.mp h
  exact ⟨r, hr, rfl⟩

/-! ## Complete calls -/

/-- A complete `Execute` call: of an instance, or of a block that has been given its
inputs. -/
inductive Step (ι κ : Type*) where
  | scan (i : ι)
  | call (k : κ) (inputs : TestFBInputs)

/-- The action a call is, in an environment. -/
def Step.action (env : Env) : Step ι κ → HostAction ι κ
  | .scan i => .protocol i (.execute env)
  | .call k inputs => .block k inputs

/-- The runtime executes a call. -/
def Plant.step (env : Env) (s : Plant ι κ) (t : Step ι κ) : Option (Plant ι κ) :=
  s.act (t.action env)

/-- The runtime with the notes of an observer. -/
structure Observed (ι κ : Type*) where
  plant : Plant ι κ
  commanded : ι ⊕ κ → Panel
  last : Option (ι ⊕ κ)

namespace Observed

/-- The outputs an `Execute` switches on: those whose name read `true` last, or those
whose input is set. -/
def commandedBy (rs : List (Variable × Bytes)) : Step ι κ → Panel
  | .scan _ => fun o => decide (lastRead o.name rs = some (lit "true"))
  | .call _ inputs => TestFBInputs.panel inputs

/-- The module that takes the step. -/
def writer : Step ι κ → ι ⊕ κ
  | .scan i => .inl i
  | .call k _ => .inr k

/-- One step, with the panel written down that the step commands. -/
def step (env : Env) (s : Observed ι κ) (t : Step ι κ) : Option (Observed ι κ) :=
  (s.plant.step env t).map fun plant =>
    let rs := (reads plant.proc.log).drop (reads s.plant.proc.log).length
    let cmds := (systems plant.proc.log).drop (systems s.plant.proc.log).length
    { plant := plant
      commanded := Function.update s.commanded (writer t) (commandedBy rs t)
      last := if cmds.any (fun cmd => (outputWrite cmd).isSome) then some (writer t) else s.last }

/-- The modules created and initialised, with nothing commanded yet. -/
def start (chs : ι → List Channel) (masks : ι → BitVec 8) (p : Process) : Observed ι κ where
  plant := ⟨fun i => (init (load (chs i) (masks i) p)).self, fun _ => TestFB.new, p⟩
  commanded _ := Panel.off
  last := none

/-- The steps one after the other, as long as none fails. -/
def run (env : Env) (s : Observed ι κ) (steps : List (Step ι κ)) : Option (Observed ι κ) :=
  steps.foldlM (step env) s

/-- What holds throughout a run: the masks of the instances follow their reads; the
register holds what its last writer has commanded; an output that is commanded has been
written. -/
structure Coherent (chs : ι → List Channel) (base : List Bytes) (d : Pca9536)
    (s : Observed ι κ) : Prop where
  channels : ∀ i, (s.plant.protocols i).channels = (chs i).map Channel.toScada
  masks : ∀ i, ∃ prev, (s.plant.protocols i).mask =
    encode (assignAll Panel.off (assignments prev)) ∧
      ∀ x ∈ prev, x.1 ∈ (chs i).filterMap Channel.outVar
  writers : ∀ i, s.last = some (.inl i) → (chs i).filterMap Channel.outVar ≠ []
  noted : ∀ w o, s.commanded w o = true → s.last ≠ none
  register : ∃ cmds, systems s.plant.proc.log = base ++ cmds ∧
    ∀ w, s.last = some w →
      (Pca9536.run (fun _ => true) 0 d cmds).output = encode (s.commanded w)

variable {chs : ι → List Channel} {base : List Bytes} {d : Pca9536} {env : Env}

omit [DecidableEq ι] [DecidableEq κ] in
/-- INTERNAL: before the first step the bookkeeping agrees with the modules. -/
theorem coherent_start (masks : ι → BitVec 8) (p : Process) :
    (start chs masks p : Observed ι κ).Coherent chs (systems p.log) d where
  channels _ := rfl
  masks i := ⟨[], init_mask _, by simp⟩
  writers i h := by cases h
  noted w o h := by cases h
  register := ⟨[], by simp [start], fun w h => by cases h⟩

/-- INTERNAL: a scan writes the output register iff it reads an output channel, and then
it leaves its panel there. -/
theorem register_outputCommands (on : Panel) (rs : List (Variable × Bytes)) (k : ℕ)
    (d : Pca9536) :
    ((outputCommands on rs).any (fun cmd => (outputWrite cmd).isSome) = true ↔ rs ≠ []) ∧
    (Pca9536.run (fun _ => true) k d (outputCommands on rs)).output =
      if rs = [] then d.output else encode (assignAll on (assignments rs)) := by
  rcases List.eq_nil_or_concat' rs with rfl | ⟨rs', x, rfl⟩
  · simp [outputCommands, Pca9536.run]
  · obtain ⟨before, hlast⟩ := outputCommands_concat on rs' x
    rw [hlast, Pca9536.run_output_concat _ _ _ _ _ rfl]
    simp

/-- INTERNAL: **a scan keeps the runtime coherent.** -/
theorem Coherent.scan {s : Observed ι κ} (h : s.Coherent chs base d) (i : ι) :
    ∃ s', s.step env (.scan i) = some s' ∧ s'.Coherent chs base d := by
  obtain ⟨prev, hmask, hprev⟩ := h.masks i
  set r : Runtime := ⟨s.plant.protocols i, s.plant.proc⟩ with hr
  obtain ⟨rs, hnames, hscan⟩ := driven_scan env (chs i) r _ hmask
  have hexec := execute_eq_scan env (chs i) r (h.channels i)
  set r' := Interface.scan env (chs i) r with hr'
  set on := assignAll Panel.off (assignments prev) with hon
  have hpanel : assignAll on (assignments rs) = commandedBy rs (Step.scan i : Step ι κ) :=
    funext fun o => panel_of_scan hprev hnames o
  have hstep : s.step env (.scan i) = some
      { plant := ⟨Function.update s.plant.protocols i r'.self, s.plant.blocks, r'.proc⟩
        commanded := Function.update s.commanded (.inl i) (commandedBy rs (Step.scan i : Step ι κ))
        last := if rs ≠ [] then some (.inl i) else s.last } := by
    have hrs : (reads r'.proc.log).drop (reads s.plant.proc.log).length = rs := by
      rw [hscan.reads, hr, List.drop_left]
    have hcmds : (systems r'.proc.log).drop (systems s.plant.proc.log).length =
        outputCommands on rs := by
      rw [hscan.systems, hr, List.drop_left]
    simp only [step, Plant.step, Step.action, Plant.act, Operation.run, ← hr, hexec,
      Option.map_some, hrs, hcmds, writer,
      (register_outputCommands on rs 0 d).1]
  refine ⟨_, hstep, ?_, ?_, ?_, ?_, ?_⟩
  · intro j
    by_cases hj : j = i
    · subst hj
      simpa using hscan.channels.trans (h.channels j)
    · simpa [hj] using h.channels j
  · intro j
    by_cases hj : j = i
    · subst hj
      refine ⟨prev ++ rs, by simpa [assignAll_append] using hscan.mask, fun x hx => ?_⟩
      rcases List.mem_append.mp hx with hx | hx
      · exact hprev x hx
      · exact hnames ▸ List.mem_map_of_mem hx
    · simpa [hj] using h.masks j
  · intro j hj
    by_cases hrs : rs = []
    · exact h.writers j (by simpa [hrs] using hj)
    · obtain rfl : i = j := by simpa [hrs] using hj
      rw [← hnames]
      simpa using hrs
  · intro w o hw
    by_cases hrs : rs = []
    · by_cases hwi : w = .inl i
      · simp [hwi, hrs, commandedBy, lastRead] at hw
      · simpa [hrs] using h.noted w o (by simpa [hwi] using hw)
    · simp [hrs]
  · obtain ⟨cmds, hsys, hreg⟩ := h.register
    refine ⟨cmds ++ outputCommands on rs, by simp [hscan.systems, hr, hsys], fun w hw => ?_⟩
    rw [Pca9536.run_append, (register_outputCommands on rs _ _).2]
    by_cases hrs : rs = []
    · -- An instance that writes nothing is not the last writer.
      have hlast : s.last = some w := by simpa [hrs] using hw
      have hwi : w ≠ .inl i := by
        rintro rfl
        exact h.writers i hlast (by rw [← hnames, hrs]; rfl)
      simpa [hrs, hwi] using hreg w hlast
    · obtain rfl : .inl i = w := by simpa [hrs] using hw
      simp [hrs, hpanel]

/-- INTERNAL: **a call of a block keeps the runtime coherent.** -/
theorem Coherent.call {s : Observed ι κ} (h : s.Coherent chs base d) (k : κ)
    (inputs : TestFBInputs) :
    ∃ s', s.step env (.call k inputs) = some s' ∧ s'.Coherent chs base d := by
  set fb := { s.plant.blocks k with inputs := inputs } with hfb
  have hcmds : ∃ before, blockCommands fb =
      before ++ [outputCommand (encode (TestFBInputs.panel inputs))] := by
    refine ⟨(if fb.initCM then [] else [lit "i2cset -y 2 0x41 0x03 0x00"]) ++
      [fb.edgeStep.countStep.usbCommand], ?_⟩
    simp [blockCommands, block_outputCommand, hfb]
  obtain ⟨before, hbefore⟩ := hcmds
  have hact : s.plant.act (.block k inputs) = some { s.plant with
      blocks := Function.update s.plant.blocks k (blockNext fb)
      proc := { s.plant.proc with
        log := s.plant.proc.log ++ (blockCommands fb).map .system } } :=
    Plant.act_block s.plant k inputs
  refine ⟨_, by
    simp only [step, Plant.step, Step.action, hact, Option.map_some]; rfl, ?_, ?_, ?_, ?_, ?_⟩
  · exact h.channels
  · exact h.masks
  · intro j hj
    simp [hbefore, writer] at hj
  · intro w o hw
    simp [hbefore]
  · obtain ⟨cmds, hsys, hreg⟩ := h.register
    refine ⟨cmds ++ blockCommands fb, by simp [hsys], fun w hw => ?_⟩
    obtain rfl : .inr k = w := by simpa [hbefore, writer] using hw
    rw [Pca9536.run_append, hbefore, Pca9536.run_output_concat _ _ _ _ _ rfl]
    simp [writer, commandedBy]

/-- INTERNAL: **every run of a coherent runtime is coherent.** -/
theorem Coherent.run {s : Observed ι κ} (h : s.Coherent chs base d) (steps : List (Step ι κ)) :
    ∃ s', s.run env steps = some s' ∧ s'.Coherent chs base d := by
  induction steps generalizing s with
  | nil => exact ⟨s, rfl, h⟩
  | cons t steps ih =>
    obtain ⟨s₁, hstep, h₁⟩ : ∃ s₁, s.step env t = some s₁ ∧ s₁.Coherent chs base d := by
      cases t with
      | scan i => exact h.scan i
      | call k inputs => exact h.call k inputs
    obtain ⟨s', hrun, h'⟩ := ih h₁
    refine ⟨s', ?_, h'⟩
    rw [Observed.run, List.foldlM_cons, hstep]
    exact hrun

end Observed

end Pca9536Driver.Interface
