import Pca9536Driver.Interface.Probing

/-!
# What a scan does, event by event

A scan is the probes, and then for every channel what its input part and its output part
do: a second command and a write, and a read with the commands that follow it. This holds
from every state, also for an instance that has not been initialised. `events_scan` is the
rule for properties of such a list of events, `forall_scan` the one for properties of each
of them; `scan_spec` lists the commands that are run to ask.
-/

set_option autoImplicit false

namespace Pca9536Driver.Interface

open Pca9536Driver.Library Pca9536Driver.Model

/-! ## The output part -/

/-- INTERNAL: **what the output part does**: nothing, or it reads a string and issues the
commands that follow. -/
theorem outputStep_spec (env : Env) (ch : Channel) (r : Runtime) :
    (outputStep env ch r).proc.caches = r.proc.caches ∧
    ∃ new, (outputStep env ch r).proc.log = r.proc.log ++ new ∧
      (new = [] ∨ ∃ var mask, new = .read var (env.read r.proc.log var) ::
        (lineCommands var.projectPath (env.read r.proc.log var) ++
          [outputCommand mask]).map .system) := by
  rcases ch with ⟨inVar, _ | var⟩
  · exact ⟨rfl, [], by simp [outputStep], Or.inl rfl⟩
  · obtain ⟨mask, hdrive⟩ := drive_commands var.projectPath (env.read r.proc.log var) r.self
    have hstep : outputStep env ⟨inVar, some var⟩ r =
        drive var.projectPath (env.read r.proc.log var)
          ⟨r.self, r.proc.emit (.read var (env.read r.proc.log var))⟩ := rfl
    rw [hstep, hdrive]
    exact ⟨rfl, _, by simp, Or.inr ⟨var, mask, rfl⟩⟩

/-! ## The input part -/

/-- The command an input channel asks with, given the shared strings. -/
def Channel.inquiry (cs : Cache → Bytes) (ch : Channel) : Option Bytes :=
  ch.diagnostic.bind fun x => x.2.command (x.2.shared cs)

/-- What a channel takes from its second command is nothing or a collected text. -/
theorem Diagnostic.output_cases (env : Env) (log : List Event) (c : Bytes) (d : Diagnostic) :
    d.output env log c = [] ∨ ∃ text, d.output env log c = collect text := by
  unfold Diagnostic.output
  cases d.command c with
  | none => exact Or.inl rfl
  | some cmd => exact Or.inr ⟨_, rfl⟩

/-- INTERNAL: **what the input part does**: nothing, or it asks with the second command of
the channel and writes the value. -/
theorem inputStep_spec (env : Env) (ch : Channel) (r : Runtime) :
    (inputStep env ch r).proc.caches = r.proc.caches ∧
    ∃ new, (inputStep env ch r).proc.log = r.proc.log ++ new ∧
      popens new = (ch.inquiry r.proc.caches).toList ∧
      (new = [] ∨ ∃ var d c, var.projectPath = Diagnostic.name d ∧
        new = (d.command c).toList.map .popen ++
          [.write var (d.value env.arith c (d.output env r.proc.log c))]) := by
  rw [inputStep_eq]
  cases hd : ch.diagnostic with
  | none => exact ⟨rfl, [], by simp, by simp [Channel.inquiry, hd], Or.inl rfl⟩
  | some x =>
    obtain ⟨var, d⟩ := x
    have hname := ((Channel.diagnostic_eq_some_iff ch var d).mp hd).2
    have hproc := d.publish_proc env var (d.shared r.proc.caches) r
    refine ⟨?_, _, congrArg Process.log hproc, ?_, Or.inr ⟨var, d, _, hname, rfl⟩⟩
    · dsimp only
      rw [hproc]
    · simp [Channel.inquiry, hd]

/-! ## The scan -/

/-- INTERNAL: **the rule for the events of a scan**: a property of what happens behind a
history, kept when more happens, holds of a scan if it holds of every probe and of what a
channel can do. -/
theorem events_scan {env : Env} {P : List Event → List Event → Prop} (hnil : ∀ base, P base [])
    (happend : ∀ base l l', P base l → P (base ++ l) l' → P base (l ++ l'))
    (hprobe : ∀ base (c : Cache), P base [.popen c.command])
    (hinput : ∀ base var d c, var.projectPath = Diagnostic.name d →
      P base ((d.command c).toList.map .popen ++
        [.write var (d.value env.arith c (d.output env base c))]))
    (houtput : ∀ base var mask, P base (.read var (env.read base var) ::
      (lineCommands var.projectPath (env.read base var) ++ [outputCommand mask]).map .system))
    (chs : List Channel) (r : Runtime) :
    ∃ new, (scan env chs r).proc.log = r.proc.log ++ new ∧ P r.proc.log new := by
  have hprobes (l : List Cache) (base : List Event) :
      P base ((l.map Cache.command).map .popen) := by
    induction l generalizing base with
    | nil => exact hnil base
    | cons c l ih => exact happend base [_] _ (hprobe base c) (ih _)
  have hchannel (ch : Channel) (r : Runtime) :
      ∃ new, (channelStep env r ch).proc.log = r.proc.log ++ new ∧ P r.proc.log new := by
    obtain ⟨-, new, hlog, -, hnew⟩ := inputStep_spec env ch r
    obtain ⟨-, new', hlog', hnew'⟩ := outputStep_spec env ch (inputStep env ch r)
    refine ⟨new ++ new', ?_, happend _ _ _ ?_ ?_⟩
    · rw [channelStep, hlog', hlog, List.append_assoc]
    · rcases hnew with rfl | ⟨var, d, c, hname, rfl⟩
      · exact hnil _
      · exact hinput _ var d c hname
    · rw [← hlog]
      rcases hnew' with rfl | ⟨var, mask, rfl⟩
      · exact hnil _
      · exact houtput _ var mask
  have hpass (l : List Channel) (r : Runtime) :
      ∃ new, (l.foldl (channelStep env) r).proc.log = r.proc.log ++ new ∧ P r.proc.log new := by
    induction l generalizing r with
    | nil => exact ⟨[], by simp, hnil _⟩
    | cons ch l ih =>
      obtain ⟨new, hlog, hnew⟩ := hchannel ch r
      obtain ⟨new', hlog', hnew'⟩ := ih (channelStep env r ch)
      rw [hlog] at hnew'
      exact ⟨new ++ new', by rw [List.foldl_cons, hlog', hlog, List.append_assoc],
        happend _ _ _ hnew hnew'⟩
  obtain ⟨new, hlog, hnew⟩ := hpass chs (refresh env (needs chs) r)
  rw [log_refresh] at hnew
  refine ⟨(probes (needs chs)).map .popen ++ new, ?_, happend _ _ _ (hprobes _ _) hnew⟩
  rw [scan, hlog, log_refresh, List.append_assoc]

/-- INTERNAL: **the rule for the single events of a scan.** -/
theorem forall_scan {env : Env} {Q : Event → Prop} (hprobe : ∀ c : Cache, Q (.popen c.command))
    (hcommand : ∀ (d : Diagnostic) c, ∀ cmd ∈ d.command c, Q (.popen cmd))
    (hwrite : ∀ var d c out, var.projectPath = Diagnostic.name d →
      (out = [] ∨ ∃ text, out = collect text) → Q (.write var (d.value env.arith c out)))
    (hread : ∀ var h, Q (.read var (env.read h var)))
    (hline : ∀ path buff, ∀ cmd ∈ lineCommands path buff, Q (.system cmd))
    (hmask : ∀ mask, Q (.system (outputCommand mask))) (chs : List Channel) (r : Runtime) :
    ∃ new, (scan env chs r).proc.log = r.proc.log ++ new ∧ ∀ e ∈ new, Q e := by
  apply events_scan (P := fun _ l => ∀ e ∈ l, Q e)
  · exact fun base e he => absurd he List.not_mem_nil
  · intro base l l' h h' e he
    exact (List.mem_append.mp he).elim (h e) (h' e)
  · intro base c e he
    rw [List.mem_singleton.mp he]
    exact hprobe c
  · intro base var d c hname e he
    rcases List.mem_append.mp he with he | he
    · obtain ⟨cmd, hcmd, rfl⟩ := List.mem_map.mp he
      exact hcommand d c cmd (Option.mem_toList.mp hcmd)
    · rw [List.mem_singleton.mp he]
      exact hwrite var d c _ hname (d.output_cases env base c)
  · intro base var mask e he
    rcases List.mem_cons.mp he with rfl | he
    · exact hread var base
    · obtain ⟨cmd, hcmd, rfl⟩ := List.mem_map.mp he
      rcases List.mem_append.mp hcmd with hcmd | hcmd
      · exact hline _ _ cmd hcmd
      · rw [List.mem_singleton.mp hcmd]
        exact hmask mask

/-- Every string that is read is what the environment holds for the variable at this
moment. -/
def Answered (env : Env) : List Event → List Event → Prop :=
  Throughout fun before e => ∀ var buff, e = .read var buff → buff = env.read before var

/-- INTERNAL: **what a scan reads comes from its environment.** -/
theorem answered_scan (env : Env) (chs : List Channel) (r : Runtime) :
    ∃ new, (scan env chs r).proc.log = r.proc.log ++ new ∧ Answered env r.proc.log new := by
  have hsystem (base : List Event) (cmds : List Bytes) :
      Answered env base (cmds.map .system) := by
    apply throughout_of_forall
    intro e he before var buff heq
    obtain ⟨cmd, -, rfl⟩ := List.mem_map.mp he
    cases heq
  unfold Answered at hsystem ⊢
  apply events_scan
  · exact fun base => throughout_nil
  · exact fun base l l' h h' => throughout_append_iff.mpr ⟨h, h'⟩
  · exact fun base c => throughout_singleton_iff.mpr fun var buff heq => by cases heq
  · intro base var d c hname
    apply throughout_of_forall
    intro e he before var' buff heq
    subst heq
    simp at he
  · intro base var mask
    refine throughout_append_iff (l := [_]).mpr ⟨throughout_singleton_iff.mpr ?_, hsystem _ _⟩
    intro var' buff heq
    cases heq
    rfl

/-- INTERNAL: the strings that a scan is driven by come from its environment. -/
theorem answered_of_driven {env : Env} {chs : List Channel} {r : Runtime} {on : Panel}
    {rs : List (Variable × Bytes)} (h : Driven on rs r (scan env chs r)) :
    ∃ new, (scan env chs r).proc.log = r.proc.log ++ new ∧ reads new = rs ∧
      Answered env r.proc.log new := by
  obtain ⟨new, hlog, hreads, -⟩ := h.log
  obtain ⟨new', hlog', hanswered⟩ := answered_scan env chs r
  obtain rfl : new = new' := List.append_cancel_left (hlog.symm.trans hlog')
  exact ⟨new, hlog, hreads, hanswered⟩

/-- INTERNAL: a string that has been read is an answer of the environment. -/
theorem Answered.read {env : Env} {base new : List Event} (h : Answered env base new)
    {x : Variable × Bytes} (hx : x ∈ reads new) : ∃ before, x.2 = env.read before x.1 := by
  obtain ⟨e, he, heq⟩ := List.mem_filterMap.mp hx
  cases e with
  | read var buff =>
    obtain rfl := Option.some.inj heq
    obtain ⟨l, l', rfl⟩ := List.append_of_mem he
    exact ⟨base ++ l, h l _ ⟨l', by simp⟩ var buff rfl⟩
  | _ => cases heq

/-- INTERNAL: **the commands a scan asks with**: first the probes that are needed, then
what the channels ask, in list order, for the strings the probes have left. -/
theorem scan_spec (env : Env) (chs : List Channel) (r : Runtime) :
    ∃ rest, (scan env chs r).proc.log =
        r.proc.log ++ ((probes (needs chs)).map .popen ++ rest) ∧
      popens rest = chs.filterMap (Channel.inquiry (scan env chs r).proc.caches) := by
  have hpass : ∀ (l : List Channel) (r : Runtime),
      (l.foldl (channelStep env) r).proc.caches = r.proc.caches ∧
      ∃ rest, (l.foldl (channelStep env) r).proc.log = r.proc.log ++ rest ∧
        popens rest = l.filterMap (Channel.inquiry r.proc.caches) := by
    intro l
    induction l with
    | nil => exact fun r => ⟨rfl, [], by simp, rfl⟩
    | cons ch l ih =>
      intro r
      obtain ⟨hcaches, new, hlog, hpopens, -⟩ := inputStep_spec env ch r
      obtain ⟨hcaches', new', hlog', hnew'⟩ := outputStep_spec env ch (inputStep env ch r)
      obtain ⟨hrest, rest, hlogs, hask⟩ := ih (channelStep env r ch)
      have hsame : (channelStep env r ch).proc.caches = r.proc.caches := hcaches'.trans hcaches
      have hquiet : popens new' = [] := by
        rcases hnew' with rfl | ⟨var, mask, rfl⟩
        · rfl
        · simp
      refine ⟨hrest.trans hsame, new ++ new' ++ rest, ?_, ?_⟩
      · rw [List.foldl_cons, hlogs, channelStep, hlog', hlog]
        simp
      · rw [popens_append, popens_append, hquiet, hpopens, hask, hsame]
        cases hch : ch.inquiry r.proc.caches <;> simp [hch]
  obtain ⟨hcaches, rest, hlog, hask⟩ := hpass chs (refresh env (needs chs) r)
  refine ⟨rest, ?_, ?_⟩
  · rw [scan, hlog, log_refresh, List.append_assoc]
  · rw [hask, scan, hcaches]

end Pca9536Driver.Interface
