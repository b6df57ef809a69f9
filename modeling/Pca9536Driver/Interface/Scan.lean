import Pca9536Driver.Interface.Diagnostic
import Pca9536Driver.Interface.Expander

/-!
# Scans over resolved channels

Once the runtime has resolved every parameter of an instance, `Execute` follows no null
pointer: it is the total function `scan` (`execute_eq_scan`). Its two halves do not
disturb each other. The input side (`refresh`, `inputStep`) never touches the mask, never
calls `system` and never reads an output variable; the output side (`outputStep`) never
writes a variable, never changes a shared string. What a scan does to the outputs is
therefore determined by the strings it reads (`driven_scan`), and what it publishes by
the shared strings after the refresh.
-/

set_option autoImplicit false

namespace Pca9536Driver.Interface

open Pca9536Driver.Library Pca9536Driver.Model

/-- A channel whose engaged parameters are resolved. -/
structure Channel where
  inVar : Option Variable
  outVar : Option Variable

/-- The channel with its parameters resolved. -/
def Channel.toScada (ch : Channel) : ScadaChannel :=
  ⟨ch.inVar.map fun var => ⟨some var⟩, ch.outVar.map fun var => ⟨some var⟩⟩

/-! ## The scan as a total function -/

/-- The flags the input channels set. -/
def needs (chs : List Channel) : Need :=
  (chs.filterMap Channel.inVar).foldl (fun need var => need.mark var.projectPath) fun _ => false

/-- The input part for a resolved channel. -/
def inputStep (env : Env) (ch : Channel) (r : Runtime) : Runtime :=
  match ch.inVar with
  | none => r
  | some var => publish env var r

/-- The output part for a resolved channel. -/
def outputStep (env : Env) (ch : Channel) (r : Runtime) : Runtime :=
  match ch.outVar with
  | none => r
  | some var =>
    let buff := env.read r.proc.log var
    drive var.projectPath buff { r with proc := r.proc.emit (.read var buff) }

/-- The body of the second loop for a resolved channel. -/
def channelStep (env : Env) (r : Runtime) (ch : Channel) : Runtime :=
  outputStep env ch (inputStep env ch r)

/-- A scan of an instance with resolved channels. -/
def scan (env : Env) (chs : List Channel) (r : Runtime) : Runtime :=
  chs.foldl (channelStep env) (refresh env (needs chs) r)

/-- INTERNAL: a loop whose body never fails on the elements of a list never fails. -/
theorem foldlM_map_eq_some {α β σ : Type*} (g : α → β) (f : σ → β → Option σ) (step : σ → α → σ)
    (h : ∀ s a, f s (g a) = some (step s a)) (l : List α) (s : σ) :
    (l.map g).foldlM f s = some (l.foldl step s) := by
  rw [List.foldlM_map]
  simp only [h]
  exact List.foldlM_pure

/-- INTERNAL: the first loop succeeds when all parameters are resolved. -/
theorem collectNeeds_map (chs : List Channel) :
    collectNeeds (chs.map Channel.toScada) = some (needs chs) := by
  unfold needs
  rw [List.foldl_filterMap]
  refine foldlM_map_eq_some _ _ _ (fun need ch => ?_) chs _
  rcases ch with ⟨_ | var, out⟩ <;> rfl

/-- INTERNAL: so does the second one. -/
theorem processChannel_toScada (env : Env) (r : Runtime) (ch : Channel) :
    processChannel env r ch.toScada = some (channelStep env r ch) := by
  rcases ch with ⟨_ | var, _ | var'⟩ <;> rfl

/-- INTERNAL: **with resolved channels `Execute` follows no null pointer**: it is
`scan`. -/
theorem execute_eq_scan (env : Env) (chs : List Channel) (r : Runtime)
    (h : r.self.channels = chs.map Channel.toScada) : execute env r = some (scan env chs r) := by
  unfold execute
  rw [h, collectNeeds_map]
  exact foldlM_map_eq_some _ _ _ (processChannel_toScada env) chs _

/-! ## The input side -/

/-- The diagnostic an input channel publishes, if its name is known. -/
def Channel.diagnostic (ch : Channel) : Option (Variable × Diagnostic) :=
  ch.inVar.bind fun var => (Diagnostic.ofPath var.projectPath).map (var, ·)

/-- INTERNAL: an input channel is handled iff its name is a diagnostic name. -/
theorem Channel.diagnostic_eq_some_iff (ch : Channel) (var : Variable) (d : Diagnostic) :
    ch.diagnostic = some (var, d) ↔ ch.inVar = some var ∧ var.projectPath = d.name := by
  rcases ch with ⟨_ | var', out⟩
  · simp [Channel.diagnostic]
  · simp only [Channel.diagnostic, Option.bind_some, Option.map_eq_some_iff,
      Diagnostic.ofPath_eq_some_iff, Prod.mk.injEq, Option.some.injEq]
    constructor
    · rintro ⟨_, hd, rfl, rfl⟩
      exact ⟨rfl, hd⟩
    · rintro ⟨rfl, hd⟩
      exact ⟨d, hd, rfl, rfl⟩

/-- What the second command of a channel prints, if there is one to run. -/
def Diagnostic.output (env : Env) (log : List Event) (c : Bytes) (d : Diagnostic) : Bytes :=
  match d.command c with
  | none => []
  | some cmd => collect (env.popen log cmd)

/-- INTERNAL: a diagnostic runs its second command, if any, and writes one value. -/
theorem Diagnostic.publish_proc (env : Env) (var : Variable) (c : Bytes) (d : Diagnostic)
    (r : Runtime) :
    (d.publish env var c r).proc =
      { r.proc with
        log := r.proc.log ++ ((d.command c).toList.map .popen ++
          [.write var (d.value env.arith c (d.output env r.proc.log c))]) } := by
  cases hc : d.command c <;> simp only [Diagnostic.publish, Diagnostic.output, hc] <;>
    split_ifs <;> simp [Runtime.write, Runtime.exec, Runtime.setConned, execCommand, Process.emit]

/-- INTERNAL: only `MODEM_IFACE` changes the instance, namely its flag for the modem. -/
theorem Diagnostic.publish_self (env : Env) (var : Variable) (c : Bytes) (d : Diagnostic)
    (r : Runtime) :
    (d.publish env var c r).self =
      if d = .modemIface then { r.self with usbModConned := contains c (lit "usb0") }
      else r.self := by
  cases hc : d.command c <;> simp only [Diagnostic.publish, hc] <;>
    split_ifs <;> simp [Runtime.write, Runtime.exec, Runtime.setConned, execCommand]

/-- INTERNAL: the `if` chain of the input part as a lookup of the diagnostic. -/
theorem inputStep_eq (env : Env) (ch : Channel) (r : Runtime) :
    inputStep env ch r =
      match ch.diagnostic with
      | none => r
      | some (var, d) => d.publish env var (d.shared r.proc.caches) r := by
  rcases ch with ⟨_ | var, out⟩
  · rfl
  · cases hd : Diagnostic.ofPath var.projectPath with
    | none =>
      simp only [inputStep, Channel.diagnostic, Option.bind_some, hd, Option.map_none]
      exact publish_of_unknown env var r hd
    | some d =>
      simp only [inputStep, Channel.diagnostic, Option.bind_some, hd, Option.map_some]
      exact publish_of_name env var r d ((Diagnostic.ofPath_eq_some_iff _ _).mp hd)

/-- What the input side leaves alone: the channels, the mask, and in the history the
commands given to `system` and the reads. -/
structure Quiet (r r' : Runtime) : Prop where
  channels : r'.self.channels = r.self.channels
  mask : r'.self.mask = r.self.mask
  log : ∃ new, r'.proc.log = r.proc.log ++ new ∧ systems new = [] ∧ reads new = []

/-- Doing nothing is quiet. -/
theorem Quiet.refl (r : Runtime) : Quiet r r := ⟨rfl, rfl, [], by simp, rfl, rfl⟩

/-- Quiet steps compose. -/
theorem Quiet.trans {r r' r'' : Runtime} (h : Quiet r r') (h' : Quiet r' r'') : Quiet r r'' := by
  obtain ⟨new, hlog, hsys, hreads⟩ := h.log
  obtain ⟨new', hlog', hsys', hreads'⟩ := h'.log
  exact ⟨h'.channels.trans h.channels, h'.mask.trans h.mask, new ++ new',
    by rw [hlog', hlog, List.append_assoc], by simp [hsys, hsys'], by simp [hreads, hreads']⟩

/-- INTERNAL: one probe at the start of a scan is quiet. -/
theorem quiet_refreshOne (env : Env) (need : Need) (r : Runtime) (c : Cache) :
    Quiet r (refreshOne env need r c) := by
  by_cases hc : need c = true
  · simp only [refreshOne, hc, if_true]
    exact ⟨rfl, rfl, [.popen c.command], rfl, rfl, rfl⟩
  · simpa [refreshOne, hc] using Quiet.refl r

/-- INTERNAL: **the probes are quiet**. -/
theorem quiet_refresh (env : Env) (need : Need) (r : Runtime) : Quiet r (refresh env need r) := by
  unfold refresh
  generalize Cache.all = l
  induction l generalizing r with
  | nil => exact Quiet.refl r
  | cons c l ih => exact (quiet_refreshOne env need r c).trans (ih _)

/-- INTERNAL: **the input part is quiet**. -/
theorem quiet_inputStep (env : Env) (ch : Channel) (r : Runtime) :
    Quiet r (inputStep env ch r) := by
  rw [inputStep_eq]
  rcases ch.diagnostic with _ | ⟨var, d⟩
  · exact Quiet.refl r
  · have hself := d.publish_self env var (d.shared r.proc.caches) r
    have hproc := d.publish_proc env var (d.shared r.proc.caches) r
    refine ⟨?_, ?_, _, congrArg Process.log hproc, by simp, by simp⟩
    · dsimp only
      rw [hself]; split_ifs <;> rfl
    · dsimp only
      rw [hself]; split_ifs <;> rfl

/-! ## The output side -/

/-- The command for the USB power line, if the channel has its name. -/
def lineCommands (path buff : Bytes) : List Bytes :=
  if path = lit "USB_POWER" then
    [if buff = lit "true" then lit "gpioset 0 268=0" else lit "gpioset 0 268=1"]
  else []

/-- INTERNAL: **what `drive` does** depends on the instance only: it may change the mask,
it may switch the USB power line, and it writes the mask. -/
theorem drive_commands (path buff : Bytes) (self : SimpleTestProtocol) :
    ∃ mask : BitVec 8, ∀ p : Process, drive path buff ⟨self, p⟩ =
      ⟨{ self with mask := mask }, { p with
        log := p.log ++ (lineCommands path buff ++ [outputCommand mask]).map .system }⟩ := by
  by_cases husb : path = lit "USB_POWER"
  · refine ⟨self.mask, fun p => ?_⟩
    simp +decide [drive, lineCommands, husb, Runtime.system, Process.system, Process.emit]
  · -- The other branches assign the mask, or leave it, and write it.
    have hset (mask : BitVec 8) : ∃ mask' : BitVec 8, ∀ p : Process,
        ((⟨self, p⟩ : Runtime).setMask mask).system (outputCommand mask) =
          ⟨{ self with mask := mask' },
            { p with log := p.log ++ ([] ++ [outputCommand mask']).map .system }⟩ :=
      ⟨mask, fun _ => rfl⟩
    simp only [drive, lineCommands, husb, if_false]
    split_ifs
    · exact hset _
    · exact hset _
    · exact hset _
    · exact hset _
    · exact hset self.mask

/-- The commands the output part issues for the strings read, one channel after the
other, starting with a panel. -/
def outputCommands : Panel → List (Variable × Bytes) → List Bytes
  | _, [] => []
  | on, x :: rs =>
    let on' := assignAll on (assignments [x])
    driveCommands x.1.projectPath x.2 on' ++ outputCommands on' rs

/-- INTERNAL: the later readings start from the panel that the earlier ones leave. -/
theorem outputCommands_append (on : Panel) (rs rs' : List (Variable × Bytes)) :
    outputCommands on (rs ++ rs') =
      outputCommands on rs ++ outputCommands (assignAll on (assignments rs)) rs' := by
  induction rs generalizing on with
  | nil => rfl
  | cons x rs ih =>
    rw [List.cons_append, outputCommands, outputCommands, ih, List.append_assoc,
      show x :: rs = [x] ++ rs from rfl, assignments_append, assignAll_append]

/-- INTERNAL: the last command after a reading shows all outputs read so far. -/
theorem outputCommands_concat (on : Panel) (rs : List (Variable × Bytes))
    (x : Variable × Bytes) :
    ∃ before, outputCommands on (rs ++ [x]) =
      before ++ [outputCommand (encode (assignAll on (assignments (rs ++ [x]))))] := by
  rw [outputCommands_append, assignments_append, assignAll_append]
  exact ⟨outputCommands on rs ++ _, by
    simp only [outputCommands, driveCommands, List.append_nil, List.append_assoc]; rfl⟩

/-- INTERNAL: a scan does not touch the direction register. -/
theorem directionWrite_outputCommands {on : Panel} {rs : List (Variable × Bytes)} {cmd : Bytes}
    (hcmd : cmd ∈ outputCommands on rs) : directionWrite cmd = none := by
  induction rs generalizing on with
  | nil => cases hcmd
  | cons x rs ih =>
    unfold outputCommands at hcmd
    rw [List.mem_append] at hcmd
    rcases hcmd with hcmd | hcmd
    · unfold driveCommands at hcmd
      rw [List.mem_append, List.mem_singleton] at hcmd
      rcases hcmd with hgpio | rfl
      · refine writeTo_gpioset ?_ 3
        by_cases husb : x.1.projectPath = lit "USB_POWER"
        · by_cases hbuff : x.2 = lit "true" <;> simp_all
        · simp [husb] at hgpio
      · exact directionWrite_outputCommand _
    · exact ih hcmd

/-- What reading the strings `rs` does to an instance that holds the panel `on`: the
mask follows the reads, every read is followed by its commands, and nothing else that
concerns the outputs happens. -/
structure Driven (on : Panel) (rs : List (Variable × Bytes)) (r r' : Runtime) : Prop where
  channels : r'.self.channels = r.self.channels
  mask : r'.self.mask = encode (assignAll on (assignments rs))
  log : ∃ new, r'.proc.log = r.proc.log ++ new ∧ reads new = rs ∧
    systems new = outputCommands on rs ∧ Honest on new

section Driven

variable {on : Panel} {rs rs' : List (Variable × Bytes)} {r r' r'' : Runtime}

/-- The commands run are the ones of the readings. -/
theorem Driven.systems (h : Driven on rs r r') :
    systems r'.proc.log = systems r.proc.log ++ outputCommands on rs := by
  obtain ⟨new, hlog, -, hsys, -⟩ := h.log
  rw [hlog, systems_append, hsys]

/-- The readings are logged in their order. -/
theorem Driven.reads (h : Driven on rs r r') : reads r'.proc.log = reads r.proc.log ++ rs := by
  obtain ⟨new, hlog, hreads, -⟩ := h.log
  rw [hlog, reads_append, hreads]

/-- INTERNAL: a quiet step drives no output. -/
theorem Quiet.driven (h : Quiet r r') (hmask : r.self.mask = encode on) : Driven on [] r r' := by
  obtain ⟨new, hlog, hsys, hreads⟩ := h.log
  exact ⟨h.channels, h.mask.trans hmask, new, hlog, hreads, hsys, honest_of_systems_eq_nil on hsys⟩

/-- INTERNAL: the output parts of two channels in a row. -/
theorem Driven.trans (h : Driven on rs r r')
    (h' : Driven (assignAll on (assignments rs)) rs' r' r'') : Driven on (rs ++ rs') r r'' := by
  obtain ⟨new, hlog, hreads, hsys, hhonest⟩ := h.log
  obtain ⟨new', hlog', hreads', hsys', hhonest'⟩ := h'.log
  refine ⟨h'.channels.trans h.channels, ?_, new ++ new', ?_, ?_, ?_, ?_⟩
  · rw [h'.mask, assignments_append, assignAll_append]
  · rw [hlog', hlog, List.append_assoc]
  · rw [reads_append, hreads, hreads']
  · rw [systems_append, hsys, hsys', outputCommands_append]
  · exact hhonest.append (by rwa [hreads])

end Driven

/-- INTERNAL: the commands of one reading show the panel behind it. -/
theorem honest_driveCommands (path buff : Bytes) (on : Panel) :
    Honest on ((driveCommands path buff on).map .system) := by
  have hwrite : Honest on [.system (outputCommand (encode on))] :=
    honest_singleton fun m hm => by simpa using hm.symm
  by_cases husb : path = lit "USB_POWER"
  · have hgpio : ∀ m, outputWrite (if buff = lit "true" then lit "gpioset 0 268=0"
        else lit "gpioset 0 268=1") = some m → m = encode on := by
      intro m hm
      unfold outputWrite at hm
      rw [writeTo_gpioset (by split_ifs <;> simp)] at hm
      cases hm
    simp only [driveCommands, husb, if_true, List.cons_append, List.nil_append, List.map_cons,
      List.map_nil]
    exact (honest_singleton hgpio).append hwrite
  · simpa [driveCommands, husb] using hwrite

/-- INTERNAL: **the output part of one channel** reads its variable, if it has one, and drives the
panel. -/
theorem driven_outputStep (env : Env) (ch : Channel) (r : Runtime) (on : Panel)
    (hmask : r.self.mask = encode on) :
    ∃ rs : List (Variable × Bytes), rs.map Prod.fst = ch.outVar.toList ∧
      Driven on rs r (outputStep env ch r) := by
  rcases ch with ⟨inVar, _ | var⟩
  · exact ⟨[], rfl, (Quiet.refl r).driven hmask⟩
  · refine ⟨[(var, env.read r.proc.log var)], rfl, ?_⟩
    have hdrive := drive_eq var (env.read r.proc.log var)
      ⟨r.self, r.proc.emit (.read var (env.read r.proc.log var))⟩ on hmask
    simp only [outputStep, hdrive]
    have hread : Honest on [.read var (env.read r.proc.log var)] :=
      honest_of_systems_eq_nil on rfl
    refine ⟨rfl, rfl, _, List.append_assoc _ _ _, ?_, ?_, hread.append (honest_driveCommands _ _ _)⟩
    · simp
    · simp [outputCommands]

/-- INTERNAL: **what a scan does to the outputs is determined by what it reads**: the
output variables in list order, each followed by its commands. -/
theorem driven_scan (env : Env) (chs : List Channel) (r : Runtime) (on : Panel)
    (hmask : r.self.mask = encode on) :
    ∃ rs : List (Variable × Bytes), rs.map Prod.fst = chs.filterMap Channel.outVar ∧
      Driven on rs r (scan env chs r) := by
  have hpass : ∀ (r : Runtime) (on : Panel), r.self.mask = encode on →
      ∃ rs : List (Variable × Bytes), rs.map Prod.fst = chs.filterMap Channel.outVar ∧
        Driven on rs r (chs.foldl (channelStep env) r) := by
    induction chs with
    | nil => exact fun r on hmask => ⟨[], rfl, (Quiet.refl r).driven hmask⟩
    | cons ch chs ih =>
      intro r on hmask
      have hin := (quiet_inputStep env ch r).driven hmask
      obtain ⟨rs, hnames, hout⟩ := driven_outputStep env ch (inputStep env ch r) on hin.mask
      have hstep : Driven on rs r (channelStep env r ch) := hin.trans hout
      obtain ⟨rs', hnames', hrest⟩ := ih (channelStep env r ch) _ hstep.mask
      refine ⟨rs ++ rs', ?_, hstep.trans hrest⟩
      rw [List.map_append, hnames, hnames']
      cases ho : ch.outVar <;> simp [ho]
  have hrefresh := (quiet_refresh env (needs chs) r).driven hmask
  obtain ⟨rs, hnames, hrest⟩ := hpass (refresh env (needs chs) r) on hrefresh.mask
  exact ⟨rs, hnames, hrefresh.trans hrest⟩

end Pca9536Driver.Interface
