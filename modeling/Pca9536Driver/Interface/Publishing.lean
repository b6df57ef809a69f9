import Pca9536Driver.Interface.Scan

/-!
# What a scan publishes

The input side of a scan, for an environment that may change between any two commands.
The first pass sets the flag of every string the second pass is going to use
(`needs_of_diagnostic`), the refresh fills these strings by commands of this scan
(`refresh_spec`), and from then on they stay as they are: each known channel is written
once, from its shared string and the output of its second command (`published_scan`).
-/

set_option autoImplicit false

namespace Pca9536Driver.Interface

open Pca9536Driver.Library Pca9536Driver.Model

/-! ## First pass -/

/-- INTERNAL: a flag that is set stays set. -/
theorem mark_of_true (need : Need) (path : Bytes) (c : Cache) (h : need c = true) :
    need.mark path c = true := by
  unfold Need.mark
  split_ifs <;> simp [Function.update_apply, h]

/-- INTERNAL: a diagnostic name sets the flag of its probe. -/
theorem mark_name (need : Need) (d : Diagnostic) (c : Cache) (h : d.cache = some c) :
    need.mark d.name c = true := by
  cases d <;> cases h <;> simp +decide [Need.mark]

/-- INTERNAL: **every string the second pass uses is marked in the first.** -/
theorem needs_of_diagnostic {chs : List Channel} {ch : Channel} (hch : ch ∈ chs) {var : Variable}
    {d : Diagnostic} (hd : ch.diagnostic = some (var, d)) {c : Cache} (hc : d.cache = some c) :
    needs chs c = true := by
  obtain ⟨hin, hname⟩ := (Channel.diagnostic_eq_some_iff ch var d).mp hd
  have hmem : var ∈ chs.filterMap Channel.inVar := List.mem_filterMap.mpr ⟨ch, hch, hin⟩
  have hkeep : ∀ (l : List Variable) (need : Need), need c = true →
      (l.foldl (fun need var => need.mark var.projectPath) need) c = true := by
    intro l
    induction l with
    | nil => exact fun need h => h
    | cons v l ih => exact fun need h => ih _ (mark_of_true need _ c h)
  obtain ⟨l, l', hsplit⟩ := List.append_of_mem hmem
  unfold needs
  rw [hsplit, List.foldl_append, List.foldl_cons]
  exact hkeep l' _ (hname ▸ mark_name _ d c hc)

/-! ## Refresh -/

/-- INTERNAL: **what the refresh does**: it runs commands only, and a string that is
needed holds the output of its command. -/
theorem refresh_spec (env : Env) (need : Need) (r : Runtime) :
    (refresh env need r).self = r.self ∧
    (∃ cmds : List Bytes, (refresh env need r).proc.log = r.proc.log ++ cmds.map .popen) ∧
    ∀ c, need c = true → ∃ h, (refresh env need r).proc.caches c =
      collect (env.popen (r.proc.log ++ h) c.command) := by
  have hall (c : Cache) : c ∈ Cache.all := by cases c <;> decide
  suffices h : ∀ l : List Cache, (l.foldl (refreshOne env need) r).self = r.self ∧
      (∃ cmds : List Bytes,
        (l.foldl (refreshOne env need) r).proc.log = r.proc.log ++ cmds.map .popen) ∧
      ∀ c ∈ l, need c = true → ∃ h, (l.foldl (refreshOne env need) r).proc.caches c =
        collect (env.popen (r.proc.log ++ h) c.command) by
    obtain ⟨hself, hlog, hcaches⟩ := h Cache.all
    exact ⟨hself, hlog, fun c => hcaches c (hall c)⟩
  intro l
  induction l using List.reverseRecOn with
  | nil => exact ⟨rfl, ⟨[], by simp⟩, by simp⟩
  | append_singleton l c₀ ih =>
    obtain ⟨hself, ⟨cmds, hlog⟩, hcaches⟩ := ih
    rw [List.foldl_append, List.foldl_cons, List.foldl_nil]
    by_cases hneed : need c₀ = true
    · simp only [refreshOne, hneed, if_true, Runtime.exec, execCommand]
      refine ⟨hself, ⟨cmds ++ [c₀.command], by simp [hlog]⟩, fun c hc hn => ?_⟩
      by_cases heq : c = c₀
      · exact ⟨cmds.map .popen, by simp [heq, hlog]⟩
      · have hc' : c ∈ l := by simpa [heq] using hc
        obtain ⟨h, hh⟩ := hcaches c hc' hn
        exact ⟨h, by simp [heq, hh]⟩
    · simp only [refreshOne, hneed, Bool.false_eq_true, if_false]
      refine ⟨hself, ⟨cmds, hlog⟩, fun c hc hn => ?_⟩
      have hne : c ≠ c₀ := fun heq => hneed (heq ▸ hn)
      exact hcaches c (by simpa [hne] using hc) hn

/-! ## Second pass -/

/-- A write of the second pass: the value of the diagnostic, made from its shared string
and from what its second command prints. The command is run behind `base`, the write follows
at once, and both stand in the history `log`. -/
def Shows (env : Env) (cs : Cache → Bytes) (base log : List Event) (x : Variable × Diagnostic)
    (y : Variable × Value) : Prop :=
  y.1 = x.1 ∧ ∃ h, y.2 = x.2.value env.arith (x.2.shared cs)
      (x.2.output env (base ++ h) (x.2.shared cs)) ∧
    base ++ h ++ ((x.2.command (x.2.shared cs)).toList.map .popen ++ [.write y.1 y.2]) <+: log

/-- What publishing the diagnostics `ds` does: each is written once, in order, and the
shared strings stay as they are. -/
structure Published (env : Env) (cs : Cache → Bytes) (base : List Event)
    (ds : List (Variable × Diagnostic)) (r r' : Runtime) : Prop where
  caches : r'.proc.caches = r.proc.caches
  log : r.proc.log <+: r'.proc.log
  conned : r'.self.usbModConned = if .modemIface ∈ ds.map Prod.snd
    then contains (cs .modemCheck) (lit "usb0") else r.self.usbModConned
  writes : ∃ w, writes r'.proc.log = writes r.proc.log ++ w ∧
    List.Forall₂ (Shows env cs base r'.proc.log) ds w

variable {env : Env} {cs : Cache → Bytes} {base log : List Event}

/-- INTERNAL: what has been shown stays in the history. -/
theorem Shows.mono {log' : List Event} {x : Variable × Diagnostic} {y : Variable × Value}
    (hlog : log <+: log') (h : Shows env cs base log x y) : Shows env cs base log' x y := by
  obtain ⟨hvar, l, hvalue, hprefix⟩ := h
  exact ⟨hvar, l, hvalue, hprefix.trans hlog⟩

/-- INTERNAL: the values of two channels in a row. -/
theorem Published.trans {ds ds' : List (Variable × Diagnostic)} {r r' r'' : Runtime}
    (h : Published env cs base ds r r') (h' : Published env cs base ds' r' r'') :
    Published env cs base (ds ++ ds') r r'' where
  caches := h'.caches.trans h.caches
  log := h.log.trans h'.log
  conned := by
    rw [h'.conned, h.conned]
    by_cases h1 : Diagnostic.modemIface ∈ ds'.map Prod.snd
    · rw [if_pos h1, if_pos (by rw [List.map_append]; exact List.mem_append_right _ h1)]
    · by_cases h2 : Diagnostic.modemIface ∈ ds.map Prod.snd
      · rw [if_neg h1, if_pos h2, if_pos (by rw [List.map_append]; exact List.mem_append_left _ h2)]
      · rw [if_neg h1, if_neg h2, if_neg (by rw [List.map_append, List.mem_append]; tauto)]
  writes := by
    obtain ⟨w, hw, hall⟩ := h.writes
    obtain ⟨w', hw', hall'⟩ := h'.writes
    have hkeep : List.Forall₂ (Shows env cs base r''.proc.log) ds w :=
      hall.imp fun x y => Shows.mono h'.log
    exact ⟨w ++ w', by rw [hw', hw, List.append_assoc], List.rel_append hkeep hall'⟩

/-- INTERNAL: **a diagnostic publishes one value**, from the shared strings and its second
command. -/
theorem published_publish (var : Variable) (d : Diagnostic) (r : Runtime)
    (hbase : base <+: r.proc.log) :
    Published env cs base [(var, d)] r (d.publish env var (d.shared cs) r) := by
  obtain ⟨h, hh⟩ := hbase
  have hproc := d.publish_proc env var (d.shared cs) r
  have hself := d.publish_self env var (d.shared cs) r
  constructor
  · rw [hproc]
  · rw [hproc]
    exact List.prefix_append _ _
  · rw [hself]
    cases d <;> rfl
  · refine ⟨[(var, d.value env.arith (d.shared cs) (d.output env r.proc.log (d.shared cs)))],
      ?_, .cons ⟨rfl, h, by rw [hh], ?_⟩ .nil⟩
    · rw [hproc]
      simp
    · rw [hproc, hh]

/-- INTERNAL: the input part publishes the value of its diagnostic, if its name is one. -/
theorem published_inputStep (ch : Channel) (r : Runtime) (hcaches : r.proc.caches = cs)
    (hbase : base <+: r.proc.log) :
    Published env cs base ch.diagnostic.toList r (inputStep env ch r) := by
  rw [inputStep_eq]
  rcases ch.diagnostic with _ | ⟨var, d⟩
  · exact ⟨rfl, List.prefix_rfl, by simp, [], by simp, .nil⟩
  · simp only [hcaches]
    exact published_publish var d r hbase

/-- INTERNAL: the output part publishes nothing. -/
theorem published_outputStep (ch : Channel) (r : Runtime) :
    Published env cs base [] r (outputStep env ch r) := by
  rcases ch with ⟨inVar, _ | var⟩
  · exact ⟨rfl, List.prefix_rfl, by simp [outputStep], [], by simp [outputStep], .nil⟩
  · obtain ⟨mask, h⟩ := drive_commands var.projectPath (env.read r.proc.log var) r.self
    simp only [outputStep, h]
    refine ⟨rfl, ?_, by simp, [], by simp, .nil⟩
    rw [Process.emit_log, List.append_assoc]
    exact List.prefix_append _ _

/-- INTERNAL: a scan only adds to the history. -/
theorem prefix_scan (env : Env) (chs : List Channel) (r : Runtime) :
    r.proc.log <+: (scan env chs r).proc.log := by
  have hstep (r : Runtime) (ch : Channel) : r.proc.log <+: (channelStep env r ch).proc.log := by
    have hin : Published env r.proc.caches r.proc.log ch.diagnostic.toList r (inputStep env ch r) :=
      published_inputStep ch r rfl List.prefix_rfl
    have hout : Published env r.proc.caches r.proc.log [] (inputStep env ch r)
        (channelStep env r ch) := published_outputStep ch _
    exact hin.log.trans hout.log
  have hpass (l : List Channel) (r : Runtime) :
      r.proc.log <+: (l.foldl (channelStep env) r).proc.log := by
    induction l generalizing r with
    | nil => exact List.prefix_rfl
    | cons ch l ih => exact (hstep r ch).trans (ih _)
  obtain ⟨-, ⟨cmds, hlog⟩, -⟩ := refresh_spec env (needs chs) r
  have hrefresh : r.proc.log <+: (refresh env (needs chs) r).proc.log :=
    hlog ▸ List.prefix_append _ _
  exact hrefresh.trans (hpass chs _)

/-- INTERNAL: **what a scan publishes**: every known input channel once, in list order,
from the strings filled in this scan. -/
theorem published_scan (env : Env) (chs : List Channel) (r : Runtime) :
    ∃ cs : Cache → Bytes,
      (∀ c, needs chs c = true → ∃ h, cs c = collect (env.popen (r.proc.log ++ h) c.command)) ∧
      (scan env chs r).proc.caches = cs ∧
      (scan env chs r).self.usbModConned =
        (if .modemIface ∈ (chs.filterMap Channel.diagnostic).map Prod.snd
          then contains (cs .modemCheck) (lit "usb0") else r.self.usbModConned) ∧
      ∃ w, writes (scan env chs r).proc.log = writes r.proc.log ++ w ∧
        List.Forall₂ (Shows env cs r.proc.log (scan env chs r).proc.log)
          (chs.filterMap Channel.diagnostic) w := by
  obtain ⟨hself, ⟨cmds, hlog⟩, hfresh⟩ := refresh_spec env (needs chs) r
  set r₁ := refresh env (needs chs) r with hr₁
  have hpass : ∀ (chs : List Channel) (r' : Runtime), r'.proc.caches = r₁.proc.caches →
      r.proc.log <+: r'.proc.log →
      Published env r₁.proc.caches r.proc.log (chs.filterMap Channel.diagnostic) r'
        (chs.foldl (channelStep env) r') := by
    intro chs
    induction chs with
    | nil => exact fun r' _ _ => ⟨rfl, List.prefix_rfl, by simp, [], by simp, .nil⟩
    | cons ch chs ih =>
      intro r' hcaches hbase
      have hstep : Published env r₁.proc.caches r.proc.log (ch.diagnostic.toList ++ []) r'
          (channelStep env r' ch) :=
        (published_inputStep ch r' hcaches hbase).trans (published_outputStep ch _)
      have hrest := ih (channelStep env r' ch) (hstep.caches.trans hcaches) (hbase.trans hstep.log)
      have := hstep.trans hrest
      cases hd : ch.diagnostic <;> simpa [hd] using this
  have hscan := hpass chs r₁ rfl (hlog ▸ List.prefix_append _ _)
  obtain ⟨w, hw, hall⟩ := hscan.writes
  refine ⟨r₁.proc.caches, hfresh, hscan.caches, ?_, w, ?_, hall⟩
  · rw [← hself]
    exact hscan.conned
  · have hquiet : writes r₁.proc.log = writes r.proc.log := by simp [hlog]
    rw [← hquiet]
    exact hw

/-- INTERNAL: the partner of an element, in two lists related element by element. -/
theorem exists_partner {α β : Type*} {R : α → β → Prop} {l : List α} {l' : List β}
    (h : List.Forall₂ R l l') {x : α} (hx : x ∈ l) : ∃ y ∈ l', R x y := by
  obtain ⟨i, hi, rfl⟩ := List.mem_iff_getElem.mp hx
  have hi' : i < l'.length := h.length_eq ▸ hi
  exact ⟨l'[i], List.getElem_mem hi', h.get hi hi'⟩

/-- INTERNAL: what is written under the name of a diagnostic is a value of this
diagnostic, made from the shared string of the scan. -/
theorem mem_writes_of_name {ds : List (Variable × Diagnostic)}
    (hds : ∀ x ∈ ds, x.1.projectPath = x.2.name) {w : List (Variable × Value)}
    (hall : List.Forall₂ (Shows env cs base log) ds w) {y : Variable × Value} (hy : y ∈ w)
    {d : Diagnostic} (hname : y.1.projectPath = d.name) :
    d ∈ ds.map Prod.snd ∧ ∃ h, y.2 = d.value env.arith (d.shared cs)
        (d.output env (base ++ h) (d.shared cs)) ∧
      base ++ h ++ ((d.command (d.shared cs)).toList.map .popen ++ [.write y.1 y.2]) <+: log := by
  obtain ⟨x, hx, hvar, hvalue⟩ := exists_partner hall.flip hy
  obtain rfl : x.2 = d := by
    apply Diagnostic.name_injective
    rw [← hds x hx, ← hvar, hname]
  exact ⟨List.mem_map_of_mem hx, hvalue⟩

/-- Everything written under the name of a diagnostic is `value`. -/
def EveryWrite (w : List (Variable × Value)) (d : Diagnostic) (value : Value) : Prop :=
  ∀ x ∈ w, x.1.projectPath = d.name → x.2 = value

/-- INTERNAL: if a diagnostic has one possible value, given the shared strings and the
environment, then this is what is written under its name. -/
theorem everyWrite_of_output {ds : List (Variable × Diagnostic)}
    (hds : ∀ x ∈ ds, x.1.projectPath = x.2.name) {w : List (Variable × Value)}
    (hall : List.Forall₂ (Shows env cs base log) ds w) {d : Diagnostic} {value : Value}
    (hvalue : ∀ log, d.value env.arith (d.shared cs) (d.output env log (d.shared cs)) = value) :
    EveryWrite w d value := by
  intro y hy hname
  obtain ⟨-, h, hy', -⟩ := mem_writes_of_name hds hall hy hname
  rw [hy', hvalue]

/-- INTERNAL: a value that does not depend on the second command is the value of
every write. -/
theorem everyWrite_of_value {ds : List (Variable × Diagnostic)}
    (hds : ∀ x ∈ ds, x.1.projectPath = x.2.name) {w : List (Variable × Value)}
    (hall : List.Forall₂ (Shows env cs base log) ds w) {d : Diagnostic} {value : Value}
    (hvalue : ∀ out, d.value env.arith (d.shared cs) out = value) : EveryWrite w d value :=
  everyWrite_of_output hds hall fun _ => hvalue _

/-- INTERNAL: the diagnostics of the channels are the ones of their names. -/
theorem mem_diagnostics {chs : List Channel} {x : Variable × Diagnostic}
    (hx : x ∈ chs.filterMap Channel.diagnostic) : x.1.projectPath = x.2.name := by
  obtain ⟨ch, -, hd⟩ := List.mem_filterMap.mp hx
  exact ((Channel.diagnostic_eq_some_iff ch x.1 x.2).mp hd).2

/-- INTERNAL: a diagnostic that is found writes its variable. -/
theorem exists_write_of_mem {ds : List (Variable × Diagnostic)} {w : List (Variable × Value)}
    (hall : List.Forall₂ (Shows env cs base log) ds w) {x : Variable × Diagnostic} (hx : x ∈ ds) :
    ∃ y ∈ w, y.1 = x.1 := by
  obtain ⟨y, hy, hvar, -⟩ := exists_partner hall hx
  exact ⟨y, hy, hvar⟩

/-- Every channel with the name of a diagnostic is written, and everything written under
this name is `value`. -/
def Publishes (chs : List Channel) (w : List (Variable × Value)) (d : Diagnostic)
    (value : Value) : Prop :=
  EveryWrite w d value ∧
    ∀ ch ∈ chs, ∀ var, ch.inVar = some var → var.projectPath = d.name → (var, value) ∈ w

/-- INTERNAL: a channel with the name of a diagnostic is written. -/
theorem exists_write_of_channel {chs : List Channel} {w : List (Variable × Value)}
    (hall : List.Forall₂ (Shows env cs base log) (chs.filterMap Channel.diagnostic) w)
    {ch : Channel} (hch : ch ∈ chs) {var : Variable} (hin : ch.inVar = some var) {d : Diagnostic}
    (hname : var.projectPath = d.name) : ∃ value, (var, value) ∈ w := by
  have hmem : (var, d) ∈ chs.filterMap Channel.diagnostic :=
    List.mem_filterMap.mpr ⟨ch, hch, (Channel.diagnostic_eq_some_iff ch var d).mpr ⟨hin, hname⟩⟩
  obtain ⟨⟨var', value⟩, hy, rfl⟩ := exists_write_of_mem hall hmem
  exact ⟨value, hy⟩

/-- INTERNAL: every channel is written, so what is true of every write is published. -/
theorem EveryWrite.publishes {chs : List Channel} {w : List (Variable × Value)} {d : Diagnostic}
    {value : Value} (hevery : EveryWrite w d value)
    (hall : List.Forall₂ (Shows env cs base log) (chs.filterMap Channel.diagnostic) w) :
    Publishes chs w d value := by
  refine ⟨hevery, fun ch hch var hin hname => ?_⟩
  obtain ⟨value', hy⟩ := exists_write_of_channel hall hch hin hname
  have hvalue := hevery _ hy hname
  exact hvalue ▸ hy

/-- INTERNAL: **the one possible value of a diagnostic is published.** -/
theorem publishes_of_output {chs : List Channel} {w : List (Variable × Value)}
    (hall : List.Forall₂ (Shows env cs base log) (chs.filterMap Channel.diagnostic) w)
    {d : Diagnostic} {value : Value}
    (hvalue : ∀ log, d.value env.arith (d.shared cs) (d.output env log (d.shared cs)) = value) :
    Publishes chs w d value :=
  (everyWrite_of_output (fun _ => mem_diagnostics) hall hvalue).publishes hall

/-- INTERNAL: so is a value that does not depend on the second command. -/
theorem publishes_of_value {chs : List Channel} {w : List (Variable × Value)}
    (hall : List.Forall₂ (Shows env cs base log) (chs.filterMap Channel.diagnostic) w)
    {d : Diagnostic} {value : Value}
    (hvalue : ∀ out, d.value env.arith (d.shared cs) out = value) : Publishes chs w d value :=
  publishes_of_output hall fun _ => hvalue _

/-- INTERNAL: **a scan from any state**: every known channel is written once, from strings
that are outputs of the probes. A string that no channel needs may be taken to be fresh
as well. -/
theorem execute_shows (env : Env) (chs : List Channel) (mask : BitVec 8) (conned : Bool)
    (p : Process) :
    ∃ r' cs w, execute env ⟨⟨chs.map Channel.toScada, mask, conned⟩, p⟩ = some r' ∧
      writes r'.proc.log = writes p.log ++ w ∧
      List.Forall₂ (Shows env cs p.log r'.proc.log) (chs.filterMap Channel.diagnostic) w ∧
      ∀ c, ∃ h, cs c = collect (env.popen h c.command) := by
  set r : Runtime := ⟨⟨chs.map Channel.toScada, mask, conned⟩, p⟩
  obtain ⟨cs₀, hfresh, -, -, w, hw, hall⟩ := published_scan env chs r
  set cs : Cache → Bytes := fun c =>
    if needs chs c = true then cs₀ c else collect (env.popen p.log c.command) with hcs
  have hshared : ∀ x ∈ chs.filterMap Channel.diagnostic, x.2.shared cs₀ = x.2.shared cs := by
    rintro ⟨var, d⟩ hx
    obtain ⟨ch, hch, hd⟩ := List.mem_filterMap.mp hx
    unfold Diagnostic.shared
    cases hc : d.cache with
    | none => rfl
    | some c => simp only [hcs, needs_of_diagnostic hch hd hc, if_true]
  refine ⟨scan env chs r, cs, w, execute_eq_scan _ chs r rfl, hw, ?_, fun c => ?_⟩
  · refine ((List.forall₂_and_left _ _).mpr ⟨hshared, hall⟩).imp fun x y hxy => ?_
    obtain ⟨heq, hvar, h, hvalue, hlog⟩ := hxy
    exact ⟨hvar, h, heq ▸ hvalue, heq ▸ hlog⟩
  · by_cases hn : needs chs c = true
    · obtain ⟨h, hh⟩ := hfresh c hn
      exact ⟨_, (if_pos hn).trans hh⟩
    · exact ⟨p.log, by simp only [hcs, if_neg hn]⟩

/-- INTERNAL: a scan with one input channel. -/
theorem execute_single (env : Env) (d : Diagnostic) :
    let var : Variable := ⟨1, d.name⟩
    ∃ r' cs h, execute env ⟨⟨[(⟨some var, none⟩ : Channel)].map Channel.toScada, 0xFF, false⟩,
        ⟨fun _ => [], []⟩⟩ = some r' ∧
      writes r'.proc.log = [(var, d.value env.arith (d.shared cs) (d.output env h (d.shared cs)))] ∧
      ∀ c, ∃ h, cs c = collect (env.popen h c.command) := by
  intro var
  obtain ⟨r', cs, w, hexec, hw, hall, hfresh⟩ :=
    execute_shows env [⟨some var, none⟩] 0xFF false ⟨fun _ => [], []⟩
  have hds : [(⟨some var, none⟩ : Channel)].filterMap Channel.diagnostic = [(var, d)] := by
    simp [(Channel.diagnostic_eq_some_iff ⟨some var, none⟩ var d).mpr ⟨rfl, rfl⟩]
  rw [hds, List.forall₂_cons_left_iff] at hall
  obtain ⟨⟨var', value⟩, w', ⟨hvar, h, hvalue, -⟩, hnil, rfl⟩ := hall
  obtain rfl := List.forall₂_nil_left_iff.mp hnil
  obtain rfl : var' = var := hvar
  exact ⟨r', cs, [] ++ h, hexec, by rw [hw, ← hvalue]; rfl, hfresh⟩

/-! ## The driver without shared strings -/

/-- The input part of the driver one would write without shared strings: at a known
channel it runs the channel's probe, then its second command, and writes the value. -/
def naiveInput (env : Env) (ch : Channel) (r : Runtime) : Runtime :=
  match ch.diagnostic with
  | none => r
  | some (var, d) =>
    match d.cache with
    | none => d.publish env var [] r
    | some c => r.exec env c.command fun out r => d.publish env var out r

/-- A scan that shares nothing: each value from commands of its own. -/
def naiveScan (env : Env) (chs : List Channel) (r : Runtime) : Runtime :=
  chs.foldl (fun r ch => outputStep env ch (naiveInput env ch r)) r

/-- Every command prints the same whenever it is run behind `base`. -/
def FixedFrom (env : Env) (base : List Event) : Prop :=
  ∀ h cmd, env.popen (base ++ h) cmd = env.popen base cmd

/-- What the commands of a diagnostic give when they are run behind `base`. -/
def Diagnostic.ownValue (env : Env) (base : List Event) (d : Diagnostic) : Value :=
  let c := d.shared fun c => collect (env.popen base c.command)
  d.value env.arith c (d.output env base c)

/-- INTERNAL: in a fixed state of the system a command prints the same at any time. -/
theorem output_of_fixed (hfixed : FixedFrom env base) {log : List Event} (hlog : base <+: log)
    (d : Diagnostic) (c : Bytes) : d.output env log c = d.output env base c := by
  obtain ⟨h, rfl⟩ := hlog
  cases hc : d.command c <;> simp [Diagnostic.output, hc, hfixed h]

/-- INTERNAL: in a fixed environment a diagnostic shows what its own commands give,
provided its shared string has been filled behind `base`. -/
theorem Shows.eq_ownValue (hfixed : FixedFrom env base) {x : Variable × Diagnostic}
    {y : Variable × Value} (h : Shows env cs base log x y)
    (hfresh : ∀ c, x.2.cache = some c → ∃ h, cs c = collect (env.popen (base ++ h) c.command)) :
    y = (x.1, x.2.ownValue env base) := by
  obtain ⟨hvar, l, hvalue, -⟩ := h
  have hshared : x.2.shared cs = x.2.shared fun c => collect (env.popen base c.command) := by
    unfold Diagnostic.shared
    cases hc : x.2.cache with
    | none => rfl
    | some c =>
      obtain ⟨l', hl'⟩ := hfresh c hc
      simpa only [hfixed l'] using hl'
  rw [output_of_fixed hfixed (List.prefix_append _ _), hshared] at hvalue
  exact Prod.ext hvar hvalue

/-- INTERNAL: the value of a diagnostic that shares nothing. -/
theorem naiveInput_spec (hfixed : FixedFrom env base) (ch : Channel) (r : Runtime)
    (hbase : base <+: r.proc.log) :
    base <+: (naiveInput env ch r).proc.log ∧
    writes (naiveInput env ch r).proc.log = writes r.proc.log ++
      (ch.diagnostic.map fun x => (x.1, x.2.ownValue env base)).toList := by
  unfold naiveInput
  rcases ch.diagnostic with _ | ⟨var, d⟩
  · exact ⟨hbase, by simp⟩
  · cases hc : d.cache with
    | none =>
      simp only [hc, Diagnostic.publish_proc]
      refine ⟨hbase.trans (List.prefix_append _ _), ?_⟩
      simp [output_of_fixed hfixed hbase, Diagnostic.ownValue, Diagnostic.shared, hc]
    | some c =>
      have hbase' : base <+: r.proc.log ++ [Event.popen c.command] :=
        hbase.trans (List.prefix_append _ _)
      have hprobe : env.popen r.proc.log c.command = env.popen base c.command := by
        obtain ⟨l, hl⟩ := hbase
        rw [← hl, hfixed l]
      simp only [hc, Runtime.exec, execCommand, Diagnostic.publish_proc, Process.emit_log]
      refine ⟨hbase'.trans (List.prefix_append _ _), ?_⟩
      simp [output_of_fixed hfixed hbase', Diagnostic.ownValue, Diagnostic.shared, hc, hprobe]

/-- INTERNAL: in a fixed environment the naive driver writes what the commands of each
known channel give. -/
theorem writes_naiveScan (hfixed : FixedFrom env base) (chs : List Channel) (r : Runtime)
    (hbase : base <+: r.proc.log) :
    writes (naiveScan env chs r).proc.log = writes r.proc.log ++
      (chs.filterMap Channel.diagnostic).map fun x => (x.1, x.2.ownValue env base) := by
  unfold naiveScan
  induction chs generalizing r with
  | nil => simp
  | cons ch chs ih =>
    obtain ⟨hin, hwrites⟩ := naiveInput_spec hfixed ch r hbase
    have hout : Published env (fun _ => []) base [] (naiveInput env ch r)
        (outputStep env ch (naiveInput env ch r)) := published_outputStep ch _
    obtain ⟨w, hw, hnil⟩ := hout.writes
    obtain rfl := List.forall₂_nil_left_iff.mp hnil
    rw [List.foldl_cons, ih _ (hin.trans hout.log), hw, hwrites]
    cases hd : ch.diagnostic <;> simp [hd]

end Pca9536Driver.Interface
