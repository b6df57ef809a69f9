import Pca9536Driver.Interface.Host
import Pca9536Driver.Analysis.UnresolvedChannels

/-!
# Instances over their life

Channels can be created and configured between two scans, and `Init` can be called again.
A run ends at the first `Execute` that finds a parameter without a variable, and nowhere
else. From an `Init` on, the mask of an instance is the history of what it has read, and
this is so whatever happened before, whichever channels come later and whatever else the
runtime executes in between.
-/

set_option autoImplicit false

namespace Pca9536Driver.Analysis

open Pca9536Driver.Library Pca9536Driver.Model Pca9536Driver.Interface

variable {ι κ : Type*} [DecidableEq ι] [DecidableEq κ]

/-! ## When a run fails -/

/-- INTERNAL: **`Execute` fails iff a channel is unresolved**. -/
theorem execute_eq_none_iff (env : Env) (r : Runtime) :
    execute env r = none ↔ ∃ ch ∈ r.self.channels, unresolved ch = true := by
  constructor
  · intro hnone
    by_contra hall
    push Not at hall
    obtain ⟨chs, hchs⟩ := exists_toScada fun ch hch => by simpa using hall ch hch
    rw [execute_eq_scan env chs r hchs] at hnone
    cases hnone
  · rintro ⟨ch, hch, hun⟩
    exact execute_of_unresolved hch hun env

/-- INTERNAL: **an `Execute` that completes is a scan** over resolved channels. -/
theorem exists_scan_of_execute {env : Env} {r r' : Runtime} (h : execute env r = some r') :
    ∃ chs : List Channel, r.self.channels = chs.map Channel.toScada ∧ r' = scan env chs r := by
  have hall : ∀ ch ∈ r.self.channels, unresolved ch = false := by
    intro ch hch
    by_contra hun
    have hnone := execute_of_unresolved hch (by simpa using hun) env
    rw [h] at hnone
    cases hnone
  obtain ⟨chs, hchs⟩ := exists_toScada hall
  rw [execute_eq_scan env chs r hchs] at h
  exact ⟨chs, hchs, (Option.some.inj h).symm⟩

/-- INTERNAL: **what an operation can do**: change the channels without any event, reset the
mask, or scan. -/
theorem operation_cases {op : Operation} {r r' : Runtime} {es : List Event}
    (hrun : op.run r = some r') (hlog : r'.proc.log = r.proc.log ++ es) :
    (es = [] ∧ ∃ channels, r'.self = { r.self with channels := channels }) ∨
    (op = .init ∧ r'.self = { r.self with mask := 0xFF } ∧
      es = [.system (lit "i2cset -y 2 0x41 0x03 0x00")]) ∨
    ∃ env chs, op = .execute env ∧ r.self.channels = chs.map Channel.toScada ∧
      r' = scan env chs r := by
  cases op with
  | create =>
    obtain rfl := Option.some.inj hrun
    exact Or.inl ⟨by simpa using hlog, _, rfl⟩
  | configure k ch =>
    obtain rfl := Option.some.inj hrun
    exact Or.inl ⟨by simpa using hlog, _, rfl⟩
  | init =>
    obtain rfl := Option.some.inj hrun
    exact Or.inr (Or.inl ⟨rfl, rfl, (List.append_cancel_left hlog).symm⟩)
  | execute env =>
    obtain ⟨chs, hchs, hscan⟩ := exists_scan_of_execute hrun
    exact Or.inr (Or.inr ⟨env, chs, rfl, hchs, hscan⟩)

/-- INTERNAL: no other action fails. -/
theorem act_eq_none_iff (s : Plant ι κ) (a : HostAction ι κ) :
    s.act a = none ↔ ∃ i env, a = .protocol i (.execute env) ∧
      ∃ ch ∈ (s.protocols i).channels, unresolved ch = true := by
  cases a with
  | block k inputs => simp [Plant.act]
  | protocol i op =>
    cases op with
    | create => simp [Plant.act, Operation.run]
    | configure k ch => simp [Plant.act, Operation.run]
    | init => simp [Plant.act, Operation.run]
    | execute env =>
      simp only [Plant.act, Operation.run, Option.map_eq_none_iff, execute_eq_none_iff,
        HostAction.protocol.injEq, Operation.execute.injEq]
      constructor
      · exact fun h => ⟨i, env, ⟨rfl, rfl⟩, h⟩
      · rintro ⟨_, _, ⟨rfl, rfl⟩, h⟩
        exact h

/-- **A run fails at an `Execute` that finds an unresolved channel, and only there.** For
every number of instances and blocks and every order of `Create`, configuration, `Init`
and `Execute`: `Create`, `Init` and the blocks never fail, and a channel that is created
but not yet configured does no harm.
SOURCE: simple_test_protocol.cpp:89-312, test_fb.cpp:3-40 -/
theorem run_fails_iff (s : Plant ι κ) (as : List (HostAction ι κ)) :
    s.run as = none ↔ ∃ before i env after s', as = before ++ .protocol i (.execute env) :: after ∧
      s.run before = some s' ∧ ∃ ch ∈ (s'.protocols i).channels, unresolved ch = true := by
  induction as generalizing s with
  | nil =>
    constructor
    · intro h
      cases h
    · rintro ⟨before, i, env, after, s', has, -⟩
      simp at has
  | cons a as ih =>
    rw [Plant.run_cons]
    cases hs₁ : s.act a with
    | none =>
      obtain ⟨i, env, rfl, hun⟩ := (act_eq_none_iff s a).mp hs₁
      exact ⟨fun _ => ⟨[], i, env, as, s, rfl, rfl, hun⟩, fun _ => rfl⟩
    | some s₁ =>
      rw [Option.bind_some, ih]
      constructor
      · rintro ⟨before, i, env, after, s', rfl, hbefore, hun⟩
        exact ⟨a :: before, i, env, after, s', rfl, by rw [Plant.run_cons, hs₁]; exact hbefore, hun⟩
      · rintro ⟨before, i, env, after, s', has, hbefore, hun⟩
        cases before with
        | nil =>
          -- The first action succeeds, so it is not the one that fails.
          obtain rfl := Option.some.inj hbefore
          rw [List.nil_append, List.cons.injEq] at has
          rw [(act_eq_none_iff s a).mpr ⟨i, env, has.1, hun⟩] at hs₁
          cases hs₁
        | cons b before =>
          rw [List.cons_append, List.cons.injEq] at has
          obtain ⟨rfl, rfl⟩ := has
          rw [Plant.run_cons, hs₁] at hbefore
          exact ⟨before, i, env, after, s', rfl, hbefore, hun⟩

/-! ## The mask since the last `Init` -/

/-- What holds of an instance since an `Init`: its mask and all masks it has written follow
the strings it has read. -/
structure Follows (x : SimpleTestProtocol) (es : List Event) : Prop where
  mask : x.mask = encode (assignAll Panel.off (assignments (reads es)))
  honest : Honest Panel.off es

/-- INTERNAL: **an operation other than `Init` keeps the mask in step with the reads.** -/
theorem Follows.step {op : Operation} (hop : op ≠ .init) {r r' : Runtime} {done es : List Event}
    (h : Follows r.self done) (hrun : op.run r = some r')
    (hlog : r'.proc.log = r.proc.log ++ es) : Follows r'.self (done ++ es) := by
  rcases operation_cases hrun hlog with ⟨rfl, channels, hself⟩ | ⟨rfl, -, -⟩ |
    ⟨env, chs, rfl, -, rfl⟩
  · rw [List.append_nil, hself]
    exact ⟨h.mask, h.honest⟩
  · exact absurd rfl hop
  · obtain ⟨rs, -, hdriven⟩ := driven_scan env chs r _ h.mask
    obtain ⟨new, hnew, hreads, -, hhonest⟩ := hdriven.log
    obtain rfl : es = new := List.append_cancel_left (hlog.symm.trans hnew)
    refine ⟨?_, h.honest.append hhonest⟩
    rw [hdriven.mask, reads_append, hreads, assignments_append, assignAll_append]

/-- INTERNAL: starting from all outputs off, an output is on iff `true` was read last. -/
theorem assignAll_off (rs : List (Variable × Bytes)) : assignAll Panel.off (assignments rs) =
    fun o => decide (lastRead o.name rs = some (lit "true")) := by
  funext o
  rw [assignAll_apply, lastValue_assignments]
  cases lastRead o.name rs <;> simp [Panel.off]

/-- INTERNAL: what an `Execute` of a run reads comes from its environment. -/
theorem answered_of_trace {s s' : Plant ι κ} {as : List (HostAction ι κ)} {i : ι} {env : Env}
    {es : List Event} {before after : List (HostAction ι κ × List Event)}
    (hrun : s.run as = some s')
    (htrace : s.trace as = before ++ (.protocol i (.execute env), es) :: after) :
    Answered env (s.proc.log ++ before.flatMap Prod.snd) es := by
  obtain ⟨as₁, as₂, s₁, s₂, rfl, hrun₁, rfl, hact, hlog⟩ := Plant.action_of_trace hrun htrace
  obtain ⟨r, hr, rfl⟩ := Plant.act_protocol hact
  obtain ⟨chs, -, rfl⟩ := exists_scan_of_execute hr
  obtain ⟨new, hnew, hanswered⟩ := answered_scan env chs ⟨s₁.protocols i, s₁.proc⟩
  obtain rfl : es = new := List.append_cancel_left (hlog.symm.trans hnew)
  rw [← Plant.log_run hrun₁]
  exact hanswered

/-- **The mask is the history of the reads since the last `Init`.** In every run of a
runtime, from every state, and however channels are created and configured between the
scans: behind an `Init` of an instance that is not repeated, an output's bit is 0 iff the
last string the instance has read under its name since then is `true`; bits 4 to 7 are 1;
every mask the instance has written on the way was of this kind when it was written; and the
strings each `Execute` has read are what its environment held at that moment.
SOURCE: simple_test_protocol.cpp:89-93,277-312 -/
theorem mask_since_init {i : ι} {s s₁ s' : Plant ι κ} {as : List (HostAction ι κ)}
    (hinit : s.act (.protocol i .init) = some s₁) (hlast : .init ∉ opsOf i as)
    (hrun : s₁.run as = some s') :
    let es := eventsOf (.inl i) (s₁.trace as)
    let mask := (s'.protocols i).mask
    (∀ o : Output, mask.getLsbD o.bit = false ↔ lastRead o.name (reads es) = some (lit "true")) ∧
    (∀ b, 4 ≤ b → b < 8 → mask.getLsbD b = true) ∧
    (∀ before cmd m, before ++ [.system cmd] <+: es → outputWrite cmd = some m →
      m = encode fun o => decide (lastRead o.name (reads before) = some (lit "true"))) ∧
    ∀ before env es' after, s₁.trace as = before ++ (.protocol i (.execute env), es') :: after →
      Answered env (s₁.proc.log ++ before.flatMap Prod.snd) es' := by
  intro es mask
  have hstart : Follows (s₁.protocols i) [] := by
    obtain ⟨r, hr, rfl⟩ := Plant.act_protocol hinit
    obtain rfl := Option.some.inj hr
    constructor
    · simpa using init_mask _
    · exact honest_of_systems_eq_nil _ rfl
  have hfollows : Follows (s'.protocols i) es := by
    apply Plant.run_instance i _ hrun hstart
    intro op hop r r' done es hdone hstep hlog
    exact hdone.step (fun heq => hlast (heq ▸ hop)) hstep hlog
  refine ⟨fun o => ?_, fun b h4 h8 => ?_, fun before cmd m hbefore hcmd => ?_,
    fun before env es' after htrace => answered_of_trace hrun htrace⟩
  · rw [show mask = _ from hfollows.mask, getLsbD_encode, assignAll_off]
    simp
  · rw [show mask = _ from hfollows.mask]
    exact getLsbD_encode_high _ b h4 h8
  · rw [hfollows.honest before cmd m hbefore hcmd, assignAll_off]

/-- `mask_since_init` for an instance that gets a lamp after its `Init`. -/
theorem mask_since_init_lamp :
    let env : Env := ⟨.exact, fun _ _ => [], fun _ _ => lit "true"⟩
    let s : Plant Unit Unit := ⟨fun _ => .new 0, fun _ => TestFB.new, ⟨fun _ => [], []⟩⟩
    let as : List (HostAction Unit Unit) := [.protocol () (.execute env), .protocol () .create,
      .protocol () (.configure 0 ⟨none, some ⟨some ⟨1, lit "BLUE_LED"⟩⟩⟩),
      .protocol () (.execute env)]
    ∃ s₁ s', s.act (.protocol () .init) = some s₁ ∧ s₁.run as = some s' ∧
      (s'.protocols ()).mask.getLsbD Output.blueLed.bit = false := by
  intro env s as
  obtain ⟨s₁, hinit⟩ : ∃ s₁, s.act (.protocol () .init) = some s₁ := ⟨_, rfl⟩
  obtain ⟨s', hrun⟩ : ∃ s', s₁.run as = some s' := by
    obtain rfl := Option.some.inj hinit
    exact ⟨_, rfl⟩
  have hlast : .init ∉ opsOf () as := by simp [as, opsOf]
  refine ⟨s₁, s', hinit, hrun, ((mask_since_init hinit hlast hrun).1 .blueLed).mpr ?_⟩
  obtain rfl := Option.some.inj hinit
  obtain rfl := Option.some.inj hrun
  decide

/-! ## The flag for the modem -/

/-- The value written last to a variable of this name. -/
def lastWritten (name : Bytes) (w : List (Variable × Value)) : Option Value :=
  lastValue name (w.map fun x => (x.1.projectPath, x.2))

/-- INTERNAL: the second list decides, unless it does not mention the name. -/
theorem lastWritten_append (name : Bytes) (w w' : List (Variable × Value)) :
    lastWritten name (w ++ w') = (lastWritten name w').or (lastWritten name w) := by
  unfold lastWritten
  rw [List.map_append, lastValue_append]

/-- What `MODEM_IFACE` shows for each state of the flag. -/
def interfaceShown (connected : Bool) : Value :=
  .string (if connected then lit "/sys/class/net/usb0" else lit "NOT CONNECTED")

/-- INTERNAL: the two texts shown for the interface differ. -/
theorem interfaceShown_injective : Function.Injective interfaceShown := by
  have h : interfaceShown true ≠ interfaceShown false := by decide
  intro b b' hb
  cases b <;> cases b' <;> first | rfl | exact absurd hb h | exact absurd hb.symm h

/-- INTERNAL: **a scan shows the flag it sets**, or it does neither. -/
theorem flag_scan (env : Env) (chs : List Channel) (r : Runtime) :
    ∃ new, (scan env chs r).proc.log = r.proc.log ++ new ∧
      (lastWritten Diagnostic.modemIface.name (writes new) = none ∧
          (scan env chs r).self.usbModConned = r.self.usbModConned ∨
        lastWritten Diagnostic.modemIface.name (writes new) =
          some (interfaceShown (scan env chs r).self.usbModConned)) := by
  obtain ⟨new, hnew⟩ := prefix_scan env chs r
  obtain ⟨cs, -, -, hconned, w, hw, hall⟩ := published_scan env chs r
  obtain rfl : writes new = w := by
    rw [← hnew, writes_append] at hw
    exact List.append_cancel_left hw
  refine ⟨new, hnew.symm, ?_⟩
  by_cases hmem : .modemIface ∈ (chs.filterMap Channel.diagnostic).map Prod.snd
  · right
    rw [hconned, if_pos hmem]
    obtain ⟨⟨var, d⟩, hx, rfl⟩ := List.mem_map.mp hmem
    have hevery : EveryWrite (writes new) .modemIface
        (interfaceShown (contains (cs .modemCheck) (lit "usb0"))) :=
      everyWrite_of_value (fun x => mem_diagnostics) hall fun out => rfl
    obtain ⟨y, hy, hvar⟩ := exists_write_of_mem hall hx
    have hname : y.1.projectPath = Diagnostic.modemIface.name := by
      rw [hvar]
      exact mem_diagnostics hx
    apply lastValue_eq_some_of_agree
    · exact List.mem_map.mpr ⟨y, hy, by rw [hname, hevery y hy hname]⟩
    · intro c hc
      obtain ⟨z, hz, heq⟩ := List.mem_map.mp hc
      obtain ⟨hzname, rfl⟩ := Prod.mk.inj heq
      exact hevery z hz hzname
  · left
    refine ⟨?_, by rw [hconned, if_neg hmem]⟩
    unfold lastWritten
    rw [lastValue_eq_none_iff, List.map_map, List.mem_map]
    rintro ⟨y, hy, hname⟩
    exact hmem (mem_writes_of_name (fun x => mem_diagnostics) hall hy hname).1

/-- **The flag for the modem is what `MODEM_IFACE` showed last.** In every run of a runtime,
for every new instance, whatever the other modules do, `usbModConned` is set iff the last
value the instance has written under the name `MODEM_IFACE` is the path of the interface.
No `Init` resets it, and a scan without such a channel leaves it as it is.
SOURCE: simple_test_protocol.h:11, simple_test_protocol.cpp:200-208 -/
theorem flag_is_last_shown {i : ι} {s s' : Plant ι κ} {as : List (HostAction ι κ)}
    (hnew : (s.protocols i).usbModConned = false) (hrun : s.run as = some s') :
    (s'.protocols i).usbModConned = true ↔
      lastWritten Diagnostic.modemIface.name (writes (eventsOf (.inl i) (s.trace as))) =
        some (.string (lit "/sys/class/net/usb0")) := by
  suffices hshown : lastWritten Diagnostic.modemIface.name
        (writes (eventsOf (.inl i) (s.trace as))) = none ∧
        (s'.protocols i).usbModConned = false ∨
      lastWritten Diagnostic.modemIface.name (writes (eventsOf (.inl i) (s.trace as))) =
        some (interfaceShown (s'.protocols i).usbModConned) by
    rcases hshown with ⟨hnone, hfalse⟩ | hsome
    · simp [hnone, hfalse]
    · rw [hsome, Option.some.injEq]
      exact (interfaceShown_injective.eq_iff (b := true)).symm
  apply Plant.run_instance i (P := fun x es =>
    lastWritten Diagnostic.modemIface.name (writes es) = none ∧ x.usbModConned = false ∨
      lastWritten Diagnostic.modemIface.name (writes es) = some (interfaceShown x.usbModConned))
    _ hrun (Or.inl ⟨rfl, hnew⟩)
  intro op _ r r' done es hdone hstep hlog
  rw [writes_append, lastWritten_append]
  rcases operation_cases hstep hlog with ⟨rfl, channels, hself⟩ | ⟨-, hself, rfl⟩ |
    ⟨env, chs, -, -, rfl⟩
  · rw [hself]
    exact hdone
  · rw [hself]
    exact hdone
  · obtain ⟨new, hnew', hscan⟩ := flag_scan env chs r
    obtain rfl : es = new := List.append_cancel_left (hlog.symm.trans hnew')
    rcases hscan with ⟨hnone, hsame⟩ | hsome
    · rw [hnone, hsame]
      exact hdone
    · right
      rw [hsome]
      rfl

/-- `flag_is_last_shown` for a modem that is there. -/
theorem flag_is_last_shown_plugged :
    let env : Env := ⟨.exact, fun _ _ => lit "usb0\n", fun _ _ => []⟩
    let iface : ScadaChannel := ⟨some ⟨some ⟨1, lit "MODEM_IFACE"⟩⟩, none⟩
    let s : Plant Unit Unit :=
      ⟨fun _ => ⟨[iface], 0xFF, false⟩, fun _ => TestFB.new, ⟨fun _ => [], []⟩⟩
    let as : List (HostAction Unit Unit) := [.protocol () (.execute env)]
    ∃ s', s.run as = some s' ∧ (s'.protocols ()).usbModConned = true ∧
      lastWritten Diagnostic.modemIface.name (writes (eventsOf (.inl ()) (s.trace as))) =
        some (.string (lit "/sys/class/net/usb0")) := by
  intro env iface s as
  let chs : List Channel := [⟨some ⟨1, lit "MODEM_IFACE"⟩, none⟩]
  set r : Runtime := ⟨s.protocols (), s.proc⟩ with hr
  have hexec : execute env r = some (scan env chs r) := execute_eq_scan env chs r rfl
  let s' : Plant Unit Unit := { s with
    protocols := Function.update s.protocols () (scan env chs r).self
    proc := (scan env chs r).proc }
  have hact : s.act (.protocol () (.execute env)) = some s' := by
    simp only [Plant.act, Operation.run]
    rw [hexec]
    rfl
  have hrun : s.run as = some s' := by
    rw [Plant.run_cons, hact]
    rfl
  have hself : s'.protocols () = (scan env chs r).self := by simp [s']
  obtain ⟨cs, hfresh, -, hconned, -⟩ := published_scan env chs r
  have hflag : (s'.protocols ()).usbModConned = true := by
    obtain ⟨l, hl⟩ := hfresh .modemCheck (by decide)
    have hout : collect (lit "usb0\n") = lit "usb0" := by
      rw [collect_of_noNul (by decide)]
      decide
    rw [hself, hconned, if_pos (by decide), hl, show env.popen _ _ = lit "usb0\n" from rfl, hout]
    decide
  exact ⟨s', hrun, hflag, (flag_is_last_shown rfl hrun).mp hflag⟩

end Pca9536Driver.Analysis
