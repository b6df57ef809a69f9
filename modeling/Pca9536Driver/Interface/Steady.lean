import Pca9536Driver.Interface.Locality
import Pca9536Driver.Interface.Run

/-!
# Scans in a steady environment

As long as no answer changes, a scan is determined by its channels and by the mask it
starts with (`steady_scan`), and by its instance alone up to what happened before
(`steady_local`).
-/

set_option autoImplicit false

namespace Pca9536Driver.Interface

open Pca9536Driver.Library Pca9536Driver.Model

/-! ## What a scan reads and shows -/

/-- What the output channels read. -/
def readings (env : Env) (chs : List Channel) : List (Variable × Bytes) :=
  (chs.filterMap Channel.outVar).map fun var => (var, env.read [] var)

/-- What the input channels show. -/
def showings (env : Env) (chs : List Channel) : List (Variable × Value) :=
  (chs.filterMap Channel.diagnostic).map fun x => (x.1, x.2.ownValue env [])

/-- The commands a scan asks with. -/
def inquiring (env : Env) (chs : List Channel) : List Bytes :=
  probes (needs chs) ++
    chs.filterMap (Channel.inquiry fun c => collect (env.popen [] c.command))

/-- What the flag for the modem is set to, if a channel sets it. -/
def connected (env : Env) (chs : List Channel) (before : Bool) : Bool :=
  if .modemIface ∈ (chs.filterMap Channel.diagnostic).map Prod.snd then
    contains (collect (env.popen [] Cache.modemCheck.command)) (lit "usb0")
  else before

variable {env : Env}

/-- INTERNAL: a steady system is fixed from any moment on. -/
theorem Steady.fixedFrom (h : Steady env) (base : List Event) : FixedFrom env base :=
  fun _ _ => h.popen _ _ _

/-- INTERNAL: the value of a diagnostic does not depend on the history. -/
theorem Steady.ownValue (h : Steady env) (base : List Event) (d : Diagnostic) :
    d.ownValue env base = d.ownValue env [] := by
  have hcaches : (fun c : Cache => collect (env.popen base c.command)) =
      fun c => collect (env.popen [] c.command) := by
    funext c
    rw [h.popen]
  unfold Diagnostic.ownValue
  simp only [hcaches, output_of_fixed (h.fixedFrom []) List.nil_prefix]

/-! ## One scan -/

/-- INTERNAL: **a scan in a steady environment**: its channels determine what it reads and
shows, together with the panel also its commands and the instance behind it. -/
theorem steady_scan (h : Steady env) (chs : List Channel) (r : Runtime) (on : Panel)
    (hmask : r.self.mask = encode on) :
    (scan env chs r).self = ⟨r.self.channels,
      encode (assignAll on (assignments (readings env chs))),
      connected env chs r.self.usbModConned⟩ ∧
    ∃ new, (scan env chs r).proc.log = r.proc.log ++ new ∧ reads new = readings env chs ∧
      systems new = outputCommands on (readings env chs) ∧ writes new = showings env chs ∧
      popens new = inquiring env chs := by
  obtain ⟨rs, hvars, hdriven⟩ := driven_scan env chs r on hmask
  obtain ⟨new, hlog, hreads, hsystems, -⟩ := hdriven.log
  obtain ⟨new', hlog', hanswered⟩ := answered_scan env chs r
  obtain rfl : new = new' := List.append_cancel_left (hlog.symm.trans hlog')
  have hrs : rs = readings env chs := by
    have hmap : rs.map id = rs.map ((fun var => (var, env.read [] var)) ∘ Prod.fst) := by
      apply List.map_congr_left
      intro x hx
      obtain ⟨l, hl⟩ := hanswered.read (hreads.symm ▸ hx)
      exact Prod.ext rfl (hl.trans (h.read _ _ _))
    unfold readings
    rw [← hvars, List.map_map, ← hmap, List.map_id]
  obtain ⟨cs, hfresh, hcaches, hconned, w, hwrites, hshows⟩ := published_scan env chs r
  have hown : ∀ x ∈ chs.filterMap Channel.diagnostic, ∀ c, x.2.cache = some c →
      ∃ l, cs c = collect (env.popen (r.proc.log ++ l) c.command) := by
    rintro ⟨var, d⟩ hx c hc
    obtain ⟨ch, hch, hd⟩ := List.mem_filterMap.mp hx
    exact hfresh c (needs_of_diagnostic hch hd hc)
  have hasked : popens new = inquiring env chs := by
    obtain ⟨rest, hrest, hask⟩ := scan_spec env chs r
    obtain rfl := List.append_cancel_left (hlog.symm.trans hrest)
    have hsame : chs.filterMap (Channel.inquiry cs) =
        chs.filterMap (Channel.inquiry fun c => collect (env.popen [] c.command)) := by
      apply List.filterMap_congr
      intro ch hch
      unfold Channel.inquiry
      cases hd : ch.diagnostic with
      | none => rfl
      | some x =>
        have hshared : x.2.shared cs = x.2.shared fun c => collect (env.popen [] c.command) := by
          unfold Diagnostic.shared
          cases hc : x.2.cache with
          | none => rfl
          | some c =>
            obtain ⟨l, hl⟩ := hown x (List.mem_filterMap.mpr ⟨ch, hch, hd⟩) c hc
            exact hl.trans (congrArg collect (h.popen _ _ _))
        rw [Option.bind_some, Option.bind_some, hshared]
    rw [popens_append, popens_map_popen, hask, hcaches, hsame]
    rfl
  have hshown : w = showings env chs := by
    unfold showings
    rw [eq_comm, ← List.forall₂_eq_eq_eq, List.forall₂_map_left_iff]
    refine ((List.forall₂_and_left _ _).mpr ⟨hown, hshows⟩).imp fun x y hxy => ?_
    rw [hxy.2.eq_ownValue (h.fixedFrom _) hxy.1, h.ownValue r.proc.log]
  refine ⟨?_, new, hlog, hreads.trans hrs, hrs ▸ hsystems, ?_, hasked⟩
  · have hmask' := hdriven.mask
    rw [hrs] at hmask'
    have hflag : (scan env chs r).self.usbModConned = connected env chs r.self.usbModConned := by
      rw [hconned]
      unfold connected
      split_ifs with hmem
      · obtain ⟨⟨var, d⟩, hx, rfl⟩ := List.mem_map.mp hmem
        obtain ⟨ch, hch, hd⟩ := List.mem_filterMap.mp hx
        obtain ⟨l, hl⟩ := hfresh .modemCheck (needs_of_diagnostic hch hd rfl)
        rw [hl, h.popen _ []]
      · rfl
    rw [← hdriven.channels, ← hmask', ← hflag]
  · rw [hlog, writes_append] at hwrites
    rw [← hshown]
    exact List.append_cancel_left hwrites

/-! ## Channels of one name -/

/-- Whether what is read under a name tells the same throughout. -/
def Agree (rs : List (Variable × Bytes)) (name : Bytes) : Prop :=
  ∀ x ∈ rs, ∀ y ∈ rs, x.1.projectPath = name → y.1.projectPath = name →
    (x.2 = lit "true" ↔ y.2 = lit "true")

/-- INTERNAL: an output is assigned by the readings of its name. -/
theorem mem_assignments (a : Output × Bool) (rs : List (Variable × Bytes)) :
    a ∈ assignments rs ↔
      ∃ x ∈ rs, x.1.projectPath = a.1.name ∧ decide (x.2 = lit "true") = a.2 := by
  simp only [assignments, List.mem_filterMap, Option.map_eq_some_iff,
    Output.ofPath_eq_some_iff, Prod.ext_iff]
  constructor
  · rintro ⟨x, hx, o, ho, rfl, hb⟩
    exact ⟨x, hx, ho, hb⟩
  · rintro ⟨x, hx, ho, hb⟩
    exact ⟨x, hx, a.1, ho, rfl, hb⟩

/-- INTERNAL: assignments to one output agree iff what is read under its name does. -/
theorem assignments_agree_iff (rs : List (Variable × Bytes)) :
    (∀ a ∈ assignments rs, ∀ b ∈ assignments rs, a.1 = b.1 → a.2 = b.2) ↔
      ∀ o : Output, Agree rs o.name := by
  constructor
  · intro h o x hx y hy hxo hyo
    have hxy := h (o, decide (x.2 = lit "true")) ((mem_assignments _ _).mpr ⟨x, hx, hxo, rfl⟩)
      (o, decide (y.2 = lit "true")) ((mem_assignments _ _).mpr ⟨y, hy, hyo, rfl⟩) rfl
    exact decide_eq_decide.mp hxy
  · intro h a ha b hb hab
    obtain ⟨x, hx, hxo, hxb⟩ := (mem_assignments _ _).mp ha
    obtain ⟨y, hy, hyo, hyb⟩ := (mem_assignments _ _).mp hb
    rw [← hxb, ← hyb]
    exact decide_eq_decide.mpr (h a.1 x hx y hy hxo (hab ▸ hyo))

/-- Different panels have different masks. -/
theorem encode_injective : Function.Injective encode := by
  intro on on' h
  funext o
  have hbit : (!on o) = !on' o := by rw [← getLsbD_encode, ← getLsbD_encode, h]
  exact Bool.not_inj hbit

/-! ## Many scans -/

/-- INTERNAL: scans of equal instances add the same to their histories. -/
theorem steady_local (h : Steady env) {r s r' : Runtime} (hself : s.self = r.self)
    (hexec : execute env r = some r') :
    ∃ s' es, execute env s = some s' ∧ s'.self = r'.self ∧
      r'.proc.log = r.proc.log ++ es ∧ s'.proc.log = s.proc.log ++ es := by
  have halike : Alike r.proc.log s.proc.log ∅ r s := ⟨hself, by simp, [], by simp, by simp⟩
  have hrel := execute_alike (h.sameBehind _ _) halike
  rw [hexec] at hrel
  cases hexec' : execute env s with
  | none =>
    rw [hexec'] at hrel
    cases hrel
  | some s' =>
    rw [hexec', Option.rel_some_some] at hrel
    obtain ⟨t, ht, ht'⟩ := hrel.log
    exact ⟨s', t, rfl, hrel.self, ht, ht'⟩

/-- The panel the channels command. -/
def panelOf (env : Env) (chs : List Channel) : Panel :=
  assignAll Panel.off (assignments (readings env chs))

/-- The instance behind the first scan. -/
def settled (env : Env) (chs : List Channel) : SimpleTestProtocol :=
  ⟨chs.map Channel.toScada, encode (panelOf env chs), connected env chs false⟩

/-- INTERNAL: **one scan behind `Init` settles an instance**, and the next one keeps it as
it is. -/
theorem steady_settles (h : Steady env) (chs : List Channel) (mask : BitVec 8) (p : Process) :
    (scan env chs (init (load chs mask p))).self = settled env chs ∧
    ∀ r : Runtime, r.self = settled env chs → (scan env chs r).self = settled env chs := by
  constructor
  · exact (steady_scan h chs _ Panel.off (init_mask _)).1
  · intro r hr
    have hmask : r.self.mask = encode (panelOf env chs) := by rw [hr]; rfl
    have hpanel : assignAll (panelOf env chs) (assignments (readings env chs)) = panelOf env chs :=
      assignAll_idem _ _
    have hconned : connected env chs (connected env chs false) = connected env chs false := by
      unfold connected
      split_ifs <;> rfl
    rw [(steady_scan h chs r _ hmask).1, hpanel, hr]
    unfold settled
    rw [hconned]

/-- INTERNAL: **behind the first scan every scan adds the same to the history.** -/
theorem steady_scans (h : Steady env) (chs : List Channel) (mask : BitVec 8) (p : Process) :
    let r := init (load chs mask p)
    ∃ es, (scan env chs (scan env chs r)).proc.log = (scan env chs r).proc.log ++ es ∧
      ∀ n, ∃ m, scans env (n + 1) r = some m ∧ m.self = settled env chs ∧
        m.proc.log = (scan env chs r).proc.log ++ (List.replicate n es).flatten := by
  intro r
  obtain ⟨hfirst, hnext⟩ := steady_settles h chs mask p
  have hstart : scans env 1 r = some (scan env chs r) := execute_eq_scan env chs r rfl
  have hstep : execute env (scan env chs r) = some (scan env chs (scan env chs r)) :=
    execute_eq_scan env chs _ (congrArg SimpleTestProtocol.channels hfirst)
  obtain ⟨es, hes, hrun⟩ := run_repeats Runtime.self (fun r => r.proc.log)
    (fun r s r' hself hexec => steady_local h hself hexec) (fun n => scans env (n + 1) r)
    (fun n => rfl) hstart hstep ((hnext _ hfirst).trans hfirst.symm)
  refine ⟨es, hes, fun n => ?_⟩
  obtain ⟨m, hm, hself, hlog⟩ := hrun n
  exact ⟨m, hm, hself.trans hfirst, hlog⟩

end Pca9536Driver.Interface
