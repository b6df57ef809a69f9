import Pca9536Driver.Interface.Steady

/-!
# The order of the channels

The order in which a project lists its channels decides in which order a scan publishes and
reads. It does not decide what is published. For the mask it does not matter iff channels
of one name agree; where two disagree, the one listed last wins.
-/

set_option autoImplicit false

namespace Pca9536Driver.Analysis

open Pca9536Driver.Library Pca9536Driver.Model Pca9536Driver.Interface

variable {env : Env}

/-! ## What is published -/

/-- INTERNAL: the values written by equal scans. -/
theorem writes_replicate (n : ℕ) (es : List Event) :
    writes (List.replicate n es).flatten = (List.replicate n (writes es)).flatten := by
  induction n with
  | zero => rfl
  | succ n ih => rw [List.replicate_succ, List.flatten_cons, writes_append, ih,
      List.replicate_succ, List.flatten_cons]

/-- INTERNAL: repetitions of lists that are permutations of each other. -/
theorem replicate_perm {α : Type*} {l l' : List α} (h : l.Perm l') (n : ℕ) :
    (List.replicate n l).flatten.Perm (List.replicate n l').flatten := by
  induction n with
  | zero => rfl
  | succ n ih =>
    rw [List.replicate_succ, List.replicate_succ, List.flatten_cons, List.flatten_cons]
    exact h.append ih

/-- INTERNAL: a run publishes what its channels show, scan by scan. -/
theorem steady_run (hsteady : Steady env) (chs : List Channel) (mask : BitVec 8) (p : Process)
    (n : ℕ) :
    ∃ m, scans env (n + 1) (init (load chs mask p)) = some m ∧
      m.self.mask = encode (panelOf env chs) ∧
      writes m.proc.log = writes p.log ++ (List.replicate (n + 1) (showings env chs)).flatten := by
  set r := init (load chs mask p) with hr
  obtain ⟨es, hes, hrun⟩ := steady_scans hsteady chs mask p
  obtain ⟨m, hm, hself, hlog⟩ := hrun n
  obtain ⟨-, first, hfirst, -, -, hwrites, -⟩ := steady_scan hsteady chs r Panel.off (init_mask _)
  have hsecond : (scan env chs r).self.mask = encode (panelOf env chs) := by
    rw [(steady_settles hsteady chs mask p).1]
    rfl
  obtain ⟨-, new, hnew, -, -, hwrites', -⟩ :=
    steady_scan hsteady chs (scan env chs r) _ hsecond
  obtain rfl : es = new := List.append_cancel_left (hes.symm.trans hnew)
  refine ⟨m, hm, by rw [hself]; rfl, ?_⟩
  have hbefore : writes r.proc.log = writes p.log :=
    (writes_append _ _).trans (List.append_nil _)
  rw [hlog, writes_append, hfirst, writes_append, hbefore, writes_replicate, hwrites, hwrites',
    List.append_assoc, List.replicate_succ, List.flatten_cons]

/-! ## What is switched -/

/-- INTERNAL: **a channel that is moved to the end decides about its output.** -/
theorem exists_order {chs : List Channel} {x : Variable × Bytes} (hx : x ∈ readings env chs)
    {o : Output} (hname : x.1.projectPath = o.name) :
    ∃ chs', chs'.Perm chs ∧ panelOf env chs' o = decide (x.2 = lit "true") := by
  obtain ⟨var, hvar, rfl⟩ := List.mem_map.mp hx
  obtain ⟨ch, hch, hout⟩ := List.mem_filterMap.mp hvar
  obtain ⟨l, l', rfl⟩ := List.append_of_mem hch
  refine ⟨l ++ l' ++ [ch], ?_, ?_⟩
  · rw [List.append_assoc]
    exact (List.perm_append_singleton ch l').append_left l
  · have hsplit : readings env (l ++ l' ++ [ch]) =
        readings env (l ++ l') ++ [(var, env.read [] var)] := by simp [readings, hout]
    unfold panelOf
    rw [hsplit, assignments_append, assignAll_append,
      assignments_singleton ((Output.ofPath_eq_some_iff _ _).mpr hname), assignAll_singleton]
    exact Function.update_self _ _ _

/-- INTERNAL: channels in another order give the same readings in another order. -/
theorem readings_perm {chs chs' : List Channel} (h : chs'.Perm chs) :
    (readings env chs').Perm (readings env chs) := (h.filterMap _).map _

/-- INTERNAL: **the order does not matter for the panel iff the readings agree** for each
output. -/
theorem panelOf_perm_iff (chs : List Channel) :
    (∀ chs', chs'.Perm chs → panelOf env chs' = panelOf env chs) ↔
      ∀ o : Output, Agree (readings env chs) o.name := by
  constructor
  · intro h o x hx y hy hxn hyn
    obtain ⟨chs', hperm, hpanel⟩ := exists_order hx hxn
    obtain ⟨chs'', hperm', hpanel'⟩ := exists_order hy hyn
    rw [h _ hperm] at hpanel
    rw [h _ hperm'] at hpanel'
    exact decide_eq_decide.mp (hpanel.symm.trans hpanel')
  · intro h chs' hperm
    have hassign : (assignments (readings env chs)).Perm (assignments (readings env chs')) :=
      (readings_perm hperm.symm).filterMap _
    exact (assignAll_perm Panel.off hassign ((assignments_agree_iff _).mpr h)).symm

/-- **The order of the channels matters to the mask only, and to the mask only where
channels of one name disagree.** In a steady environment, for any channels and any number
of scans: in every order of the channels the same values are published under the same
names; and the mask is the same in every order iff no two channels of one output read
strings of which only one is `true`.
SOURCE: simple_test_protocol.cpp:106-304 -/
theorem channel_order_irrelevant_iff (hsteady : Steady env) (chs : List Channel)
    (mask : BitVec 8) (p : Process) (n : ℕ) :
    ∃ m, scans env (n + 1) (init (load chs mask p)) = some m ∧
      (∀ chs', chs'.Perm chs → ∃ m', scans env (n + 1) (init (load chs' mask p)) = some m' ∧
        (writes m'.proc.log).Perm (writes m.proc.log)) ∧
      ((∀ chs' m', chs'.Perm chs → scans env (n + 1) (init (load chs' mask p)) = some m' →
          m'.self.mask = m.self.mask) ↔
        ∀ o : Output, Agree (readings env chs) o.name) := by
  obtain ⟨m, hm, hmask, hwrites⟩ := steady_run hsteady chs mask p n
  refine ⟨m, hm, fun chs' hperm => ?_, ?_⟩
  · obtain ⟨m', hm', -, hwrites'⟩ := steady_run hsteady chs' mask p n
    refine ⟨m', hm', ?_⟩
    rw [hwrites, hwrites']
    have hshow : (showings env chs').Perm (showings env chs) := (hperm.filterMap _).map _
    exact (replicate_perm hshow _).append_left _
  · rw [← panelOf_perm_iff]
    constructor
    · intro h chs' hperm
      obtain ⟨m', hm', hmask', -⟩ := steady_run hsteady chs' mask p n
      apply encode_injective
      rw [← hmask', ← hmask]
      exact h chs' m' hperm hm'
    · intro h chs' m' hperm hm'
      obtain ⟨m'', hm'', hmask'', -⟩ := steady_run hsteady chs' mask p n
      obtain rfl : m'' = m' := Option.some.inj (hm''.symm.trans hm')
      rw [hmask'', hmask, h chs' hperm]

/-- `channel_order_irrelevant_iff` for two channels of the red lamp that disagree. -/
theorem channel_order_irrelevant_iff_lamp :
    let on : Variable := ⟨1, lit "RED_LED"⟩
    let off : Variable := ⟨2, lit "RED_LED"⟩
    let env : Env := ⟨.exact, fun _ _ => [], fun _ var => if var = on then lit "true" else []⟩
    let chs : List Channel := [⟨none, some on⟩, ⟨none, some off⟩]
    ∃ m, scans env 1 (init (load chs 0 ⟨fun _ => [], []⟩)) = some m ∧
      ¬ ∀ chs' m', chs'.Perm chs →
        scans env 1 (init (load chs' 0 ⟨fun _ => [], []⟩)) = some m' →
          m'.self.mask = m.self.mask := by
  intro on off env chs
  have hsteady : Steady env := ⟨fun _ _ _ => rfl, fun _ _ _ => rfl⟩
  obtain ⟨m, hm, -, hiff⟩ := channel_order_irrelevant_iff hsteady chs 0 ⟨fun _ => [], []⟩ 0
  refine ⟨m, hm, fun hsame => ?_⟩
  have hagree := hiff.mp hsame .redLed (on, lit "true") (by simp [readings, env, chs])
    (off, []) (by simp [readings, env, chs, on, off]) rfl rfl
  exact absurd (hagree.mp rfl) (by decide)

end Pca9536Driver.Analysis
