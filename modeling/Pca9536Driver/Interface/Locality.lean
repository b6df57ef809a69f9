import Pca9536Driver.Interface.Events

/-!
# What a scan depends on

A scan sees the rest of the system through the answers to its commands and reads. Two
environments `SameBehind` two histories give the same answers from there on; two states
are `Alike` if they have come the same way from these histories and agree on some of the
shared strings. Every string the second pass looks at has been filled before, so a scan
started from the same instance does the same whatever the strings held and whatever
happened before (`execute_alike`), null pointers included.
-/

set_option autoImplicit false

namespace Pca9536Driver.Interface

open Pca9536Driver.Library Pca9536Driver.Model

/-- The environment `env'` answers behind `L'` as `env` does behind `L`. -/
structure SameBehind (env env' : Env) (L L' : List Event) : Prop where
  arith : env'.arith = env.arith
  popen : ∀ t cmd, env'.popen (L' ++ t) cmd = env.popen (L ++ t) cmd
  read : ∀ t var, env'.read (L' ++ t) var = env.read (L ++ t) var

/-- The environment itself, with the same history. -/
theorem SameBehind.refl (env : Env) (L : List Event) : SameBehind env env L L :=
  ⟨rfl, fun _ _ => rfl, fun _ _ => rfl⟩

/-- An environment whose answers do not depend on what has happened before. -/
structure Steady (env : Env) : Prop where
  popen : ∀ L L' cmd, env.popen L cmd = env.popen L' cmd
  read : ∀ L L' var, env.read L var = env.read L' var

/-- A steady environment answers the same behind any two histories. -/
theorem Steady.sameBehind {env : Env} (h : Steady env) (L L' : List Event) :
    SameBehind env env L L' :=
  ⟨rfl, fun _ _ => h.popen _ _ _, fun _ _ => h.read _ _ _⟩

/-- The states are those of the same instance, behind the same events since `L` and `L'`,
with the same content of the strings `K`. -/
structure Alike (L L' : List Event) (K : Set Cache) (r r' : Runtime) : Prop where
  self : r'.self = r.self
  caches : ∀ c ∈ K, r'.proc.caches c = r.proc.caches c
  log : ∃ t, r.proc.log = L ++ t ∧ r'.proc.log = L' ++ t

variable {env env' : Env} {L L' : List Event} {K : Set Cache} {r r' : Runtime}

/-- INTERNAL: a change of the instance and new events keep states alike if they are the
same on both sides. -/
theorem Alike.advance (h : Alike L L' K r r') (es : List Event) {s s' : Runtime}
    {K' : Set Cache} (hself : s'.self = s.self)
    (hcaches : ∀ c ∈ K', s'.proc.caches c = s.proc.caches c)
    (hlog : s.proc.log = r.proc.log ++ es) (hlog' : s'.proc.log = r'.proc.log ++ es) :
    Alike L L' K' s s' := by
  obtain ⟨t, ht, ht'⟩ := h.log
  refine ⟨hself, hcaches, t ++ es, ?_, ?_⟩
  · rw [hlog, ht, List.append_assoc]
  · rw [hlog', ht', List.append_assoc]

/-! ## The input side -/

/-- INTERNAL: the second command of a diagnostic prints the same in both. -/
theorem Alike.output (h : Alike L L' K r r') (henv : SameBehind env env' L L') (d : Diagnostic)
    (c : Bytes) : d.output env' r'.proc.log c = d.output env r.proc.log c := by
  obtain ⟨t, ht, ht'⟩ := h.log
  unfold Diagnostic.output
  cases d.command c with
  | none => rfl
  | some cmd =>
    simp only
    rw [ht, ht', henv.popen]

/-- INTERNAL: a diagnostic keeps two instances alike. -/
theorem Alike.publish (h : Alike L L' K r r') (henv : SameBehind env env' L L') (var : Variable)
    (d : Diagnostic) (c : Bytes) :
    Alike L L' K (d.publish env var c r) (d.publish env' var c r') := by
  have hproc := d.publish_proc env var c r
  have hproc' := d.publish_proc env' var c r'
  rw [henv.arith, h.output henv] at hproc'
  apply h.advance ((d.command c).toList.map .popen ++
    [.write var (d.value env.arith c (d.output env r.proc.log c))])
  · rw [d.publish_self, d.publish_self, h.self]
  · rw [hproc, hproc']
    exact h.caches
  · rw [hproc]
  · rw [hproc']

/-- INTERNAL: the probes fill the strings that are needed in the same way. -/
theorem Alike.refresh (h : Alike L L' K r r') (henv : SameBehind env env' L L') (need : Need) :
    Alike L L' {c | need c = true} (refresh env need r) (refresh env' need r') := by
  have hall (c : Cache) : c ∈ Cache.all := by cases c <;> decide
  suffices hfold : ∀ (l : List Cache) (K : Set Cache) (r r' : Runtime), Alike L L' K r r' →
      Alike L L' {c | c ∈ K ∨ c ∈ l ∧ need c = true} (l.foldl (refreshOne env need) r)
        (l.foldl (refreshOne env' need) r') by
    have hend := hfold Cache.all K r r' h
    exact ⟨hend.self, fun c hc => hend.caches c (Or.inr ⟨hall c, hc⟩), hend.log⟩
  intro l
  induction l with
  | nil =>
    intro K r r' h
    exact ⟨h.self, fun c hc => h.caches c (by simpa using hc), h.log⟩
  | cons c₀ l ih =>
    intro K r r' h
    have hone : Alike L L' {c | c ∈ K ∨ c = c₀ ∧ need c = true} (refreshOne env need r c₀)
        (refreshOne env' need r' c₀) := by
      obtain ⟨t, ht, ht'⟩ := h.log
      have hout : env'.popen r'.proc.log c₀.command = env.popen r.proc.log c₀.command := by
        rw [ht, ht', henv.popen]
      apply h.advance ((if need c₀ then [c₀.command] else []).map .popen)
      · cases hn : need c₀ <;> simp [refreshOne, hn, Runtime.exec, execCommand, h.self]
      · intro c hc
        by_cases heq : c = c₀
        · subst heq
          cases hn : need c with
          | false => simpa [refreshOne, hn] using h.caches c (by simpa [hn] using hc)
          | true => simp [refreshOne, hn, Runtime.exec, execCommand, hout]
        · have hkeep := h.caches c (by simpa [heq] using hc)
          cases hn : need c₀ <;> simp [refreshOne, hn, Runtime.exec, execCommand, heq, hkeep]
      · exact log_refreshOne env need r c₀
      · exact log_refreshOne env' need r' c₀
    have hrest := ih _ _ _ hone
    refine ⟨hrest.self, fun c hc => hrest.caches c ?_, hrest.log⟩
    rcases hc with hc | ⟨hc, hn⟩
    · exact Or.inl (Or.inl hc)
    · rcases List.mem_cons.mp hc with rfl | hc
      · exact Or.inl (Or.inr ⟨rfl, hn⟩)
      · exact Or.inr ⟨hc, hn⟩

/-- INTERNAL: **the input part of a channel does the same** if the string its name asks for
is one of those that agree. -/
theorem Alike.inputPart (h : Alike L L' K r r') (henv : SameBehind env env' L L')
    (ch : ScadaChannel)
    (hK : ∀ var c, ch.inVar = some ⟨some var⟩ → neededBy var.projectPath = some c → c ∈ K) :
    Option.Rel (Alike L L' K) (inputPart env ch r) (inputPart env' ch r') := by
  rcases ch with ⟨_ | ⟨_ | var⟩, out⟩
  · exact .some h
  · exact .none
  · refine .some ?_
    cases hd : Diagnostic.ofPath var.projectPath with
    | none =>
      rw [publish_of_unknown env var r hd, publish_of_unknown env' var r' hd]
      exact h
    | some d =>
      have hname := (Diagnostic.ofPath_eq_some_iff _ _).mp hd
      have hshared : d.shared r'.proc.caches = d.shared r.proc.caches := by
        unfold Diagnostic.shared
        cases hc : d.cache with
        | none => rfl
        | some c => exact h.caches c (hK var c rfl (by rw [hname, neededBy_name, hc]))
      rw [publish_of_name env var r d hname, publish_of_name env' var r' d hname, hshared]
      exact h.publish henv var d _

/-! ## The output side -/

/-- INTERNAL: so does the output part; it fails in both or in neither. -/
theorem Alike.outputPart (h : Alike L L' K r r') (henv : SameBehind env env' L L')
    (ch : ScadaChannel) :
    Option.Rel (Alike L L' K) (outputPart env ch r) (outputPart env' ch r') := by
  rcases ch with ⟨inVar, _ | ⟨_ | var⟩⟩
  · exact .some h
  · exact .none
  · refine .some ?_
    obtain ⟨t, ht, ht'⟩ := h.log
    have hread : env'.read r'.proc.log var = env.read r.proc.log var := by
      rw [ht, ht', henv.read]
    obtain ⟨mask, hdrive⟩ := drive_commands var.projectPath (env.read r.proc.log var) r.self
    simp only [hread, h.self, hdrive]
    apply h.advance (.read var (env.read r.proc.log var) ::
      (lineCommands var.projectPath (env.read r.proc.log var) ++ [outputCommand mask]).map .system)
    · rfl
    · exact h.caches
    · simp
    · simp

/-! ## The scan -/

/-- INTERNAL: **a scan depends on the instance and on the answers it gets, and on nothing
else**: not on the shared strings, and on the history only as far as the environment
does. -/
theorem execute_alike (henv : SameBehind env env' L L') (h : Alike L L' ∅ r r') :
    Option.Rel (Alike L L' ∅) (execute env r) (execute env' r') := by
  unfold execute
  rw [h.self]
  cases hneed : collectNeeds r.self.channels with
  | none => exact .none
  | some need =>
    rw [Option.bind_some, Option.bind_some]
    have hchannel : ∀ ch ∈ r.self.channels, ∀ s s', Alike L L' {c | need c = true} s s' →
        Option.Rel (Alike L L' {c | need c = true}) (processChannel env s ch)
          (processChannel env' s' ch) := by
      intro ch hch s s' hs
      apply rel_bind (hs.inputPart henv ch fun var c hin hc => collectNeeds_covers hneed hch hin hc)
      exact fun _ _ hs' => hs'.outputPart henv ch
    apply rel_imp (rel_foldlM hchannel (h.refresh henv need))
    exact fun s s' hs => ⟨hs.self, fun c hc => absurd hc (Set.notMem_empty c), hs.log⟩

end Pca9536Driver.Interface
