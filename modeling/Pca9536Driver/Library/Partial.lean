import Mathlib.Data.Option.Basic
import Mathlib.Tactic.Common

/-!
# Runs that may fail

A run whose steps may fail is a `foldlM` in `Option`. What the steps preserve holds behind
every run that does not fail (`of_foldlM`), and what one step brings about as well
(`of_mem_foldlM`); a run that leads back to where it was repeats itself (`run_repeats`). A
relation preserved by the steps of two runs holds between their results, which fail
together or not at all (`rel_foldlM`).
-/

set_option autoImplicit false

namespace Pca9536Driver.Library

variable {α σ τ : Type*}

/-! ## Invariants -/

/-- INTERNAL: **the invariant rule for runs that may fail.** -/
theorem of_foldlM {P : σ → Prop} {f : σ → α → Option σ}
    (hstep : ∀ s a s', P s → f s a = some s' → P s') {l : List α} {s s' : σ}
    (hrun : l.foldlM f s = some s') (h : P s) : P s' := by
  induction l generalizing s with
  | nil =>
    obtain rfl := Option.some.inj hrun
    exact h
  | cons a l ih =>
    rw [List.foldlM_cons, Option.bind_eq_bind, Option.bind_eq_some_iff] at hrun
    obtain ⟨s₁, hs₁, hrest⟩ := hrun
    exact ih hrest (hstep s a s₁ h hs₁)

/-- INTERNAL: what one step brings about and every step keeps holds behind a run that
contains the step. -/
theorem of_mem_foldlM {P : σ → Prop} {f : σ → α → Option σ}
    (hkeep : ∀ s a s', P s → f s a = some s' → P s') {l : List α} {a : α} (ha : a ∈ l)
    (hset : ∀ s s', f s a = some s' → P s') {s s' : σ} (hrun : l.foldlM f s = some s') :
    P s' := by
  induction l generalizing s with
  | nil => exact absurd ha List.not_mem_nil
  | cons b l ih =>
    rw [List.foldlM_cons, Option.bind_eq_bind, Option.bind_eq_some_iff] at hrun
    obtain ⟨s₁, hs₁, hrest⟩ := hrun
    rcases List.mem_cons.mp ha with heq | hmem
    · rw [← heq] at hs₁
      exact of_foldlM hkeep hrest (hset s s₁ hs₁)
    · exact ih hmem hrest

/-! ## Repetition -/

/-- INTERNAL: **a run whose step leads back repeats itself**: if what a step adds to the log
and where it leads depend on a part of the state only, and the step from `s` leaves this
part as it is, then every further step adds the same. -/
theorem run_repeats {κ ε : Type*} {f : σ → Option σ} (part : σ → κ) (log : σ → List ε)
    (hlocal : ∀ s t s', part t = part s → f s = some s' → ∃ t' es, f t = some t' ∧
      part t' = part s' ∧ log s' = log s ++ es ∧ log t' = log t ++ es)
    (run : ℕ → Option σ) (hnext : ∀ n, run (n + 1) = (run n).bind f) {s s' : σ}
    (hstart : run 0 = some s) (hstep : f s = some s') (hback : part s' = part s) :
    ∃ es, log s' = log s ++ es ∧ ∀ n, ∃ t, run n = some t ∧ part t = part s ∧
      log t = log s ++ (List.replicate n es).flatten := by
  obtain ⟨-, es, -, -, hes, -⟩ := hlocal s s s' rfl hstep
  refine ⟨es, hes, fun n => ?_⟩
  induction n with
  | zero => exact ⟨s, hstart, rfl, by simp⟩
  | succ n ih =>
    obtain ⟨t, hrun, hpart, hlog⟩ := ih
    obtain ⟨t', es', ht', hpart', hes', hlog'⟩ := hlocal s t s' hpart hstep
    obtain rfl : es' = es := List.append_cancel_left (hes'.symm.trans hes)
    refine ⟨t', ?_, hpart'.trans hback, ?_⟩
    · rw [hnext, hrun]
      exact ht'
    · rw [hlog', hlog, List.replicate_succ', List.flatten_append]
      simp

/-! ## Relations -/

/-- INTERNAL: related computations one after the other. -/
theorem rel_bind {R : σ → τ → Prop} {σ' τ' : Type*} {Q : σ' → τ' → Prop} {x : Option σ}
    {y : Option τ} {f : σ → Option σ'} {g : τ → Option τ'} (h : Option.Rel R x y)
    (hnext : ∀ s t, R s t → Option.Rel Q (f s) (g t)) : Option.Rel Q (x.bind f) (y.bind g) := by
  cases h with
  | none => exact .none
  | some hst => exact hnext _ _ hst

/-- INTERNAL: **the simulation rule for runs that may fail.** -/
theorem rel_foldlM {R : σ → τ → Prop} {f : σ → α → Option σ} {g : τ → α → Option τ} {l : List α}
    (hstep : ∀ a ∈ l, ∀ s t, R s t → Option.Rel R (f s a) (g t a)) {s : σ} {t : τ} (h : R s t) :
    Option.Rel R (l.foldlM f s) (l.foldlM g t) := by
  induction l generalizing s t with
  | nil => exact .some h
  | cons a l ih =>
    rw [List.foldlM_cons, List.foldlM_cons]
    apply rel_bind (hstep a (by simp) s t h)
    intro s₁ t₁ h₁
    exact ih (fun b hb => hstep b (by simp [hb])) h₁

/-- INTERNAL: a weaker relation. -/
theorem rel_imp {R Q : σ → τ → Prop} {x : Option σ} {y : Option τ} (h : Option.Rel R x y)
    (himp : ∀ s t, R s t → Q s t) : Option.Rel Q x y := by
  cases h with
  | none => exact .none
  | some hst => exact .some (himp _ _ hst)

/-- INTERNAL: related results of functions. -/
theorem rel_map {R : σ → τ → Prop} {σ' τ' : Type*} {Q : σ' → τ' → Prop} {x : Option σ}
    {y : Option τ} {f : σ → σ'} {g : τ → τ'} (h : Option.Rel R x y)
    (hmap : ∀ s t, R s t → Q (f s) (g t)) : Option.Rel Q (x.map f) (y.map g) := by
  cases h with
  | none => exact .none
  | some hst => exact .some (hmap _ _ hst)

/-- INTERNAL: two computations with the same view of their results. -/
theorem map_eq_of_rel {β : Type*} {f : σ → β} {g : τ → β} {x : Option σ} {y : Option τ}
    (h : Option.Rel (fun s t => f s = g t) x y) : x.map f = y.map g := by
  cases h with
  | none => rfl
  | some hst => exact congrArg some hst

end Pca9536Driver.Library
