import Mathlib.Data.List.Induction
import Mathlib.Data.Nat.Basic
import Mathlib.Tactic.Common

/-!
# A cell behind commands that may fail

A cell keeps the value that was written last. Commands write it or leave it alone, and any
of them may fail without effect and without notice. `cell_cases` is the law: the cell
holds what the last command wrote that wrote and did not fail.
-/

set_option autoImplicit false

namespace Pca9536Driver.Library

variable {C V : Type*}

/-- Command number `k` does not fail and writes `x`. -/
def TakesEffect (w : C → Option V) (ok : ℕ → Bool) (cmds : List C) (k : ℕ) (x : V) : Prop :=
  ok k = true ∧ (cmds[k]?).bind w = some x

/-- The content of the cell behind the commands, from its content at the start. -/
def cell (w : C → Option V) (ok : ℕ → Bool) (v : V) (cmds : List C) : V :=
  cmds.zipIdx.foldl (fun v c => if ok c.2 then (w c.1).getD v else v) v

variable {w : C → Option V} {ok : ℕ → Bool} {v : V} {cmds : List C} {k : ℕ} {x : V}

/-- Without commands the cell keeps its content. -/
@[simp] theorem cell_nil : cell w ok v [] = v := rfl

/-- INTERNAL: one command more. -/
theorem cell_concat (cmd : C) : cell w ok v (cmds ++ [cmd]) =
    if ok cmds.length then (w cmd).getD (cell w ok v cmds) else cell w ok v cmds := by
  simp [cell, List.zipIdx_append]

/-- INTERNAL: only a command of the list takes effect. -/
theorem TakesEffect.lt_length (h : TakesEffect w ok cmds k x) : k < cmds.length := by
  by_contra hk
  have hnone : cmds[k]? = none := List.getElem?_eq_none (by omega)
  rw [TakesEffect, hnone] at h
  simp at h

/-- INTERNAL: one command more takes effect itself, or changes nothing of what took effect
before. -/
theorem takesEffect_concat (cmd : C) : TakesEffect w ok (cmds ++ [cmd]) k x ↔
    TakesEffect w ok cmds k x ∨ k = cmds.length ∧ ok k = true ∧ w cmd = some x := by
  unfold TakesEffect
  rcases lt_trichotomy k cmds.length with hlt | rfl | hgt
  · have hne : k ≠ cmds.length := by omega
    simp [List.getElem?_append_left hlt, hne]
  · simp
  · have hne : k ≠ cmds.length := by omega
    have hnone : (cmds ++ [cmd])[k]? = none := List.getElem?_eq_none (by simp; omega)
    have hnone' : cmds[k]? = none := List.getElem?_eq_none (by omega)
    simp [hnone, hnone', hne]

/-- INTERNAL: **the cell holds what took effect last**, or what it held at the start. -/
theorem cell_cases (w : C → Option V) (ok : ℕ → Bool) (v : V) (cmds : List C) :
    (∀ k x, ¬ TakesEffect w ok cmds k x) ∧ cell w ok v cmds = v ∨
      ∃ k, TakesEffect w ok cmds k (cell w ok v cmds) ∧
        ∀ j x, TakesEffect w ok cmds j x → j ≤ k := by
  induction cmds using List.reverseRecOn with
  | nil => exact Or.inl ⟨fun k x h => by simp [TakesEffect] at h, rfl⟩
  | append_singleton cmds cmd ih =>
    simp only [takesEffect_concat, cell_concat]
    by_cases hok : ok cmds.length = true
    · cases hw : w cmd with
      | some x =>
        right
        refine ⟨cmds.length, Or.inr ⟨rfl, hok, by simp [hok]⟩, fun j y h => ?_⟩
        rcases h with h | ⟨rfl, -⟩
        · exact Nat.le_of_lt h.lt_length
        · exact Nat.le_refl _
      | none => simpa [hok] using ih
    · rw [if_neg hok]
      rcases ih with ⟨hnone, hv⟩ | ⟨k, hk, hlast⟩
      · left
        refine ⟨fun j x h => ?_, hv⟩
        rcases h with h | ⟨rfl, hj, -⟩
        · exact hnone j x h
        · exact hok hj
      · right
        refine ⟨k, Or.inl hk, fun j x h => ?_⟩
        rcases h with h | ⟨rfl, hj, -⟩
        · exact hlast j x h
        · exact absurd hj hok

end Pca9536Driver.Library
