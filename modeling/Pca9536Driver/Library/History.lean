import Mathlib.Data.List.Infix
import Mathlib.Tactic.Common

/-!
# Histories

A history is a list of events that only grows. What can be asked of an event often depends
on what stands before it. `Throughout` asks it of every event behind a point of the history;
it holds of two pieces in a row iff it holds of the first one and, behind it, of the second
one (`throughout_append_iff`).
-/

set_option autoImplicit false

namespace Pca9536Driver.Library

variable {E : Type*} {ok : List E → E → Prop} {base l l' es : List E} {e : E}

/-- INTERNAL: an event of two histories in a row stands in the first one, or in the second
one with all of the first one before it. -/
theorem concat_prefix_append_iff :
    es ++ [e] <+: l ++ l' ↔ es ++ [e] <+: l ∨ ∃ t, es = l ++ t ∧ t ++ [e] <+: l' := by
  constructor
  · intro h
    rcases List.prefix_or_prefix_of_prefix h (List.prefix_append l l') with hle | hge
    · exact Or.inl hle
    · rcases List.prefix_concat_iff.mp hge with heq | ⟨t, rfl⟩
      · exact Or.inl (heq ▸ List.prefix_rfl)
      · rw [List.append_assoc, List.prefix_append_right_inj] at h
        exact Or.inr ⟨t, rfl, h⟩
  · rintro (h | ⟨t, rfl, h⟩)
    · exact h.trans (List.prefix_append l l')
    · rw [List.append_assoc, List.prefix_append_right_inj]
      exact h

/-- Every event of `l` is right for what stands before it: `base` and the part of `l` in
front of it. -/
def Throughout (ok : List E → E → Prop) (base l : List E) : Prop :=
  ∀ es e, es ++ [e] <+: l → ok (base ++ es) e

/-- Nothing can be wrong with an empty history. -/
@[simp] theorem throughout_nil : Throughout ok base [] := by
  intro es e h
  simp at h

/-- INTERNAL: **two histories in a row.** -/
theorem throughout_append_iff :
    Throughout ok base (l ++ l') ↔ Throughout ok base l ∧ Throughout ok (base ++ l) l' := by
  unfold Throughout
  simp only [concat_prefix_append_iff]
  constructor
  · intro h
    refine ⟨fun es e hes => h es e (Or.inl hes), fun es e hes => ?_⟩
    rw [List.append_assoc]
    exact h (l ++ es) e (Or.inr ⟨es, rfl, hes⟩)
  · rintro ⟨h, h'⟩ es e (hes | ⟨t, rfl, hes⟩)
    · exact h es e hes
    · rw [← List.append_assoc]
      exact h' t e hes

/-- A history of one event. -/
@[simp] theorem throughout_singleton_iff : Throughout ok base [e] ↔ ok base e := by
  constructor
  · intro h
    simpa using h [] e List.prefix_rfl
  · intro h es e' hes
    obtain ⟨rfl, rfl⟩ : es = [] ∧ e' = e := by
      rcases List.prefix_concat_iff.mp (show es ++ [e'] <+: [] ++ [e] from hes) with heq | hnil
      · simpa [List.append_eq_singleton_iff] using heq
      · simp at hnil
    simpa using h

/-- INTERNAL: what is right for an event wherever it stands. -/
theorem throughout_of_forall (h : ∀ e ∈ l, ∀ es, ok es e) : Throughout ok base l := by
  rintro es e ⟨t, rfl⟩
  exact h e (by simp) _

end Pca9536Driver.Library
