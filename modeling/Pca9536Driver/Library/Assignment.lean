import Mathlib.Logic.Function.Basic
import Mathlib.Data.List.Induction
import Mathlib.Data.List.Count
import Mathlib.Tactic.Common

/-!
# Names and sequences of assignments

A store `ι → β` that is updated by one assignment after the other. The law is that the
last assignment to a place wins (`assignAll_apply`); for a place that is assigned at most
once, the order does not matter (`lastValue_eq_some_iff_of_count`).

Places are found by their names: in a list of all places, whose names are different, the
search for a name finds the place that has it (`find?_name_eq_some_iff`).
-/

set_option autoImplicit false

namespace Pca9536Driver.Library

variable {ι β : Type*} [DecidableEq ι]

/-- The store after a list of assignments. -/
def assignAll (s : ι → β) (l : List (ι × β)) : ι → β :=
  l.foldl (fun s a => Function.update s a.1 a.2) s

/-- The value of the last assignment to a place, if there is one. -/
def lastValue (i : ι) (l : List (ι × β)) : Option β :=
  ((l.filter (fun a => a.1 = i)).getLast?).map Prod.snd

/-- No assignment changes nothing. -/
@[simp] theorem assignAll_nil (s : ι → β) : assignAll s [] = s := rfl

/-- Two lists of assignments in a row. -/
@[simp] theorem assignAll_append (s : ι → β) (l l' : List (ι × β)) :
    assignAll s (l ++ l') = assignAll (assignAll s l) l' := by simp [assignAll]

/-- One assignment. -/
@[simp] theorem assignAll_singleton (s : ι → β) (a : ι × β) :
    assignAll s [a] = Function.update s a.1 a.2 := rfl

/-- Without assignments there is no last value. -/
@[simp] theorem lastValue_nil (i : ι) : lastValue (β := β) i [] = none := rfl

/-- INTERNAL: the last assignment decides, if it is to this cell. -/
theorem lastValue_concat (i : ι) (l : List (ι × β)) (a : ι × β) :
    lastValue i (l ++ [a]) = if a.1 = i then some a.2 else lastValue i l := by
  by_cases h : a.1 = i
  · simp [lastValue, h]
  · simp [lastValue, h]

/-- INTERNAL: the second list decides, unless it does not mention the cell. -/
theorem lastValue_append (i : ι) (l l' : List (ι × β)) :
    lastValue i (l ++ l') = (lastValue i l').or (lastValue i l) := by
  unfold lastValue
  rw [List.filter_append, List.getLast?_append, Option.map_or]

/-- INTERNAL: **the last assignment wins**, and a place without one keeps its value. -/
theorem assignAll_apply (s : ι → β) (l : List (ι × β)) (i : ι) :
    assignAll s l i = (lastValue i l).getD (s i) := by
  induction l using List.reverseRecOn with
  | nil => simp
  | append_singleton l a ih =>
    rw [assignAll_append, assignAll_singleton, lastValue_concat]
    by_cases h : a.1 = i
    · subst h
      simp
    · rw [Function.update_of_ne (Ne.symm h), if_neg h, ih]

/-- There is no last value iff nothing is assigned to the cell. -/
theorem lastValue_eq_none_iff (i : ι) (l : List (ι × β)) :
    lastValue i l = none ↔ i ∉ l.map Prod.fst := by
  unfold lastValue
  rw [Option.map_eq_none_iff, List.getLast?_eq_none_iff, List.filter_eq_nil_iff,
    List.mem_map]
  simp only [decide_eq_true_eq, not_exists, not_and]

/-- The last value has been assigned. -/
theorem mem_of_lastValue {i : ι} {l : List (ι × β)} {b : β} (h : lastValue i l = some b) :
    (i, b) ∈ l := by
  obtain ⟨a, ha, rfl⟩ := Option.map_eq_some_iff.mp h
  have hmem := List.mem_of_getLast? ha
  simp only [List.mem_filter, decide_eq_true_eq] at hmem
  obtain ⟨ha', rfl⟩ := hmem
  exact ha'

/-- INTERNAL: a place whose assignments agree has their common value, wherever the last
one stands. -/
theorem lastValue_eq_some_of_agree {i : ι} {l : List (ι × β)} {b : β} (hmem : (i, b) ∈ l)
    (hagree : ∀ c, (i, c) ∈ l → c = b) : lastValue i l = some b := by
  cases h : lastValue i l with
  | none =>
    rw [lastValue_eq_none_iff] at h
    exact absurd (List.mem_map_of_mem (f := Prod.fst) hmem) h
  | some c => rw [hagree c (mem_of_lastValue h)]

/-- INTERNAL: a cell that is assigned once at most has this value. -/
theorem lastValue_eq_some_iff_of_count {l : List (ι × β)} {i : ι}
    (hcount : l.countP (fun a => a.1 = i) ≤ 1) (b : β) : lastValue i l = some b ↔ (i, b) ∈ l := by
  constructor
  · exact mem_of_lastValue
  · intro hmem
    rw [List.countP_eq_length_filter] at hcount
    have hin : (i, b) ∈ l.filter (fun a => a.1 = i) := by simpa using hmem
    obtain ⟨a, ha⟩ := List.length_eq_one_iff.mp
      (Nat.le_antisymm hcount (List.length_pos_of_mem hin))
    rw [ha, List.mem_singleton] at hin
    unfold lastValue
    rw [ha, ← hin]
    rfl

/-- INTERNAL: making the same assignments again changes nothing. -/
theorem assignAll_idem (s : ι → β) (l : List (ι × β)) :
    assignAll (assignAll s l) l = assignAll s l := by
  funext i
  rw [assignAll_apply, assignAll_apply]
  cases lastValue i l <;> rfl

/-- INTERNAL: **behind a list of assignments every one of them still holds** iff those to the
same place agree. -/
theorem assignAll_holds_iff (s : ι → β) (l : List (ι × β)) :
    (∀ a ∈ l, assignAll s l a.1 = a.2) ↔ ∀ a ∈ l, ∀ b ∈ l, a.1 = b.1 → a.2 = b.2 := by
  constructor
  · intro h a ha b hb heq
    rw [← h a ha, heq, h b hb]
  · intro h a ha
    rw [assignAll_apply, lastValue_eq_some_of_agree ha fun c hc => h (a.1, c) hc a ha rfl]
    rfl

/-- INTERNAL: **assignments that agree may be made in any order.** -/
theorem assignAll_perm (s : ι → β) {l l' : List (ι × β)} (hperm : l.Perm l')
    (hagree : ∀ a ∈ l, ∀ b ∈ l, a.1 = b.1 → a.2 = b.2) : assignAll s l = assignAll s l' := by
  funext i
  rw [assignAll_apply, assignAll_apply]
  cases hlast : lastValue i l with
  | none =>
    have hnone : lastValue i l' = none := by
      rw [lastValue_eq_none_iff] at hlast ⊢
      rwa [← (hperm.map Prod.fst).mem_iff]
    rw [hnone]
  | some b =>
    have hmem := mem_of_lastValue hlast
    rw [lastValue_eq_some_of_agree (hperm.mem_iff.mp hmem)]
    exact fun c hc => hagree (i, c) (hperm.mem_iff.mpr hc) (i, b) hmem rfl

/-! ## Names -/

section Names

variable {α ν : Type*} [DecidableEq ν] {name : α → ν} {all : List α}

/-- INTERNAL: **a name finds the place that has it.** -/
theorem find?_name_eq_some_iff (hall : ∀ a, a ∈ all) (hname : Function.Injective name) (n : ν)
    (a : α) : all.find? (fun a => decide (name a = n)) = some a ↔ n = name a := by
  constructor
  · intro h
    have hfound := List.find?_some h
    exact (of_decide_eq_true hfound).symm
  · rintro rfl
    cases hfind : all.find? (fun b => decide (name b = name a)) with
    | none => simpa using List.find?_eq_none.mp hfind a (hall a)
    | some b =>
      have hfound := List.find?_some hfind
      rw [hname (of_decide_eq_true hfound)]

/-- INTERNAL: a name that is not found names nothing. -/
theorem find?_name_eq_none_iff (hall : ∀ a, a ∈ all) (n : ν) :
    all.find? (fun a => decide (name a = n)) = none ↔ ∀ a, n ≠ name a := by
  simp only [List.find?_eq_none, decide_eq_true_eq]
  exact ⟨fun h a heq => h a (hall a) heq.symm, fun h a _ heq => h a heq.symm⟩

end Names

end Pca9536Driver.Library
