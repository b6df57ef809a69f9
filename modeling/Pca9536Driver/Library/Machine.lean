import Mathlib.Logic.Function.Basic
import Mathlib.Data.List.Induction
import Mathlib.Tactic.Common

/-!
# Machines, simulations and a retriggerable one-shot

A machine reads one input per step. What holds at the start and is preserved by a step
holds at the end of every run (`Machine.run_invariant`), and a relation preserved by the
steps of two machines holds between their runs (`Simulation.rel_run`).

The one-shot is the machine whose output is active for a fixed number of steps after
every rising edge of its input. `Oneshot.lt_left_iff` is its law: the steps that are
left are determined by the edges of the past.
-/

set_option autoImplicit false

namespace Pca9536Driver.Library

/-! ## Machines -/

/-- A deterministic machine driven by inputs. -/
structure Machine (σ ι : Type*) where
  start : σ
  step : σ → ι → σ

namespace Machine

variable {σ ι : Type*} (M : Machine σ ι) (inp : ℕ → ι)

/-- The state after `n` steps; step number `n` reads `inp n`. -/
def run : ℕ → σ
  | 0 => M.start
  | n + 1 => M.step (run n) (inp n)

/-- The state before the first step. -/
@[simp] theorem run_zero : M.run inp 0 = M.start := rfl

/-- One step more. -/
theorem run_succ (n : ℕ) : M.run inp (n + 1) = M.step (M.run inp n) (inp n) := rfl

/-- The machine that reads its inputs through a function. -/
def comap {κ : Type*} (f : κ → ι) : Machine σ κ where
  start := M.start
  step s k := M.step s (f k)

/-- INTERNAL: a machine behind a translation of its inputs. -/
theorem run_comap {κ : Type*} (f : κ → ι) (inp : ℕ → κ) (n : ℕ) :
    (M.comap f).run inp n = M.run (f ∘ inp) n := by
  induction n with
  | zero => rfl
  | succ n ih => rw [run_succ, run_succ, ih]; rfl

/-- INTERNAL: **the invariant rule**, for an invariant that may mention the number of
steps. -/
theorem run_invariant {P : ℕ → σ → Prop} (hstart : P 0 M.start)
    (hstep : ∀ n s, P n s → P (n + 1) (M.step s (inp n))) (n : ℕ) : P n (M.run inp n) := by
  induction n with
  | zero => exact hstart
  | succ n ih => exact hstep n _ ih

/-- INTERNAL: a run over the inputs of a list. -/
theorem foldl_eq_run (l : List ι) (i : ι) :
    l.foldl M.step M.start = M.run (fun n => l.getD n i) l.length := by
  have hsame : ∀ (inp inp' : ℕ → ι) (n : ℕ), (∀ k < n, inp k = inp' k) →
      M.run inp n = M.run inp' n := by
    intro inp inp' n
    induction n with
    | zero => exact fun _ => rfl
    | succ n ih =>
      intro h
      rw [run_succ, run_succ, ih fun k hk => h k (by omega), h n (by omega)]
  induction l using List.reverseRecOn with
  | nil => rfl
  | append_singleton l a ih =>
    rw [List.foldl_append, List.foldl_cons, List.foldl_nil, ih, List.length_append,
      List.length_singleton, run_succ]
    congr 1
    · apply hsame
      intro k hk
      simp [List.getElem?_append_left hk]
    · simp

end Machine

/-- A simulation between two machines with the same inputs: a relation that holds at the
start and is preserved by a step of both. -/
structure Simulation {σ τ ι : Type*} (M : Machine σ ι) (N : Machine τ ι) where
  rel : σ → τ → Prop
  start : rel M.start N.start
  step : ∀ s t i, rel s t → rel (M.step s i) (N.step t i)

/-- INTERNAL: **the simulation rule**: related machines stay related. -/
theorem Simulation.rel_run {σ τ ι : Type*} {M : Machine σ ι} {N : Machine τ ι}
    (S : Simulation M N) (inp : ℕ → ι) (n : ℕ) : S.rel (M.run inp n) (N.run inp n) := by
  induction n with
  | zero => exact S.start
  | succ n ih => exact S.step _ _ _ ih

/-! ## The retriggerable one-shot -/

/-- A rising edge of `p` at time `t`; before time 0 the input was low. -/
def RisingEdge (p : ℕ → Bool) : ℕ → Prop
  | 0 => p 0 = true
  | t + 1 => p (t + 1) = true ∧ p t = false

/-- The memory of a one-shot: the last input and the steps its output stays active. -/
structure Oneshot where
  was : Bool
  left : ℕ

namespace Oneshot

/-- A one-shot of the given width: a rising edge loads the width, every other step takes
one away. -/
def machine (width : ℕ) : Machine Oneshot Bool where
  start := ⟨false, 0⟩
  step s p := ⟨p, if !s.was && p then width else s.left - 1⟩

/-- The machine remembers the last input. -/
theorem was_run (width : ℕ) (p : ℕ → Bool) (t : ℕ) :
    ((machine width).run p (t + 1)).was = p t := rfl

/-- INTERNAL: a rising edge restarts the pulse, and every other step shortens it. -/
theorem left_run (width : ℕ) (p : ℕ → Bool) (t : ℕ) [Decidable (RisingEdge p t)] :
    ((machine width).run p (t + 1)).left =
      if RisingEdge p t then width else ((machine width).run p t).left - 1 := by
  have hload : ((!((machine width).run p t).was && p t) = true) = RisingEdge p t := by
    cases t with
    | zero => simp [machine, RisingEdge]
    | succ t => simp [was_run, RisingEdge, and_comm]
  rw [Machine.run_succ]
  simp only [machine] at hload ⊢
  simp only [hload]

/-- INTERNAL: **the law of the one-shot**: more than `k` steps are left behind step `t` iff
an edge lies less than `width - k` steps back. -/
theorem lt_left_iff (width : ℕ) (p : ℕ → Bool) (t k : ℕ) :
    k < ((machine width).run p (t + 1)).left ↔
      ∃ s ≤ t, RisingEdge p s ∧ t + k < s + width := by
  classical
  induction t generalizing k with
  | zero =>
    rw [left_run]
    by_cases he : RisingEdge p 0
    · simp [he]
    · simp [he, machine]
  | succ t ih =>
    rw [left_run]
    by_cases he : RisingEdge p (t + 1)
    · rw [if_pos he]
      constructor
      · exact fun hk => ⟨t + 1, Nat.le_refl _, he, by omega⟩
      · rintro ⟨s, hs, -, hlt⟩
        omega
    · rw [if_neg he, show k < ((machine width).run p (t + 1)).left - 1 ↔
        k + 1 < ((machine width).run p (t + 1)).left by omega, ih]
      constructor
      · rintro ⟨s, hs, hedge, hlt⟩
        exact ⟨s, by omega, hedge, by omega⟩
      · rintro ⟨s, hs, hedge, hlt⟩
        have hne : s ≠ t + 1 := fun h => he (h ▸ hedge)
        exact ⟨s, by omega, hedge, by omega⟩

end Oneshot

end Pca9536Driver.Library
