import Pca9536Driver.Interface.Free

/-!
# RAM_PERCENT shows the used part of the memory

The percentage is computed by `awk`, printed with six digits, in exponent notation if it
is very small, read as a `float` and rounded. Together the steps move it by less than a
thousandth before it is rounded to an integer.
-/

set_option autoImplicit false

namespace Pca9536Driver.Analysis

open Pca9536Driver.Library Pca9536Driver.Model Pca9536Driver.Interface

/-- INTERNAL: **a moderate number is converted to an integer next to it**, with an error
little above one half; if `std::stof` refuses it, it is so small that 0 is right. -/
theorem toInt16_moderate (A : Arithmetic) {value : Bytes} {y : ℚ}
    (hread : strto value = some (.fin y)) (h0 : 0 ≤ y) (h1 : y ≤ 200) :
    ∃ n : ℕ, n ≤ 200 ∧ toInt16 A value 1 = some (Int16.ofInt n) ∧
      |(n : ℚ) - y| ≤ 1 / 2 + 1 / 2 ^ 14 := by
  have hne := ne_nil_of_strto hread
  cases hrange : binary32.outOfRange y with
  | true =>
    have hsmall : y < binary32.minNormal := by
      by_contra hge
      have hfine := binary32.outOfRange_of_nonneg (Or.inr (not_lt.mp hge))
        (lt_of_le_of_lt h1 (by norm_num [binary32]))
      rw [hrange] at hfine
      cases hfine
    refine ⟨0, by norm_num, by simp [toInt16, hne, stofWith, hread, hrange], ?_⟩
    have hmin : binary32.minNormal ≤ 1 / 2 ^ 14 := by norm_num [Format.minNormal, binary32]
    rw [Nat.cast_zero, zero_sub, abs_neg, abs_of_nonneg h0]
    linarith
  | false =>
    have htop : A.single.rnd 200 = 200 := by
      exact_mod_cast A.single.rnd_natCast 200 (by norm_num [binary32])
    have herr {x : ℚ} (hx : x ∈ Set.Icc (0 : ℚ) 200) : |A.single.rnd x - x| ≤ 1 / 2 ^ 15 := by
      apply A.single.abs_rnd_sub_le 15 (by decide)
      rw [abs_of_nonneg hx.1]
      norm_num [binary32]
      linarith [hx.2]
    have hmem := A.single.rnd_mem_Icc A.single.rnd_zero htop ⟨h0, h1⟩
    have hmem' := A.single.rnd_mem_Icc A.single.rnd_zero htop hmem
    obtain ⟨l1, u1⟩ := abs_le.mp (herr ⟨h0, h1⟩)
    obtain ⟨l2, u2⟩ := abs_le.mp (herr hmem)
    set z := A.single.rnd (A.single.rnd y) with hz
    obtain ⟨l3, u3⟩ := abs_le.mp (abs_roundAway_sub_le z)
    have hlow : 0 ≤ roundAway z := by
      have h : (-1 : ℚ) < roundAway z := by linarith [hmem'.1]
      have h' : (-1 : ℤ) < roundAway z := by exact_mod_cast h
      omega
    have hhigh : roundAway z ≤ 200 := by
      have h : (roundAway z : ℚ) < 201 := by linarith [hmem'.2]
      have h' : roundAway z < 201 := by exact_mod_cast h
      omega
    obtain ⟨n, hn⟩ := Int.eq_ofNat_of_zero_le hlow
    have hcast : (roundAway z : ℚ) = n := by rw [hn, Int.cast_natCast]
    refine ⟨n, by omega, ?_, ?_⟩
    · simp only [toInt16, hne, if_false, stofWith, hread, hrange, Bool.false_eq_true,
        Rounding.rnd_one, Rounding.mul, mul_one, FloatVal.round, ← hz, hn]
      exact clampToInt16_intCast n (by omega) (by omega)
    · rw [← hcast, abs_le]
      norm_num at l1 u1 l2 u2 ⊢
      constructor <;> linarith

/-- INTERNAL: **what is published for a table.** -/
theorem toInt16_computed (A : Arithmetic) (m : MemoryTable) :
    ∃ n : ℕ, n ≤ 100 ∧ toInt16 A (formatG (.fin (m.computed A))) 1 = some (Int16.ofInt n) ∧
      |(n : ℚ) - m.percent| ≤ 501 / 1000 := by
  obtain ⟨h0, h100, hnear⟩ := computed_near A m
  obtain ⟨y, hread, hy⟩ := strto_formatG (m.computed A)
  rw [abs_of_nonneg h0] at hy
  obtain ⟨l1, u1⟩ := abs_le.mp hy
  obtain ⟨l2, u2⟩ := abs_le.mp hnear
  obtain ⟨n, -, hvalue, hn⟩ := toInt16_moderate A hread (by linarith) (by linarith)
  obtain ⟨l3, u3⟩ := abs_le.mp hn
  norm_num at l1 u1 l2 u2 l3 u3
  refine ⟨n, ?_, hvalue, ?_⟩
  · have h : (n : ℚ) < 101 := by linarith
    have h' : n < 101 := by exact_mod_cast h
    omega
  · rw [abs_le]
    constructor <;> linarith

/-- **RAM_PERCENT is the used part of the memory.** For every table of `free`, in every
arithmetic, with any channels and from any state: a scan publishes under the name
`RAM_PERCENT` a number from 0 to 100 that differs from the used part in percent by little
more than one half, so it is the nearest integer, unless the part is within a thousandth
of the middle between two integers.
SOURCE: simple_test_protocol.cpp:35-44,138-140,170-173 -/
theorem ram_percent_close (env : Env) (m : MemoryTable) (chs : List Channel) (mask : BitVec 8)
    (conned : Bool) (p : Process) :
    ∃ r' w, ∃ shown : Int16,
      execute (measured env m) ⟨⟨chs.map Channel.toScada, mask, conned⟩, p⟩ = some r' ∧
      writes r'.proc.log = writes p.log ++ w ∧
      Publishes chs w .ramPercent (.int16 (some shown)) ∧
      0 ≤ shown.toInt ∧ shown.toInt ≤ 100 ∧ |(shown.toInt : ℚ) - m.percent| ≤ 501 / 1000 ∧
      ∀ k : ℤ, |m.percent - k| < 499 / 1000 → shown.toInt = k := by
  obtain ⟨r', cs, w, hexec, hw, hall, hfresh⟩ := execute_shows (measured env m) chs mask conned p
  obtain ⟨n, hn, hvalue, hclose⟩ := toInt16_computed env.arith m
  have hint : (Int16.ofInt (n : ℤ)).toInt = n := Int16.toInt_ofInt_of_le (by omega) (by omega)
  refine ⟨r', w, Int16.ofInt n, hexec, hw, publishes_of_value hall ?_, by omega, by omega, ?_, ?_⟩
  · intro out
    obtain ⟨h, hh⟩ := hfresh .ramPercent
    have hshared : Diagnostic.ramPercent.shared cs = formatG (.fin (m.computed env.arith)) :=
      hh.trans (collect_measured env m h)
    rw [hshared, Diagnostic.value]
    exact congrArg Value.int16 hvalue
  · rw [hint, Int.cast_natCast]
    exact hclose
  · intro k hk
    obtain ⟨l1, u1⟩ := abs_le.mp hclose
    obtain ⟨l2, u2⟩ := abs_lt.mp hk
    have hlow : ((n : ℤ) : ℚ) < k + 1 := by
      push_cast
      linarith
    have hhigh : (k : ℚ) < (n : ℤ) + 1 := by
      push_cast
      linarith
    have hlow' : (n : ℤ) < k + 1 := by exact_mod_cast hlow
    have hhigh' : k < (n : ℤ) + 1 := by exact_mod_cast hhigh
    omega

/-- A very small part arrives in exponent notation. -/
example : formatG (.fin (95 / 1000000)) = lit "9.5e-05" ∧
    toInt16 .nearest (lit "9.5e-05") 1 = some 0 := by decide +kernel

/-- `ram_percent_close` for a memory of which a quarter is used. -/
theorem ram_percent_close_quarter :
    let m : MemoryTable :=
      { before := [⟨lit "              total        used        free", by decide, by decide⟩]
        after := [⟨lit "Swap:             0           0           0", by decide, by decide⟩]
        other := by
          intro l hl
          rw [← contains_iff]
          rcases List.mem_pair.mp hl with rfl | rfl <;> decide
        row :=
          { source := ⟨lit "Mem:", by decide, by decide⟩
            source_ne := by decide
            source_noBlank := by decide
            total := 508812
            used := 127203
            sizeGap := 8
            usedGap := 5
            tail := ⟨lit "     201316       12032      180293      361544", by decide, by decide⟩ }
        name := rfl
        total_pos := by decide
        total_le := by decide
        used_le := by decide }
    let env : Env := ⟨.nearest, fun _ _ => [], fun _ _ => []⟩
    let chs : List Channel := [⟨some ⟨1, lit "RAM_PERCENT"⟩, none⟩]
    ∃ r', ∃ shown : Int16,
      execute (measured env m) ⟨⟨chs.map Channel.toScada, 0, false⟩, ⟨fun _ => [], []⟩⟩ = some r' ∧
      (⟨1, lit "RAM_PERCENT"⟩, .int16 (some shown)) ∈ writes r'.proc.log ∧ shown.toInt = 25 := by
  intro m env chs
  obtain ⟨r', w, shown, hexec, hw, hshows, -, -, -, hnear⟩ :=
    ram_percent_close env m chs 0 false ⟨fun _ => [], []⟩
  refine ⟨r', shown, hexec, ?_, hnear 25 ?_⟩
  · rw [hw]
    exact hshows.2 _ (List.mem_singleton_self _) _ rfl rfl
  · have hpercent : m.percent = 25 := by norm_num [MemoryTable.percent, m]
    rw [hpercent]
    norm_num

end Pca9536Driver.Analysis
