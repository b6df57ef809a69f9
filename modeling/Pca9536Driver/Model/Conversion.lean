import Pca9536Driver.Model.Process

/-!
# Conversion of command outputs to 16-bit numbers

The helper functions of `simple_test_protocol.cpp`. A result `none` marks a call in
which `static_cast<int16_t>` is reached with a value it is undefined for; the
exceptions of `std::stof` and `std::stod` are caught and give 0.
-/

set_option autoImplicit false

namespace Pca9536Driver.Model

open Pca9536Driver.Library

/-- `clamp_to_int16(value)`.
SOURCE: simple_test_protocol.cpp:28-33 -/
def clampToInt16 (value : FloatVal) : Option Int16 :=
  (value.clamp (.fin (-32768)) (.fin 32767)).toInt16?

/-- `to_int16(value, scale)`, with the rational the literal for `scale` denotes.
SOURCE: simple_test_protocol.cpp:36-44 -/
def toInt16 (A : Arithmetic) (value : Bytes) (scale : ℚ) : Option Int16 :=
  if value = [] then some 0
  else
    match stofWith A.single value with
    | none => some 0
    | some v => clampToInt16 (A.single.mul v (.fin (A.single.rnd scale))).round

/-- `uptime_seconds_to_hours(value)`.
SOURCE: simple_test_protocol.cpp:48-57 -/
def uptimeSecondsToHours (A : Arithmetic) (value : Bytes) : Option Int16 :=
  if value = [] then some 0
  else
    match stofWith A.double value with
    | none => some 0
    | some seconds =>
      if seconds.le (.fin 0) then some 0
      else clampToInt16 (A.double.divConst 3600 seconds).floor

/-- The table of `round_to_power_of_two`.
SOURCE: simple_test_protocol.cpp:65-67 -/
def sizes : List Int16 := [1, 2, 4, 8, 16, 32, 64, 128, 256, 512, 1024, 2048, 4096]

/-- `round_to_power_of_two(value_gb)`.
SOURCE: simple_test_protocol.cpp:60-78 -/
def roundToPowerOfTwo (valueGb : FloatVal) : Int16 :=
  if valueGb.le (.fin 0) then 0
  else if valueGb.lt (.fin 1) then 1
  else
    match sizes.find? (fun size => valueGb.le (.fin size.toInt)) with
    | some size => size
    | none => sizes.getLast (by decide)

/-! ## The table of sizes -/

/-- INTERNAL: the table holds the powers of two up to 4096. -/
theorem sizes_eq : sizes = (List.range 13).map fun k => Int16.ofInt ((2 ^ k : ℕ) : ℤ) := by
  decide

/-- INTERNAL: an entry of the table as an integer. -/
theorem toInt_size {k : ℕ} (hk : k ≤ 12) : (Int16.ofInt ((2 ^ k : ℕ) : ℤ)).toInt = 2 ^ k := by
  interval_cases k <;> rfl

/-- INTERNAL: **the search finds the least entry** that is not below the number. -/
theorem find_size {q : ℚ} {k : ℕ} (hk : k ≤ 12) (hle : q ≤ 2 ^ k) (hlt : ∀ j < k, 2 ^ j < q) :
    sizes.find? (fun size => FloatVal.le (.fin q) (.fin size.toInt)) =
      some (Int16.ofInt ((2 ^ k : ℕ) : ℤ)) := by
  have hfind : (List.range 13).find? ((fun size : Int16 => FloatVal.le (.fin q) (.fin size.toInt)) ∘
      fun k => Int16.ofInt ((2 ^ k : ℕ) : ℤ)) = some k := by
    rw [List.find?_range_eq_some]
    refine ⟨?_, List.mem_range.mpr (by omega), fun j hj => ?_⟩
    · show decide (q ≤ ((Int16.ofInt ((2 ^ k : ℕ) : ℤ)).toInt : ℚ)) = true
      rw [toInt_size hk, decide_eq_true_eq]
      exact_mod_cast hle
    · show (!decide (q ≤ ((Int16.ofInt ((2 ^ j : ℕ) : ℤ)).toInt : ℚ))) = true
      rw [toInt_size (by omega), Bool.not_eq_true', decide_eq_false_iff_not, not_le]
      exact_mod_cast hlt j hj
  rw [sizes_eq, List.find?_map, hfind]
  rfl

/-- INTERNAL: **the least power of two that holds a size** is what the size is rounded to,
as long as the table has it. -/
theorem roundToPowerOfTwo_eq {q : ℚ} {k : ℕ} (hq : 0 < q) (hk : k ≤ 12) (hle : q ≤ 2 ^ k)
    (hlt : ∀ j < k, 2 ^ j < q) :
    roundToPowerOfTwo (.fin q) = Int16.ofInt ((2 ^ k : ℕ) : ℤ) := by
  have hle0 : FloatVal.le (.fin q) (.fin 0) = false := by simpa [FloatVal.le] using hq
  unfold roundToPowerOfTwo
  rw [hle0, find_size hk hle hlt]
  by_cases h1 : q < 1
  · -- A size below 1 is not above any power of two.
    have hk0 : k = 0 := by
      by_contra hne
      have h := hlt 0 (Nat.pos_of_ne_zero hne)
      linarith
    have hlt1 : FloatVal.lt (.fin q) (.fin 1) = true := by simpa [FloatVal.lt] using h1
    rw [hlt1, hk0]
    rfl
  · have hlt1 : FloatVal.lt (.fin q) (.fin 1) = false := by
      simpa [FloatVal.lt] using h1
    rw [hlt1]
    rfl

/-! ## Clamping -/

/-- A number is converted to something. -/
theorem clampToInt16_fin (q : ℚ) : ∃ v, clampToInt16 (.fin q) = some v := by
  have hmin : FloatVal.toInt16? (.fin (-32768)) = some (Int16.ofInt (-32768)) := by
    simpa using FloatVal.toInt16?_intCast (-32768) (by norm_num) (by norm_num)
  have hmax : FloatVal.toInt16? (.fin 32767) = some (Int16.ofInt 32767) := by
    simpa using FloatVal.toInt16?_intCast 32767 (by norm_num) (by norm_num)
  unfold clampToInt16
  rw [FloatVal.clamp_fin]
  split_ifs with h1 h2
  · exact ⟨_, hmin⟩
  · exact ⟨_, hmax⟩
  · simp only [FloatVal.toInt16?]
    push Not at h1 h2
    have hlo : -32768 ≤ if 0 ≤ q then ⌊q⌋ else ⌈q⌉ := by
      split_ifs
      · exact Int.le_floor.mpr (by exact_mod_cast h1)
      · exact_mod_cast h1.trans (Int.le_ceil q)
    have hhi : (if 0 ≤ q then ⌊q⌋ else ⌈q⌉) ≤ 32767 := by
      split_ifs
      · exact_mod_cast (Int.floor_le q).trans h2
      · exact Int.ceil_le.mpr (by exact_mod_cast h2)
    rw [if_pos ⟨hlo, hhi⟩]
    exact ⟨_, rfl⟩

/-- An integer in range is converted to itself. -/
theorem clampToInt16_intCast (t : ℤ) (h1 : -32768 ≤ t) (h2 : t ≤ 32767) :
    clampToInt16 (.fin t) = some (Int16.ofInt t) := by
  have h1' : ¬ (t : ℚ) < -32768 := not_lt.mpr (by exact_mod_cast h1)
  have h2' : ¬ (32767 : ℚ) < t := not_lt.mpr (by exact_mod_cast h2)
  unfold clampToInt16
  rw [FloatVal.clamp_fin, if_neg h1', if_neg h2', FloatVal.toInt16?_intCast t h1 h2]

/-- INTERNAL: **a count is clamped at the largest number of 16 bits.** -/
theorem clampToInt16_natCast (n : ℕ) :
    clampToInt16 (.fin n) = some (Int16.ofInt (min n 32767 : ℕ)) := by
  rcases le_or_gt n 32767 with h | h
  · rw [min_eq_left h]
    exact clampToInt16_intCast n (by omega) (by omega)
  · have h1 : ¬ (n : ℚ) < -32768 := by
      have hn : (0 : ℚ) ≤ n := n.cast_nonneg
      linarith
    have h2 : (32767 : ℚ) < n := by exact_mod_cast h
    unfold clampToInt16
    rw [FloatVal.clamp_fin, if_neg h1, if_pos h2, min_eq_right h.le]
    exact FloatVal.toInt16?_intCast 32767 (by norm_num) (by norm_num)

/-! ## Texts -/

/-- INTERNAL: a natural number that fits into the significand of a `float` is converted
without rounding. -/
theorem toInt16_decimal (A : Arithmetic) {n : ℕ} (hn : n ≤ 2 ^ 24) :
    toInt16 A (decimal n) 1 = some (Int16.ofInt (min n 32767 : ℕ)) := by
  have hrange : binary32.outOfRange n = false := by
    apply binary32.outOfRange_of_nonneg
    · rcases Nat.eq_zero_or_pos n with rfl | hpos
      · exact Or.inl rfl
      · have h1 : (1 : ℚ) ≤ n := by exact_mod_cast hpos
        exact Or.inr (le_trans (by norm_num [Format.minNormal, binary32]) h1)
    · have h2 : (n : ℚ) ≤ 2 ^ 24 := by exact_mod_cast hn
      exact lt_of_le_of_lt h2 (by norm_num [binary32])
  have hrnd : A.single.rnd n = n := A.single.rnd_natCast n hn
  have hround : roundAway (n : ℚ) = n :=
    roundAway_eq n.cast_nonneg (by linarith) (by linarith)
  simp only [toInt16, decimal_ne_nil, if_false, stofWith, strto_decimal, hrange,
    Bool.false_eq_true, Rounding.rnd_one, Rounding.mul, mul_one, hrnd, FloatVal.round, hround]
  exact clampToInt16_natCast n

/-- INTERNAL: **the number nearest to the value of a text** is what the text is converted
to, although the value is rounded twice on the way. The value stays away from the upper
end of the interval that rounds to the number, and from the subnormal numbers. -/
theorem toInt16_of_near (A : Arithmetic) {value : Bytes} {q : ℚ} {n : ℕ}
    (hread : strto value = some (.fin q)) (hn : n ≤ 32767) (h1 : (n : ℚ) - 1 / 2 ≤ q)
    (h2 : q ≤ n + 7 / 16) (hq : q = 0 ∨ 1 / 2 ^ 20 ≤ q) :
    toInt16 A value 1 = some (Int16.ofInt n) := by
  have hne := ne_nil_of_strto hread
  have hn' : (n : ℚ) ≤ 32767 := by exact_mod_cast hn
  have hrange : binary32.outOfRange q = false := by
    apply binary32.outOfRange_of_nonneg
    · exact hq.imp_right (le_trans (by norm_num [Format.minNormal, binary32]))
    · norm_num [binary32]
      linarith
  -- Both ends of the interval and zero are dyadic, so rounding does not leave it.
  have hlo : A.single.rnd ((n : ℚ) - 1 / 2) = n - 1 / 2 := by
    have hdyadic : (n : ℚ) - 1 / 2 = ((2 * n - 1 : ℤ) : ℚ) / 2 ^ 1 := by push_cast; ring
    rw [hdyadic]
    exact A.single.fixes _ 1 (by norm_num [binary32]; omega) (by decide)
  have hhi : A.single.rnd ((n : ℚ) + 7 / 16) = n + 7 / 16 := by
    have hdyadic : (n : ℚ) + 7 / 16 = ((16 * n + 7 : ℤ) : ℚ) / 2 ^ 4 := by push_cast; ring
    rw [hdyadic]
    exact A.single.fixes _ 4 (by norm_num [binary32]; omega) (by decide)
  have hmem := A.single.rnd_mem_Icc hlo hhi (A.single.rnd_mem_Icc hlo hhi ⟨h1, h2⟩)
  have hnonneg : 0 ≤ q := hq.elim (fun h => h.ge) fun h => le_trans (by norm_num) h
  have hnonneg' : 0 ≤ A.single.rnd (A.single.rnd q) :=
    A.single.rnd_nonneg (A.single.rnd_nonneg hnonneg)
  have hround : roundAway (A.single.rnd (A.single.rnd q)) = n :=
    roundAway_eq hnonneg' hmem.1 (by linarith [hmem.2])
  simp only [toInt16, hne, if_false, stofWith, hread, hrange, Bool.false_eq_true,
    Rounding.rnd_one, Rounding.mul, mul_one, FloatVal.round, hround]
  exact clampToInt16_intCast n (by omega) (by omega)

end Pca9536Driver.Model
