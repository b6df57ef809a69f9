import Pca9536Driver.Model.Conversion

/-!
# When the conversion of a text to 16 bits is defined

`to_int16` and `uptime_seconds_to_hours` guard against empty texts, texts without a
numeral, numerals out of range and numbers that do not fit into 16 bits. Infinities are
clamped like large numbers. A NaN passes every comparison on the way: it is no numeral
that throws, it is not `<= 0`, and `std::clamp` returns it as it is.
-/

set_option autoImplicit false

namespace Pca9536Driver.Analysis

open Pca9536Driver.Library Pca9536Driver.Model

/-! ## The values that are clamped -/

/-- What `to_int16(value, scale)` calls `clamp_to_int16` with, if it does.
SOURCE: simple_test_protocol.cpp:36-44 -/
def scaledValue (A : Arithmetic) (value : Bytes) (scale : ℚ) : Option FloatVal :=
  if value = [] then none
  else
    (stofWith A.single value).map fun v =>
      (A.single.mul v (.fin (A.single.rnd scale))).round

/-- What `uptime_seconds_to_hours(value)` calls `clamp_to_int16` with, if it does.
SOURCE: simple_test_protocol.cpp:48-57 -/
def hoursValue (A : Arithmetic) (value : Bytes) : Option FloatVal :=
  if value = [] then none
  else
    (stofWith A.double value).bind fun seconds =>
      if seconds.le (.fin 0) then none else some (A.double.divConst 3600 seconds).floor

/-- INTERNAL: `to_int16` in two steps, the value before the cast and the cast. -/
theorem toInt16_eq (A : Arithmetic) (value : Bytes) (scale : ℚ) :
    toInt16 A value scale = (scaledValue A value scale).elim (some 0) clampToInt16 := by
  unfold toInt16 scaledValue
  split_ifs
  · rfl
  · cases stofWith A.single value <;> rfl

/-- INTERNAL: the same for the uptime. -/
theorem uptimeSecondsToHours_eq (A : Arithmetic) (value : Bytes) :
    uptimeSecondsToHours A value = (hoursValue A value).elim (some 0) clampToInt16 := by
  unfold uptimeSecondsToHours hoursValue
  split_ifs
  · rfl
  · cases stofWith A.double value with
    | none => rfl
    | some seconds =>
      simp only [Option.bind_some]
      split_ifs <;> rfl

/-- The scales `to_int16` is called with.
SOURCE: simple_test_protocol.cpp:36,163-180,228-236,262-270 -/
def scales : List ℚ := [1, 0.001]

/-- `v` is ordered, and what `std::clamp` makes of it lies in the range of `int16_t`. -/
def Castable (v : FloatVal) : Prop :=
  v ≠ .nan ∧ ∃ q : ℚ, v.clamp (.fin (-32768)) (.fin 32767) = .fin q ∧ -32768 ≤ q ∧ q ≤ 32767

/-- Converting a text is defined: whatever is clamped may be clamped and cast, so that there
is a result, and a text without a numeral gives 0. -/
structure ConversionDefined (A : Arithmetic) (value : Bytes) : Prop where
  scaled : ∀ scale ∈ scales,
    (∀ v, scaledValue A value scale = some v → Castable v) ∧ toInt16 A value scale ≠ none
  hours : (∀ v, hoursValue A value = some v → Castable v) ∧ uptimeSecondsToHours A value ≠ none
  noNumeral : strto value = none →
    (∀ scale ∈ scales, toInt16 A value scale = some 0) ∧ uptimeSecondsToHours A value = some 0

/-- The text of a number behind leading white space and an optional sign. -/
def unsignedText (value : Bytes) : Bytes :=
  match value.dropWhile isSpace with
  | 45 :: t => t
  | 43 :: t => t
  | t => t

/-! ## NaN in, NaN out -/

/-- INTERNAL: the guards let everything through, and only NaN is not castable. -/
theorem castable_iff (v : FloatVal) : Castable v ↔ v ≠ .nan := by
  constructor
  · exact fun h => h.1
  · intro hv
    refine ⟨hv, ?_⟩
    cases v with
    | fin q =>
      rw [FloatVal.clamp_fin]
      refine ⟨_, rfl, ?_⟩
      split_ifs <;> constructor <;> linarith
    | inf negative =>
      cases negative
      · exact ⟨32767, by simp [FloatVal.clamp, FloatVal.lt], by norm_num, le_refl _⟩
      · exact ⟨-32768, by simp [FloatVal.clamp, FloatVal.lt], le_refl _, by norm_num⟩
    | nan => exact absurd rfl hv

/-- INTERNAL: the conversion of a castable value is defined. -/
theorem Castable.clampToInt16_ne_none {v : FloatVal} (h : Castable v) :
    clampToInt16 v ≠ none := by
  cases v with
  | fin q =>
    obtain ⟨n, hn⟩ := clampToInt16_fin q
    simp [hn]
  | inf negative => cases negative <;> decide
  | nan => exact absurd rfl h.1

/-- INTERNAL: a conversion that does not clamp a NaN is defined, whether it gets as far as
clamping or not. -/
theorem defined_of_ne_nan {clamped : Option FloatVal} (h : clamped ≠ some .nan) :
    (∀ v, clamped = some v → Castable v) ∧ clamped.elim (some 0) clampToInt16 ≠ none := by
  have hcast (v : FloatVal) (hv : clamped = some v) : Castable v := by
    rw [castable_iff]
    rintro rfl
    exact h hv
  refine ⟨hcast, ?_⟩
  cases clamped with
  | none => simp
  | some v => exact (hcast v rfl).clampToInt16_ne_none

/-- INTERNAL: NaN is read from `nan` only, in any case of the letters. -/
theorem unsignedNum_eq_nan_iff (s : Bytes) :
    unsignedNum s = some .nan ↔ startsWith (lit "nan") s = true := by
  unfold unsignedNum
  by_cases hinf : startsWith (lit "inf") s = true
  · -- The first three letters cannot be both words.
    have hnan : startsWith (lit "nan") s = false := by
      unfold startsWith at hinf ⊢
      have hlen : (lit "inf").length = (lit "nan").length := by decide
      rw [← hlen, of_decide_eq_true hinf]
      decide
    simp [hinf, hnan]
  · simp [hinf]

/-- INTERNAL: **the texts that `strtof` and `strtod` read as NaN**. -/
theorem strto_eq_nan_iff (value : Bytes) :
    strto value = some .nan ↔ startsWith (lit "nan") (unsignedText value) = true := by
  have hneg : ∀ v : FloatVal, v.neg = .nan ↔ v = .nan := by
    intro v
    cases v <;> simp [FloatVal.neg]
  unfold strto
  rw [← unsignedNum_eq_nan_iff]
  split
  · rename_i t ht
    simp [unsignedText, ht, hneg]
  · rename_i t ht
    simp [unsignedText, ht]
  · rename_i hminus hplus
    unfold unsignedText
    split
    · exact absurd ‹_› (hminus _)
    · exact absurd ‹_› (hplus _)
    · rfl

/-- INTERNAL: rounding makes no NaN. -/
theorem stofWith_eq_nan_iff {f : Format} (R : Rounding f) (value : Bytes) :
    stofWith R value = some .nan ↔ strto value = some .nan := by
  unfold stofWith
  cases strto value with
  | none => simp
  | some v => cases v <;> simp

/-- INTERNAL: no scale of the driver is rounded to 0. -/
theorem rnd_scale_pos (A : Arithmetic) {scale : ℚ} (hscale : scale ∈ scales) :
    0 < A.single.rnd scale := by
  have hfix : A.single.rnd ((1 : ℤ) / 2 ^ 10) = (1 : ℤ) / 2 ^ 10 :=
    A.single.fixes 1 10 (by decide) (by decide)
  have hle : ((1 : ℤ) : ℚ) / 2 ^ 10 ≤ A.single.rnd scale := by
    rw [← hfix]
    apply A.single.mono
    rcases List.mem_pair.mp hscale with rfl | rfl <;> norm_num
  exact lt_of_lt_of_le (by norm_num) hle

/-- INTERNAL: **scaling and rounding lose no NaN and make none**, for no scale of the
driver is rounded to 0. -/
theorem scaledValue_eq_nan_iff (A : Arithmetic) (value : Bytes) {scale : ℚ}
    (hscale : scale ∈ scales) :
    scaledValue A value scale = some .nan ↔ strto value = some .nan := by
  have hpos := rnd_scale_pos A hscale
  have hmul (v : FloatVal) :
      (A.single.mul v (.fin (A.single.rnd scale))).round = .nan ↔ v = .nan := by
    cases v <;> simp [Rounding.mul, FloatVal.round, hpos.ne']
  unfold scaledValue
  split_ifs with hnil
  · simp only [false_iff]
    exact fun h => ne_nil_of_strto h hnil
  · rw [← stofWith_eq_nan_iff A.single value]
    cases stofWith A.single value with
    | none => simp
    | some v => simp [hmul]

/-- INTERNAL: neither does the division by 3600. -/
theorem hoursValue_eq_nan_iff (A : Arithmetic) (value : Bytes) :
    hoursValue A value = some .nan ↔ strto value = some .nan := by
  have hfloor (v : FloatVal) : (A.double.divConst 3600 v).floor = .nan ↔ v = .nan := by
    cases v <;> simp [Rounding.divConst, FloatVal.floor]
  unfold hoursValue
  split_ifs with hnil
  · simp only [false_iff]
    exact fun h => ne_nil_of_strto h hnil
  · rw [← stofWith_eq_nan_iff A.double value]
    cases stofWith A.double value with
    | none => simp
    | some seconds =>
      simp only [Option.bind_some, Option.some.injEq]
      split_ifs with hle
      · -- The comparison with 0 stops no NaN.
        have hne : seconds ≠ .nan := by
          rintro rfl
          simp [FloatVal.le] at hle
        simp [hne]
      · simp [hfloor]

/-! ## The condition -/

/-- **When the conversion is defined**: for every text, in every arithmetic, no conversion
of the driver clamps an unordered value or casts one that does not fit, and texts without
a numeral give 0, iff the text is not a NaN.
SOURCE: simple_test_protocol.cpp:27-57 -/
theorem conversion_defined_iff (A : Arithmetic) (value : Bytes) :
    ConversionDefined A value ↔ startsWith (lit "nan") (unsignedText value) = false := by
  rw [← Bool.not_eq_true, ← strto_eq_nan_iff]
  constructor
  · intro h hnan
    exact (h.hours.1 .nan ((hoursValue_eq_nan_iff A value).mpr hnan)).1 rfl
  · intro hnan
    constructor
    · intro scale hscale
      rw [toInt16_eq]
      apply defined_of_ne_nan
      exact mt (scaledValue_eq_nan_iff A value hscale).mp hnan
    · rw [uptimeSecondsToHours_eq]
      apply defined_of_ne_nan
      exact mt (hoursValue_eq_nan_iff A value).mp hnan
    · intro hnone
      have hstof {f : Format} (R : Rounding f) : stofWith R value = none := by
        unfold stofWith
        rw [hnone]
      constructor
      · intro scale _
        unfold toInt16
        rw [hstof, ite_self]
      · unfold uptimeSecondsToHours
        rw [hstof, ite_self]

/-- **A NaN is cast**: for the text `-nan` the value that reaches `std::clamp` is a NaN,
which it returns, and neither conversion is defined. -/
theorem nan_is_cast :
    let value := lit "-nan"
    ¬ ConversionDefined .exact value ∧
    scaledValue .exact value 1 = some .nan ∧ hoursValue .exact value = some .nan ∧
    FloatVal.clamp .nan (.fin (-32768)) (.fin 32767) = .nan ∧
    toInt16 .exact value 1 = none ∧ uptimeSecondsToHours .exact value = none := by
  intro value
  have hnan : strto value = some .nan := by decide
  have hscaled : scaledValue .exact value 1 = some .nan :=
    (scaledValue_eq_nan_iff .exact value (by simp [scales])).mpr hnan
  have hhours := (hoursValue_eq_nan_iff .exact value).mpr hnan
  refine ⟨fun h => (h.hours.1 .nan hhours).1 rfl, hscaled, hhours, rfl, ?_, ?_⟩
  · rw [toInt16_eq, hscaled]
    rfl
  · rw [uptimeSecondsToHours_eq, hhours]
    rfl

end Pca9536Driver.Analysis
