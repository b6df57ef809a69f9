import Pca9536Driver.Interface.Publishing

/-!
# CPU_TEMP shows the nearest degree

The sensor prints thousandths of a degree. They are read as a `float` and multiplied by
the `float` nearest to 0.001, which is a little more than 0.001, and the product is rounded
twice. None of this shows: up to 8000 degrees the channel is the nearest integer, for
negative temperatures as well, and half a degree counts up in magnitude.
-/

set_option autoImplicit false

namespace Pca9536Driver.Analysis

open Pca9536Driver.Library Pca9536Driver.Model Pca9536Driver.Interface

/-! ## What the probe prints -/

/-- An output of the probe: an integer and a line end. -/
structure SensorText where
  millidegrees : ℤ
  le : millidegrees.natAbs ≤ 8000000
  lineEnd : Bytes
  lineEnd_trailing : ∀ b ∈ lineEnd, b ∈ trailing

namespace SensorText

variable (t : SensorText)

/-- The content of the file. -/
def text : Bytes := signedDecimal t.millidegrees ++ t.lineEnd

/-- INTERNAL: the probe leaves the number. -/
theorem collect_text : collect t.text = signedDecimal t.millidegrees := by
  apply collect_word _ _ t.lineEnd_trailing
  · unfold signedDecimal
    split_ifs
    · simp
    · exact decimal_ne_nil _
  · intro b hb
    have hdigit (hb : b ∈ decimal t.millidegrees.natAbs) : b ≠ 0 ∧ b ∉ trailing :=
      digit_ne (isDigit_of_mem_decimal _ b hb)
    unfold signedDecimal at hb
    split_ifs at hb
    · rcases List.mem_cons.mp hb with rfl | hb
      · decide
      · exact hdigit hb
    · exact hdigit hb

end SensorText

/-! ## The conversion -/

/-- The constant 0.001 is rounded up, by less than one part in ten million. -/
def ScaleUp (A : Arithmetic) : Prop :=
  1 / 1000 ≤ A.single.rnd 0.001 ∧ A.single.rnd 0.001 ≤ 1 / 1000 + 1 / 2 ^ 34

/-- The IEEE `float` nearest to 0.001 is above it. -/
theorem scaleUp_nearest : ScaleUp .nearest := by
  unfold ScaleUp
  decide +kernel

example : ScaleUp .exact := by
  show (1 : ℚ) / 1000 ≤ 0.001 ∧ (0.001 : ℚ) ≤ 1 / 1000 + 1 / 2 ^ 34
  norm_num

/-- INTERNAL: **the product is rounded to the nearest degree**: it stays between two dyadic
numbers that are rounded to this degree as well. -/
theorem round_scaled {A : Arithmetic} (hscale : ScaleUp A) {m : ℕ} (hm : m ≤ 8000000) :
    roundAway (A.single.rnd (m * A.single.rnd 0.001)) = ((m + 500) / 1000 : ℕ) ∧
      roundAway (A.single.rnd (-(m * A.single.rnd 0.001))) = -((m + 500) / 1000 : ℕ) := by
  obtain ⟨h1, h2⟩ := hscale
  set s := A.single.rnd 0.001
  set k := (m + 500) / 1000 with hk
  have hk8 : k ≤ 8000 := by omega
  have hm1 : (1000 : ℚ) * k ≤ m + 500 := by
    have h : 1000 * k ≤ m + 500 := by omega
    exact_mod_cast h
  have hm2 : (m : ℚ) ≤ 1000 * k + 499 := by
    have h : m ≤ 1000 * k + 499 := by omega
    exact_mod_cast h
  have hm3 : (m : ℚ) ≤ 8000000 := by exact_mod_cast hm
  have hlow : (k : ℚ) - 1 / 2 ≤ m * s := by
    have h := mul_le_mul_of_nonneg_left h1 m.cast_nonneg
    linarith
  have hhigh : m * s ≤ (k : ℚ) + 1 / 2 - 1 / 2 ^ 11 := by
    have h := mul_le_mul_of_nonneg_left h2 m.cast_nonneg
    have h' : (m : ℚ) * (1 / 2 ^ 34) ≤ 8000000 * (1 / 2 ^ 34) :=
      mul_le_mul_of_nonneg_right hm3 (by positivity)
    norm_num at h h' ⊢
    linarith
  have hnonneg : 0 ≤ m * s := mul_nonneg m.cast_nonneg (le_trans (by norm_num) h1)
  -- Both ends of the interval are dyadic, with either sign.
  have hfix1 (e : ℤ) (he : e = 1 ∨ e = -1) :
      A.single.rnd (e * ((k : ℚ) - 1 / 2)) = e * ((k : ℚ) - 1 / 2) := by
    have hdyadic : (e : ℚ) * ((k : ℚ) - 1 / 2) = ((e * (2 * k - 1) : ℤ) : ℚ) / 2 ^ 1 := by
      push_cast
      ring
    rw [hdyadic]
    refine A.single.fixes _ 1 ?_ (by decide)
    rcases he with rfl | rfl <;> norm_num [binary32] <;> omega
  have hfix2 (e : ℤ) (he : e = 1 ∨ e = -1) :
      A.single.rnd (e * ((k : ℚ) + 1 / 2 - 1 / 2 ^ 11)) = e * ((k : ℚ) + 1 / 2 - 1 / 2 ^ 11) := by
    have hdyadic : (e : ℚ) * ((k : ℚ) + 1 / 2 - 1 / 2 ^ 11) =
        ((e * (2048 * k + 1023) : ℤ) : ℚ) / 2 ^ 11 := by
      push_cast
      ring
    rw [hdyadic]
    refine A.single.fixes _ 11 ?_ (by decide)
    rcases he with rfl | rfl <;> norm_num [binary32] <;> omega
  have hpos1 := hfix1 1 (Or.inl rfl)
  have hpos2 := hfix2 1 (Or.inl rfl)
  have hneg1 := hfix1 (-1) (Or.inr rfl)
  have hneg2 := hfix2 (-1) (Or.inr rfl)
  push_cast at hpos1 hpos2 hneg1 hneg2
  rw [one_mul] at hpos1 hpos2
  rw [neg_one_mul] at hneg1 hneg2
  constructor
  · have hmem := A.single.rnd_mem_Icc hpos1 hpos2 ⟨hlow, hhigh⟩
    exact roundAway_eq (A.single.rnd_nonneg hnonneg) hmem.1 (by linarith [hmem.2])
  · have hmem := A.single.rnd_mem_Icc hneg2 hneg1 (q := -(m * s)) ⟨by linarith, by linarith⟩
    have hle : A.single.rnd (-(m * s)) ≤ 0 := by
      rw [← A.single.rnd_zero]
      exact A.single.mono (by linarith)
    have hround : roundAway (-A.single.rnd (-(m * s))) = k :=
      roundAway_eq (by linarith) (by linarith [hmem.2]) (by linarith [hmem.1])
    rw [roundAway_neg] at hround
    omega

/-- INTERNAL: `std::round` of thousandths. -/
theorem roundAway_thousandths (m : ℕ) : roundAway ((m : ℚ) / 1000) = ((m + 500) / 1000 : ℕ) := by
  set k := (m + 500) / 1000 with hk
  have hm1 : (1000 : ℚ) * k ≤ m + 500 := by
    have h : 1000 * k ≤ m + 500 := by omega
    exact_mod_cast h
  have hm2 : (m : ℚ) ≤ 1000 * k + 499 := by
    have h : m ≤ 1000 * k + 499 := by omega
    exact_mod_cast h
  exact roundAway_eq (by positivity) (by linarith) (by linarith)

/-- INTERNAL: the product and the exact quotient are rounded to the same degree. -/
theorem round_millidegrees {A : Arithmetic} (hscale : ScaleUp A) {t : ℤ}
    (ht : t.natAbs ≤ 8000000) :
    roundAway (A.single.rnd (t * A.single.rnd 0.001)) = roundAway ((t : ℚ) / 1000) ∧
      (roundAway ((t : ℚ) / 1000)).natAbs ≤ 8000 := by
  obtain ⟨m, hm⟩ := t.eq_nat_or_neg
  have hle : m ≤ 8000000 := by omega
  obtain ⟨hpos, hneg⟩ := round_scaled hscale hle
  rcases hm with rfl | rfl
  · rw [Int.cast_natCast, hpos, roundAway_thousandths]
    exact ⟨rfl, by omega⟩
  · rw [Int.cast_neg, Int.cast_natCast, neg_mul, hneg, neg_div, roundAway_neg,
      roundAway_thousandths]
    exact ⟨rfl, by omega⟩

/-- INTERNAL: **what is made of a printed number** is the nearest degree. -/
theorem toInt16_signedDecimal {A : Arithmetic} (hscale : ScaleUp A) {t : ℤ}
    (ht : t.natAbs ≤ 8000000) :
    toInt16 A (signedDecimal t) 0.001 = some (Int16.ofInt (roundAway ((t : ℚ) / 1000))) := by
  have hne : signedDecimal t ≠ [] := ne_nil_of_strto (strto_signedDecimal t)
  have hrange : binary32.outOfRange t = false := by
    rcases eq_or_ne t 0 with rfl | h0
    · simpa using binary32.outOfRange_zero
    · have hone : (1 : ℚ) ≤ |(t : ℚ)| := by
        rw [← Int.cast_abs]
        exact_mod_cast Int.one_le_abs h0
      have hbig : |(t : ℚ)| ≤ 8000000 := by
        rw [← Int.cast_abs, Int.abs_eq_natAbs]
        exact_mod_cast ht
      apply binary32.outOfRange_of_normal
      · exact le_trans (by norm_num [Format.minNormal, binary32]) hone
      · apply lt_of_lt_of_le _ binary32.pow_emax_le_overflow
        exact lt_of_le_of_lt hbig (by norm_num [binary32])
  have hread : A.single.rnd t = t := by
    have hfit : t.natAbs ≤ 2 ^ binary32.prec := ht.trans (by norm_num [binary32])
    simpa using A.single.fixes t 0 hfit (Nat.zero_le _)
  obtain ⟨hround, hfit⟩ := round_millidegrees hscale ht
  simp only [toInt16, hne, if_false, stofWith, strto_signedDecimal, hrange, Bool.false_eq_true,
    hread, Rounding.mul, FloatVal.round, hround]
  exact clampToInt16_intCast _ (by omega) (by omega)

/-! ## The channel -/

/-- An environment in which the file of the sensor holds a text. -/
def sensed (env : Env) (t : SensorText) : Env :=
  { env with
    popen := fun log cmd =>
      if cmd = lit "cat /sys/class/thermal/thermal_zone0/temp" then t.text
      else env.popen log cmd }

/-- INTERNAL: the shared string of the temperature in this environment. -/
theorem collect_sensed (env : Env) (t : SensorText) (log : List Event) :
    collect ((sensed env t).popen log (Cache.command .cpuTemp)) =
      signedDecimal t.millidegrees := by
  have hprobe : (sensed env t).popen log (Cache.command .cpuTemp) = t.text := by
    simp only [sensed, Cache.command, if_true]
  rw [hprobe, t.collect_text]

/-- **CPU_TEMP is the nearest degree**: for every reading of the sensor up to 8000 degrees
of either sign, with any channels and from any state, a scan publishes under the name
`CPU_TEMP` the reading in degrees, rounded to the nearest integer, halves away from zero.
Neither the inexact constant 0.001 nor the two roundings of the `float` arithmetic are
visible.
SOURCE: simple_test_protocol.cpp:35-44,132-134,163-166 -/
theorem cpu_temp_nearest_degree (env : Env) (hscale : ScaleUp env.arith) (t : SensorText)
    (chs : List Channel) (mask : BitVec 8) (conned : Bool) (p : Process) :
    ∃ r' w, ∃ shown : Int16,
      execute (sensed env t) ⟨⟨chs.map Channel.toScada, mask, conned⟩, p⟩ = some r' ∧
      writes r'.proc.log = writes p.log ++ w ∧
      Publishes chs w .cpuTemp (.int16 (some shown)) ∧
      shown.toInt = roundAway ((t.millidegrees : ℚ) / 1000) := by
  obtain ⟨r', cs, w, hexec, hw, hall, hfresh⟩ := execute_shows (sensed env t) chs mask conned p
  have hfit := (round_millidegrees hscale t.le).2
  refine ⟨r', w, Int16.ofInt (roundAway ((t.millidegrees : ℚ) / 1000)), hexec, hw,
    publishes_of_value hall ?_, Int16.toInt_ofInt_of_le (by omega) (by omega)⟩
  intro out
  obtain ⟨h, hh⟩ := hfresh .cpuTemp
  have hshared : Diagnostic.cpuTemp.shared cs = signedDecimal t.millidegrees :=
    hh.trans (collect_sensed env t h)
  have hvalue := toInt16_signedDecimal hscale t.le
  rw [hshared, Diagnostic.value]
  exact congrArg Value.int16 hvalue

/-- `cpu_temp_nearest_degree` in the arithmetic of the processor, for 2.5 degrees below
zero. -/
theorem cpu_temp_nearest_degree_frost :
    let env : Env := ⟨.nearest, fun _ _ => [], fun _ _ => []⟩
    let t : SensorText := ⟨-2500, by decide, lit "\n", forall_of_all (by decide)⟩
    let chs : List Channel := [⟨some ⟨1, lit "CPU_TEMP"⟩, none⟩]
    ∃ r', ∃ shown : Int16,
      execute (sensed env t) ⟨⟨chs.map Channel.toScada, 0, false⟩, ⟨fun _ => [], []⟩⟩ = some r' ∧
      (⟨1, lit "CPU_TEMP"⟩, .int16 (some shown)) ∈ writes r'.proc.log ∧ shown.toInt = -3 := by
  intro env t chs
  obtain ⟨r', w, shown, hexec, hw, hshows, hvalue⟩ :=
    cpu_temp_nearest_degree env scaleUp_nearest t chs 0 false ⟨fun _ => [], []⟩
  refine ⟨r', shown, hexec, ?_, hvalue.trans (by decide +kernel)⟩
  rw [hw]
  exact hshows.2 _ (List.mem_singleton_self _) _ rfl rfl

end Pca9536Driver.Analysis
