import Mathlib.Data.Int.Log
import Mathlib.Data.Rat.Floor
import Mathlib.Tactic

/-!
# Floating-point values as extended rationals

A C floating-point value is a rational, an infinity or a NaN. Rounding to a binary
format is a function on the rationals; everything a driver that converts texts to
small integers needs from it is that it is monotone and leaves short dyadic numbers
alone, and `Rounding` bundles the function with these two laws. There are two
instances: exact arithmetic (`Rounding.exact`) and rounding to the nearest value of
the format with ties to even (`Rounding.nearestEven`).
-/

set_option autoImplicit false

namespace Pca9536Driver.Library

/-! ## Values -/

/-- A value of a C floating-point type. Zero has no sign. -/
inductive FloatVal where
  | fin (q : ℚ)
  | inf (negative : Bool)
  | nan
  deriving DecidableEq

namespace FloatVal

/-- The comparison `a < b`: false as soon as an operand is a NaN. -/
def lt : FloatVal → FloatVal → Bool
  | fin a, fin b => decide (a < b)
  | inf true, fin _ => true
  | fin _, inf false => true
  | inf true, inf false => true
  | _, _ => false

/-- The comparison `a <= b`: false as soon as an operand is a NaN. -/
def le : FloatVal → FloatVal → Bool
  | fin a, fin b => decide (a ≤ b)
  | inf true, fin _ => true
  | fin _, inf false => true
  | inf s, inf t => s || !t
  | _, _ => false

/-- The change of sign. -/
def neg : FloatVal → FloatVal
  | fin q => fin (-q)
  | inf s => inf !s
  | nan => nan

/-- `std::clamp(v, lo, hi)`. -/
def clamp (v lo hi : FloatVal) : FloatVal :=
  if v.lt lo then lo else if hi.lt v then hi else v

end FloatVal

/-- Rounding to the nearest integer, halves away from zero. -/
def roundAway (q : ℚ) : ℤ := if 0 ≤ q then ⌊q + 1 / 2⌋ else ⌈q - 1 / 2⌉

namespace FloatVal

/-- `std::round`. -/
def round : FloatVal → FloatVal
  | fin q => fin (roundAway q)
  | v => v

/-- `std::floor`. -/
def floor : FloatVal → FloatVal
  | fin q => fin ⌊q⌋
  | v => v

/-- `static_cast<int16_t>(v)`: truncation towards zero; `none` where the conversion is
undefined, that is for a NaN and for values whose integral part does not fit. -/
def toInt16? : FloatVal → Option Int16
  | fin q =>
    let t : ℤ := if 0 ≤ q then ⌊q⌋ else ⌈q⌉
    if -32768 ≤ t ∧ t ≤ 32767 then some (Int16.ofInt t) else none
  | _ => none

/-- Clamping of a number. -/
theorem clamp_fin (v lo hi : ℚ) :
    clamp (fin v) (fin lo) (fin hi) =
      fin (if v < lo then lo else if hi < v then hi else v) := by
  by_cases h1 : v < lo
  · simp [clamp, lt, h1]
  · by_cases h2 : hi < v <;> simp [clamp, lt, h1, h2]

/-- An integer in range is cast to itself. -/
theorem toInt16?_intCast (t : ℤ) (h1 : -32768 ≤ t) (h2 : t ≤ 32767) :
    toInt16? (fin (t : ℚ)) = some (Int16.ofInt t) := by
  simp [toInt16?, h1, h2]

end FloatVal

/-- INTERNAL: a number in the half-open interval around a natural number is rounded to it. -/
theorem roundAway_eq {q : ℚ} {n : ℕ} (h0 : 0 ≤ q) (h1 : (n : ℚ) - 1 / 2 ≤ q)
    (h2 : q < n + 1 / 2) : roundAway q = n := by
  unfold roundAway
  rw [if_pos h0, Int.floor_eq_iff]
  constructor
  · push_cast; linarith
  · push_cast; linarith

/-- Rounding moves a number by one half at most. -/
theorem abs_roundAway_sub_le (q : ℚ) : |(roundAway q : ℚ) - q| ≤ 1 / 2 := by
  unfold roundAway
  rw [abs_le]
  split_ifs
  · have h1 := Int.floor_le (q + 1 / 2)
    have h2 := Int.lt_floor_add_one (q + 1 / 2)
    constructor <;> linarith
  · have h1 := Int.le_ceil (q - 1 / 2)
    have h2 := Int.ceil_lt_add_one (q - 1 / 2)
    constructor <;> linarith

/-- Rounding is symmetric. -/
theorem roundAway_neg (q : ℚ) : roundAway (-q) = -roundAway q := by
  rcases lt_trichotomy q 0 with hq | rfl | hq
  · have hcast : -q + 1 / 2 = -(q - 1 / 2) := by ring
    unfold roundAway
    rw [if_pos (by linarith), if_neg (not_le.mpr hq), hcast, Int.floor_neg]
  · norm_num [roundAway]
  · have hcast : -q - 1 / 2 = -(q + 1 / 2) := by ring
    unfold roundAway
    rw [if_neg (by linarith), if_pos hq.le, hcast, Int.ceil_neg]

/-! ## Order -/

/-- Rounding preserves the order. -/
theorem roundAway_mono : Monotone roundAway := by
  intro a b hab
  unfold roundAway
  split_ifs with ha hb hb
  · exact Int.floor_mono (by linarith)
  · linarith
  · have h1 : ⌈a - 1 / 2⌉ ≤ 0 := Int.ceil_le.mpr (by push_cast; linarith)
    have h2 : 0 ≤ ⌊b + 1 / 2⌋ := Int.floor_nonneg.mpr (by linarith)
    exact h1.trans h2
  · exact Int.ceil_mono (by linarith)

namespace FloatVal

/-- `<=` is transitive, a NaN in between included. -/
theorem le_trans {a b c : FloatVal} (hab : a.le b = true) (hbc : b.le c = true) :
    a.le c = true := by
  cases a with
  | nan => simp [le] at hab
  | inf s =>
    cases b with
    | nan => simp [le] at hab
    | inf t => cases c <;> cases s <;> cases t <;> simp_all [le]
    | fin q => cases c <;> cases s <;> simp_all [le]
  | fin p =>
    cases b with
    | nan => simp [le] at hab
    | inf t => cases c <;> cases t <;> simp_all [le]
    | fin q =>
      cases c with
      | nan => simp [le] at hbc
      | inf t => cases t <;> simp_all [le]
      | fin r =>
        simp only [le, decide_eq_true_eq] at hab hbc ⊢
        exact hab.trans hbc

/-- `<=` and `<` compose. -/
theorem lt_of_le_of_lt {a b c : FloatVal} (hab : a.le b = true) (hbc : b.lt c = true) :
    a.lt c = true := by
  cases a with
  | nan => simp [le] at hab
  | inf s =>
    cases b with
    | nan => simp [le] at hab
    | inf t => cases c <;> cases s <;> cases t <;> simp_all [le, lt]
    | fin q =>
      cases s
      · simp [le] at hab
      · cases c with
        | inf t => cases t <;> simp_all [lt]
        | _ => simp_all [lt]
  | fin p =>
    cases b with
    | nan => simp [le] at hab
    | inf t => cases c <;> cases t <;> simp_all [le, lt]
    | fin q =>
      cases c with
      | nan => simp [lt] at hbc
      | inf t => cases t <;> simp_all [le, lt]
      | fin r =>
        simp only [le, lt, decide_eq_true_eq] at hab hbc ⊢
        exact hab.trans_lt hbc

/-- Two values that are no NaN are comparable. -/
theorem le_of_not_le {a b : FloatVal} (ha : a ≠ nan) (hb : b ≠ nan) (h : a.le b = false) :
    b.le a = true := by
  cases a with
  | nan => exact absurd rfl ha
  | inf s =>
    cases b with
    | nan => exact absurd rfl hb
    | inf t => cases s <;> cases t <;> simp_all [le]
    | fin q => cases s <;> simp_all [le]
  | fin p =>
    cases b with
    | nan => exact absurd rfl hb
    | inf t => cases t <;> simp_all [le]
    | fin q =>
      simp only [le, decide_eq_false_iff_not, decide_eq_true_eq, not_le] at h ⊢
      exact h.le

/-- A NaN is comparable to nothing. -/
theorem ne_nan_of_le {a b : FloatVal} (h : a.le b = true) : a ≠ nan ∧ b ≠ nan := by
  cases a <;> cases b <;> simp_all [le]

/-- INTERNAL: **clamping preserves the order**, and what it makes of ordered values are
numbers between its ends. -/
theorem clamp_le {lo hi : ℚ} (hlohi : lo ≤ hi) {v w : FloatVal} (h : v.le w = true) :
    ∃ a b, v.clamp (fin lo) (fin hi) = fin a ∧ w.clamp (fin lo) (fin hi) = fin b ∧
      lo ≤ a ∧ a ≤ b ∧ b ≤ hi := by
  cases v with
  | nan => simp [le] at h
  | inf s =>
    cases w with
    | nan => simp [le] at h
    | inf t => cases s <;> cases t <;> simp_all [le, clamp, lt]
    | fin q =>
      cases s
      · simp [le] at h
      · refine ⟨lo, _, by simp [clamp, lt], clamp_fin q lo hi, le_rfl, ?_⟩
        split_ifs <;> constructor <;> linarith
  | fin p =>
    cases w with
    | nan => simp [le] at h
    | inf t =>
      cases t
      · refine ⟨_, hi, clamp_fin p lo hi, by simp [clamp, lt], ?_⟩
        split_ifs <;> refine ⟨?_, ?_, ?_⟩ <;> linarith
      · simp [le] at h
    | fin q =>
      simp only [le, decide_eq_true_eq] at h
      refine ⟨_, _, clamp_fin p lo hi, clamp_fin q lo hi, ?_⟩
      split_ifs <;> refine ⟨?_, ?_, ?_⟩ <;> linarith

/-- INTERNAL: a number in the range of `int16_t` is cast, and the larger one to the larger
number. -/
theorem toInt16?_le {a b : ℚ} (ha : -32768 ≤ a) (hab : a ≤ b) (hb : b ≤ 32767) :
    ∃ m n, toInt16? (fin a) = some m ∧ toInt16? (fin b) = some n ∧ m.toInt ≤ n.toInt := by
  have hcast (q : ℚ) (h1 : -32768 ≤ q) (h2 : q ≤ 32767) :
      ∃ t : ℤ, t = (if 0 ≤ q then ⌊q⌋ else ⌈q⌉) ∧ (Int16.ofInt t).toInt = t ∧
        toInt16? (fin q) = some (Int16.ofInt t) := by
    have hlo : -32768 ≤ if 0 ≤ q then ⌊q⌋ else ⌈q⌉ := by
      split_ifs
      · exact Int.le_floor.mpr (by exact_mod_cast h1)
      · exact_mod_cast h1.trans (Int.le_ceil q)
    have hhi : (if 0 ≤ q then ⌊q⌋ else ⌈q⌉) ≤ 32767 := by
      split_ifs
      · exact_mod_cast (Int.floor_le q).trans h2
      · exact Int.ceil_le.mpr (by exact_mod_cast h2)
    refine ⟨_, rfl, Int16.toInt_ofInt_of_le hlo (by omega), ?_⟩
    simp only [toInt16?]
    rw [if_pos ⟨hlo, hhi⟩]
  obtain ⟨s, hs, hsi, hsa⟩ := hcast a ha (hab.trans hb)
  obtain ⟨t, ht, hti, htb⟩ := hcast b (ha.trans hab) hb
  refine ⟨_, _, hsa, htb, ?_⟩
  rw [hsi, hti, hs, ht]
  split_ifs with h1 h2 h2
  · exact Int.floor_mono hab
  · linarith
  · have h3 : ⌈a⌉ ≤ 0 := Int.ceil_le.mpr (by push_cast; linarith)
    exact h3.trans (Int.floor_nonneg.mpr h2)
  · exact Int.ceil_mono hab

/-- INTERNAL: **a function that is monotone on the numbers and leaves the infinities where
they are** preserves the order of values. -/
theorem le_of_monotone {f : FloatVal → FloatVal} {g : ℚ → ℚ} (hg : Monotone g)
    (hfin : ∀ q, f (fin q) = fin (g q)) (hinf : ∀ s, f (inf s) = inf s) {x y : FloatVal}
    (h : x.le y = true) : (f x).le (f y) = true := by
  cases x with
  | nan => simp [le] at h
  | inf s =>
    cases y with
    | nan => simp [le] at h
    | inf t => rwa [hinf, hinf]
    | fin q =>
      rw [hinf, hfin]
      cases s
      · simp [le] at h
      · rfl
  | fin p =>
    cases y with
    | nan => simp [le] at h
    | inf t =>
      rw [hfin, hinf]
      cases t
      · rfl
      · simp [le] at h
    | fin q =>
      rw [hfin, hfin]
      simp only [le, decide_eq_true_eq] at h ⊢
      exact hg h

/-- `std::round` preserves the order. -/
theorem round_le {x y : FloatVal} (h : x.le y = true) : x.round.le y.round = true := by
  have hmono : Monotone fun q : ℚ => (roundAway q : ℚ) := fun a b hab => by
    show (roundAway a : ℚ) ≤ roundAway b
    exact_mod_cast roundAway_mono hab
  exact le_of_monotone hmono (fun q => rfl) (fun s => rfl) h

/-- `std::floor` preserves the order. -/
theorem floor_le {x y : FloatVal} (h : x.le y = true) : x.floor.le y.floor = true := by
  have hmono : Monotone fun q : ℚ => (⌊q⌋ : ℚ) := fun a b hab => by
    show (⌊a⌋ : ℚ) ≤ ⌊b⌋
    exact_mod_cast Int.floor_mono hab
  exact le_of_monotone hmono (fun q => rfl) (fun s => rfl) h

end FloatVal

/-! ## Formats and rounding -/

/-- A binary floating-point format: the bits of its significand and its largest
exponent. -/
structure Format where
  prec : ℕ
  emax : ℕ

/-- The format of a `float`. -/
def binary32 : Format := ⟨24, 127⟩

/-- The format of a `double`. -/
def binary64 : Format := ⟨53, 1023⟩

namespace Format

variable (f : Format)

/-- The least magnitude that rounds to infinity. -/
def overflow : ℚ := 2 ^ (f.emax + 1) - 2 ^ (f.emax - f.prec)

/-- The smallest normal number of a format. -/
def minNormal : ℚ := 1 / 2 ^ (f.emax - 1)

/-- Whether reading this number sets `ERANGE`: it is too large, or tiny and not
representable. -/
def outOfRange (q : ℚ) : Bool :=
  decide (f.overflow ≤ |q|) ||
    (decide (|q| < f.minNormal) && decide ((q * 2 ^ (f.emax + f.prec - 2)).den ≠ 1))

/-- The numbers below the largest power of two do not overflow. -/
theorem pow_emax_le_overflow : 2 ^ f.emax ≤ f.overflow := by
  have h : (2 : ℚ) ^ (f.emax - f.prec) ≤ 2 ^ f.emax :=
    pow_le_pow_right₀ (by norm_num) (Nat.sub_le _ _)
  unfold overflow
  rw [pow_succ]
  linarith

/-- 0 is in range. -/
theorem outOfRange_zero : f.outOfRange 0 = false := by
  have hpos : 0 < f.overflow := lt_of_lt_of_le (by positivity) f.pow_emax_le_overflow
  simp [outOfRange, not_le.mpr hpos]

/-- INTERNAL: normal numbers are in range. -/
theorem outOfRange_of_normal {q : ℚ} (h1 : f.minNormal ≤ |q|) (h2 : |q| < f.overflow) :
    f.outOfRange q = false := by
  simp [outOfRange, h1, h2]

/-- INTERNAL: a number below the largest power of two does not overflow. -/
theorem abs_lt_overflow {q : ℚ} (h0 : 0 ≤ q) (hhigh : q < 2 ^ f.emax) : |q| < f.overflow := by
  rw [abs_of_nonneg h0]
  exact hhigh.trans_le f.pow_emax_le_overflow

/-- INTERNAL: 0 and the positive normal numbers are in range. -/
theorem outOfRange_of_nonneg {q : ℚ} (hlow : q = 0 ∨ f.minNormal ≤ q) (hhigh : q < 2 ^ f.emax) :
    f.outOfRange q = false := by
  rcases hlow with rfl | hlow
  · exact f.outOfRange_zero
  · have hpos : 0 < q := lt_of_lt_of_le (by unfold minNormal; positivity) hlow
    apply f.outOfRange_of_normal
    · rwa [abs_of_pos hpos]
    · exact f.abs_lt_overflow hpos.le hhigh

end Format

/-- A way to round to a format: monotone, and exact on the dyadic numbers that fit the
significand and need no large exponent. -/
structure Rounding (f : Format) where
  rnd : ℚ → ℚ
  mono : Monotone rnd
  fixes : ∀ (m : ℤ) (k : ℕ), m.natAbs ≤ 2 ^ f.prec → k ≤ f.prec →
    rnd (m / 2 ^ k) = m / 2 ^ k

namespace Rounding

variable {f : Format}

/-- No rounding at all. -/
def exact (f : Format) : Rounding f where
  rnd := id
  mono := monotone_id
  fixes _ _ _ _ := rfl

/-- A natural number that fits into the significand is not rounded. -/
theorem rnd_natCast (R : Rounding f) (n : ℕ) (h : n ≤ 2 ^ f.prec) : R.rnd n = n := by
  simpa using R.fixes n 0 (by simpa using h) (Nat.zero_le _)

/-- INTERNAL: rounding does not leave an interval whose ends are numbers of the format. -/
theorem rnd_mem_Icc (R : Rounding f) {a b q : ℚ} (ha : R.rnd a = a) (hb : R.rnd b = b)
    (hq : q ∈ Set.Icc a b) : R.rnd q ∈ Set.Icc a b :=
  ⟨ha ▸ R.mono hq.1, hb ▸ R.mono hq.2⟩

/-- 0 is a number of every format. -/
@[simp] theorem rnd_zero (R : Rounding f) : R.rnd 0 = 0 := by
  simpa using R.rnd_natCast 0 (Nat.zero_le _)

/-- 1 is a number of every format. -/
@[simp] theorem rnd_one (R : Rounding f) : R.rnd 1 = 1 := by
  simpa using R.rnd_natCast 1 Nat.one_le_two_pow

/-- Rounding makes nothing negative. -/
theorem rnd_nonneg (R : Rounding f) {q : ℚ} (hq : 0 ≤ q) : 0 ≤ R.rnd q := by
  rw [← R.rnd_zero]
  exact R.mono hq

/-- INTERNAL: **a number below an integer stays below it** if it keeps a distance that the
significand has room for. -/
theorem rnd_le_sub (R : Rounding f) {q : ℚ} {n k : ℕ} (hfit : n * 2 ^ k ≤ 2 ^ f.prec)
    (hk : k ≤ f.prec) (hq : q ≤ n - 1 / 2 ^ k) : R.rnd q ≤ n - 1 / 2 ^ k := by
  have hpow : 1 ≤ 2 ^ f.prec := Nat.one_le_two_pow
  have hdyadic : (n : ℚ) - 1 / 2 ^ k = (((n * 2 ^ k : ℕ) - 1 : ℤ) : ℚ) / 2 ^ k := by
    push_cast
    field_simp
  have hfix : R.rnd ((n : ℚ) - 1 / 2 ^ k) = n - 1 / 2 ^ k := by
    rw [hdyadic]
    exact R.fixes _ k (by omega) hk
  rw [← hfix]
  exact R.mono hq

/-- INTERNAL: the rounding error is at most the distance of the dyadic numbers with `k`
binary places, as long as the significand has room for them. -/
theorem abs_rnd_sub_le (R : Rounding f) {q : ℚ} (k : ℕ) (hk : k ≤ f.prec)
    (hq : |q| * 2 ^ k + 1 ≤ 2 ^ f.prec) : |R.rnd q - q| ≤ 1 / 2 ^ k := by
  have hpos : (0 : ℚ) < 2 ^ k := by positivity
  set m : ℤ := ⌊q * 2 ^ k⌋ with hm
  have hlow : (m : ℚ) ≤ q * 2 ^ k := Int.floor_le _
  have hhigh : q * 2 ^ k < m + 1 := Int.lt_floor_add_one _
  have habs := abs_le.mp (show |q * 2 ^ k| ≤ 2 ^ f.prec - 1 by
    rw [abs_mul, abs_of_pos hpos]
    linarith)
  have hm1 : -((2 : ℤ) ^ f.prec) ≤ m := Int.le_floor.mpr (by push_cast; linarith [habs.1])
  have hm2 : m + 1 ≤ (2 : ℤ) ^ f.prec := by
    have : (m : ℚ) ≤ ((2 ^ f.prec - 1 : ℤ) : ℚ) := by push_cast; linarith [habs.2]
    have := Int.cast_le.mp this
    omega
  -- The two dyadic numbers around `q` are fixed, so the rounded number stays between.
  have hfix (n : ℤ) (h1 : -((2 : ℤ) ^ f.prec) ≤ n) (h2 : n ≤ (2 : ℤ) ^ f.prec) :
      R.rnd (n / 2 ^ k) = n / 2 ^ k := by
    refine R.fixes n k ?_ hk
    zify
    exact abs_le.mpr ⟨h1, h2⟩
  have hmem := R.rnd_mem_Icc (hfix m hm1 (by omega)) (hfix (m + 1) (by omega) hm2)
    (q := q) ⟨(div_le_iff₀ hpos).mpr hlow, (le_div_iff₀ hpos).mpr (by push_cast; exact hhigh.le)⟩
  have hwidth : ((m + 1 : ℤ) : ℚ) / 2 ^ k = m / 2 ^ k + 1 / 2 ^ k := by push_cast; ring
  have h1 : (m : ℚ) / 2 ^ k ≤ q := (div_le_iff₀ hpos).mpr hlow
  have h2 : q ≤ m / 2 ^ k + 1 / 2 ^ k := by
    rw [← hwidth, le_div_iff₀ hpos]
    push_cast
    exact hhigh.le
  rw [Set.mem_Icc, hwidth] at hmem
  exact abs_le.mpr ⟨by linarith [hmem.1], by linarith [hmem.2]⟩

/-- The sum of two values, rounded. -/
def add (R : Rounding f) : FloatVal → FloatVal → FloatVal
  | .fin a, .fin b => .fin (R.rnd (a + b))
  | .inf s, .inf t => if s = t then .inf s else .nan
  | .inf s, .fin _ => .inf s
  | .fin _, .inf t => .inf t
  | _, _ => .nan

/-- The product of two values, rounded. -/
def mul (R : Rounding f) : FloatVal → FloatVal → FloatVal
  | .fin a, .fin b => .fin (R.rnd (a * b))
  | .inf s, .inf t => .inf (s != t)
  | .inf s, .fin b => if b = 0 then .nan else .inf (s != decide (b < 0))
  | .fin a, .inf t => if a = 0 then .nan else .inf (t != decide (a < 0))
  | _, _ => .nan

/-- The quotient of two values, rounded, for a divisor other than 0. -/
def div (R : Rounding f) : FloatVal → FloatVal → FloatVal
  | .fin a, .fin b => .fin (R.rnd (a / b))
  | .fin _, .inf _ => .fin 0
  | .inf s, .fin b => .inf (s != decide (b < 0))
  | _, _ => .nan

/-- The quotient of a value by a positive constant, rounded. -/
def divConst (R : Rounding f) (c : ℕ) : FloatVal → FloatVal
  | .fin a => .fin (R.rnd (a / c))
  | v => v

/-- The product with a positive constant preserves the order. -/
theorem mul_le (R : Rounding f) {c : ℚ} (hc : 0 < c) {x y : FloatVal} (h : x.le y = true) :
    (R.mul x (.fin c)).le (R.mul y (.fin c)) = true := by
  have hmono : Monotone fun q => R.rnd (q * c) := fun a b hab =>
    R.mono (mul_le_mul_of_nonneg_right hab hc.le)
  have hneg : decide (c < 0) = false := by simpa using hc.le
  apply FloatVal.le_of_monotone (f := fun v => R.mul v (.fin c)) hmono (fun q => rfl) _ h
  intro s
  simp [mul, hc.ne', hneg]

/-- The quotient by a constant preserves the order. -/
theorem divConst_le (R : Rounding f) (c : ℕ) {x y : FloatVal} (h : x.le y = true) :
    (R.divConst c x).le (R.divConst c y) = true := by
  have hmono : Monotone fun q => R.rnd (q / c) := fun a b hab =>
    R.mono (div_le_div_of_nonneg_right hab c.cast_nonneg)
  exact FloatVal.le_of_monotone hmono (fun q => rfl) (fun s => rfl) h

end Rounding

/-! ## Rounding to nearest, ties to even -/

/-- Rounding to the nearest integer, ties to the even neighbour. -/
def roundEven (q : ℚ) : ℤ :=
  if q - ⌊q⌋ < 1 / 2 then ⌊q⌋
  else if 1 / 2 < q - ⌊q⌋ then ⌊q⌋ + 1
  else if Even ⌊q⌋ then ⌊q⌋ else ⌊q⌋ + 1

/-- The result is next to the number. -/
theorem roundEven_mem (q : ℚ) : roundEven q = ⌊q⌋ ∨ roundEven q = ⌊q⌋ + 1 := by
  unfold roundEven
  split_ifs <;> simp

/-- An integer is not rounded. -/
@[simp] theorem roundEven_intCast (n : ℤ) : roundEven n = n := by
  simp [roundEven]

/-- INTERNAL: a number nearer to an integer than one half is rounded to it. -/
theorem roundEven_eq {q : ℚ} {n : ℤ} (h : |q - n| < 1 / 2) : roundEven q = n := by
  obtain ⟨h1, h2⟩ := abs_lt.mp h
  rcases le_or_gt (n : ℚ) q with hle | hlt
  · have hfl : ⌊q⌋ = n := Int.floor_eq_iff.mpr ⟨hle, by linarith⟩
    unfold roundEven
    rw [hfl, if_pos h2]
  · have hfl : ⌊q⌋ = n - 1 := Int.floor_eq_iff.mpr ⟨by push_cast; linarith, by push_cast; linarith⟩
    have hgt : 1 / 2 < q - ((n - 1 : ℤ) : ℚ) := by push_cast; linarith
    unfold roundEven
    rw [hfl, if_neg (not_lt.mpr hgt.le), if_pos hgt, sub_add_cancel]

/-- Rounding moves a number by one half at most. -/
theorem abs_roundEven_sub_le (q : ℚ) : |(roundEven q : ℚ) - q| ≤ 1 / 2 := by
  have h1 : (⌊q⌋ : ℚ) ≤ q := Int.floor_le q
  have h2 : q < ⌊q⌋ + 1 := Int.lt_floor_add_one q
  unfold roundEven
  rw [abs_le]
  split_ifs <;> push_cast <;> constructor <;> linarith

/-- Rounding preserves the order. -/
theorem roundEven_mono : Monotone roundEven := by
  intro a b hab
  have hfl : ⌊a⌋ ≤ ⌊b⌋ := Int.floor_mono hab
  rcases hfl.lt_or_eq with hlt | heq
  · have ha := roundEven_mem a
    have hb := roundEven_mem b
    omega
  · -- Both lie in one unit interval, so the fractional parts decide.
    unfold roundEven
    rw [heq]
    split_ifs <;> first | omega | (exfalso; linarith)

/-- Rounding a number that is not negative to the nearest one with `prec` significant
bits: `e` is the exponent of its last place. -/
def roundBits (prec : ℕ) (q : ℚ) : ℚ :=
  let e : ℤ := Int.log 2 q + 1 - prec
  roundEven (q / 2 ^ e) * 2 ^ e

/-- INTERNAL: rounding to `prec` bits stays inside the binade, its upper end
included. -/
theorem roundBits_mem_binade {prec : ℕ} (hp : 1 ≤ prec) {q : ℚ} (hq : 0 < q) :
    roundBits prec q ∈ Set.Icc ((2 : ℚ) ^ Int.log 2 q) (2 ^ (Int.log 2 q + 1)) := by
  set L := Int.log 2 q with hL
  have hu : (0 : ℚ) < 2 ^ (L + 1 - prec) := by positivity
  have hlow : (2 : ℚ) ^ L = ((2 ^ (prec - 1) : ℕ) : ℤ) * 2 ^ (L + 1 - prec) := by
    push_cast
    rw [← zpow_natCast, ← zpow_add₀ (by norm_num)]
    congr 1
    omega
  have hhigh : (2 : ℚ) ^ (L + 1) = ((2 ^ prec : ℕ) : ℤ) * 2 ^ (L + 1 - prec) := by
    push_cast
    rw [← zpow_natCast, ← zpow_add₀ (by norm_num)]
    congr 1
    omega
  have h1 : (2 : ℚ) ^ L ≤ q := by simpa [hL] using Int.zpow_log_le_self (b := 2) (by norm_num) hq
  have h2 : q < (2 : ℚ) ^ (L + 1) := by
    simpa [hL] using Int.lt_zpow_succ_log_self (b := 2) (by norm_num) q
  constructor
  · have hle : ((2 ^ (prec - 1) : ℕ) : ℤ) ≤ roundEven (q / 2 ^ (L + 1 - prec)) := by
      rw [← roundEven_intCast ((2 ^ (prec - 1) : ℕ) : ℤ)]
      exact roundEven_mono ((le_div_iff₀ hu).mpr (hlow ▸ h1))
    rw [hlow]
    exact mul_le_mul_of_nonneg_right (by exact_mod_cast hle) hu.le
  · have hle : roundEven (q / 2 ^ (L + 1 - prec)) ≤ ((2 ^ prec : ℕ) : ℤ) := by
      rw [← roundEven_intCast ((2 ^ prec : ℕ) : ℤ)]
      exact roundEven_mono ((div_le_iff₀ hu).mpr (hhigh ▸ h2.le))
    rw [hhigh]
    exact mul_le_mul_of_nonneg_right (by exact_mod_cast hle) hu.le

/-- INTERNAL: **rounding to `prec` bits preserves the order**, also from one binade to the
next. -/
theorem roundBits_mono {prec : ℕ} (hp : 1 ≤ prec) {a b : ℚ} (ha : 0 < a) (hab : a ≤ b) :
    roundBits prec a ≤ roundBits prec b := by
  have hb := ha.trans_le hab
  have hlog : Int.log 2 a ≤ Int.log 2 b := Int.log_mono_right ha hab
  rcases hlog.lt_or_eq with hlt | heq
  · -- Different binades: the boundary `2 ^ log b` separates the results.
    calc roundBits prec a ≤ 2 ^ (Int.log 2 a + 1) := (roundBits_mem_binade hp ha).2
      _ ≤ 2 ^ Int.log 2 b := zpow_le_zpow_right₀ (by norm_num) (by omega)
      _ ≤ roundBits prec b := (roundBits_mem_binade hp hb).1
  · unfold roundBits
    rw [heq]
    have hu : (0 : ℚ) < 2 ^ (Int.log 2 b + 1 - prec) := by positivity
    have := roundEven_mono (div_le_div_of_nonneg_right hab hu.le)
    exact mul_le_mul_of_nonneg_right (by exact_mod_cast this) hu.le

/-- INTERNAL: a short dyadic number is not rounded. -/
theorem roundBits_dyadic {prec : ℕ} (hp : 1 ≤ prec) (m k : ℕ) (hm : 0 < m)
    (hfit : m ≤ 2 ^ prec) : roundBits prec ((m : ℚ) / 2 ^ k) = m / 2 ^ k := by
  have hq : (0 : ℚ) < (m : ℚ) / 2 ^ k := by positivity
  set L := Int.log 2 ((m : ℚ) / 2 ^ k) with hL
  -- The last place of the number is no coarser than its last binary digit.
  have hint : ∃ n : ℤ, (m : ℚ) / 2 ^ k = n * 2 ^ (L + 1 - prec) := by
    have h1 : (2 : ℚ) ^ L ≤ (m : ℚ) / 2 ^ k := by
      simpa [hL] using Int.zpow_log_le_self (b := 2) (by norm_num) hq
    have h2 : (2 : ℚ) ^ (L + k) ≤ 2 ^ (prec : ℤ) := by
      rw [zpow_add₀ (by norm_num), zpow_natCast, ← le_div_iff₀ (by positivity), zpow_natCast]
      refine h1.trans (div_le_div_of_nonneg_right ?_ (by positivity))
      exact_mod_cast hfit
    have h3 : L + k ≤ prec := (zpow_le_zpow_iff_right₀ (by norm_num)).mp h2
    rcases h3.lt_or_eq with hlt | heq
    · obtain ⟨d, hd⟩ := Int.eq_ofNat_of_zero_le (show 0 ≤ prec - 1 - (L + k) by omega)
      refine ⟨m * 2 ^ d, ?_⟩
      push_cast
      rw [mul_assoc, ← zpow_natCast, ← zpow_natCast (2 : ℚ) d, ← zpow_add₀ (by norm_num),
        div_eq_mul_inv, ← zpow_neg]
      congr 2
      omega
    · -- Here the numerator is the power of two itself.
      have hmge : (2 : ℚ) ^ prec ≤ m := by
        have h4 := h1
        rw [le_div_iff₀ (by positivity), ← zpow_natCast, ← zpow_add₀ (by norm_num), heq,
          zpow_natCast] at h4
        exact h4
      have hmeq : m = 2 ^ prec := le_antisymm hfit (by exact_mod_cast hmge)
      refine ⟨2 ^ (prec - 1), ?_⟩
      subst hmeq
      push_cast
      rw [← zpow_natCast, ← zpow_natCast (2 : ℚ) (prec - 1), ← zpow_natCast (2 : ℚ) k,
        ← zpow_add₀ (by norm_num), ← zpow_sub₀ (by norm_num)]
      congr 1
      omega
  obtain ⟨n, hn⟩ := hint
  have hu : ((2 : ℚ) ^ (L + 1 - prec)) ≠ 0 := by positivity
  show (roundEven ((m : ℚ) / 2 ^ k / 2 ^ (L + 1 - prec)) : ℚ) * 2 ^ (L + 1 - prec) = _
  rw [hn, mul_div_cancel_right₀ _ hu, roundEven_intCast]

namespace Rounding

/-- Rounding to the nearest number with the precision of the format, ties to even, the sign
apart. The exponent has no lower end: there are no subnormal numbers, and nothing underflows
to 0. -/
def nearestEven (f : Format) (hp : 1 ≤ f.prec) : Rounding f where
  rnd q := if 0 < q then roundBits f.prec q else if q < 0 then -roundBits f.prec (-q) else 0
  mono := by
    have hpos : ∀ {q : ℚ}, 0 < q → 0 < roundBits f.prec q := fun hq =>
      lt_of_lt_of_le (by positivity) (roundBits_mem_binade hp hq).1
    intro a b hab
    dsimp only
    rcases lt_trichotomy a 0 with ha | rfl | ha
    · rw [if_neg ha.not_gt, if_pos ha]
      have hna := hpos (neg_pos.mpr ha)
      rcases lt_trichotomy b 0 with hb | rfl | hb
      · rw [if_neg hb.not_gt, if_pos hb]
        exact neg_le_neg (roundBits_mono hp (neg_pos.mpr hb) (neg_le_neg hab))
      · simpa using hna.le
      · rw [if_pos hb]
        linarith [hpos hb]
    · rcases hab.lt_or_eq with hb | rfl
      · simpa [hb] using (hpos hb).le
      · rfl
    · rw [if_pos ha, if_pos (ha.trans_le hab)]
      exact roundBits_mono hp ha hab
  fixes := by
    intro m k hm _
    rcases lt_trichotomy m 0 with hneg | rfl | hpos
    · obtain ⟨n, rfl⟩ : ∃ n : ℕ, m = -(n : ℤ) := ⟨m.natAbs, by omega⟩
      have hn : 0 < n := by omega
      have hlt : ((-(n : ℤ) : ℤ) : ℚ) / 2 ^ k < 0 := by
        push_cast
        exact div_neg_of_neg_of_pos (by simpa using hn) (by positivity)
      have hval : -(((-(n : ℤ) : ℤ) : ℚ) / 2 ^ k) = (n : ℚ) / 2 ^ k := by push_cast; ring
      rw [if_neg (not_lt.mpr hlt.le), if_pos hlt, hval,
        roundBits_dyadic hp n k hn (by simpa using hm), ← hval, neg_neg]
    · simp
    · obtain ⟨n, rfl⟩ : ∃ n : ℕ, m = (n : ℤ) := ⟨m.natAbs, by omega⟩
      have hn : 0 < n := by omega
      have hgt : (0 : ℚ) < (((n : ℤ) : ℤ) : ℚ) / 2 ^ k := by push_cast; positivity
      rw [if_pos hgt]
      simpa using roundBits_dyadic hp n k hn (by simpa using hm)

end Rounding

/-- The floating-point arithmetic of a platform: how it rounds to `float` and to
`double`. -/
structure Arithmetic where
  single : Rounding binary32
  double : Rounding binary64

/-- Both types hold every rational number. -/
def Arithmetic.exact : Arithmetic := ⟨.exact _, .exact _⟩

/-- Both types round to the nearest number of their precision. It differs from IEEE arithmetic
below the smallest normal number, where nothing underflows. -/
def Arithmetic.nearest : Arithmetic :=
  ⟨.nearestEven binary32 (by decide), .nearestEven binary64 (by decide)⟩

end Pca9536Driver.Library
