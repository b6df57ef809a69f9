import Pca9536Driver.Interface.Publishing
import Pca9536Driver.Interface.Run
import Mathlib.Algebra.Order.Floor.Semifield

/-!
# UPTIME counts complete hours

The probe prints the seconds since the start of the system with two decimals. They are
read, divided by 3600 and cut down to an integer; from 32767 hours on the channel stays
at 32767. Rounding to `double` does not move a printed number over a full hour, so the
count is the same in every arithmetic.
-/

set_option autoImplicit false

namespace Pca9536Driver.Analysis

open Pca9536Driver.Library Pca9536Driver.Model Pca9536Driver.Interface

/-! ## What the probe prints -/

/-- An output of the probe: digits, a point, two digits and a line end. -/
structure UptimeText where
  whole : Bytes
  whole_ne : whole ≠ []
  whole_digits : ∀ b ∈ whole, isDigit 10 b = true
  frac : Bytes
  frac_digits : ∀ b ∈ frac, isDigit 10 b = true
  frac_length : frac.length = 2
  lineEnd : Bytes
  lineEnd_trailing : ∀ b ∈ lineEnd, b ∈ trailing
  lt : (digitsVal 10 (whole ++ frac) : ℚ) / 100 < 2 ^ 63

/-- A line of `/proc/uptime` that has the given digits before and behind the point. -/
def UptimeText.ofDigits (whole frac : Bytes) (h : whole ≠ [] ∧ frac.length = 2 ∧
    (whole ++ frac).all (isDigit 10) = true ∧ digitsVal 10 (whole ++ frac) < 100 * 2 ^ 63) :
    UptimeText where
  whole := whole
  whole_ne := h.1
  whole_digits b hb := List.all_eq_true.mp h.2.2.1 b (List.mem_append_left _ hb)
  frac := frac
  frac_digits b hb := List.all_eq_true.mp h.2.2.1 b (List.mem_append_right _ hb)
  frac_length := h.2.1
  lineEnd := [newline]
  lineEnd_trailing := forall_of_all (by decide)
  lt := by
    have hlt : (digitsVal 10 (whole ++ frac) : ℚ) < 100 * 2 ^ 63 := by exact_mod_cast h.2.2.2
    linarith

namespace UptimeText

variable (t : UptimeText)

/-- The part of the file that the probe prints. -/
def text : Bytes := t.whole ++ 46 :: t.frac ++ t.lineEnd

/-- The number printed, in hundredths of a second and in seconds. -/
def hundredths : ℕ := digitsVal 10 (t.whole ++ t.frac)

/-- The uptime in seconds. -/
def seconds : ℚ := t.hundredths / 100

/-- INTERNAL: the probe leaves the number. -/
theorem collect_text : collect t.text = t.whole ++ 46 :: t.frac := by
  apply collect_number (by simp)
  · intro b hb
    rcases List.mem_append.mp hb with hb | hb
    · exact Or.inl (t.whole_digits b hb)
    · rcases List.mem_cons.mp hb with rfl | hb
      · exact Or.inr rfl
      · exact Or.inl (t.frac_digits b hb)
  · exact t.lineEnd_trailing

/-- INTERNAL: the number is read exactly. -/
theorem strto_text : strto (t.whole ++ 46 :: t.frac) = some (.fin t.seconds) := by
  rw [strto_fraction _ _ t.whole_ne t.whole_digits t.frac_digits, t.frac_length]
  norm_num [seconds, hundredths]

end UptimeText

/-! ## The count -/

/-- The seconds as a `double`, divided by 3600. -/
def hoursRounded (A : Arithmetic) (q : ℚ) : ℚ := A.double.rnd (A.double.rnd q / 3600)

/-- INTERNAL: **rounding moves no printed number over a full hour.** A number below the
hour is at least a hundredth below it, and a dyadic number lies in between. -/
theorem natCast_le_hoursRounded_iff (A : Arithmetic) (m : ℕ) {k : ℕ} (hk : k ≤ 32767) :
    (k : ℚ) ≤ hoursRounded A (m / 100) ↔ k ≤ m / 360000 := by
  have hk' : (k : ℚ) ≤ 32767 := by exact_mod_cast hk
  rw [Nat.le_div_iff_mul_le (by norm_num)]
  constructor
  · intro h
    by_contra hlt
    have hq : (m : ℚ) / 100 ≤ (3600 * k : ℕ) - 1 / 2 ^ 7 := by
      have hm : ((m + 1 : ℕ) : ℚ) ≤ (k * 360000 : ℕ) := by exact_mod_cast not_le.mp hlt
      push_cast at hm ⊢
      linarith
    have hs := A.double.rnd_le_sub (by norm_num [binary64]; omega) (by decide) hq
    have hx : A.double.rnd (m / 100) / 3600 ≤ k - 1 / 2 ^ 19 := by
      push_cast at hs
      linarith
    have hround := A.double.rnd_le_sub (by norm_num [binary64]; omega) (by decide) hx
    unfold hoursRounded at h
    linarith
  · intro h
    have hq : ((3600 * k : ℕ) : ℚ) ≤ m / 100 := by
      have : ((k * 360000 : ℕ) : ℚ) ≤ m := by exact_mod_cast h
      push_cast at this ⊢
      linarith
    have hs : ((3600 * k : ℕ) : ℚ) ≤ A.double.rnd (m / 100) := by
      rw [← A.double.rnd_natCast (3600 * k) (by norm_num [binary64]; omega)]
      exact A.double.mono hq
    have hx : (k : ℚ) ≤ A.double.rnd (m / 100) / 3600 := by
      push_cast at hs
      linarith
    unfold hoursRounded
    rw [← A.double.rnd_natCast k (by norm_num [binary64]; omega)]
    exact A.double.mono hx

/-- INTERNAL: up to the largest number of 16 bits, the rounded quotient has the same
integral part as the exact one. -/
theorem min_floor_hoursRounded (A : Arithmetic) (m : ℕ) :
    min ⌊hoursRounded A (m / 100)⌋₊ 32767 = min (m / 360000) 32767 := by
  have hpos : 0 ≤ hoursRounded A (m / 100) := by
    have hs : 0 ≤ A.double.rnd (m / 100) := A.double.rnd_nonneg (by positivity)
    exact A.double.rnd_nonneg (by positivity)
  have hiff {k : ℕ} (hk : k ≤ 32767) : k ≤ ⌊hoursRounded A (m / 100)⌋₊ ↔ k ≤ m / 360000 := by
    rw [Nat.le_floor_iff hpos, natCast_le_hoursRounded_iff A m hk]
  apply le_antisymm
  · exact le_min ((hiff (min_le_right _ _)).mp (min_le_left _ _)) (min_le_right _ _)
  · exact le_min ((hiff (min_le_right _ _)).mpr (min_le_left _ _)) (min_le_right _ _)

namespace UptimeText

variable (t : UptimeText)

/-- The complete hours, up to the largest number of 16 bits. -/
def hours : ℕ := min 32767 ⌊t.seconds / 3600⌋₊

/-- INTERNAL: the hours, counted in hundredths of a second. -/
theorem hours_eq : t.hours = min (t.hundredths / 360000) 32767 := by
  have hq : t.seconds / 3600 = (t.hundredths : ℚ) / (360000 : ℕ) := by
    unfold seconds
    push_cast
    rw [div_div]
    norm_num
  unfold hours
  rw [hq, Nat.floor_div_eq_div, min_comm]

/-- INTERNAL: the number is in the range of `double`. -/
theorem outOfRange_seconds : binary64.outOfRange t.seconds = false := by
  apply binary64.outOfRange_of_nonneg
  · rcases Nat.eq_zero_or_pos t.hundredths with h0 | hpos
    · left
      simp [seconds, h0]
    · right
      have h1 : (1 : ℚ) ≤ t.hundredths := by exact_mod_cast hpos
      have hmin : binary64.minNormal ≤ 1 / 2 ^ 7 := by
        unfold Format.minNormal
        exact one_div_le_one_div_of_le (by positivity)
          (pow_le_pow_right₀ (by norm_num) (by decide))
      unfold seconds
      linarith
  · exact t.lt.trans (pow_lt_pow_right₀ (by norm_num) (by decide))

/-- INTERNAL: **what is made of a printed number** is the count of the complete hours. -/
theorem uptimeSecondsToHours_text (A : Arithmetic) :
    uptimeSecondsToHours A (t.whole ++ 46 :: t.frac) = some (Int16.ofInt t.hours) := by
  have hne : t.whole ++ 46 :: t.frac ≠ [] := by simp
  have hstod : stofWith A.double (t.whole ++ 46 :: t.frac) =
      some (.fin (A.double.rnd t.seconds)) := by
    simp only [stofWith, t.strto_text, t.outOfRange_seconds, Bool.false_eq_true, if_false]
  unfold uptimeSecondsToHours
  rw [if_neg hne, hstod]
  dsimp only
  split_ifs with hle
  · -- Numbers that are not positive are below the first hour.
    have hzero : t.hours = 0 := by
      by_contra hpos
      rw [hours_eq] at hpos
      have hone : ((1 : ℕ) : ℚ) ≤ hoursRounded A (t.hundredths / 100) :=
        (natCast_le_hoursRounded_iff A t.hundredths (by norm_num)).mpr (by omega)
      have hs : A.double.rnd t.seconds / 3600 ≤ 0 := by
        simp only [FloatVal.le, decide_eq_true_eq] at hle
        linarith
      have hx : hoursRounded A t.seconds ≤ 0 := by
        unfold hoursRounded
        rw [← A.double.rnd_zero]
        exact A.double.mono hs
      push_cast at hone
      unfold seconds at hx
      linarith
    rw [hzero]
    rfl
  · simp only [FloatVal.le, decide_eq_true_eq, not_le] at hle
    have hpos : 0 ≤ hoursRounded A t.seconds := A.double.rnd_nonneg (by positivity)
    have hfloor : (A.double.divConst 3600 (.fin (A.double.rnd t.seconds))).floor =
        .fin (⌊hoursRounded A t.seconds⌋₊ : ℕ) := by
      simp only [Rounding.divConst, FloatVal.floor, Nat.cast_ofNat]
      rw [natCast_floor_eq_intCast_floor hpos]
      rfl
    rw [hfloor, clampToInt16_natCast, hours_eq]
    unfold seconds
    rw [min_floor_hoursRounded]

end UptimeText

/-- The 1.6 hours of the README. -/
example : uptimeSecondsToHours .nearest (lit "5760.00") = some 1 := by decide +kernel

/-! ## Counting over a run -/

/-- What it means that a count follows the elapsed seconds: it is the number of complete
hours up to 32767, never ahead of the time, never decreasing, a step at every full hour,
and at 32767 it stays. -/
structure CountsHours (elapsed : ℕ → ℚ) (count : ℕ → ℕ) : Prop where
  floor : ∀ n, count n = min 32767 ⌊elapsed n / 3600⌋₊
  not_ahead : ∀ n, 3600 * (count n : ℚ) ≤ elapsed n
  mono : Monotone count
  step : ∀ n k, k < 32767 →
    (count n = k ↔ 3600 * (k : ℚ) ≤ elapsed n ∧ elapsed n < 3600 * (k + 1))
  stays : ∀ m n, m ≤ n → count m = 32767 → count n = 32767

/-- INTERNAL: **the floor of a clock counts the hours**. -/
theorem countsHours_of_monotone {elapsed : ℕ → ℚ} (hmono : Monotone elapsed)
    (hpos : ∀ n, 0 ≤ elapsed n) :
    CountsHours elapsed fun n => min 32767 ⌊elapsed n / 3600⌋₊ := by
  have hcount : Monotone fun n => min 32767 ⌊elapsed n / 3600⌋₊ := by
    intro m n hmn
    have hle : elapsed m / 3600 ≤ elapsed n / 3600 :=
      div_le_div_of_nonneg_right (hmono hmn) (by norm_num)
    exact min_le_min_left _ (Nat.floor_le_floor hle)
  have hfloor (n : ℕ) : (⌊elapsed n / 3600⌋₊ : ℚ) ≤ elapsed n / 3600 :=
    Nat.floor_le (div_nonneg (hpos n) (by norm_num))
  constructor
  · exact fun n => rfl
  · intro n
    have hmin : ((min 32767 ⌊elapsed n / 3600⌋₊ : ℕ) : ℚ) ≤ ⌊elapsed n / 3600⌋₊ := by
      exact_mod_cast min_le_right _ _
    have := hfloor n
    linarith
  · exact hcount
  · intro n k hk
    have hmin : min 32767 ⌊elapsed n / 3600⌋₊ = k ↔ ⌊elapsed n / 3600⌋₊ = k := by omega
    rw [hmin, Nat.floor_eq_iff (div_nonneg (hpos n) (by norm_num)), le_div_iff₀ (by norm_num),
      div_lt_iff₀ (by norm_num), mul_comm (k : ℚ), mul_comm (3600 : ℚ) (k + 1)]
  · intro m n hmn hm
    have hle := hcount hmn
    dsimp only at hm hle ⊢
    omega

/-- What the probe prints scan by scan: the number does not decrease. -/
structure UptimeRun where
  text : ℕ → UptimeText
  mono : Monotone fun n => (text n).seconds

/-- An environment in which the first field of `/proc/uptime` is printed as a text. -/
def ticking (env : Env) (t : UptimeText) : Env :=
  { env with
    popen := fun log cmd =>
      if cmd = lit "awk '\x7bprint $1\x7d' /proc/uptime" then t.text else env.popen log cmd }

/-- INTERNAL: the shared string of the uptime in this environment. -/
theorem collect_ticking (env : Env) (t : UptimeText) (log : List Event) :
    collect ((ticking env t).popen log (Cache.command .uptime)) = t.whole ++ 46 :: t.frac := by
  have hprobe : (ticking env t).popen log (Cache.command .uptime) = t.text := by
    simp only [ticking, Cache.command, if_true]
  rw [hprobe, t.collect_text]

/-- INTERNAL: what a scan publishes when the probe prints a text. -/
theorem value_uptime (env : Env) (t : UptimeText) {cs : Cache → Bytes}
    (hfresh : ∀ c, ∃ h, cs c = collect ((ticking env t).popen h c.command)) (out : Bytes) :
    Diagnostic.uptime.value (ticking env t).arith (Diagnostic.uptime.shared cs) out =
      .int16 (some (Int16.ofInt t.hours)) := by
  obtain ⟨h, hh⟩ := hfresh .uptime
  have hshared : Diagnostic.uptime.shared cs = t.whole ++ 46 :: t.frac :=
    hh.trans (collect_ticking env t h)
  rw [hshared, Diagnostic.value, t.uptimeSecondsToHours_text]

/-- **UPTIME counts complete hours over any run**: whatever the probe prints scan by scan,
as long as it does not decrease, with any channels and in environments that may change
from scan to scan, every scan publishes the complete hours of the number printed in it,
up to 32767. So the count is never ahead of the time, never decreases, steps at each full
hour and stays at 32767.
SOURCE: simple_test_protocol.cpp:27-33,46-57,144-181 -/
theorem uptime_counts_hours (u : UptimeRun) (envs : ℕ → Env) (chs : List Channel)
    (mask : BitVec 8) (p : Process) :
    let run := (scanner chs (init (load chs mask p))).run fun n => ticking (envs n) (u.text n)
    (∀ n, execute (ticking (envs n) (u.text n)) (run n) = some (run (n + 1)) ∧
      ∃ (w : List (Variable × Value)) (shown : Int16),
        writes (run (n + 1)).proc.log = writes (run n).proc.log ++ w ∧
        Publishes chs w .uptime (.int16 (some shown)) ∧ shown.toInt = (u.text n).hours) ∧
    CountsHours (fun n => (u.text n).seconds) fun n => (u.text n).hours := by
  intro run
  constructor
  · intro n
    obtain ⟨hchs, hexec⟩ := execute_scanner chs (init (load chs mask p)) rfl
      (fun n => ticking (envs n) (u.text n)) n
    refine ⟨hexec, ?_⟩
    obtain ⟨r', cs, w, hexec', hw, hall, hfresh⟩ := execute_shows (ticking (envs n) (u.text n)) chs
      (run n).self.mask (run n).self.usbModConned (run n).proc
    rw [← hchs] at hexec'
    obtain rfl := Option.some.inj (hexec.symm.trans hexec')
    have hle : (u.text n).hours ≤ 32767 := min_le_left _ _
    refine ⟨w, Int16.ofInt (u.text n).hours, hw, publishes_of_value hall ?_,
      Int16.toInt_ofInt_of_le (by omega) (by omega)⟩
    intro out
    exact value_uptime (envs n) (u.text n) hfresh out
  · apply countsHours_of_monotone u.mono
    intro n
    unfold UptimeText.seconds
    positivity

/-- `uptime_counts_hours` for a system that is scanned just before and just after it has been
running for an hour. -/
theorem uptime_counts_hours_first :
    let before : UptimeText := .ofDigits (lit "3599") (lit "99") (by decide)
    let after : UptimeText := .ofDigits (lit "3600") (lit "00") (by decide)
    let env : Env := ⟨.nearest, fun _ _ => [], fun _ _ => []⟩
    let var : Variable := ⟨1, lit "UPTIME"⟩
    ∃ r r', ∃ m n : Int16,
      execute (ticking env before) (init (load [⟨some var, none⟩] 0 ⟨fun _ => [], []⟩)) = some r ∧
      execute (ticking env after) r = some r' ∧ (var, .int16 (some m)) ∈ writes r.proc.log ∧
      (var, .int16 (some n)) ∈ writes r'.proc.log ∧ m.toInt = 0 ∧ n.toInt = 1 := by
  intro before after env var
  have hbefore : before.hundredths = 359999 := by decide
  have hafter : after.hundredths = 360000 := by decide
  let u : UptimeRun :=
    { text := fun n => if n = 0 then before else after
      mono := by
        apply monotone_nat_of_le_succ
        intro n
        have hle : before.seconds ≤ after.seconds := by
          unfold UptimeText.seconds
          rw [hbefore, hafter]
          norm_num
        cases n with
        | zero => exact hle
        | succ n => exact le_rfl }
  obtain ⟨hruns, -⟩ := uptime_counts_hours u (fun _ => env) [⟨some var, none⟩] 0 ⟨fun _ => [], []⟩
  obtain ⟨hexec, w, m, hw, hshows, hm⟩ := hruns 0
  obtain ⟨hexec', w', n, hw', hshows', hn⟩ := hruns 1
  refine ⟨_, _, m, n, hexec, hexec', ?_, ?_, ?_, ?_⟩
  · rw [hw]
    exact List.mem_append_right _ (hshows.2 _ (List.mem_singleton_self _) _ rfl rfl)
  · rw [hw']
    exact List.mem_append_right _ (hshows'.2 _ (List.mem_singleton_self _) _ rfl rfl)
  · rw [hm, show u.text 0 = before from rfl, UptimeText.hours_eq, hbefore]
    rfl
  · rw [hn, show u.text 1 = after from rfl, UptimeText.hours_eq, hafter]
    rfl

end Pca9536Driver.Analysis
