import Pca9536Driver.Library.Numeral

/-!
# The conversions `%f` and `%g` of `printf`

A number with a fixed number of decimals is printed by `fixed` (`%W.Nf`), a number with
six significant digits by `formatG` (`%.6g`), which leaves out the zeros at the end.

A number close enough to a short decimal is printed as that decimal (`formatG_near`), so
the rounding errors of a few additions do not show. A decimal is read back exactly
(`strto_decimals`, `strto_stripped`), any number up to a few parts in a million
(`strto_formatG`).
-/

set_option autoImplicit false

namespace Pca9536Driver.Library

/-! ## Decimals -/

/-- The last `n` digits of a number, leading zeros included. -/
def lastDigits : ℕ → ℕ → Bytes
  | 0, _ => []
  | n + 1, d => lastDigits n (d / 10) ++ [digitByte (d % 10)]

/-- The number of digits is the one asked for. -/
@[simp] theorem length_lastDigits (n d : ℕ) : (lastDigits n d).length = n := by
  induction n generalizing d with
  | zero => rfl
  | succ n ih => simp [lastDigits, ih]

/-- These bytes are digits. -/
theorem isDigit_of_mem_lastDigits (n d : ℕ) : ∀ b ∈ lastDigits n d, isDigit 10 b = true := by
  induction n generalizing d with
  | zero => simp [lastDigits]
  | succ n ih =>
    have hmod : d % 10 < 10 := Nat.mod_lt _ (by norm_num)
    intro b hb
    rcases List.mem_append.mp hb with hb | hb
    · exact ih _ b hb
    · simp only [List.mem_singleton] at hb
      simp [hb, isDigit, digitVal_digitByte hmod, hmod]

/-- INTERNAL: the value of the last digits. -/
theorem digitsVal_lastDigits (n d : ℕ) : digitsVal 10 (lastDigits n d) = d % 10 ^ n := by
  induction n generalizing d with
  | zero => simp [lastDigits, Nat.mod_one]
  | succ n ih =>
    unfold lastDigits
    rw [digitsVal_concat, ih, digitVal_digitByte (Nat.mod_lt _ (by norm_num)),
      pow_succ', Nat.mod_mul]
    ring

/-- INTERNAL: the digits on both sides of the point make up the number. -/
theorem digitsVal_decimals (n d : ℕ) :
    digitsVal 10 (decimal (d / 10 ^ n) ++ lastDigits n d) = d := by
  rw [digitsVal_append, digitsVal_decimal, digitsVal_lastDigits, length_lastDigits,
    Nat.div_add_mod']

/-- The number `d / 10 ^ n` with all of its `n` decimals. -/
def decimals (n d : ℕ) : Bytes := decimal (d / 10 ^ n) ++ 46 :: lastDigits n d

/-- The number `d / 10 ^ n` with its decimals, without the zeros at the end and without
the point if nothing follows it. -/
def stripped (n d : ℕ) : Bytes :=
  let frac := (lastDigits n d).rdropWhile (· = 48)
  if frac = [] then decimal (d / 10 ^ n) else decimal (d / 10 ^ n) ++ 46 :: frac

/-- INTERNAL: a zero at the end is not printed. -/
theorem stripped_succ_mul (n d : ℕ) : stripped (n + 1) (10 * d) = stripped n d := by
  have hzero : digitByte 0 = 48 := by decide
  have hdiv : 10 * d / 10 ^ (n + 1) = d / 10 ^ n := by
    rw [pow_succ', Nat.mul_div_mul_left _ _ (by norm_num)]
  have hlast : lastDigits (n + 1) (10 * d) = lastDigits n d ++ [48] := by
    simp [lastDigits, hzero]
  simp only [stripped, hdiv, hlast]
  rw [List.rdropWhile_concat_pos _ _ _ (by simp)]

/-- INTERNAL: no zeros at the end are printed. -/
theorem stripped_add_mul (n k d : ℕ) : stripped (n + k) (d * 10 ^ k) = stripped n d := by
  induction k with
  | zero => simp
  | succ k ih =>
    rw [pow_succ, ← mul_assoc, mul_comm _ 10, ← add_assoc, stripped_succ_mul, ih]

/-- INTERNAL: without a zero at the end nothing is cut off. -/
theorem stripped_of_mod_ne (n d : ℕ) (h : d % 10 ≠ 0) :
    stripped (n + 1) d = decimals (n + 1) d := by
  have hbyte : digitByte (d % 10) ≠ 48 := by
    intro heq
    have hval := congrArg digitVal heq
    rw [digitVal_digitByte (Nat.mod_lt _ (by norm_num))] at hval
    exact h hval
  have hkeep : (lastDigits (n + 1) d).rdropWhile (· = 48) = lastDigits (n + 1) d :=
    List.rdropWhile_concat_neg _ _ _ (by simpa using hbyte)
  have hne : lastDigits (n + 1) d ≠ [] := by simp [lastDigits]
  simp only [stripped, hkeep, hne, if_false, decimals]

/-- **A number with a fixed number of decimals is read back.** -/
theorem strto_decimals (n d : ℕ) : strto (decimals n d) = some (.fin (d / 10 ^ n)) := by
  unfold decimals
  rw [strto_fraction _ _ (decimal_ne_nil _) (isDigit_of_mem_decimal _)
    (isDigit_of_mem_lastDigits n d), digitsVal_decimals, length_lastDigits]

/-- **A number without its zeros at the end is read back.** -/
theorem strto_stripped (n d : ℕ) : strto (stripped n d) = some (.fin (d / 10 ^ n)) := by
  induction n generalizing d with
  | zero =>
    have hnil : (lastDigits 0 d).rdropWhile (· = 48) = [] := rfl
    simp [stripped, hnil, strto_decimal]
  | succ n ih =>
    by_cases h : d % 10 = 0
    · obtain ⟨e, rfl⟩ := Nat.dvd_of_mod_eq_zero h
      rw [stripped_succ_mul, ih]
      congr 2
      push_cast
      rw [pow_succ', mul_div_mul_left _ _ (by norm_num)]
    · rw [stripped_of_mod_ne n d h, strto_decimals]

/-- Such a text consists of digits and a point. -/
theorem mem_stripped {n d : ℕ} {b : UInt8} (h : b ∈ stripped n d) :
    isDigit 10 b = true ∨ b = 46 := by
  simp only [stripped] at h
  split_ifs at h with hnil
  · exact Or.inl (isDigit_of_mem_decimal _ b h)
  · rcases List.mem_append.mp h with h | h
    · exact Or.inl (isDigit_of_mem_decimal _ b h)
    · rcases List.mem_cons.mp h with rfl | h
      · exact Or.inr rfl
      · exact Or.inl (isDigit_of_mem_lastDigits n d b ((List.rdropWhile_prefix _ _).subset h))

/-- Such a text is not empty. -/
theorem stripped_ne_nil (n d : ℕ) : stripped n d ≠ [] := by
  simp only [stripped]
  split_ifs <;> simp [decimal_ne_nil]

/-! ## `%W.Nf` -/

/-- The conversion `%W.Nf` of the number `d / 10 ^ N`, for the width `W`. -/
def fixed (width n d : ℕ) : Bytes :=
  List.replicate (width - (decimals n d).length) 32 ++ decimals n d

/-! ## `%.6g` -/

/-- The six significant digits of a positive number, as an integer, and the exponent of
the first one. Rounding up to seven digits moves the point. -/
def significant (q : ℚ) : ℕ × ℤ :=
  let x := Int.log 10 q
  let n := (roundEven (q / 10 ^ (x - 5))).toNat
  if n = 10 ^ 6 then (10 ^ 5, x + 1) else (n, x)

/-- The exponent of the scientific style: a sign and at least two digits. -/
def exponentText (x : ℤ) : Bytes :=
  101 :: (if x < 0 then 45 else 43) ::
    if x.natAbs < 10 then 48 :: decimal x.natAbs else decimal x.natAbs

/-- The conversion `%.6g`. -/
def formatG : FloatVal → Bytes
  | .nan => lit "nan"
  | .inf negative => if negative then lit "-inf" else lit "inf"
  | .fin q =>
    if q = 0 then lit "0"
    else
      let (n, x) := significant |q|
      let text := if -4 ≤ x ∧ x < 6 then stripped (5 - x).toNat n
        else stripped 5 n ++ exponentText x
      if q < 0 then 45 :: text else text

/-- INTERNAL: the decimal exponent of a number between two powers of ten. -/
theorem log_ten_eq {q : ℚ} {x : ℤ} (h1 : 10 ^ x ≤ q) (h2 : q < 10 ^ (x + 1)) :
    Int.log 10 q = x := by
  have hq : 0 < q := lt_of_lt_of_le (by positivity) h1
  have hle : x ≤ Int.log 10 q := (Int.zpow_le_iff_le_log (by norm_num) hq).mp (by exact_mod_cast h1)
  have hgt : Int.log 10 q < x + 1 :=
    (Int.lt_zpow_iff_log_lt (by norm_num) hq).mp (by exact_mod_cast h2)
  omega

/-- INTERNAL: **the significant digits of a number near a six-digit one** are its six
digits, also if the number lies below a power of ten and the other one does not. -/
theorem significant_eq {q : ℚ} {n : ℕ} {x : ℤ} (hlow : 10 ^ 5 ≤ n) (hhigh : n < 10 ^ 6)
    (h : |q - n * 10 ^ (x - 5)| < 10 ^ (x - 6) / 2) : significant q = (n, x) := by
  set u : ℚ := 10 ^ (x - 6) with hu
  have hupos : 0 < u := by positivity
  have h5 : (10 : ℚ) ^ (x - 5) = 10 * u := by
    rw [hu, ← zpow_one_add₀ (by norm_num)]
    congr 1
    ring
  have hx : (10 : ℚ) ^ x = 10 ^ 6 * u := by
    rw [hu, ← zpow_natCast, ← zpow_add₀ (by norm_num)]
    congr 1
    push_cast
    ring
  rw [h5] at h
  obtain ⟨h1, h2⟩ := abs_lt.mp h
  have hlow' : (10 : ℚ) ^ 5 ≤ n := by exact_mod_cast hlow
  have hhigh' : (n : ℚ) + 1 ≤ 10 ^ 6 := by exact_mod_cast hhigh
  have hn1 : 10 ^ 6 * u ≤ n * (10 * u) := by nlinarith
  have hn2 : (n + 1) * (10 * u) ≤ 10 ^ 7 * u := by nlinarith
  rcases lt_or_ge q (10 ^ x) with hlt | hge
  · -- The number lies below the power of ten, so the other one is this power.
    have hq : 10 ^ 6 * u - u / 2 < q := by linarith
    have hlog : Int.log 10 q = x - 1 := by
      refine log_ten_eq ?_ (by simpa using hlt)
      rw [zpow_sub_one₀ (by norm_num), hx]
      linarith
    have hdiv : |q / u - ((10 ^ 6 : ℤ) : ℚ)| < 1 / 2 := by
      have hsub : q / u - ((10 ^ 6 : ℤ) : ℚ) = (q - 10 ^ 6 * u) / u := by
        push_cast
        rw [sub_div, mul_div_assoc, div_self hupos.ne', mul_one]
        norm_num
      rw [hsub, abs_div, abs_of_pos hupos, div_lt_iff₀ hupos, abs_lt]
      rw [hx] at hlt
      constructor <;> linarith
    have hn : n = 10 ^ 5 := by
      have hlt' : (n : ℚ) < 10 ^ 5 + 1 := by
        by_contra hcon
        push Not at hcon
        have : (10 ^ 5 + 1) * (10 * u) ≤ n * (10 * u) :=
          mul_le_mul_of_nonneg_right hcon (by positivity)
        rw [hx] at hlt
        linarith
      have : n < 10 ^ 5 + 1 := by exact_mod_cast hlt'
      omega
    have hexp : x - 1 - 5 = x - 6 := by ring
    simp only [significant, hlog, hexp, ← hu, roundEven_eq hdiv]
    norm_num [hn]
    rfl
  · have hlog : Int.log 10 q = x := by
      apply log_ten_eq hge
      rw [zpow_add_one₀ (by norm_num), hx]
      linarith
    have hdiv : |q / (10 * u) - ((n : ℤ) : ℚ)| < 1 / 2 := by
      have hsub : q / (10 * u) - ((n : ℤ) : ℚ) = (q - n * (10 * u)) / (10 * u) := by
        push_cast
        field_simp
      rw [hsub, abs_div, abs_of_pos (by positivity : 0 < 10 * u), div_lt_iff₀ (by positivity)]
      linarith
    have hne : n ≠ 10 ^ 6 := hhigh.ne
    simp only [significant, hlog, h5, roundEven_eq hdiv, Int.toNat_natCast, hne, if_false]

/-- INTERNAL: **a number near a short decimal** is printed as that decimal. -/
theorem formatG_near {n d : ℕ} {q : ℚ} (hn : n ≤ 4) (hd : d ≠ 0) (hlt : d < 10 ^ 6)
    (hq : |q - d / 10 ^ n| < 1 / (2 * 10 ^ (n + 6))) : formatG (.fin q) = stripped n d := by
  -- Zeros behind the last digit make it a number with six digits.
  obtain ⟨k, hk, hlow, hhigh⟩ : ∃ k ≤ 5, 10 ^ 5 ≤ d * 10 ^ k ∧ d * 10 ^ k < 10 ^ 6 := by
    have hlog : Nat.log 10 d < 6 := Nat.log_lt_of_lt_pow hd hlt
    refine ⟨5 - Nat.log 10 d, by omega, ?_, ?_⟩
    · calc 10 ^ 5 = 10 ^ Nat.log 10 d * 10 ^ (5 - Nat.log 10 d) := by
            rw [← pow_add]
            congr 1
            omega
        _ ≤ d * 10 ^ (5 - Nat.log 10 d) := Nat.mul_le_mul_right _ (Nat.pow_log_le_self 10 hd)
    · calc d * 10 ^ (5 - Nat.log 10 d)
          < 10 ^ (Nat.log 10 d + 1) * 10 ^ (5 - Nat.log 10 d) :=
            Nat.mul_lt_mul_of_pos_right (Nat.lt_pow_succ_log_self (by norm_num) d) (by positivity)
        _ = 10 ^ 6 := by
            rw [← pow_add]
            congr 1
            omega
  set x : ℤ := 5 - n - k with hx
  have hvalue : ((d * 10 ^ k : ℕ) : ℚ) * 10 ^ (x - 5) = d / 10 ^ n := by
    have hexp : x - 5 = -((k + n : ℕ) : ℤ) := by push_cast; omega
    rw [hexp, zpow_neg, zpow_natCast, pow_add]
    push_cast
    field_simp
  have hclose : |q - ((d * 10 ^ k : ℕ) : ℚ) * 10 ^ (x - 5)| < 10 ^ (x - 6) / 2 := by
    rw [hvalue]
    apply hq.trans_le
    have hexp : x - 6 = -((n + k + 1 : ℕ) : ℤ) := by push_cast; omega
    rw [hexp, zpow_neg, zpow_natCast, ← one_div, div_div, mul_comm _ (2 : ℚ)]
    have hpow : (10 : ℚ) ^ (n + k + 1) ≤ 10 ^ (n + 6) :=
      pow_le_pow_right₀ (by norm_num) (by omega)
    exact one_div_le_one_div_of_le (by positivity) (by linarith)
  have hpos : 0 < q := by
    have hd1 : (1 : ℚ) ≤ d := by exact_mod_cast Nat.one_le_iff_ne_zero.mpr hd
    have h1 : (1 : ℚ) / 10 ^ n ≤ d / 10 ^ n := by gcongr
    have h2 : (1 : ℚ) / (2 * 10 ^ (n + 6)) < 1 / 10 ^ n := by
      rw [pow_add]
      apply one_div_lt_one_div_of_lt (by positivity)
      nlinarith [show (0 : ℚ) < 10 ^ n by positivity]
    linarith [(abs_lt.mp hq).1]
  have hstyle : -4 ≤ x ∧ x < 6 := by omega
  have hplaces : (5 - x).toNat = n + k := by omega
  simp only [formatG, hpos.ne', if_false, abs_of_pos hpos, significant_eq hlow hhigh hclose,
    hstyle, and_self, if_true, hplaces, not_lt.mpr hpos.le]
  exact stripped_add_mul n k d

/-! ## Reading `%.6g` back -/

/-- INTERNAL: the significant digits are six, and they differ from the number by less than
one part in a hundred thousand. -/
theorem significant_spec {q : ℚ} (hq : 0 < q) :
    10 ^ 5 ≤ (significant q).1 ∧ (significant q).1 < 10 ^ 6 ∧
      |((significant q).1 : ℚ) * 10 ^ ((significant q).2 - 5) - q| ≤ q * (5 / 10 ^ 6) := by
  set x := Int.log 10 q with hx
  set u : ℚ := 10 ^ (x - 5) with hu
  have hupos : 0 < u := by positivity
  have hlow : 10 ^ 5 * u ≤ q := by
    have h := Int.zpow_log_le_self (b := 10) (by norm_num) hq
    have hpow : (10 : ℚ) ^ x = 10 ^ 5 * u := by
      rw [hu, ← zpow_natCast, ← zpow_add₀ (by norm_num)]
      congr 1
      push_cast
      ring
    rw [← hpow]
    exact_mod_cast h
  have hhigh : q < 10 ^ 6 * u := by
    have h := Int.lt_zpow_succ_log_self (b := 10) (by norm_num) q
    have hpow : (10 : ℚ) ^ (x + 1) = 10 ^ 6 * u := by
      rw [hu, ← zpow_natCast, ← zpow_add₀ (by norm_num)]
      congr 1
      push_cast
      ring
    rw [← hpow]
    exact_mod_cast h
  -- The rounded quotient has six digits, or it is the next power of ten.
  have hmin : (10 ^ 5 : ℤ) ≤ roundEven (q / u) := by
    rw [← roundEven_intCast (10 ^ 5)]
    apply roundEven_mono
    rw [le_div_iff₀ hupos]
    exact_mod_cast hlow
  have hmax : roundEven (q / u) ≤ (10 ^ 6 : ℤ) := by
    rw [← roundEven_intCast (10 ^ 6)]
    apply roundEven_mono
    rw [div_le_iff₀ hupos]
    exact_mod_cast hhigh.le
  have hnat : ((roundEven (q / u)).toNat : ℚ) = roundEven (q / u) := by
    exact_mod_cast Int.toNat_of_nonneg (le_trans (by norm_num) hmin)
  have hnear : |((roundEven (q / u)).toNat : ℚ) * u - q| ≤ q * (5 / 10 ^ 6) := by
    have hsub : ((roundEven (q / u)).toNat : ℚ) * u - q = (roundEven (q / u) - q / u) * u := by
      rw [hnat, sub_mul, div_mul_cancel₀ _ hupos.ne']
    have hround := mul_le_mul_of_nonneg_right (abs_roundEven_sub_le (q / u)) hupos.le
    rw [hsub, abs_mul, abs_of_pos hupos]
    linarith
  by_cases hcarry : (roundEven (q / u)).toNat = 10 ^ 6
  · have hsig : significant q = (10 ^ 5, x + 1) := by
      simp only [significant, ← hx, ← hu, hcarry, if_true]
    have hvalue : ((10 ^ 5 : ℕ) : ℚ) * 10 ^ (x + 1 - 5) = ((10 ^ 6 : ℕ) : ℚ) * u := by
      have hexp : x + 1 - 5 = (x - 5) + 1 := by ring
      rw [hexp, zpow_add_one₀ (by norm_num), ← hu]
      push_cast
      ring
    rw [hsig]
    refine ⟨le_rfl, by norm_num, ?_⟩
    rw [hvalue, ← hcarry]
    exact hnear
  · have hsig : significant q = ((roundEven (q / u)).toNat, x) := by
      simp only [significant, ← hx, ← hu, hcarry, if_false]
    rw [hsig]
    exact ⟨by omega, by omega, hnear⟩

/-- INTERNAL: a printed exponent is read back. -/
theorem exponent_exponentText (x : ℤ) : exponent 101 (exponentText x) = x := by
  have hdigits : ∀ t : Bytes, (t = decimal x.natAbs ∨ t = 48 :: decimal x.natAbs) →
      (digitsVal 10 (t.takeWhile (isDigit 10)) : ℤ) = |x| := by
    intro t ht
    have hall : ∀ b ∈ t, isDigit 10 b = true := by
      intro b hb
      rcases ht with rfl | rfl
      · exact isDigit_of_mem_decimal _ b hb
      · rcases List.mem_cons.mp hb with rfl | hb
        · decide
        · exact isDigit_of_mem_decimal _ b hb
    rw [List.takeWhile_eq_self_iff.mpr hall, Int.abs_eq_natAbs]
    rcases ht with rfl | rfl
    · rw [digitsVal_decimal]
    · rw [← List.singleton_append, digitsVal_append, digitsVal_decimal]
      simp [digitsVal, digitVal]
  set t := if x.natAbs < 10 then 48 :: decimal x.natAbs else decimal x.natAbs with ht
  have hval := hdigits t (by rw [ht]; split_ifs <;> simp)
  unfold exponentText
  rw [← ht]
  split_ifs with hneg
  · simp only [exponent, true_or, if_true, hval]
    rw [abs_of_neg hneg, neg_neg]
  · simp only [exponent, true_or, if_true, hval]
    exact abs_of_nonneg (not_lt.mp hneg)

/-- **A number in exponent notation is read back.** -/
theorem strto_scientific (n d : ℕ) (x : ℤ) :
    strto (stripped n d ++ exponentText x) = some (.fin (d / 10 ^ n * 10 ^ x)) := by
  have htail : ∃ rest, exponentText x = 101 :: rest := ⟨_, rfl⟩
  obtain ⟨rest, hrest⟩ := htail
  have hexp := exponent_exponentText x
  rw [hrest] at hexp ⊢
  -- What follows the first digit is a digit, the point or the marker.
  have hread (whole tail : Bytes) (m : ℚ) (hne : whole ≠ [])
      (hw : ∀ b ∈ whole, isDigit 10 b = true) (htail : ∀ y t, tail = y :: t → y ≠ 120 ∧ y ≠ 88)
      (hm : mantissa 10 (whole ++ tail) = some (m, 101 :: rest)) :
      strto (whole ++ tail) = some (.fin (m * 10 ^ x)) := by
    obtain ⟨b, w, rfl⟩ := List.exists_cons_of_ne_nil hne
    have hfollow : ∀ y t, w ++ tail = y :: t → y ≠ 120 ∧ y ≠ 88 := by
      intro y t heq
      cases w with
      | nil => exact htail y t heq
      | cons c w =>
        obtain rfl : c = y := (List.cons.inj heq).1
        have hr := digit_byte_range (hw c (by simp))
        constructor <;> (rintro rfl; simp at hr)
    have hall := strto_of_mantissa (hw b (by simp)) hfollow hm
    rwa [hexp] at hall
  induction n generalizing d with
  | zero =>
    have hnil : stripped 0 d = decimal d := by
      have h : (lastDigits 0 d).rdropWhile (· = 48) = [] := rfl
      simp [stripped, h]
    rw [hnil, hread _ _ _ (decimal_ne_nil d) (isDigit_of_mem_decimal d) _
      (mantissa_marker (by decide) (by decide) _ rest (decimal_ne_nil d)
        (isDigit_of_mem_decimal d)), digitsVal_decimal]
    · simp
    · intro y t heq
      rw [← (List.cons.inj heq).1]
      decide
  | succ n ih =>
    by_cases h : d % 10 = 0
    · obtain ⟨e, rfl⟩ := Nat.dvd_of_mod_eq_zero h
      rw [stripped_succ_mul, ih]
      congr 3
      push_cast
      rw [pow_succ', mul_div_mul_left _ _ (by norm_num)]
    · rw [stripped_of_mod_ne n d h]
      unfold decimals
      rw [List.append_assoc, List.cons_append, hread _ _ _ (decimal_ne_nil _)
        (isDigit_of_mem_decimal _) _ (mantissa_fraction_marker _ _ rest (decimal_ne_nil _)
          (isDigit_of_mem_decimal _) (isDigit_of_mem_lastDigits _ d)), digitsVal_decimals,
        length_lastDigits]
      intro y t heq
      rw [← (List.cons.inj heq).1]
      decide

/-- INTERNAL: such a text begins with a digit. -/
theorem head_stripped (n d : ℕ) : ∃ b t, stripped n d = b :: t ∧ isDigit 10 b = true := by
  obtain ⟨b, w, hdec⟩ := List.exists_cons_of_ne_nil (decimal_ne_nil (d / 10 ^ n))
  have hb : isDigit 10 b = true := isDigit_of_mem_decimal (d / 10 ^ n) b (by simp [hdec])
  simp only [stripped, hdec]
  split_ifs
  · exact ⟨b, w, rfl, hb⟩
  · exact ⟨b, w ++ _, rfl, hb⟩

/-- Six significant digits with the point or the exponent `%.6g` gives them. -/
def style (n : ℕ) (x : ℤ) : Bytes :=
  if -4 ≤ x ∧ x < 6 then stripped (5 - x).toNat n else stripped 5 n ++ exponentText x

/-- INTERNAL: a number other than 0 is printed with its significant digits. -/
theorem formatG_of_ne_zero {q : ℚ} (hq : q ≠ 0) :
    formatG (.fin q) =
      if q < 0 then 45 :: style (significant |q|).1 (significant |q|).2
      else style (significant |q|).1 (significant |q|).2 := by
  simp only [formatG, hq, if_false, style]

/-- INTERNAL: **both styles denote the significant digits** at their place. -/
theorem strto_style (n : ℕ) (x : ℤ) :
    strto (style n x) = some (.fin (n * 10 ^ (x - 5))) ∧
      ∃ b t, style n x = b :: t ∧ isDigit 10 b = true := by
  unfold style
  split_ifs with hstyle
  · refine ⟨?_, head_stripped _ n⟩
    have hexp : x - 5 = -((5 - x).toNat : ℤ) := by omega
    rw [strto_stripped, hexp, zpow_neg, zpow_natCast, div_eq_mul_inv]
  · obtain ⟨b, t, hhead, hb⟩ := head_stripped 5 n
    refine ⟨?_, b, t ++ exponentText x, by rw [hhead]; rfl, hb⟩
    have hpow : (n : ℚ) / 10 ^ 5 * 10 ^ x = n * 10 ^ (x - 5) := by
      rw [zpow_sub₀ (by norm_num)]
      norm_num
      ring
    rw [strto_scientific, hpow]

/-- INTERNAL: **the round trip of a number through `%.6g`** changes it by less than one
part in a hundred thousand. -/
theorem strto_formatG (q : ℚ) :
    ∃ y, strto (formatG (.fin q)) = some (.fin y) ∧ |y - q| ≤ |q| * (5 / 10 ^ 6) := by
  rcases eq_or_ne q 0 with rfl | hq
  · have hzero : formatG (.fin 0) = decimal 0 := by decide
    exact ⟨0, by rw [hzero, strto_decimal, Nat.cast_zero], by simp⟩
  · obtain ⟨-, -, hnear⟩ := significant_spec (abs_pos.mpr hq)
    obtain ⟨hread, b, t, hhead, hb⟩ := strto_style (significant |q|).1 (significant |q|).2
    rw [formatG_of_ne_zero hq]
    set y : ℚ := (significant |q|).1 * 10 ^ ((significant |q|).2 - 5)
    by_cases hneg : q < 0
    · refine ⟨-y, ?_, ?_⟩
      · rw [if_pos hneg, hhead, strto_minus_cons t hb, ← hhead, hread]
        rfl
      · have hflip : -y - q = -(y - |q|) := by
          rw [abs_of_neg hneg]
          ring
        rw [hflip, abs_neg]
        exact hnear
    · refine ⟨y, by rw [if_neg hneg, hread], ?_⟩
      rw [abs_of_nonneg (not_lt.mp hneg)] at hnear ⊢
      exact hnear

/-- The bytes of an exponent. -/
theorem mem_exponentText {x : ℤ} {b : UInt8} (h : b ∈ exponentText x) :
    isDigit 10 b = true ∨ b ∈ lit ".e+-" := by
  unfold exponentText at h
  rcases List.mem_cons.mp h with rfl | h
  · exact Or.inr (by decide)
  · rcases List.mem_cons.mp h with rfl | h
    · right
      split_ifs <;> decide
    · left
      split_ifs at h
      · rcases List.mem_cons.mp h with rfl | h
        · decide
        · exact isDigit_of_mem_decimal _ b h
      · exact isDigit_of_mem_decimal _ b h

/-- The bytes of a number printed by `%.6g`. -/
theorem mem_formatG {q : ℚ} {b : UInt8} (h : b ∈ formatG (.fin q)) :
    isDigit 10 b = true ∨ b ∈ lit ".e+-" := by
  have hstripped {n d : ℕ} (hb : b ∈ stripped n d) : isDigit 10 b = true ∨ b ∈ lit ".e+-" := by
    rcases mem_stripped hb with hb | rfl
    · exact Or.inl hb
    · exact Or.inr (by decide)
  have hstyle {n : ℕ} {x : ℤ} (hb : b ∈ style n x) : isDigit 10 b = true ∨ b ∈ lit ".e+-" := by
    unfold style at hb
    split_ifs at hb
    · exact hstripped hb
    · exact (List.mem_append.mp hb).elim hstripped mem_exponentText
  rcases eq_or_ne q 0 with rfl | hq
  · have hzero : formatG (.fin 0) = decimal 0 := by decide
    rw [hzero] at h
    exact Or.inl (isDigit_of_mem_decimal 0 b h)
  · rw [formatG_of_ne_zero hq] at h
    split_ifs at h
    · rcases List.mem_cons.mp h with rfl | h
      · exact Or.inr (by decide)
      · exact hstyle h
    · exact hstyle h

end Pca9536Driver.Library
