import Pca9536Driver.Library.Bytes
import Pca9536Driver.Library.Floating

/-!
# Numbers as text

Reading and printing numbers the way the C library does. `strto` is the common part of
`strtof` and `strtod`: optional blanks, an optional sign, then the longest decimal or
hexadecimal numeral, an infinity or a NaN; `decimal` is `std::to_string` of a natural
number. What is read is exact; rounding to a format comes after it (`stofWith`,
`atofWith`).

The facts used later are the round trips: a text of digits, with or without a decimal
point, is read as the number it denotes (`strto_digits`, `strto_fraction`).
-/

set_option autoImplicit false

namespace Pca9536Driver.Library

/-! ## Digits -/

/-- The value of a digit; 16 for a byte that is a digit of no base. -/
def digitVal (b : UInt8) : ℕ :=
  if 48 ≤ b.toNat ∧ b.toNat ≤ 57 then b.toNat - 48
  else if 97 ≤ b.toNat ∧ b.toNat ≤ 102 then b.toNat - 87
  else if 65 ≤ b.toNat ∧ b.toNat ≤ 70 then b.toNat - 55
  else 16

/-- Whether a byte is a digit to the base. -/
def isDigit (base : ℕ) (b : UInt8) : Bool := decide (digitVal b < base)

/-- The number a run of digits denotes. -/
def digitsVal (base : ℕ) (s : Bytes) : ℕ := s.foldl (fun acc b => acc * base + digitVal b) 0

/-- No digits count as 0. -/
@[simp] theorem digitsVal_nil (base : ℕ) : digitsVal base [] = 0 := rfl

/-- One digit more. -/
@[simp] theorem digitsVal_concat (base : ℕ) (s : Bytes) (b : UInt8) :
    digitsVal base (s ++ [b]) = digitsVal base s * base + digitVal b := by
  simp [digitsVal]

/-- INTERNAL: the digits in front count by the length of the others. -/
theorem digitsVal_append (base : ℕ) (s t : Bytes) :
    digitsVal base (s ++ t) = digitsVal base s * base ^ t.length + digitsVal base t := by
  induction t using List.reverseRecOn with
  | nil => simp
  | append_singleton t b ih =>
    rw [← List.append_assoc, digitsVal_concat, digitsVal_concat, ih, List.length_append,
      List.length_singleton, pow_succ]
    ring

/-- The byte of a decimal digit. -/
def digitByte (d : ℕ) : UInt8 := d.digitChar.toUInt8

/-- A digit is read back. -/
theorem digitVal_digitByte {d : ℕ} (h : d < 10) : digitVal (digitByte d) = d := by
  interval_cases d <;> decide

/-- `std::to_string(n)` for a natural number. -/
def decimal (n : ℕ) : Bytes := (Nat.toDigits 10 n).map Char.toUInt8

/-- A number below ten has one digit. -/
theorem decimal_of_lt {n : ℕ} (h : n < 10) : decimal n = [digitByte n] := by
  simp [decimal, digitByte, Nat.toDigits_of_lt_base h]

/-- INTERNAL: the last digit of a number. -/
theorem decimal_of_le {n : ℕ} (h : 10 ≤ n) :
    decimal n = decimal (n / 10) ++ [digitByte (n % 10)] := by
  simp [decimal, digitByte, Nat.toDigits_of_base_le (by norm_num : 1 < 10) h]

/-- Every number has a digit. -/
theorem decimal_ne_nil (n : ℕ) : decimal n ≠ [] := by
  simp [decimal, Nat.toDigits_ne_nil]

/-- INTERNAL: every byte printed is a decimal digit. -/
theorem isDigit_of_mem_decimal (n : ℕ) : ∀ b ∈ decimal n, isDigit 10 b = true := by
  induction n using Nat.strong_induction_on with
  | _ n ih =>
    rcases lt_or_ge n 10 with h | h
    · rw [decimal_of_lt h]
      simp [isDigit, digitVal_digitByte h, h]
    · rw [decimal_of_le h]
      have hmod : n % 10 < 10 := Nat.mod_lt _ (by norm_num)
      intro b hb
      rcases List.mem_append.mp hb with hb | hb
      · exact ih (n / 10) (by omega) b hb
      · simp only [List.mem_singleton] at hb
        simp [hb, isDigit, digitVal_digitByte hmod, hmod]

/-- INTERNAL: **printing and reading a natural number** gives it back. -/
theorem digitsVal_decimal (n : ℕ) : digitsVal 10 (decimal n) = n := by
  induction n using Nat.strong_induction_on with
  | _ n ih =>
    rcases lt_or_ge n 10 with h | h
    · simp [decimal_of_lt h, digitsVal, digitVal_digitByte h]
    · rw [decimal_of_le h, digitsVal_concat, ih (n / 10) (by omega),
        digitVal_digitByte (Nat.mod_lt _ (by norm_num))]
      omega

/-- INTERNAL: only zero is printed with a leading zero. -/
theorem head_decimal_ne (n : ℕ) (hn : n ≠ 0) (s : Bytes) : decimal n ≠ 48 :: s := by
  induction n using Nat.strong_induction_on generalizing s with
  | _ n ih =>
    rcases lt_or_ge n 10 with h | h
    · rw [decimal_of_lt h]
      intro heq
      have hd := congrArg digitVal (List.cons.inj heq).1
      rw [digitVal_digitByte h] at hd
      exact hn hd
    · rw [decimal_of_le h]
      obtain ⟨b, t, hbt⟩ := List.exists_cons_of_ne_nil (decimal_ne_nil (n / 10))
      rw [hbt]
      rintro heq
      obtain rfl : b = 48 := (List.cons.inj heq).1
      exact ih (n / 10) (by omega) (by omega) t hbt

/-- `strtol` with base 0 on a whole text without sign: a leading `0x` means hexadecimal,
another leading zero octal. -/
def wholeNat (s : Bytes) : Option ℕ :=
  let read (base : ℕ) (t : Bytes) : Option ℕ :=
    if t ≠ [] ∧ t.all (isDigit base) then some (digitsVal base t) else none
  match s with
  | 48 :: 120 :: t | 48 :: 88 :: t => read 16 t
  | 48 :: t => read 8 (48 :: t)
  | t => read 10 t

/-- INTERNAL: **a printed natural number is read back**, whatever its first digit. -/
theorem wholeNat_decimal (n : ℕ) : wholeNat (decimal n) = some n := by
  rcases eq_or_ne n 0 with rfl | hn
  · decide
  · have hall : (decimal n).all (isDigit 10) = true := by
      simpa using isDigit_of_mem_decimal n
    have hread : wholeNat (decimal n) =
        if decimal n ≠ [] ∧ (decimal n).all (isDigit 10) then some (digitsVal 10 (decimal n))
        else none := by
      unfold wholeNat
      split
      · rename_i t heq; exact absurd heq (head_decimal_ne n hn _)
      · rename_i t heq; exact absurd heq (head_decimal_ne n hn _)
      · rename_i t _ _ heq; exact absurd heq (head_decimal_ne n hn _)
      · rfl
    rw [hread, if_pos ⟨decimal_ne_nil n, hall⟩, digitsVal_decimal]

/-! ## Reading -/

/-- The characters `isspace` accepts. -/
def isSpace (b : UInt8) : Bool := b = 32 || (9 ≤ b.toNat && b.toNat ≤ 13)

/-- Whether the text starts with the word, upper and lower case alike. -/
def startsWith (word s : Bytes) : Bool :=
  (s.take word.length).map (fun b => if 65 ≤ b.toNat ∧ b.toNat ≤ 90 then b + 32 else b) = word

/-- A signed exponent behind its marker (given in lower case), 0 if there is none. -/
def exponent (marker : UInt8) : Bytes → ℤ
  | b :: s =>
    if b = marker ∨ b + 32 = marker then
      match s with
      | 45 :: t => -(digitsVal 10 (t.takeWhile (isDigit 10)))
      | 43 :: t => digitsVal 10 (t.takeWhile (isDigit 10))
      | t => digitsVal 10 (t.takeWhile (isDigit 10))
    else 0
  | [] => 0

/-- The digits behind a decimal point, if the text starts with one, and the rest. -/
def fraction (base : ℕ) : Bytes → Bytes × Bytes
  | 46 :: t => (t.takeWhile (isDigit base), t.dropWhile (isDigit base))
  | t => ([], t)

/-- The longest run of digits with at most one point, as a number, and the rest of the
text; `none` without any digit. -/
def mantissa (base : ℕ) (s : Bytes) : Option (ℚ × Bytes) :=
  let whole := s.takeWhile (isDigit base)
  let (frac, rest) := fraction base (s.dropWhile (isDigit base))
  if whole = [] ∧ frac = [] then none
  else some (digitsVal base (whole ++ frac) / base ^ frac.length, rest)

/-- A decimal number with its exponent. -/
def decimalNumeral (s : Bytes) : Option ℚ :=
  (mantissa 10 s).map fun (m, rest) => m * 10 ^ exponent 101 rest

/-- A hexadecimal numeral with its binary exponent. -/
def hexNumeral : Bytes → Option ℚ
  | 48 :: x :: s =>
    if x = 120 ∨ x = 88 then
      (mantissa 16 s).map fun (m, rest) => m * 2 ^ exponent 112 rest
    else none
  | _ => none

/-- What `strtof` and `strtod` accept behind the sign. -/
def unsignedNum (s : Bytes) : Option FloatVal :=
  if startsWith (lit "inf") s then some (.inf false)
  else if startsWith (lit "nan") s then some .nan
  else ((hexNumeral s).orElse fun _ => decimalNumeral s).map .fin

/-- The exact value `strtof` and `strtod` find at the start of a text, `none` if no
conversion can be performed. -/
def strto (s : Bytes) : Option FloatVal :=
  match s.dropWhile isSpace with
  | 45 :: t => (unsignedNum t).map FloatVal.neg
  | 43 :: t => unsignedNum t
  | t => unsignedNum t

/-- There is no numeral in an empty text. -/
theorem ne_nil_of_strto {value : Bytes} {v : FloatVal} (h : strto value = some v) :
    value ≠ [] := by
  rintro rfl
  have hnil : strto [] = none := by decide
  rw [hnil] at h
  cases h

section Reading

variable {f : Format}

/-- `std::stof` and `std::stod`: `none` is the exception they throw without a numeral
or out of range. -/
def stofWith (R : Rounding f) (s : Bytes) : Option FloatVal :=
  match strto s with
  | none => none
  | some (.fin q) => if f.outOfRange q then none else some (.fin (R.rnd q))
  | some v => some v

/-- `std::atof`, or `strtod` without a look at `errno`: 0 without a numeral, an infinity
beyond the range. A numeral below the range is rounded like any other: it does not become 0
unless the rounding makes it so. -/
def atofWith (R : Rounding f) (s : Bytes) : FloatVal :=
  match strto s with
  | none => .fin 0
  | some (.fin q) => if f.overflow ≤ |q| then .inf (decide (q < 0)) else .fin (R.rnd q)
  | some v => v

/-- INTERNAL: **reading preserves the order of the numerals**, as long as both are in
range. -/
theorem stofWith_le (R : Rounding f) {s t : Bytes} {x y v w : FloatVal} (hs : strto s = some x)
    (ht : strto t = some y) (h : x.le y = true) (hv : stofWith R s = some v)
    (hw : stofWith R t = some w) : v.le w = true := by
  unfold stofWith at hv hw
  rw [hs] at hv
  rw [ht] at hw
  cases x with
  | nan => simp [FloatVal.le] at h
  | inf a =>
    cases hv
    cases y with
    | nan => simp [FloatVal.le] at h
    | inf b =>
      cases hw
      exact h
    | fin q =>
      simp only [Option.ite_none_left_eq_some, Option.some.injEq] at hw
      rw [← hw.2]
      cases a <;> simp_all [FloatVal.le]
  | fin p =>
    simp only [Option.ite_none_left_eq_some, Option.some.injEq] at hv
    rw [← hv.2]
    cases y with
    | nan => simp [FloatVal.le] at h
    | inf b =>
      cases hw
      cases b <;> simp_all [FloatVal.le]
    | fin q =>
      simp only [Option.ite_none_left_eq_some, Option.some.injEq] at hw
      rw [← hw.2]
      simp only [FloatVal.le, decide_eq_true_eq] at h ⊢
      exact R.mono h

/-- INTERNAL: **without a look at the range** the order is preserved for all numerals. -/
theorem atofWith_le (R : Rounding f) {s t : Bytes} {x y : FloatVal} (hs : strto s = some x)
    (ht : strto t = some y) (h : x.le y = true) :
    (atofWith R s).le (atofWith R t) = true := by
  unfold atofWith
  rw [hs, ht]
  cases x with
  | nan => simp [FloatVal.le] at h
  | inf a =>
    cases y with
    | nan => simp [FloatVal.le] at h
    | inf b => exact h
    | fin q =>
      cases a
      · simp [FloatVal.le] at h
      · dsimp only
        split_ifs <;> simp [FloatVal.le]
  | fin p =>
    cases y with
    | nan => simp [FloatVal.le] at h
    | inf b =>
      cases b
      · dsimp only
        split_ifs <;> simp [FloatVal.le]
      · simp [FloatVal.le] at h
    | fin q =>
      simp only [FloatVal.le, decide_eq_true_eq] at h
      dsimp only
      split_ifs with hp hq hq
      · -- Both are beyond the range; the first one cannot be alone above it.
        by_cases hneg : p < 0
        · simp [FloatVal.le, hneg]
        · have hq0 : ¬ q < 0 := by linarith
          simp [FloatVal.le, hneg, hq0]
      · have hneg : p < 0 := by
          by_contra hpos
          rw [abs_of_nonneg (not_lt.mp hpos)] at hp
          exact hq (hp.trans (h.trans (le_abs_self q)))
        simp [FloatVal.le, hneg]
      · have hpos : ¬ q < 0 := by
          intro hneg
          rw [abs_of_neg hneg] at hq
          have habs : -p ≤ |p| := neg_le_abs p
          exact hp (hq.trans ((neg_le_neg h).trans habs))
        simp [FloatVal.le, hpos]
      · simp only [FloatVal.le, decide_eq_true_eq]
        exact R.mono h

end Reading

/-! ## Reading digits back -/

/-- The bytes of the decimal digits. -/
theorem digit_byte_range {b : UInt8} (h : isDigit 10 b = true) :
    48 ≤ b.toNat ∧ b.toNat ≤ 57 := by
  have hlt : digitVal b < 10 := of_decide_eq_true h
  unfold digitVal at hlt
  split_ifs at hlt <;> omega

/-- The point is no digit. -/
theorem not_isDigit_point : isDigit 10 46 = false := by decide

/-- A digit is no blank. -/
theorem isBlank_of_isDigit {b : UInt8} (h : isDigit 10 b = true) : isBlank b = false := by
  have hr := digit_byte_range h
  simp only [isBlank, Bool.or_eq_false_iff, decide_eq_false_iff_not, ← UInt8.toNat_inj]
  simp
  omega

/-- Digits contain no blank. -/
theorem any_isBlank_of_digits {s : Bytes} (h : ∀ b ∈ s, isDigit 10 b = true) :
    s.any isBlank = false := by
  rw [List.any_eq_false]
  intro b hb
  simp [isBlank_of_isDigit (h b hb)]

/-- INTERNAL: a text that begins with a digit is a hexadecimal or a decimal number. -/
theorem strto_digit_cons (b : UInt8) (s : Bytes) (hb : isDigit 10 b = true) :
    strto (b :: s) =
      ((hexNumeral (b :: s)).orElse fun _ => decimalNumeral (b :: s)).map .fin := by
  have hr := digit_byte_range hb
  have hsp : isSpace b = false := by
    simp only [isSpace, Bool.or_eq_false_iff, decide_eq_false_iff_not, Bool.and_eq_false_iff,
      ← UInt8.toNat_inj]
    simp
    omega
  have hminus : b ≠ 45 := by rintro rfl; simp at hr
  have hplus : b ≠ 43 := by rintro rfl; simp at hr
  have hi : startsWith (lit "inf") (b :: s) = false := by
    have hlit : lit "inf" = [105, 110, 102] := by decide
    have hup : ¬(65 ≤ b.toNat ∧ b.toNat ≤ 90) := by omega
    have h105 : b ≠ 105 := by rintro rfl; simp at hr
    simp [startsWith, hlit, hup, h105]
  have hn : startsWith (lit "nan") (b :: s) = false := by
    have hlit : lit "nan" = [110, 97, 110] := by decide
    have hup : ¬(65 ≤ b.toNat ∧ b.toNat ≤ 90) := by omega
    have h110 : b ≠ 110 := by rintro rfl; simp at hr
    simp [startsWith, hlit, hup, h110]
  unfold strto
  rw [List.dropWhile_cons_of_neg (by simp [hsp])]
  split
  · rename_i heq; exact absurd (List.cons.inj heq).1 hminus
  · rename_i heq; exact absurd (List.cons.inj heq).1 hplus
  · simp [unsignedNum, hi, hn]

/-- INTERNAL: a text without `0x` in front is no hexadecimal number. -/
theorem hexNumeral_eq_none (s : Bytes) (h : ∀ b x t, s = b :: x :: t → x ≠ 120 ∧ x ≠ 88) :
    hexNumeral s = none := by
  unfold hexNumeral
  split
  · rename_i x t
    have := h 48 x t rfl
    simp [this.1, this.2]
  · rfl

/-- INTERNAL: digits with a point between them are read completely. -/
theorem mantissa_fraction (whole frac : Bytes) (hne : whole ≠ [])
    (hw : ∀ b ∈ whole, isDigit 10 b = true) (hf : ∀ b ∈ frac, isDigit 10 b = true) :
    mantissa 10 (whole ++ 46 :: frac) =
      some ((digitsVal 10 (whole ++ frac) : ℚ) / 10 ^ frac.length, []) := by
  have htake : (whole ++ 46 :: frac).takeWhile (isDigit 10) = whole := by
    rw [List.takeWhile_append_of_pos hw]
    simp [not_isDigit_point]
  have hdrop : (whole ++ 46 :: frac).dropWhile (isDigit 10) = 46 :: frac := by
    rw [List.dropWhile_append_of_pos hw]
    simp [not_isDigit_point]
  have hfrac : frac.takeWhile (isDigit 10) = frac := List.takeWhile_eq_self_iff.mpr hf
  have hrest : frac.dropWhile (isDigit 10) = [] := by
    simpa [List.dropWhile_eq_nil_iff] using hf
  simp [mantissa, htake, hdrop, fraction, hfrac, hrest, hne]

/-- INTERNAL: digits are read completely. -/
theorem mantissa_digits (whole : Bytes) (hne : whole ≠ [])
    (hw : ∀ b ∈ whole, isDigit 10 b = true) :
    mantissa 10 whole = some ((digitsVal 10 whole : ℚ), []) := by
  have htake : whole.takeWhile (isDigit 10) = whole := List.takeWhile_eq_self_iff.mpr hw
  have hdrop : whole.dropWhile (isDigit 10) = [] := by
    simpa [List.dropWhile_eq_nil_iff] using hw
  simp [mantissa, htake, hdrop, fraction, hne]

/-- INTERNAL: **digits, a point and digits** are read as the number they denote. -/
theorem strto_fraction (whole frac : Bytes) (hne : whole ≠ [])
    (hw : ∀ b ∈ whole, isDigit 10 b = true) (hf : ∀ b ∈ frac, isDigit 10 b = true) :
    strto (whole ++ 46 :: frac) =
      some (.fin ((digitsVal 10 (whole ++ frac) : ℚ) / 10 ^ frac.length)) := by
  have hdec : decimalNumeral (whole ++ 46 :: frac) =
      some ((digitsVal 10 (whole ++ frac) : ℚ) / 10 ^ frac.length) := by
    simp [decimalNumeral, mantissa_fraction whole frac hne hw hf, exponent]
  have hhex : hexNumeral (whole ++ 46 :: frac) = none := by
    apply hexNumeral_eq_none
    intro c x t heq
    match whole, hne, hw with
    | [b], _, _ =>
      simp only [List.cons_append, List.nil_append, List.cons.injEq] at heq
      rw [← heq.2.1]
      decide
    | b :: d :: w, _, hw =>
      simp only [List.cons_append, List.cons.injEq] at heq
      have hr := digit_byte_range (hw d (by simp))
      rw [← heq.2.1]
      constructor <;> (rintro rfl; simp at hr)
  obtain ⟨b, w, rfl⟩ := List.exists_cons_of_ne_nil hne
  rw [List.cons_append, strto_digit_cons b _ (hw b (by simp)), ← List.cons_append, hhex, hdec]
  rfl

/-- INTERNAL: **digits alone** are read as the number they denote. -/
theorem strto_digits (whole : Bytes) (hne : whole ≠ [])
    (hw : ∀ b ∈ whole, isDigit 10 b = true) :
    strto whole = some (.fin (digitsVal 10 whole)) := by
  have hdec : decimalNumeral whole = some (digitsVal 10 whole : ℚ) := by
    simp [decimalNumeral, mantissa_digits whole hne hw, exponent]
  have hhex : hexNumeral whole = none := by
    apply hexNumeral_eq_none
    rintro c x t rfl
    have hr := digit_byte_range (hw x (by simp))
    constructor <;> (rintro rfl; simp at hr)
  obtain ⟨b, w, rfl⟩ := List.exists_cons_of_ne_nil hne
  rw [strto_digit_cons b _ (hw b (by simp)), hhex, hdec]
  rfl

/-- **A printed number is read back.** -/
theorem strto_decimal (n : ℕ) : strto (decimal n) = some (.fin n) := by
  rw [strto_digits _ (decimal_ne_nil n) (isDigit_of_mem_decimal n), digitsVal_decimal]

/-! ## Signs and exponents -/

/-- INTERNAL: a mantissa ends at a byte that is neither a digit nor a point, such as the
marker of an exponent. -/
theorem mantissa_marker {marker : UInt8} (hmarker : isDigit 10 marker = false)
    (hpoint : marker ≠ 46) (whole rest : Bytes) (hne : whole ≠ [])
    (hw : ∀ b ∈ whole, isDigit 10 b = true) :
    mantissa 10 (whole ++ marker :: rest) =
      some ((digitsVal 10 whole : ℚ), marker :: rest) := by
  have htake : (whole ++ marker :: rest).takeWhile (isDigit 10) = whole := by
    rw [List.takeWhile_append_of_pos hw]
    simp [hmarker]
  have hdrop : (whole ++ marker :: rest).dropWhile (isDigit 10) = marker :: rest := by
    rw [List.dropWhile_append_of_pos hw]
    simp [hmarker]
  have hfrac : fraction 10 (marker :: rest) = ([], marker :: rest) := by simp [fraction, hpoint]
  simp [mantissa, htake, hdrop, hfrac, hne]

/-- INTERNAL: the mantissa of a number in exponent notation ends at the `e`. -/
theorem mantissa_fraction_marker (whole frac rest : Bytes) (hne : whole ≠ [])
    (hw : ∀ b ∈ whole, isDigit 10 b = true) (hf : ∀ b ∈ frac, isDigit 10 b = true) :
    mantissa 10 (whole ++ 46 :: (frac ++ 101 :: rest)) =
      some ((digitsVal 10 (whole ++ frac) : ℚ) / 10 ^ frac.length, 101 :: rest) := by
  have hmarker : isDigit 10 101 = false := by decide
  have htake : (whole ++ 46 :: (frac ++ 101 :: rest)).takeWhile (isDigit 10) = whole := by
    rw [List.takeWhile_append_of_pos hw]
    simp [not_isDigit_point]
  have hdrop : (whole ++ 46 :: (frac ++ 101 :: rest)).dropWhile (isDigit 10) =
      46 :: (frac ++ 101 :: rest) := by
    rw [List.dropWhile_append_of_pos hw]
    simp [not_isDigit_point]
  have hfrac : (frac ++ 101 :: rest).takeWhile (isDigit 10) = frac := by
    rw [List.takeWhile_append_of_pos hf]
    simp [hmarker]
  have hrest : (frac ++ 101 :: rest).dropWhile (isDigit 10) = 101 :: rest := by
    rw [List.dropWhile_append_of_pos hf]
    simp [hmarker]
  simp [mantissa, htake, hdrop, fraction, hfrac, hrest, hne]

/-- INTERNAL: **a numeral that starts with a digit** and has no `x` behind it is read as a
decimal one. -/
theorem strto_of_mantissa {b : UInt8} {s rest : Bytes} {m : ℚ} (hb : isDigit 10 b = true)
    (hx : ∀ x t, s = x :: t → x ≠ 120 ∧ x ≠ 88) (hm : mantissa 10 (b :: s) = some (m, rest)) :
    strto (b :: s) = some (.fin (m * 10 ^ exponent 101 rest)) := by
  have hhex : hexNumeral (b :: s) = none := by
    apply hexNumeral_eq_none
    intro c x t heq
    exact hx x t (List.cons.inj heq).2
  rw [strto_digit_cons b s hb, hhex]
  simp [decimalNumeral, hm]

/-- INTERNAL: **what stands behind the digits** is not looked at, unless it could be part
of a numeral. -/
theorem strto_decimal_append (n : ℕ) {marker : UInt8} (hmarker : isDigit 10 marker = false)
    (hpart : marker ∉ lit ".eExX") (rest : Bytes) :
    strto (decimal n ++ marker :: rest) = some (.fin n) := by
  have hlit : lit ".eExX" = [46, 101, 69, 120, 88] := by decide
  simp only [hlit, List.mem_cons, List.not_mem_nil, or_false, not_or] at hpart
  obtain ⟨hpoint, he, hE, hx, hX⟩ := hpart
  have hw := isDigit_of_mem_decimal n
  have hm := mantissa_marker hmarker hpoint (decimal n) rest (decimal_ne_nil n) hw
  obtain ⟨b, w, hbw⟩ := List.exists_cons_of_ne_nil (decimal_ne_nil n)
  have hexp : exponent 101 (marker :: rest) = 0 := by
    have hE' : ¬ marker + 32 = 101 := fun h => hE (by
      rw [← UInt8.toNat_inj] at h ⊢
      rw [UInt8.toNat_add] at h
      have hlt := marker.toNat_lt
      simp at h ⊢
      omega)
    simp [exponent, he, hE']
  rw [digitsVal_decimal] at hm
  rw [hbw, List.cons_append] at hm ⊢
  rw [strto_of_mantissa (hw b (by simp [hbw])) _ hm, hexp]
  · simp
  · intro y t heq
    cases w with
    | nil =>
      obtain rfl := (List.cons.inj heq).1
      exact ⟨hx, hX⟩
    | cons c w =>
      obtain rfl : c = y := (List.cons.inj heq).1
      have hr := digit_byte_range (hw c (by simp [hbw]))
      constructor <;> (rintro rfl; simp at hr)

/-- INTERNAL: a minus in front of a numeral is read as a sign. -/
theorem strto_minus_cons {b : UInt8} (s : Bytes) (hb : isDigit 10 b = true) :
    strto (45 :: b :: s) = (strto (b :: s)).map FloatVal.neg := by
  have hr := digit_byte_range hb
  have hspace : isSpace b = false := by
    simp only [isSpace, Bool.or_eq_false_iff, decide_eq_false_iff_not, Bool.and_eq_false_iff,
      ← UInt8.toNat_inj]
    simp
    omega
  have hminus : isSpace 45 = false := by decide
  have hunsigned : strto (b :: s) = unsignedNum (b :: s) := by
    unfold strto
    rw [List.dropWhile_cons_of_neg (by simp [hspace])]
    split
    · rename_i heq
      rw [(List.cons.inj heq).1] at hr
      simp at hr
    · rename_i heq
      rw [(List.cons.inj heq).1] at hr
      simp at hr
    · rfl
  rw [hunsigned]
  unfold strto
  rw [List.dropWhile_cons_of_neg (by simp [hminus])]
  rfl

/-- The conversion `%d`. -/
def signedDecimal (t : ℤ) : Bytes :=
  if t < 0 then 45 :: decimal t.natAbs else decimal t.natAbs

/-- A printed integer is read back, its sign included. -/
theorem strto_signedDecimal (t : ℤ) : strto (signedDecimal t) = some (.fin t) := by
  unfold signedDecimal
  split_ifs with h
  · obtain ⟨b, w, hdec⟩ := List.exists_cons_of_ne_nil (decimal_ne_nil t.natAbs)
    have hb : isDigit 10 b = true := isDigit_of_mem_decimal t.natAbs b (by simp [hdec])
    have habs : ((t.natAbs : ℤ) : ℚ) = ((-t : ℤ) : ℚ) := by
      congr 1
      omega
    rw [hdec, strto_minus_cons w hb, ← hdec, strto_decimal, Option.map_some, FloatVal.neg,
      ← Int.cast_natCast, habs, Int.cast_neg, neg_neg]
  · have habs : ((t.natAbs : ℤ) : ℚ) = (t : ℚ) := by
      congr 1
      omega
    rw [strto_decimal, ← Int.cast_natCast, habs]

end Pca9536Driver.Library
