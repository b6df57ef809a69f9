import Pca9536Driver.Library.Printf
import Pca9536Driver.Interface.Publishing

/-!
# The summary line of `top` and the program that reads it

`top` prints the shares of the processor time as a line of groups, each a percentage in
five columns and a tag; `awk '{print $2 + $4}'` splits the line at its blanks and adds
two of the fields. A percentage of 100.0 fills its five columns, so no blank separates
it from the text in front and the fields behind it move.

`awkSum_line` says what is added, for every line.
-/

set_option autoImplicit false

namespace Pca9536Driver.Interface

open Pca9536Driver.Library Pca9536Driver.Model

/-! ## The summary line -/

/-- A percentage with one decimal, from 0.0 to 100.0. -/
structure Percent where
  tenths : ℕ
  le : tenths ≤ 1000

namespace Percent

/-- The conversion `%5.1f`. -/
def text (p : Percent) : Bytes := fixed 5 1 p.tenths

/-- INTERNAL: 100 percent fill the column, so that no blank is in front. -/
theorem text_full {p : Percent} (h : p.tenths = 1000) : p.text = decimals 1 1000 := by
  unfold text
  rw [h]
  decide

/-- INTERNAL: a smaller percentage has a blank in front. -/
theorem text_lt {p : Percent} (h : p.tenths < 1000) :
    ∃ n, p.text = 32 :: List.replicate n 32 ++ decimals 1 p.tenths := by
  have hlen : (decimals 1 p.tenths).length < 5 := by
    have hdec : (decimal (p.tenths / 10)).length ≤ 2 := by
      rcases lt_or_ge p.tenths 100 with h1 | h1
      · rw [decimal_of_lt (by omega)]
        simp
      · rw [decimal_of_le (by omega), decimal_of_lt (by omega)]
        simp
    simp only [decimals, pow_one, List.length_append, List.length_cons, length_lastDigits]
    omega
  obtain ⟨n, hn⟩ : ∃ n, 5 - (decimals 1 p.tenths).length = n + 1 :=
    Nat.exists_eq_succ_of_ne_zero (by omega)
  exact ⟨n, by rw [text, fixed, hn, List.replicate_succ]⟩

example : fixed 5 1 1000 = lit "100.0" ∧ fixed 5 1 3 = lit "  0.3" := by decide

end Percent

/-- The shares of a line: user, system, nice, idle, waiting, interrupts and stolen. -/
structure Usage where
  us : Percent
  sy : Percent
  ni : Percent
  id : Percent
  wa : Percent
  hi : Percent
  si : Percent
  st : Percent

namespace Usage

variable (u : Usage)

/-- The groups of the line. -/
def groups : List (Percent × Bytes) :=
  [(u.us, lit "us"), (u.sy, lit "sy"), (u.ni, lit "ni"), (u.id, lit "id"), (u.wa, lit "wa"),
    (u.hi, lit "hi"), (u.si, lit "si"), (u.st, lit "st")]

/-- The summary line. -/
def line : Bytes :=
  lit "%Cpu(s):" ++ (lit ",").intercalate (u.groups.map fun g => g.1.text ++ 32 :: g.2)

end Usage

/-! ## Its fields -/

/-- What a word and the percentage printed behind it become. -/
def cells (w : Bytes) (p : Percent) : List Bytes :=
  if p.tenths < 1000 then [w, decimals 1 p.tenths] else [w ++ decimals 1 1000]

/-- A percentage contains no blank itself. -/
theorem any_isBlank_decimals (n d : ℕ) : (decimals n d).any isBlank = false := by
  have hpoint : isBlank 46 = false := by decide
  unfold decimals
  rw [List.any_append, List.any_cons, hpoint,
    any_isBlank_of_digits (isDigit_of_mem_decimal _),
    any_isBlank_of_digits (isDigit_of_mem_lastDigits n d)]
  rfl

/-- INTERNAL: **a word and a percentage are two fields, or one** if the percentage is
100.0. -/
theorem fields_cell (w rest : Bytes) (p : Percent) (hw : w ≠ [])
    (hnb : w.any isBlank = false) :
    fields (w ++ p.text ++ 32 :: rest) = cells w p ++ fields rest := by
  have hnb' := any_isBlank_decimals 1 p.tenths
  have hne : decimals 1 p.tenths ≠ [] := by simp [decimals, decimal_ne_nil]
  rw [fields_append_blank _ _ _ rfl, cells]
  congr 1
  rcases p.le.lt_or_eq with h | h
  · obtain ⟨n, hn⟩ := Percent.text_lt h
    rw [if_pos h, hn, List.cons_append, fields_word_cons w _ _ hw hnb rfl,
      fields_replicate_append _ _ _ rfl, fields_word _ hne hnb']
  · rw [h] at hnb'
    rw [if_neg (by omega), Percent.text_full h]
    exact fields_word _ (by simp [hw]) (by rw [List.any_append, hnb, hnb', Bool.or_self])

/-- INTERNAL: the first cell begins with the word in front. -/
theorem head_cells (w : Bytes) (p : Percent) (rest : List Bytes) :
    ∃ s, (cells w p ++ rest)[0]?.getD [] = w ++ s := by
  unfold cells
  split_ifs
  · exact ⟨[], by simp⟩
  · exact ⟨decimals 1 1000, by simp⟩

/-- **The fields of the line**, by the four percentages that decide. -/
theorem fields_line (u : Usage) : ∃ rest, fields u.line =
    cells (lit "%Cpu(s):") u.us ++ (cells (lit "us,") u.sy ++ (cells (lit "sy,") u.ni ++
      (cells (lit "ni,") u.id ++ rest))) := by
  obtain ⟨tail, htail⟩ : ∃ tail, u.line = lit "%Cpu(s):" ++ u.us.text ++ 32 ::
      (lit "us," ++ u.sy.text ++ 32 :: (lit "sy," ++ u.ni.text ++ 32 ::
        (lit "ni," ++ u.id.text ++ 32 :: tail))) := by
    have hus : lit "us," = lit "us" ++ lit "," := by decide
    have hsy : lit "sy," = lit "sy" ++ lit "," := by decide
    have hni : lit "ni," = lit "ni" ++ lit "," := by decide
    refine ⟨lit "id" ++ lit "," ++ (lit ",").intercalate
      ((u.groups.drop 4).map fun g => g.1.text ++ 32 :: g.2), ?_⟩
    simp [Usage.line, Usage.groups, List.intercalate_cons_cons, hus, hsy, hni]
  refine ⟨fields tail, ?_⟩
  rw [htail, fields_cell _ _ _ (by decide) (by decide), fields_cell _ _ _ (by decide) (by decide),
    fields_cell _ _ _ (by decide) (by decide), fields_cell _ _ _ (by decide) (by decide)]

/-! ## The program -/

/-- `$i`. -/
def awkField (i : ℕ) (line : Bytes) : Bytes := (fields line).getD (i - 1) []

/-- The number of a field: its longest prefix that is one, 0 if there is none. -/
def awkNumber (A : Arithmetic) (field : Bytes) : FloatVal := atofWith A.double field

/-- What `awk '{print $2 + $4}'` prints for a line. -/
def awkSum (A : Arithmetic) (line : Bytes) : Bytes :=
  formatG (A.double.add (awkNumber A (awkField 2 line)) (awkNumber A (awkField 4 line))) ++
    [newline]

namespace Usage

variable (u : Usage)

/-- The number in the second field, in tenths. -/
def second : ℕ := if u.us.tenths < 1000 then u.us.tenths else 0

/-- The number in the fourth field, in tenths: it is the second percentage, or none, or
the third percentage. -/
def fourth : ℕ :=
  if u.us.tenths < 1000 then if u.sy.tenths < 1000 then u.sy.tenths else 0
  else if u.sy.tenths < 1000 then 0
  else if u.ni.tenths < 1000 then u.ni.tenths
  else 0

/-- The second percentage is at most 100. -/
theorem second_le : u.second ≤ 1000 := by
  unfold second
  split_ifs <;> omega

/-- So is the fourth. -/
theorem fourth_le : u.fourth ≤ 1000 := by
  unfold fourth
  split_ifs <;> omega

end Usage

/-- INTERNAL: `awk` reads a percentage. -/
theorem awkNumber_decimals (A : Arithmetic) {d : ℕ} (hd : d ≤ 1000) :
    awkNumber A (decimals 1 d) = .fin (A.double.rnd (d / 10)) := by
  have hd' : (d : ℚ) ≤ 1000 := by exact_mod_cast hd
  have hlt : ¬ binary64.overflow ≤ |(d : ℚ) / 10| := by
    rw [not_le]
    apply binary64.abs_lt_overflow (by positivity)
    calc (d : ℚ) / 10 < 2 ^ 7 := by linarith
      _ ≤ 2 ^ binary64.emax := pow_le_pow_right₀ (by norm_num) (by decide)
  simp only [awkNumber, atofWith, strto_decimals, pow_one, hlt, if_false]

/-- INTERNAL: a field that begins with a unit counts as 0 for `awk`. -/
theorem awkNumber_tag (A : Arithmetic) (s : Bytes) :
    awkNumber A (lit "us," ++ s) = .fin 0 ∧ awkNumber A (lit "sy," ++ s) = .fin 0 ∧
      awkNumber A (lit "ni," ++ s) = .fin 0 := by
  refine ⟨?_, ?_, ?_⟩ <;> rfl

/-- INTERNAL: **the two fields that are added**, for every line. -/
theorem awkNumber_line (A : Arithmetic) (u : Usage) :
    awkNumber A (awkField 2 u.line) = .fin (A.double.rnd (u.second / 10)) ∧
    awkNumber A (awkField 4 u.line) = .fin (A.double.rnd (u.fourth / 10)) := by
  obtain ⟨rest, hfields⟩ := fields_line u
  obtain ⟨s, hs⟩ := head_cells (lit "sy,") u.ni (cells (lit "ni,") u.id ++ rest)
  obtain ⟨t, ht⟩ := head_cells (lit "ni,") u.id rest
  unfold awkField Usage.second Usage.fourth
  rw [hfields]
  -- Each full percentage in front moves the fourth field by one place.
  by_cases hus : u.us.tenths < 1000
  · by_cases hsy : u.sy.tenths < 1000
    · simp [cells, hus, hsy, awkNumber_decimals A hus.le, awkNumber_decimals A hsy.le]
    · rw [cells, if_pos hus, cells, if_neg hsy]
      simp [hus, hsy, hs, awkNumber_decimals A hus.le, awkNumber_tag]
  · have h2 (s : Bytes) := (awkNumber_tag A s).1
    by_cases hsy : u.sy.tenths < 1000
    · rw [cells, if_neg hus, cells, if_pos hsy]
      simpa [hus, hsy, hs, awkNumber_tag] using h2 []
    · by_cases hni : u.ni.tenths < 1000
      · simp [cells, hus, hsy, hni, awkNumber_tag, awkNumber_decimals A hni.le]
      · rw [cells, if_neg hus, cells, if_neg hsy, cells, if_neg hni]
        simp [hus, hsy, hni, ht, awkNumber_tag]

/-- INTERNAL: **what the program prints**, for every line: the sum of the two fields with
at most one decimal. The rounding errors of the numbers and of the sum do not show. -/
theorem awkSum_line (A : Arithmetic) (u : Usage) :
    awkSum A u.line = stripped 1 (u.second + u.fourth) ++ [newline] := by
  obtain ⟨h2, h4⟩ := awkNumber_line A u
  have hle2 := u.second_le
  have hle4 := u.fourth_le
  suffices hsum : formatG (A.double.add (.fin (A.double.rnd (u.second / 10)))
      (.fin (A.double.rnd (u.fourth / 10)))) = stripped 1 (u.second + u.fourth) by
    unfold awkSum
    rw [h2, h4, hsum]
  simp only [Rounding.add]
  rcases Nat.eq_zero_or_pos (u.second + u.fourth) with hsum | hsum
  · obtain ⟨h2, h4⟩ := Nat.add_eq_zero_iff.mp hsum
    simp only [h2, h4, Nat.cast_zero, zero_div, Rounding.rnd_zero, add_zero]
    decide
  · have herr {q : ℚ} (h0 : 0 ≤ q) (hq : q ≤ 201) : |A.double.rnd q - q| ≤ 1 / 2 ^ 40 := by
      apply A.double.abs_rnd_sub_le 40 (by decide)
      rw [abs_of_nonneg h0]
      norm_num [binary64]
      linarith
    have hq2 : (u.second : ℚ) ≤ 1000 := by exact_mod_cast hle2
    have hq4 : (u.fourth : ℚ) ≤ 1000 := by exact_mod_cast hle4
    have e2 := abs_le.mp (herr (q := u.second / 10) (by positivity) (by linarith))
    have e4 := abs_le.mp (herr (q := u.fourth / 10) (by positivity) (by linarith))
    set a := A.double.rnd (u.second / 10)
    set b := A.double.rnd (u.fourth / 10)
    have ha : 0 ≤ a := A.double.rnd_nonneg (by positivity)
    have hb : 0 ≤ b := A.double.rnd_nonneg (by positivity)
    have e := abs_le.mp (herr (q := a + b) (by positivity) (by norm_num at e2 e4; linarith))
    apply formatG_near (by norm_num) (by omega) (by omega)
    push_cast
    rw [abs_lt]
    norm_num at e2 e4 e ⊢
    constructor <;> linarith

/-! ## An environment with this program -/

/-- An environment in which `top`, `grep` and `awk` report on a line. -/
def summarised (env : Env) (u : Usage) : Env :=
  { env with
    popen := fun log cmd =>
      if cmd = lit "top -b -n1 | grep \"Cpu(s)\" | awk '\x7bprint $2 + $4\x7d'" then
        awkSum env.arith u.line
      else env.popen log cmd }

/-- INTERNAL: the shared string of the load is the sum without the line end. -/
theorem collect_summarised (env : Env) (u : Usage) (log : List Event) :
    collect ((summarised env u).popen log (Cache.command .cpuLoad)) =
      stripped 1 (u.second + u.fourth) := by
  have hprobe : (summarised env u).popen log (Cache.command .cpuLoad) =
      awkSum env.arith u.line := by
    simp only [summarised, Cache.command, if_true]
  rw [hprobe, awkSum_line]
  exact collect_number_line (stripped_ne_nil _ _) fun b => mem_stripped

end Pca9536Driver.Interface
