import Pca9536Driver.Interface.DiskFree

/-!
# The table of `free` and the program that reads it

`free` prints a row for the memory, named `Mem:`, with its size and the used part in
kibibytes, between a header and other rows. `grep Mem` keeps this row only, and the program
`awk '{print $3/$2 * 100.0}'` divides two of its fields.

`collect_memoryProbe` says what is collected: a number near the quotient, in six digits.
-/

set_option autoImplicit false

namespace Pca9536Driver.Interface

open Pca9536Driver.Library Pca9536Driver.Model

/-! ## The table -/

/-- A row as a line. -/
def DiskRow.line (row : DiskRow) : Line where
  text := row.text
  noNewline := by
    have hdec (n : ℕ) : newline ∉ decimal n := fun h =>
      (digit_ne (isDigit_of_mem_decimal n _ h)).2 (by decide)
    have hblank : newline ≠ 32 := by decide
    simp [DiskRow.text, row.source.noNewline, row.tail.noNewline, hdec, hblank]
  noNul := by
    have hdec (n : ℕ) : (0 : UInt8) ∉ decimal n := fun h =>
      (digit_ne (isDigit_of_mem_decimal n _ h)).1 rfl
    simp [DiskRow.text, row.source.noNul, row.tail.noNul, hdec]

/-- What `free` prints: the row of the memory among lines without its name. The memory has
less than 2^53 kibibytes. -/
structure MemoryTable where
  before : List Line
  after : List Line
  other : ∀ l ∈ before ++ after, ¬ lit "Mem" <:+: l.text
  row : DiskRow
  name : row.source.text = lit "Mem:"
  total_pos : 0 < row.total
  total_le : row.total ≤ 2 ^ 53
  used_le : row.used ≤ row.total

namespace MemoryTable

variable (m : MemoryTable)

/-- The lines that `free` prints. -/
def lines : List Line := m.before ++ m.row.line :: m.after

/-- The used part of the memory in percent. -/
def percent : ℚ := 100 * (m.row.used / m.row.total)

/-- INTERNAL: `grep Mem` keeps the row of the memory. -/
theorem filter_lines : (m.lines.map Line.text).filter (contains · (lit "Mem")) = [m.row.text] := by
  have hrow : contains m.row.text (lit "Mem") = true := by
    rw [contains_iff]
    unfold DiskRow.text
    rw [m.name]
    exact ⟨[], lit ":" ++ _, rfl⟩
  have hother (ls : List Line) (hls : ∀ l ∈ ls, ¬ lit "Mem" <:+: l.text) :
      (ls.map Line.text).filter (contains · (lit "Mem")) = [] := by
    rw [List.filter_eq_nil_iff]
    intro s hs
    obtain ⟨l, hl, rfl⟩ := List.mem_map.mp hs
    rw [contains_iff]
    exact hls l hl
  have hbefore := hother m.before fun l hl => m.other l (List.mem_append_left _ hl)
  have hafter := hother m.after fun l hl => m.other l (List.mem_append_right _ hl)
  have hline : m.row.line.text = m.row.text := rfl
  unfold lines
  rw [List.map_append, List.map_cons, List.filter_append, hbefore, List.nil_append,
    List.filter_cons, hline, if_pos hrow, hafter]

end MemoryTable

/-! ## The program -/

/-- What `awk '{print $3/$2 * 100.0}'` prints for a line whose second field is not 0. -/
def awkShare (A : Arithmetic) (line : Bytes) : Bytes :=
  formatG (A.double.mul
    (A.double.div (awkNumber A (awkField 3 line)) (awkNumber A (awkField 2 line))) (.fin 100)) ++
    [newline]

/-- INTERNAL: `awk` reads a number of KiB exactly. -/
theorem awkNumber_decimal (A : Arithmetic) {n : ℕ} (hn : n ≤ 2 ^ 53) :
    awkNumber A (decimal n) = .fin n := by
  have hlt : ¬ binary64.overflow ≤ |(n : ℚ)| := by
    rw [not_le]
    apply binary64.abs_lt_overflow n.cast_nonneg
    calc (n : ℚ) ≤ 2 ^ 53 := by exact_mod_cast hn
      _ < 2 ^ binary64.emax := pow_lt_pow_right₀ (by norm_num) (by decide)
  simp only [awkNumber, atofWith, strto_decimal, hlt, if_false, A.double.rnd_natCast n hn]

/-- What the probe of the memory prints: the program is run on every line `grep` keeps. -/
def memoryProbe (A : Arithmetic) (m : MemoryTable) : Bytes :=
  ((m.lines.map Line.text).filter (contains · (lit "Mem"))).flatMap (awkShare A)

/-- The percentage the program computes, with its two rounding errors. -/
def MemoryTable.computed (A : Arithmetic) (m : MemoryTable) : ℚ :=
  A.double.rnd (A.double.rnd (m.row.used / m.row.total) * 100)

/-- INTERNAL: **the probe prints the computed share**. -/
theorem memoryProbe_eq (A : Arithmetic) (m : MemoryTable) :
    memoryProbe A m = formatG (.fin (m.computed A)) ++ [newline] := by
  have h2 : awkField 2 m.row.text = decimal m.row.total := by simp [awkField, m.row.fields_text]
  have h3 : awkField 3 m.row.text = decimal m.row.used := by simp [awkField, m.row.fields_text]
  unfold memoryProbe awkShare
  rw [m.filter_lines, List.flatMap_singleton, h2, h3, awkNumber_decimal A m.total_le,
    awkNumber_decimal A (m.used_le.trans m.total_le)]
  rfl

/-- INTERNAL: the shared string of the memory is the number without the line end. -/
theorem collect_memoryProbe (A : Arithmetic) (m : MemoryTable) :
    collect (memoryProbe A m) = formatG (.fin (m.computed A)) := by
  rw [memoryProbe_eq]
  apply collect_word
  · obtain ⟨y, hread, -⟩ := strto_formatG (m.computed A)
    exact ne_nil_of_strto hread
  · intro b hb
    rcases mem_formatG hb with hdigit | hother
    · exact digit_ne hdigit
    · have hall : ∀ b ∈ lit ".e+-", b ≠ 0 ∧ b ∉ trailing := forall_of_all (by decide)
      exact hall b hother
  · exact forall_of_all (by decide)

/-- INTERNAL: **the program computes the percentage** up to the rounding of the `double`
arithmetic. -/
theorem computed_near (A : Arithmetic) (m : MemoryTable) :
    0 ≤ m.computed A ∧ m.computed A ≤ 100 ∧ |m.computed A - m.percent| ≤ 1 / 2 ^ 40 := by
  set q : ℚ := m.row.used / m.row.total with hq
  have hpos : (0 : ℚ) < m.row.total := by exact_mod_cast m.total_pos
  have h0 : 0 ≤ q := by positivity
  have h1 : q ≤ 1 := by
    rw [hq, div_le_one hpos]
    exact_mod_cast m.used_le
  have e1 : |A.double.rnd q - q| ≤ 1 / 2 ^ 50 := by
    apply A.double.abs_rnd_sub_le 50 (by decide)
    rw [abs_of_nonneg h0]
    norm_num [binary64]
    linarith
  have hone : A.double.rnd 1 = 1 := A.double.rnd_one
  have hmem := A.double.rnd_mem_Icc A.double.rnd_zero hone ⟨h0, h1⟩
  set a := A.double.rnd q with ha
  have hhundred : A.double.rnd 100 = 100 := by
    exact_mod_cast A.double.rnd_natCast 100 (by norm_num [binary64])
  have hrange : a * 100 ∈ Set.Icc (0 : ℚ) 100 := ⟨by linarith [hmem.1], by linarith [hmem.2]⟩
  have hmem' := A.double.rnd_mem_Icc A.double.rnd_zero hhundred hrange
  have e2 : |A.double.rnd (a * 100) - a * 100| ≤ 1 / 2 ^ 42 := by
    apply A.double.abs_rnd_sub_le 42 (by decide)
    rw [abs_of_nonneg hrange.1]
    norm_num [binary64]
    linarith [hrange.2]
  refine ⟨hmem'.1, hmem'.2, ?_⟩
  have hcomputed : m.computed A = A.double.rnd (a * 100) := rfl
  have hpercent : m.percent = 100 * q := rfl
  rw [hcomputed, hpercent]
  obtain ⟨l1, u1⟩ := abs_le.mp e1
  obtain ⟨l2, u2⟩ := abs_le.mp e2
  norm_num at l1 u1 l2 u2 ⊢
  rw [abs_le]
  constructor <;> linarith

/-! ## An environment with this program -/

/-- An environment in which `free`, `grep` and `awk` report on a table. -/
def measured (env : Env) (m : MemoryTable) : Env :=
  { env with
    popen := fun log cmd =>
      if cmd = lit "free | grep Mem | awk '\x7bprint $3/$2 * 100.0\x7d'" then
        memoryProbe env.arith m
      else env.popen log cmd }

/-- INTERNAL: the shared string of the memory in this environment. -/
theorem collect_measured (env : Env) (m : MemoryTable) (log : List Event) :
    collect ((measured env m).popen log (Cache.command .ramPercent)) =
      formatG (.fin (m.computed env.arith)) := by
  have hprobe : (measured env m).popen log (Cache.command .ramPercent) =
      memoryProbe env.arith m := by
    simp only [measured, Cache.command, if_true]
  rw [hprobe, collect_memoryProbe]

end Pca9536Driver.Interface
