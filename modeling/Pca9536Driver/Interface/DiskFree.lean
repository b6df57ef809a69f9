import Pca9536Driver.Interface.Shell
import Pca9536Driver.Interface.Top

/-!
# The table of `df` and the program that reads it

`df -m` prints a header and a row for the file system asked for: its source, its size and
the used space in megabytes, each in a column of its own, and more. `awk 'NR==2{print $k}'`
prints a field of the second line.

`collect_diskColumn` says what is collected for the two columns with numbers.
-/

set_option autoImplicit false

namespace Pca9536Driver.Interface

open Pca9536Driver.Library Pca9536Driver.Model

/-- A row of the table, for a source without blanks such as a device: the size and the used
space stand behind it, with any number of blanks between them; `tail` is what follows in
the row. -/
structure DiskRow where
  source : Line
  source_ne : source.text ≠ []
  source_noBlank : source.text.any isBlank = false
  total : ℕ
  used : ℕ
  sizeGap : ℕ
  usedGap : ℕ
  tail : Line

namespace DiskRow

variable (row : DiskRow)

/-- The row as `df` prints it. -/
def text : Bytes :=
  row.source.text ++ 32 :: (List.replicate row.sizeGap 32 ++
    (decimal row.total ++ 32 :: (List.replicate row.usedGap 32 ++
      (decimal row.used ++ 32 :: row.tail.text))))

/-- INTERNAL: **the fields of a row**, however wide its columns are. -/
theorem fields_text :
    fields row.text =
      row.source.text :: decimal row.total :: decimal row.used :: fields row.tail.text := by
  have hdec (n : ℕ) : (decimal n).any isBlank = false :=
    any_isBlank_of_digits (isDigit_of_mem_decimal n)
  unfold text
  rw [fields_word_cons _ _ _ row.source_ne row.source_noBlank rfl,
    fields_replicate_append _ _ _ rfl,
    fields_word_cons _ _ _ (decimal_ne_nil _) (hdec _) rfl,
    fields_replicate_append _ _ _ rfl,
    fields_word_cons _ _ _ (decimal_ne_nil _) (hdec _) rfl]

/-- The lines `df` prints. -/
def table (header : Line) : List Bytes := [header.text, row.text]

end DiskRow

/-- What `awk 'NR==2{print $k}'` prints for some lines. -/
def awkSecond (k : ℕ) (ls : List Bytes) : Bytes :=
  match ls[1]? with
  | some l => awkField k l ++ [newline]
  | none => []

example : awkSecond 2 [lit "Filesystem 1M-blocks Used", lit "/dev/sda1      7633  123"] =
    lit "7633\n" := by decide

/-- INTERNAL: a printed number is collected as it is. -/
theorem collect_decimal (n : ℕ) : collect (decimal n ++ [newline]) = decimal n :=
  collect_number_line (decimal_ne_nil n) fun b hb => Or.inl (isDigit_of_mem_decimal n b hb)

/-- INTERNAL: what is collected for the second and the third column are the numbers. -/
theorem collect_diskColumn (header : Line) (row : DiskRow) :
    collect (awkSecond 2 (row.table header)) = decimal row.total ∧
      collect (awkSecond 3 (row.table header)) = decimal row.used := by
  have h2 : awkField 2 row.text = decimal row.total := by simp [awkField, row.fields_text]
  have h3 : awkField 3 row.text = decimal row.used := by simp [awkField, row.fields_text]
  constructor
  · show collect (awkField 2 row.text ++ [newline]) = _
    rw [h2, collect_decimal]
  · show collect (awkField 3 row.text ++ [newline]) = _
    rw [h3, collect_decimal]

end Pca9536Driver.Interface
