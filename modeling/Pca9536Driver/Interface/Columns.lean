import Pca9536Driver.Interface.DiskFree

/-!
# Lines of columns and the programs that pick one

`df` ends the row of a file system with the used part in percent, and `ip link show` writes
the state of an interface among its other attributes. `awk` is asked for a field by its
number; `tr` takes the percent sign away for one of the file systems, and `head` keeps the
first line.

The collected texts are `collect_useColumn`, `collect_useColumn_plain` and
`collect_statusColumn`.
-/

set_option autoImplicit false

namespace Pca9536Driver.Interface

open Pca9536Driver.Library Pca9536Driver.Model

/-! ## Words in columns -/

/-- A word: a text without white space and NUL bytes. -/
structure Word where
  text : Bytes
  ne : text ≠ []
  plain : ∀ b ∈ text, b ≠ 0 ∧ b ∉ trailing

/-- INTERNAL: plain bytes are no blanks. -/
theorem any_isBlank_of_plain {s : Bytes} (h : ∀ b ∈ s, b ≠ 0 ∧ b ∉ trailing) :
    s.any isBlank = false := by
  rw [List.any_eq_false]
  intro b hb
  have hlit : trailing = [32, 10, 13, 9] := by decide
  have hplain := (h b hb).2
  simp only [hlit, List.mem_cons, List.not_mem_nil, or_false, not_or] at hplain
  simp [isBlank, hplain]

/-- A word contains no blank. -/
theorem Word.noBlank (w : Word) : w.text.any isBlank = false := any_isBlank_of_plain w.plain

/-- Decimal digits are plain. -/
theorem plain_decimal (n : ℕ) : ∀ b ∈ decimal n, b ≠ 0 ∧ b ∉ trailing := fun b hb =>
  digit_ne (isDigit_of_mem_decimal n b hb)

/-- Words in front of a text, each with a blank and a number of further blanks behind it. -/
def columns (ws : List (Word × ℕ)) (rest : Bytes) : Bytes :=
  ws.foldr (fun w s => w.1.text ++ 32 :: (List.replicate w.2 32 ++ s)) rest

/-- INTERNAL: **the fields of a line of columns**, however wide the columns are. -/
theorem fields_columns (ws : List (Word × ℕ)) (rest : Bytes) :
    fields (columns ws rest) = ws.map (fun w => w.1.text) ++ fields rest := by
  induction ws with
  | nil => rfl
  | cons w ws ih =>
    show fields (w.1.text ++ 32 :: (List.replicate w.2 32 ++ columns ws rest)) = _
    rw [fields_word_cons _ _ _ w.1.ne w.1.noBlank rfl, fields_replicate_append _ _ _ rfl, ih]
    rfl

/-- INTERNAL: a field behind the first columns. -/
theorem awkField_columns (ws : List (Word × ℕ)) {i : ℕ} (hi : i = ws.length + 1) {s : Bytes}
    (hne : s ≠ []) (hs : ∀ b ∈ s, b ≠ 0 ∧ b ∉ trailing) (rest : Bytes) :
    awkField i (columns ws (s ++ 32 :: rest)) = s := by
  have hfields : fields (columns ws (s ++ 32 :: rest)) =
      ws.map (fun w => w.1.text) ++ s :: fields rest := by
    rw [fields_columns, fields_word_cons _ _ _ hne (any_isBlank_of_plain hs) rfl]
  unfold awkField
  rw [hfields, hi, Nat.add_sub_cancel, List.getD_eq_getElem?_getD]
  simp

/-- INTERNAL: a plain text with a line end is collected without the line end. -/
theorem collect_plain {s : Bytes} (hne : s ≠ []) (hs : ∀ b ∈ s, b ≠ 0 ∧ b ∉ trailing) :
    collect (s ++ [newline]) = s := by
  apply collect_word hne hs
  intro b hb
  rw [List.mem_singleton.mp hb]
  decide

/-! ## The last number of `df` -/

/-- A row of the table of `df`: the source, the size, the used and the available space,
the used part in percent, if the file system has a size, and where it is mounted. -/
structure UseRow where
  source : Word × ℕ
  size : Word × ℕ
  used : Word × ℕ
  avail : Word × ℕ
  percent : Option ℕ
  percent_le : ∀ n, percent = some n → n ≤ 100
  target : Line

namespace UseRow

variable (row : UseRow)

/-- The used part as printed: a number and a percent sign, or a dash. -/
def useText : Bytes :=
  match row.percent with
  | some n => decimal n ++ lit "%"
  | none => lit "-"

/-- The used part without the percent sign. -/
def plainText : Bytes :=
  match row.percent with
  | some n => decimal n
  | none => lit "-"

/-- The row as `df` prints it. -/
def text : Bytes :=
  columns [row.source, row.size, row.used, row.avail] (row.useText ++ 32 :: row.target.text)

/-- The lines `df` prints. -/
def table (header : Line) : List Bytes := [header.text, row.text]

/-- The `Use%` column is never empty. -/
theorem useText_ne_nil : row.useText ≠ [] := by
  unfold useText
  split
  · simp [decimal_ne_nil]
  · decide

/-- Its bytes are plain. -/
theorem useText_plain : ∀ b ∈ row.useText, b ≠ 0 ∧ b ∉ trailing := by
  unfold useText
  split
  · have hsign : ∀ b ∈ lit "%", b ≠ 0 ∧ b ∉ trailing := forall_of_all (by decide)
    intro b hb
    rcases List.mem_append.mp hb with hb | hb
    · exact plain_decimal _ b hb
    · exact hsign b hb
  · exact forall_of_all (by decide)

/-- Without the percent sign it is not empty either. -/
theorem plainText_ne_nil : row.plainText ≠ [] := by
  unfold plainText
  split
  · exact decimal_ne_nil _
  · decide

/-- INTERNAL: and it is plain. -/
theorem plainText_plain : ∀ b ∈ row.plainText, b ≠ 0 ∧ b ∉ trailing := by
  unfold plainText
  split
  · exact plain_decimal _
  · exact forall_of_all (by decide)

end UseRow

/-- What `tr -d` leaves of a text. -/
def trDelete (b : UInt8) (s : Bytes) : Bytes := s.filter (· ≠ b)

/-- INTERNAL: **the `Use%` column** is the fifth field of the second line. -/
theorem awkSecond_use (header : Line) (row : UseRow) :
    awkSecond 5 (row.table header) = row.useText ++ [newline] := by
  have hfield : awkField 5 row.text = row.useText :=
    awkField_columns _ rfl row.useText_ne_nil row.useText_plain _
  show awkField 5 row.text ++ [newline] = _
  rw [hfield]

/-- INTERNAL: **the used part is collected** as it is printed. -/
theorem collect_useColumn (header : Line) (row : UseRow) :
    collect (awkSecond 5 (row.table header)) = row.useText := by
  rw [awkSecond_use, collect_plain row.useText_ne_nil row.useText_plain]

/-- INTERNAL: **with `tr -d '%'`** the number alone is collected. -/
theorem collect_useColumn_plain (header : Line) (row : UseRow) :
    collect (trDelete 37 (awkSecond 5 (row.table header))) = row.plainText := by
  have hdigits (n : ℕ) : trDelete 37 (decimal n) = decimal n := by
    unfold trDelete
    rw [List.filter_eq_self]
    intro b hb
    have hr := digit_byte_range (isDigit_of_mem_decimal n b hb)
    simp only [decide_eq_true_eq]
    rintro rfl
    simp at hr
  have hplain : trDelete 37 (row.useText ++ [newline]) = row.plainText ++ [newline] := by
    have hend : trDelete 37 [newline] = [newline] := by decide
    have happend (s t : Bytes) : trDelete 37 (s ++ t) = trDelete 37 s ++ trDelete 37 t :=
      List.filter_append s t
    have hsign : trDelete 37 (lit "%") = [] := by decide
    have hdash : trDelete 37 (lit "-") = lit "-" := by decide
    rw [happend, hend]
    unfold UseRow.useText UseRow.plainText
    cases row.percent with
    | some n => simp only [happend, hdigits, hsign, List.append_nil]
    | none => simp only [hdash]
  rw [awkSecond_use, hplain, collect_plain row.plainText_ne_nil row.plainText_plain]

/-! ## The line of `ip` -/

/-- The first line `ip link show` prints about an interface: its number, name and flags, the
size of its packets and its queue, the bridge it belongs to, if any, its state and more. -/
structure LinkLine where
  index : Word
  name : Word
  flags : Word
  mtu : Word
  qdisc : Word
  master : Option Word
  state : Word
  tail : Line

/-- A name of an attribute. -/
def word (s : Bytes) (hne : s ≠ []) (h : s.all (fun b => b ≠ 0 ∧ b ∉ trailing) = true) : Word :=
  ⟨s, hne, forall_of_all h⟩

namespace LinkLine

variable (l : LinkLine)

/-- The words in front of the attribute that may be missing. -/
def front : List (Word × ℕ) :=
  [(l.index, 0), (l.name, 0), (l.flags, 0), (word (lit "mtu") (by decide) (by decide), 0),
    (l.mtu, 0), (word (lit "qdisc") (by decide) (by decide), 0), (l.qdisc, 0)]

/-- The line as `ip link` prints it. -/
def text : Bytes :=
  match l.master with
  | some bridge =>
    columns (l.front ++ [(word (lit "master") (by decide) (by decide), 0)])
      (bridge.text ++ 32 :: columns [(word (lit "state") (by decide) (by decide), 0)]
        (l.state.text ++ 32 :: l.tail.text))
  | none =>
    columns (l.front ++ [(word (lit "state") (by decide) (by decide), 0)])
      (l.state.text ++ 32 :: l.tail.text)

/-- The word in the ninth place. -/
def ninth : Word := l.master.getD l.state

/-- INTERNAL: **the ninth field** of the line is its ninth word. -/
theorem awkField_text : awkField 9 l.text = l.ninth.text := by
  unfold text ninth
  cases l.master with
  | some bridge => exact awkField_columns _ rfl bridge.ne bridge.plain _
  | none => exact awkField_columns _ rfl l.state.ne l.state.plain _

end LinkLine

/-- What `awk '{print $k}' | head -n 1` prints for some lines. -/
def awkHead (k : ℕ) (ls : List Bytes) : Bytes := unlines ((ls.map (awkField k)).take 1)

example : awkHead 9 [lit "3: usb0: <UP> mtu 1500 qdisc fq state UP mode DEFAULT", lit " link"] =
    lit "UP\n" := by decide

/-- INTERNAL: **the word in the ninth place is collected**, whatever the other lines are. -/
theorem collect_statusColumn (l : LinkLine) (others : List Bytes) :
    collect (awkHead 9 (l.text :: others)) = l.ninth.text := by
  have hhead : awkHead 9 (l.text :: others) = l.ninth.text ++ [newline] := by
    simp [awkHead, unlines, l.awkField_text]
  rw [hhead, collect_plain l.ninth.ne l.ninth.plain]

end Pca9536Driver.Interface
