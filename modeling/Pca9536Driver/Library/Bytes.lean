import Mathlib.Data.List.Infix
import Mathlib.Data.List.DropRight
import Mathlib.Tactic.Common

/-!
# Byte strings and the C operations on them

A C++ `std::string` is a sequence of bytes, and so is everything that comes out
of a pipe. This file has the operations the C and C++ standard libraries offer on
such sequences, in the form of list functions: substring search, the last byte
outside a set, the part of a buffer that is a C string, and `fgets`.

The two facts used later are that a stream without NUL bytes survives the round
trip through a bounded line buffer (`readLines_of_noNul`) and that trimming at the
last byte outside a set removes the longest suffix inside it, as long as there is such
a byte (`trimEnd_eq_rdropWhile`, `rightTrimmed_trimEnd_iff`).
-/

set_option autoImplicit false

namespace Pca9536Driver.Library

/-- A text: the bytes of a C string or of a stream. -/
abbrev Bytes := List UInt8

/-- The bytes of an ASCII literal. -/
def lit (s : String) : Bytes := s.toList.map Char.toUInt8

/-- The byte `\n`. -/
def newline : UInt8 := 10

/-- `s.find(pat) != std::string::npos`. -/
def contains (s pat : Bytes) : Bool := decide (pat <:+: s)

/-- A text is contained iff it is an infix. -/
@[simp] theorem contains_iff (s pat : Bytes) : contains s pat = true ↔ pat <:+: s := by
  simp [contains]

/-- INTERNAL: a property of every element of a list is decided along the list, also where
the elements are finitely many. -/
theorem forall_of_all {α : Type} {p : α → Prop} [DecidablePred p] {l : List α}
    (h : l.all (fun x => p x) = true) : ∀ x ∈ l, p x := by
  simpa using h

/-! ## The last byte outside a set -/

/-- `s.find_last_not_of(set)`, with `none` for `npos`. -/
def findLastNotOf (set : Bytes) : Bytes → Option ℕ
  | [] => none
  | b :: s =>
    match findLastNotOf set s with
    | some i => some (i + 1)
    | none => if b ∈ set then none else some 0

/-- INTERNAL: nothing is found iff all bytes are in the set. -/
theorem findLastNotOf_eq_none_iff (set s : Bytes) :
    findLastNotOf set s = none ↔ ∀ b ∈ s, b ∈ set := by
  induction s with
  | nil => simp [findLastNotOf]
  | cons b s ih =>
    cases h : findLastNotOf set s with
    | none =>
      have hs := ih.mp h
      simp only [findLastNotOf, h, List.mem_cons, forall_eq_or_imp]
      split <;> simp_all
    | some i =>
      have hs : ¬ ∀ c ∈ s, c ∈ set := fun hall => by simp [ih.mpr hall] at h
      simp only [findLastNotOf, h, reduceCtorEq, List.mem_cons, forall_eq_or_imp, false_iff]
      exact fun hall => hs hall.2

/-- INTERNAL: cutting off behind the byte that is found drops the bytes of the set from
the end. -/
theorem take_findLastNotOf (set s : Bytes) (i : ℕ) (h : findLastNotOf set s = some i) :
    s.take (i + 1) = s.rdropWhile (· ∈ set) := by
  induction s generalizing i with
  | nil => simp [findLastNotOf] at h
  | cons b s ih =>
    cases hs : findLastNotOf set s with
    | some j =>
      simp only [findLastNotOf, hs, Option.some.injEq] at h
      subst h
      have hne : s.rdropWhile (· ∈ set) ≠ [] := by
        intro hnil
        rw [List.rdropWhile_eq_nil_iff] at hnil
        rw [(findLastNotOf_eq_none_iff set s).mpr (by simpa using hnil)] at hs
        cases hs
      have hdrop : (b :: s).rdropWhile (· ∈ set) = b :: s.rdropWhile (· ∈ set) := by
        simp only [List.rdropWhile, List.reverse_cons, ne_eq, List.reverse_eq_nil_iff] at hne ⊢
        simp [List.dropWhile_append, hne]
      rw [hdrop, ← ih j hs, List.take_succ_cons]
    | none =>
      have hall := (findLastNotOf_eq_none_iff set s).mp hs
      simp only [findLastNotOf, hs] at h
      split at h
      · cases h
      · rename_i hb
        cases h
        have hnil : s.reverse.dropWhile (fun c => decide (c ∈ set)) = [] := by
          simpa [List.dropWhile_eq_nil_iff] using hall
        simp [List.rdropWhile, List.dropWhile_append, hnil, hb]

/-- The idiom `endpos = s.find_last_not_of(set); if (endpos != npos) s = s.substr(0,
endpos + 1)`. A string made of bytes of the set only is left as it is. -/
def trimEnd (set s : Bytes) : Bytes :=
  match findLastNotOf set s with
  | some endpos => s.take (endpos + 1)
  | none => s

/-- INTERNAL: on a string with a byte outside the set, the idiom removes the longest
suffix of bytes of the set. -/
theorem trimEnd_eq_rdropWhile (set s : Bytes) (h : ∃ b ∈ s, b ∉ set) :
    trimEnd set s = s.rdropWhile (· ∈ set) := by
  cases hf : findLastNotOf set s with
  | none =>
    obtain ⟨b, hb, hn⟩ := h
    exact absurd ((findLastNotOf_eq_none_iff set s).mp hf b hb) hn
  | some i => simpa [trimEnd, hf] using take_findLastNotOf set s i hf

/-- INTERNAL: trimming keeps every occurrence of a pattern that ends outside the
set. -/
theorem infix_trimEnd_iff (set s p : Bytes) (b : UInt8) (hb : b ∉ set) :
    (p ++ [b]) <:+: trimEnd set s ↔ (p ++ [b]) <:+: s := by
  by_cases hex : ∃ c ∈ s, c ∉ set
  · rw [trimEnd_eq_rdropWhile set s hex]
    constructor
    · exact fun h => h.trans (List.rdropWhile_prefix _ _).isInfix
    · rintro ⟨u, v, rfl⟩
      induction v using List.reverseRecOn with
      | nil =>
        rw [List.append_nil, ← List.append_assoc,
          List.rdropWhile_concat_neg _ _ _ (by simpa using hb)]
        exact ⟨u, [], by simp⟩
      | append_singleton v c ih =>
        rw [← List.append_assoc]
        by_cases hc : c ∈ set
        · rw [List.rdropWhile_concat_pos _ _ _ (by simpa using hc)]
          exact ih ⟨b, by simp, hb⟩
        · rw [List.rdropWhile_concat_neg _ _ _ (by simpa using hc)]
          exact ⟨u, v ++ [c], by simp⟩
  · have hnone : findLastNotOf set s = none := by
      rw [findLastNotOf_eq_none_iff]
      simpa using hex
    simp [trimEnd, hnone]

/-- `out` is `s` right-trimmed: only bytes of the set have been cut off, and no byte of
the set is left at the end. -/
structure RightTrimmed (set s out : Bytes) : Prop where
  cut : ∃ t, s = out ++ t ∧ ∀ b ∈ t, b ∈ set
  last : ∀ s' b, out = s' ++ [b] → b ∉ set

/-- INTERNAL: the trimmed text exists and is unique. -/
theorem rightTrimmed_iff (set s out : Bytes) :
    RightTrimmed set s out ↔ out = s.rdropWhile (· ∈ set) := by
  constructor
  · rintro ⟨⟨t, rfl, ht⟩, hlast⟩
    induction t using List.reverseRecOn with
    | nil =>
      rw [List.append_nil, eq_comm, List.rdropWhile_eq_self_iff]
      intro hne
      simpa using hlast _ _ (List.dropLast_append_getLast hne).symm
    | append_singleton t b ih =>
      rw [← List.append_assoc, List.rdropWhile_concat_pos _ _ _ (by simpa using ht b (by simp))]
      exact ih fun c hc => ht c (by simp [hc])
  · rintro rfl
    refine ⟨⟨s.rtakeWhile (· ∈ set), List.rdropWhile_append_rtakeWhile.symm, ?_⟩, ?_⟩
    · intro b hb
      simpa using List.mem_rtakeWhile_imp hb
    · intro s' b heq
      have hne : s.rdropWhile (· ∈ set) ≠ [] := by simp [heq]
      have hlast := List.rdropWhile_last_not (· ∈ set) s hne
      simp only [heq, List.getLast_append_singleton] at hlast
      simpa using hlast

/-- INTERNAL: the cut of `exec_command` trims a text of which something is left. -/
theorem RightTrimmed.trimEnd_eq {set s out : Bytes} (h : RightTrimmed set s out)
    (hne : out ≠ []) : trimEnd set s = out := by
  obtain ⟨s', b, hout⟩ := (List.eq_nil_or_concat' out).resolve_left hne
  obtain ⟨t, hs, -⟩ := h.cut
  rw [(rightTrimmed_iff set s out).mp h]
  exact trimEnd_eq_rdropWhile set s ⟨b, by simp [hs, hout], h.last s' b hout⟩

/-- INTERNAL: **the idiom trims every string but those made of bytes of the set only.** -/
theorem rightTrimmed_trimEnd_iff (set s : Bytes) :
    RightTrimmed set s (trimEnd set s) ↔ s = [] ∨ ∃ b ∈ s, b ∉ set := by
  constructor
  · intro h
    by_contra hcon
    push Not at hcon
    obtain ⟨hne, hall⟩ := hcon
    have hsame : trimEnd set s = s := by
      simp only [trimEnd, (findLastNotOf_eq_none_iff set s).mpr hall]
    obtain ⟨s', b, hs⟩ := (List.eq_nil_or_concat' s).resolve_left hne
    exact h.last s' b (hsame.trans hs) (hall b (by simp [hs]))
  · rintro (rfl | hex)
    · exact ⟨⟨[], rfl, by simp⟩, by simp [trimEnd, findLastNotOf]⟩
    · rw [rightTrimmed_iff]
      exact trimEnd_eq_rdropWhile set s hex

/-! ## Reading a stream through a bounded line buffer -/

/-- The C string at the start of a buffer: what stands before the first NUL. -/
def cString (buffer : Bytes) : Bytes := buffer.takeWhile (· ≠ 0)

/-- A text without NUL bytes is a C string as it is. -/
theorem cString_of_noNul (s : Bytes) (h : (0 : UInt8) ∉ s) : cString s = s := by
  unfold cString
  rw [List.takeWhile_eq_self_iff]
  intro b hb
  simpa using fun h0 : b = 0 => h (h0 ▸ hb)

/-- The first line of a stream, cut off after `room` bytes, and what follows it. -/
def takeLine : ℕ → Bytes → Bytes × Bytes
  | 0, s => ([], s)
  | _ + 1, [] => ([], [])
  | room + 1, b :: s =>
    if b = newline then ([b], s)
    else (b :: (takeLine room s).1, (takeLine room s).2)

/-- INTERNAL: reading a line loses no byte. -/
theorem takeLine_append (room : ℕ) (s : Bytes) :
    (takeLine room s).1 ++ (takeLine room s).2 = s := by
  induction room generalizing s with
  | zero => simp [takeLine]
  | succ room ih =>
    cases s with
    | nil => simp [takeLine]
    | cons b s =>
      by_cases hb : b = newline
      · simp [takeLine, hb]
      · simp [takeLine, hb, ih s]

/-- INTERNAL: reading a line makes progress. -/
theorem takeLine_length (room : ℕ) (s : Bytes) (hs : s ≠ []) :
    (takeLine (room + 1) s).2.length < s.length := by
  cases s with
  | nil => exact absurd rfl hs
  | cons b s =>
    have happ := congrArg List.length (takeLine_append room s)
    simp only [List.length_append] at happ
    by_cases hb : b = newline
    · simp [takeLine, hb]
    · simp only [takeLine, hb, if_false, List.length_cons]
      omega

/-- `fgets(buffer, size, stream)`: the bytes stored in front of the terminating NUL and
the rest of the stream, or `none` at its end. -/
def fgets (size : ℕ) (stream : Bytes) : Option (Bytes × Bytes) :=
  if stream = [] then none else some (takeLine (size - 1) stream)

/-- INTERNAL: a call of `fgets` that succeeds makes progress. -/
theorem fgets_length {size : ℕ} {stream buffer rest : Bytes} (hsize : 2 ≤ size)
    (h : fgets size stream = some (buffer, rest)) : rest.length < stream.length := by
  obtain ⟨room, rfl⟩ : ∃ room, size = room + 2 := ⟨size - 2, by omega⟩
  by_cases hs : stream = []
  · simp [fgets, hs] at h
  · simp only [fgets, hs, if_false, Option.some.injEq] at h
    have := takeLine_length room stream hs
    simp_all

/-- INTERNAL: a call of `fgets` loses no byte. -/
theorem fgets_append {size : ℕ} {stream buffer rest : Bytes}
    (h : fgets size stream = some (buffer, rest)) : buffer ++ rest = stream := by
  by_cases hs : stream = []
  · simp [fgets, hs] at h
  · simp only [fgets, hs, if_false, Option.some.injEq] at h
    have := takeLine_append (size - 1) stream
    simp_all

/-- The loop `while (fgets(buffer, size, stream)) result += buffer;`, for a buffer of
`extra + 2` bytes. -/
def readLines (extra : ℕ) (stream result : Bytes) : Bytes :=
  match _h : fgets (extra + 2) stream with
  | none => result
  | some (buffer, rest) => readLines extra rest (result ++ cString buffer)
termination_by stream.length
decreasing_by exact fgets_length (by omega) _h

/-- INTERNAL: **the loop reassembles a stream without NUL bytes**, wherever the
buffer cuts it. -/
theorem readLines_of_noNul (extra : ℕ) (stream result : Bytes)
    (h : (0 : UInt8) ∉ stream) : readLines extra stream result = result ++ stream := by
  induction hn : stream.length using Nat.strong_induction_on generalizing stream result with
  | _ n ih =>
    rw [readLines]
    split
    · rename_i hf
      have hs : stream = [] := by
        by_contra hs
        simp [fgets, hs] at hf
      simp [hs]
    · rename_i buffer rest hf
      have happ := fgets_append hf
      have hlt := fgets_length (by omega) hf
      have hbuf : (0 : UInt8) ∉ buffer := fun h0 => h (by simp [← happ, h0])
      have hrest : (0 : UInt8) ∉ rest := fun h0 => h (by simp [← happ, h0])
      rw [cString_of_noNul buffer hbuf, ih rest.length (by omega) rest _ hrest rfl, ← happ,
        List.append_assoc]

/-- INTERNAL: what is collected has no NUL bytes, whatever the stream. -/
theorem noNul_readLines (extra : ℕ) (stream result : Bytes) (h : (0 : UInt8) ∉ result) :
    (0 : UInt8) ∉ readLines extra stream result := by
  induction hn : stream.length using Nat.strong_induction_on generalizing stream result with
  | _ n ih =>
    rw [readLines]
    split
    · exact h
    · rename_i buffer rest hf
      have hlt := fgets_length (by omega) hf
      have hbuf : (0 : UInt8) ∉ cString buffer := fun h0 => by
        simpa using List.mem_takeWhile_imp h0
      exact ih rest.length (by omega) rest _ (by simp [h, hbuf]) rfl

/-! ## Lines and fields -/

/-- The text of a list of lines, each with its line end. -/
def unlines (ls : List Bytes) : Bytes := ls.flatMap (· ++ [newline])

/-- No lines are no text. -/
@[simp] theorem unlines_nil : unlines [] = [] := rfl

/-- The first line stands in front of the others. -/
@[simp] theorem unlines_cons (l : Bytes) (ls : List Bytes) :
    unlines (l :: ls) = l ++ newline :: unlines ls := by
  simp [unlines]

/-- INTERNAL: a pattern without line ends lies in a text iff it lies in one of its
lines. -/
theorem infix_unlines_iff (pat : Bytes) (ls : List Bytes) (hpat : newline ∉ pat)
    (hne : pat ≠ []) : pat <:+: unlines ls ↔ ∃ l ∈ ls, pat <:+: l := by
  induction ls with
  | nil => simp [hne]
  | cons l ls ih =>
    rw [unlines_cons, List.exists_mem_cons_iff, ← ih]
    constructor
    · rintro ⟨u, v, h⟩
      rw [List.append_assoc, List.append_eq_append_iff] at h
      rcases h with ⟨w, rfl, h⟩ | ⟨w, rfl, h⟩
      · -- The pattern starts inside the line `l`.
        rw [List.append_eq_append_iff] at h
        rcases h with ⟨x, rfl, h⟩ | ⟨x, rfl, h⟩
        · exact Or.inl ⟨u, x, by simp⟩
        · cases x with
          | nil => exact Or.inl ⟨u, [], by simp⟩
          | cons c x =>
            simp only [List.cons_append, List.cons.injEq] at h
            exact absurd (by simp [← h.1]) hpat
      · cases w with
        | nil =>
          cases pat with
          | nil => exact absurd rfl hne
          | cons c pat =>
            simp only [List.nil_append, List.cons_append, List.cons.injEq] at h
            exact absurd (by simp [h.1]) hpat
        | cons c w =>
          simp only [List.cons_append, List.cons.injEq] at h
          exact Or.inr ⟨w, v, by simp [h.2]⟩
    · rintro (h | h)
      · exact h.trans (List.prefix_append _ _).isInfix
      · exact h.trans ((List.suffix_cons _ _).trans (List.suffix_append _ _)).isInfix

/-- The blanks that separate the words of a command line and the fields of a line. -/
def isBlank (b : UInt8) : Bool := b = 32 || b = 9

/-- The words of a line: what stands between runs of blanks. -/
def fields (s : Bytes) : List Bytes := (s.splitOnP isBlank).filter (· ≠ [])

/-- An empty line has no fields. -/
@[simp] theorem fields_nil : fields [] = [] := by simp [fields]

/-- INTERNAL: **a blank separates fields**, and belongs to none. -/
theorem fields_append_blank (s t : Bytes) (b : UInt8) (hb : isBlank b = true) :
    fields (s ++ b :: t) = fields s ++ fields t := by
  simp [fields, List.splitOnP_append_cons s t hb]

/-- A word is one field. -/
theorem fields_word (w : Bytes) (hw : w ≠ []) (hnb : w.any isBlank = false) :
    fields w = [w] := by
  have hnb' : ∀ c ∈ w, isBlank c = false := by simpa using hnb
  simp [fields, List.splitOnP_eq_singleton hnb', hw]

/-- INTERNAL: a word with a blank behind it is the first field. -/
theorem fields_word_cons (w s : Bytes) (b : UInt8) (hw : w ≠ [])
    (hnb : w.any isBlank = false) (hb : isBlank b = true) :
    fields (w ++ b :: s) = w :: fields s := by
  rw [fields_append_blank _ _ _ hb, fields_word w hw hnb, List.singleton_append]

/-- Blanks in front of a text make no field. -/
theorem fields_replicate_append (n : ℕ) (b : UInt8) (s : Bytes) (hb : isBlank b = true) :
    fields (List.replicate n b ++ s) = fields s := by
  induction n with
  | zero => rfl
  | succ n ih =>
    rw [List.replicate_succ, List.cons_append]
    simpa [ih] using fields_append_blank [] (List.replicate n b ++ s) b hb

end Pca9536Driver.Library
