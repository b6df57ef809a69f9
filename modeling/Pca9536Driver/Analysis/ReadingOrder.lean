import Pca9536Driver.Interface.Free
import Pca9536Driver.Analysis.ConversionSafety

/-!
# Larger readings are not shown as smaller numbers

The numbers a scan publishes are made from texts in three ways: `to_int16` scales and
rounds, `uptime_seconds_to_hours` divides and cuts off, and the size of a medium is looked
up in a table of powers of two. All three clamp or saturate, and every step in between,
the roundings of the arithmetic included, preserves the order of the readings. Only the
exception of `std::stof` and `std::stod` does not: it turns a number out of range into 0.
-/

set_option autoImplicit false

namespace Pca9536Driver.Analysis

open Pca9536Driver.Library Pca9536Driver.Model Pca9536Driver.Interface

/-! ## The conversions -/

/-- Two results of conversions, the second one not below the first. -/
def InOrder (a b : Option Int16) : Prop := ∃ m n, a = some m ∧ b = some n ∧ m.toInt ≤ n.toInt

/-- INTERNAL: the clamp and the cast preserve the order. -/
theorem clampToInt16_inOrder {v w : FloatVal} (h : v.le w = true) :
    InOrder (clampToInt16 v) (clampToInt16 w) := by
  obtain ⟨a, b, hv, hw, ha, hab, hb⟩ :=
    FloatVal.clamp_le (by norm_num : (-32768 : ℚ) ≤ 32767) h
  unfold clampToInt16
  rw [hv, hw]
  exact FloatVal.toInt16?_le ha hab hb

section Texts

variable (A : Arithmetic) {s t : Bytes} {x y : FloatVal}

/-- INTERNAL: **`to_int16` preserves the order** of what is read. -/
theorem toInt16_inOrder {scale : ℚ} (hscale : scale ∈ scales) (hs : strto s = some x)
    (ht : strto t = some y) (h : x.le y = true) (hsr : stofWith A.single s ≠ none)
    (htr : stofWith A.single t ≠ none) : InOrder (toInt16 A s scale) (toInt16 A t scale) := by
  obtain ⟨v, hv⟩ := Option.ne_none_iff_exists'.mp hsr
  obtain ⟨w, hw⟩ := Option.ne_none_iff_exists'.mp htr
  have hread := stofWith_le A.single hs ht h hv hw
  have hscaled := FloatVal.round_le (A.single.mul_le (rnd_scale_pos A hscale) hread)
  simp only [toInt16, ne_nil_of_strto hs, ne_nil_of_strto ht, if_false, hv, hw]
  exact clampToInt16_inOrder hscaled

/-- INTERNAL: **hours are in order**: what is not positive shows as 0, and no positive
time shows as less. -/
theorem uptimeSecondsToHours_inOrder (hs : strto s = some x) (ht : strto t = some y)
    (h : x.le y = true) (hsr : stofWith A.double s ≠ none) (htr : stofWith A.double t ≠ none) :
    InOrder (uptimeSecondsToHours A s) (uptimeSecondsToHours A t) := by
  obtain ⟨v, hv⟩ := Option.ne_none_iff_exists'.mp hsr
  obtain ⟨w, hw⟩ := Option.ne_none_iff_exists'.mp htr
  have hread := stofWith_le A.double hs ht h hv hw
  have hhours {a b : FloatVal} (hab : a.le b = true) :
      InOrder (clampToInt16 (A.double.divConst 3600 a).floor)
        (clampToInt16 (A.double.divConst 3600 b).floor) :=
    clampToInt16_inOrder (FloatVal.floor_le (A.double.divConst_le 3600 hab))
  simp only [uptimeSecondsToHours, ne_nil_of_strto hs, ne_nil_of_strto ht, if_false, hv, hw]
  cases hw0 : w.le (.fin 0) with
  | true =>
    rw [FloatVal.le_trans hread hw0]
    exact ⟨0, 0, rfl, rfl, le_rfl⟩
  | false =>
    have hpos : FloatVal.le (.fin 0) w = true :=
      FloatVal.le_of_not_le (FloatVal.ne_nan_of_le hread).2 (by simp) hw0
    cases hv0 : v.le (.fin 0) with
    | true =>
      have hzero : clampToInt16 (A.double.divConst 3600 (.fin 0)).floor = some 0 := by
        simpa [Rounding.divConst, A.double.rnd_zero, FloatVal.floor] using
          clampToInt16_natCast 0
      have := hhours hpos
      rwa [hzero] at this
    | false => exact hhours hread

/-! ## The table of sizes -/

/-- INTERNAL: **in a table in ascending order** a weaker test is met no later. -/
theorem find_le_find {p q : Int16 → Bool} (hpq : ∀ size, q size = true → p size = true)
    {l : List Int16} (hl : l.Pairwise fun a b => a.toInt ≤ b.toInt) {b : Int16}
    (hb : l.find? q = some b) : ∃ a, l.find? p = some a ∧ a.toInt ≤ b.toInt := by
  induction l with
  | nil => cases hb
  | cons size l ih =>
    obtain ⟨hhead, htail⟩ := List.pairwise_cons.mp hl
    cases hp : p size with
    | true =>
      refine ⟨size, List.find?_cons_of_pos hp, ?_⟩
      rcases List.mem_cons.mp (List.mem_of_find?_eq_some hb) with rfl | hmem
      · exact le_rfl
      · exact hhead b hmem
    | false =>
      have hq : ¬ q size = true := fun hq => by
        rw [hpq size hq] at hp
        cases hp
      rw [List.find?_cons_of_neg hq] at hb
      rw [List.find?_cons_of_neg (by simp [hp])]
      exact ih htail hb

/-- The entries of the table are from 1 to 4096. -/
theorem sizes_bounds : ∀ size ∈ sizes, 1 ≤ size.toInt ∧ size.toInt ≤ 4096 :=
  forall_of_all (by decide)

/-- INTERNAL: what is above 0 is shown as 1 at least. -/
theorem one_le_roundToPowerOfTwo {v : FloatVal} (h : v.le (.fin 0) = false) :
    1 ≤ (roundToPowerOfTwo v).toInt := by
  unfold roundToPowerOfTwo
  rw [h]
  split
  · cases ‹false = true›
  · split
    · decide
    · split
      · exact (sizes_bounds _ (List.mem_of_find?_eq_some ‹_›)).1
      · decide

/-- INTERNAL: **the search in the table preserves the order**. -/
theorem roundToPowerOfTwo_mono {v w : FloatVal} (h : v.le w = true) :
    (roundToPowerOfTwo v).toInt ≤ (roundToPowerOfTwo w).toInt := by
  cases hw0 : w.le (.fin 0) with
  | true => simp [roundToPowerOfTwo, hw0, FloatVal.le_trans h hw0]
  | false =>
    have hone := one_le_roundToPowerOfTwo hw0
    cases hv0 : v.le (.fin 0) with
    | true =>
      have hzero : (roundToPowerOfTwo v).toInt = 0 := by simp [roundToPowerOfTwo, hv0]
      omega
    | false =>
      cases hv1 : v.lt (.fin 1) with
      | true =>
        have hvone : (roundToPowerOfTwo v).toInt = 1 := by simp [roundToPowerOfTwo, hv0, hv1]
        omega
      | false =>
        have hw1 : w.lt (.fin 1) = false := by
          by_contra hlt
          rw [FloatVal.lt_of_le_of_lt h (by simpa using hlt)] at hv1
          cases hv1
        simp only [roundToPowerOfTwo, hv0, hw0, hv1, hw1, Bool.false_eq_true, if_false]
        cases hfw : sizes.find? fun size => w.le (.fin size.toInt) with
        | some b =>
          obtain ⟨a, hfv, hab⟩ := find_le_find (p := fun size => v.le (.fin size.toInt))
            (fun size => FloatVal.le_trans h) (by decide) hfw
          rw [hfv]
          exact hab
        | none =>
          cases hfv : sizes.find? fun size => v.le (.fin size.toInt) with
          | some a => exact (sizes_bounds a (List.mem_of_find?_eq_some hfv)).2
          | none => exact le_rfl

/-- INTERNAL: so does the size of a medium. -/
theorem mediaSize_inOrder (hs : strto s = some x) (ht : strto t = some y)
    (h : x.le y = true) : InOrder (some (mediaSize A s)) (some (mediaSize A t)) :=
  ⟨_, _, rfl, rfl, roundToPowerOfTwo_mono
    (A.double.divConst_le 1024 (atofWith_le A.double hs ht h))⟩

end Texts

/-! ## The channels -/

/-- The text a channel makes a number of, given the output `c` of its probe and the output
`out` of its second command.
SOURCE: simple_test_protocol.cpp:163-180,212-274 -/
def reading (c out : Bytes) : Diagnostic → Option Bytes
  | .cpuTemp | .cpuLoad | .ramPercent | .diskPercent | .uptime => some c
  | .usbSize | .usbUsed | .usbPerc | .sdSize | .sdUsed | .sdPerc =>
    if c = [] then none else some out
  | .sysTime | .rtcTime | .modemStatus | .modemIface | .usbDev | .sdDev => none

/-- Whether the function that reads the text throws. `std::atof`, which reads the sizes,
does not. -/
def Throws (A : Arithmetic) (s : Bytes) : Diagnostic → Prop
  | .uptime => stofWith A.double s = none
  | .usbSize | .sdSize => False
  | _ => stofWith A.single s = none

/-- In this environment a channel makes its number of the text `s`, whenever it is
probed. -/
def Reads (env : Env) (d : Diagnostic) (s : Bytes) : Prop :=
  ∀ cs : Cache → Bytes, (∀ c, ∃ h, cs c = collect (env.popen h c.command)) →
    ∀ log, reading (d.shared cs) (d.output env log (d.shared cs)) d = some s

/-- The number a channel makes of a text.
SOURCE: simple_test_protocol.cpp:163-180,212-274 -/
def convert (A : Arithmetic) (s : Bytes) : Diagnostic → Option Int16
  | .cpuTemp => toInt16 A s 0.001
  | .uptime => uptimeSecondsToHours A s
  | .usbSize | .sdSize => some (mediaSize A s)
  | _ => toInt16 A s 1

/-- INTERNAL: a numeric name publishes the conversion of its reading. -/
theorem value_of_reading (A : Arithmetic) {d : Diagnostic} {c out s : Bytes}
    (h : reading c out d = some s) : d.value A c out = .int16 (convert A s d) := by
  cases d <;> simp only [reading, Option.some.injEq, Option.ite_none_left_eq_some,
    reduceCtorEq] at h
  case cpuTemp | cpuLoad | ramPercent | diskPercent | uptime =>
    subst h
    rfl
  all_goals
    obtain ⟨hne, rfl⟩ := h
    simp only [Diagnostic.value, convert, hne, if_false]

/-- INTERNAL: **the numbers one channel makes of two texts.** -/
theorem convert_inOrder (A : Arithmetic) (d : Diagnostic) {s t : Bytes} {x y : FloatVal}
    (hs : strto s = some x) (ht : strto t = some y) (h : x.le y = true)
    (hsr : ¬ Throws A s d) (htr : ¬ Throws A t d) : InOrder (convert A s d) (convert A t d) := by
  have hone : (1 : ℚ) ∈ scales := by simp [scales]
  have hmilli : (0.001 : ℚ) ∈ scales := by simp [scales]
  cases d
  case cpuTemp => exact toInt16_inOrder A hmilli hs ht h hsr htr
  case uptime => exact uptimeSecondsToHours_inOrder A hs ht h hsr htr
  case usbSize | sdSize => exact mediaSize_inOrder A hs ht h
  all_goals exact toInt16_inOrder A hone hs ht h hsr htr

/-- **A larger reading is not shown as a smaller number.** For two scans of any channels,
from any states, in environments with the same arithmetic in which a channel reads the
texts `s` and `t`: if both texts are numerals, the value of `s` is at most that of `t` and
no function that reads them throws, then the channel publishes numbers in this order. It
holds for each of the eleven channels that show a number.
SOURCE: simple_test_protocol.cpp:27-78,163-180,212-274 -/
theorem larger_reading_shows_no_less (env env' : Env) (harith : env'.arith = env.arith)
    (d : Diagnostic) {s t : Bytes} {x y : FloatVal} (hreads : Reads env d s)
    (hreads' : Reads env' d t) (hs : strto s = some x) (ht : strto t = some y)
    (hle : x.le y = true) (hsr : ¬ Throws env.arith s d) (htr : ¬ Throws env.arith t d)
    (chs chs' : List Channel) (mask mask' : BitVec 8) (conned conned' : Bool)
    (p p' : Process) :
    ∃ r w r' w', ∃ m n : Int16,
      execute env ⟨⟨chs.map Channel.toScada, mask, conned⟩, p⟩ = some r ∧
      writes r.proc.log = writes p.log ++ w ∧
      execute env' ⟨⟨chs'.map Channel.toScada, mask', conned'⟩, p'⟩ = some r' ∧
      writes r'.proc.log = writes p'.log ++ w' ∧
      Publishes chs w d (.int16 (some m)) ∧ Publishes chs' w' d (.int16 (some n)) ∧
      m.toInt ≤ n.toInt := by
  obtain ⟨r, cs, w, hexec, hw, hall, hfresh⟩ := execute_shows env chs mask conned p
  obtain ⟨r', cs', w', hexec', hw', hall', hfresh'⟩ := execute_shows env' chs' mask' conned' p'
  obtain ⟨m, n, hm, hn, hmn⟩ := convert_inOrder env.arith d hs ht hle hsr htr
  refine ⟨r, w, r', w', m, n, hexec, hw, hexec', hw', publishes_of_output hall ?_,
    publishes_of_output hall' ?_, hmn⟩
  · intro log
    rw [value_of_reading env.arith (hreads cs hfresh log), hm]
  · intro log
    rw [harith, value_of_reading env.arith (hreads' cs' hfresh' log), hn]

/-- `larger_reading_shows_no_less` for two processor loads. -/
theorem larger_reading_shows_no_less_load :
    let env (load : Bytes) : Env := ⟨.nearest, fun _ _ => load ++ [newline], fun _ _ => []⟩
    let chs : List Channel := [⟨some ⟨1, lit "CPU_LOAD"⟩, none⟩]
    let start : Runtime := ⟨⟨chs.map Channel.toScada, 0, false⟩, ⟨fun _ => [], []⟩⟩
    ∃ r r', ∃ m n : Int16, execute (env (lit "7.5")) start = some r ∧
      execute (env (lit "1e2")) start = some r' ∧
      (⟨1, lit "CPU_LOAD"⟩, .int16 (some m)) ∈ writes r.proc.log ∧
      (⟨1, lit "CPU_LOAD"⟩, .int16 (some n)) ∈ writes r'.proc.log ∧ m.toInt ≤ n.toInt := by
  intro env chs start
  have hreads (load : Bytes) (hload : collect (load ++ [newline]) = load) :
      Reads (env load) .cpuLoad load := by
    intro cs hcs log
    obtain ⟨_, hc⟩ := hcs .cpuLoad
    show some (cs .cpuLoad) = some load
    rw [hc, hload]
  have hsr : stofWith (Arithmetic.nearest).single (lit "7.5") ≠ none := by decide +kernel
  have htr : stofWith (Arithmetic.nearest).single (lit "1e2") ≠ none := by decide +kernel
  obtain ⟨r, w, r', w', m, n, hexec, hw, hexec', hw', hm, hn, hmn⟩ :=
    larger_reading_shows_no_less (env (lit "7.5")) (env (lit "1e2")) rfl .cpuLoad
      (x := .fin (75 / 10)) (y := .fin 100) (hreads (lit "7.5") (by decide +kernel))
      (hreads (lit "1e2") (by decide +kernel)) (by decide +kernel) (by decide +kernel)
      (by decide +kernel) hsr htr chs chs 0 0 false false ⟨fun _ => [], []⟩ ⟨fun _ => [], []⟩
  refine ⟨r, r', m, n, hexec, hexec', ?_, ?_, hmn⟩
  · rw [hw]
    exact hm.2 _ (List.mem_singleton_self _) _ rfl rfl
  · rw [hw']
    exact hn.2 _ (List.mem_singleton_self _) _ rfl rfl

end Pca9536Driver.Analysis
