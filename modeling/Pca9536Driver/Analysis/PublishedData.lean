import Pca9536Driver.Analysis.Lifecycle
import Pca9536Driver.Analysis.ExecCommand

/-!
# The format of the published data

The reader of a variable can rely on a format that its name determines: the type of the
value, and for most names a set of values. Nothing a command prints leaves the format, be
it long, binary, not a number or missing, and nothing else is ever written.
-/

set_option autoImplicit false

namespace Pca9536Driver.Analysis

open Pca9536Driver.Library Pca9536Driver.Model Pca9536Driver.Interface

variable {ι κ : Type*} [DecidableEq ι] [DecidableEq κ]

/-! ## The format -/

/-- A text that comes from a command: a C string that does not end in white space, unless
it consists of white space. -/
structure CommandText (s : Bytes) : Prop where
  noNul : (0 : UInt8) ∉ s
  ends : (∀ b ∈ s, b ∈ trailing) ∨ ∀ s' b, s = s' ++ [b] → b ∉ trailing

/-- The values the name of a variable admits. The number is missing where the source
leaves it undefined. -/
def Admissible : Diagnostic → Value → Prop
  | .uptime, v => v = .int16 none ∨ ∃ n : Int16, v = .int16 (some n) ∧ 0 ≤ n.toInt
  | .usbSize, v | .sdSize, v =>
    ∃ n : Int16, v = .int16 (some n) ∧ (n = 0 ∨ ∃ k ≤ 12, n.toInt = 2 ^ k)
  | .sysTime, v | .rtcTime, v | .modemStatus, v => ∃ s, v = .string s ∧ CommandText s
  | .modemIface, v => v = .string (lit "NOT CONNECTED") ∨ v = .string (lit "/sys/class/net/usb0")
  | .usbDev, v => v = .string (lit "NOT CONNECTED") ∨ v = .string (lit "/media/usb")
  | .sdDev, v => v = .string (lit "NOT CONNECTED") ∨ v = .string (lit "/media/sdcard")
  | _, v => ∃ n, v = .int16 n

/-! ## What the conversions return -/

/-- INTERNAL: **what `exec_command` returns** has no NUL byte and no white space at its end,
unless it is white space only. -/
theorem commandText_collect (out : Bytes) : CommandText (collect out) := by
  constructor
  · exact noNul_collect out
  · by_cases h : readLines 126 out [] = [] ∨ ∃ b ∈ readLines 126 out [], b ∉ trailing
    · exact Or.inr ((rightTrimmed_trimEnd_iff _ _).mpr h).last
    · push Not at h
      left
      intro b hb
      unfold collect trimEnd at hb
      split at hb
      · exact h.2 b (List.mem_of_mem_take hb)
      · exact h.2 b hb

/-- INTERNAL: the hours are not negative, if the conversion is defined. -/
theorem uptimeSecondsToHours_nonneg (A : Arithmetic) (value : Bytes) :
    uptimeSecondsToHours A value = none ∨
      ∃ n : Int16, uptimeSecondsToHours A value = some n ∧ 0 ≤ n.toInt := by
  unfold uptimeSecondsToHours
  have hzero : ∃ n : Int16, some (0 : Int16) = some n ∧ 0 ≤ n.toInt := ⟨0, rfl, le_rfl⟩
  split_ifs with hnil
  · exact Or.inr hzero
  · cases stofWith A.double value with
    | none => exact Or.inr hzero
    | some seconds =>
      dsimp only
      split_ifs with hle
      · exact Or.inr hzero
      · cases seconds with
        | nan => exact Or.inl rfl
        | inf negative =>
          cases negative with
          | true => simp [FloatVal.le] at hle
          | false => exact Or.inr ⟨32767, rfl, by decide⟩
        | fin q =>
          right
          have hq : 0 < q := by simpa [FloatVal.le] using hle
          have hpos : 0 ≤ A.double.rnd (q / (3600 : ℕ)) := A.double.rnd_nonneg (by positivity)
          have hfloor : (A.double.divConst 3600 (.fin q)).floor =
              .fin (⌊A.double.rnd (q / (3600 : ℕ))⌋.toNat : ℕ) := by
            have hcast : ((⌊A.double.rnd (q / (3600 : ℕ))⌋.toNat : ℤ) : ℚ) =
                (⌊A.double.rnd (q / (3600 : ℕ))⌋ : ℚ) := by
              rw [Int.toNat_of_nonneg (Int.floor_nonneg.mpr hpos)]
            simp only [Rounding.divConst, FloatVal.floor]
            rw [← hcast, Int.cast_natCast]
          rw [hfloor, clampToInt16_natCast]
          refine ⟨_, rfl, ?_⟩
          rw [Int16.toInt_ofInt_of_le (by omega) (by omega)]
          omega

/-- INTERNAL: the search yields 0 or a power of two up to 4096. -/
theorem roundToPowerOfTwo_mem (v : FloatVal) :
    roundToPowerOfTwo v = 0 ∨ ∃ k ≤ 12, (roundToPowerOfTwo v).toInt = 2 ^ k := by
  have hsizes : ∀ n ∈ sizes, ∃ k ≤ 12, n.toInt = 2 ^ k := by
    intro n hn
    rw [sizes_eq, List.mem_map] at hn
    obtain ⟨k, hk, rfl⟩ := hn
    have hk' : k ≤ 12 := Nat.lt_succ_iff.mp (List.mem_range.mp hk)
    exact ⟨k, hk', toInt_size hk'⟩
  unfold roundToPowerOfTwo
  split_ifs with hzero hone
  · exact Or.inl rfl
  · exact Or.inr ⟨0, by omega, rfl⟩
  · right
    cases hfind : sizes.find? fun size => v.le (.fin size.toInt) with
    | none => exact hsizes _ (List.getLast_mem _)
    | some size => exact hsizes size (List.mem_of_find?_eq_some hfind)

/-- INTERNAL: **every value of a diagnostic is in its format**, whatever its probe and its
second command have printed. -/
theorem admissible_value (A : Arithmetic) (d : Diagnostic) (c : Bytes) {out : Bytes}
    (hout : out = [] ∨ ∃ text, out = collect text) : Admissible d (d.value A c out) := by
  have htext : CommandText out := by
    rcases hout with rfl | ⟨text, rfl⟩
    · exact ⟨List.not_mem_nil, Or.inl fun b hb => absurd hb List.not_mem_nil⟩
    · exact commandText_collect text
  have hsize : ∃ n : Int16, Value.int16 (some (if c = [] then 0 else mediaSize A out)) =
      .int16 (some n) ∧ (n = 0 ∨ ∃ k ≤ 12, n.toInt = 2 ^ k) := by
    refine ⟨_, rfl, ?_⟩
    split_ifs
    · exact Or.inl rfl
    · exact roundToPowerOfTwo_mem _
  cases d with
  | cpuTemp | cpuLoad | ramPercent | diskPercent => exact ⟨_, rfl⟩
  | usbUsed | usbPerc | sdUsed | sdPerc => exact ⟨_, rfl⟩
  | uptime =>
    show Value.int16 (uptimeSecondsToHours A c) = .int16 none ∨ _
    rcases uptimeSecondsToHours_nonneg A c with hnone | ⟨n, hn, hpos⟩
    · exact Or.inl (congrArg Value.int16 hnone)
    · exact Or.inr ⟨n, congrArg Value.int16 hn, hpos⟩
  | sysTime | rtcTime => exact ⟨out, rfl, htext⟩
  | modemStatus =>
    refine ⟨_, rfl, ?_⟩
    split_ifs
    · exact htext
    · exact ⟨by decide, Or.inr fun s' b heq => by
        have hlast := congrArg List.getLast? heq
        rw [List.getLast?_concat] at hlast
        obtain rfl : (68 : UInt8) = b := Option.some.inj hlast
        decide⟩
  | modemIface | usbDev | sdDev =>
    simp only [Admissible, Diagnostic.value, Value.string.injEq]
    split_ifs
    · simp
    · simp
  | usbSize | sdSize => exact hsize

/-! ## The runs -/

/-- A write is in the format of the name it goes to. -/
def WellFormed : Event → Prop
  | .write var v => ∃ d : Diagnostic, var.projectPath = d.name ∧ Admissible d v
  | _ => True

/-- INTERNAL: the events of a scan. -/
theorem wellFormed_scan (env : Env) (chs : List Channel) (r : Runtime) :
    ∃ new, (scan env chs r).proc.log = r.proc.log ++ new ∧ ∀ e ∈ new, WellFormed e := by
  apply forall_scan
  · exact fun c => trivial
  · exact fun d c cmd _ => trivial
  · exact fun var d c out hname hout => ⟨d, hname, admissible_value env.arith d c hout⟩
  · exact fun var buff => trivial
  · exact fun path buff cmd _ => trivial
  · exact fun mask => trivial

/-- **Everything that is written has the format of its name.** In every run of a runtime,
with any number of instances and blocks, from every state, in environments that answer
anything, every value written to a variable is written under the name of a diagnostic and
is admissible for it.
SOURCE: simple_test_protocol.cpp:9-78,157-275 -/
theorem published_data_admissible (s : Plant ι κ) (as : List (HostAction ι κ)) :
    ∀ x ∈ s.trace as, ∀ var v, .write var v ∈ x.2 →
      ∃ d : Diagnostic, var.projectPath = d.name ∧ Admissible d v := by
  have htrace : ∀ x ∈ s.trace as, ∀ e ∈ x.2, WellFormed e := by
    apply Plant.forall_trace
    · intro op r r' es hrun hlog
      rcases operation_cases hrun hlog with ⟨rfl, -⟩ | ⟨-, -, rfl⟩ | ⟨env, chs, -, -, rfl⟩
      · exact fun e he => absurd he List.not_mem_nil
      · intro e he
        rw [List.mem_singleton.mp he]
        trivial
      · obtain ⟨new, hnew, hall⟩ := wellFormed_scan env chs r
        obtain rfl := List.append_cancel_left (hlog.symm.trans hnew)
        exact hall
    · exact fun fb cmd hcmd => trivial
  exact fun x hx var v hv => htrace x hx _ hv

/-- `published_data_admissible` for the text of a device. -/
theorem published_data_admissible_device :
    let env : Env := ⟨.exact, fun _ _ => [], fun _ _ => []⟩
    let device : ScadaChannel := ⟨some ⟨some ⟨1, lit "USB_FLASH_DEV"⟩⟩, none⟩
    let s : Plant Unit Unit :=
      ⟨fun _ => ⟨[device], 0xFF, false⟩, fun _ => TestFB.new, ⟨fun _ => [], []⟩⟩
    let a : HostAction Unit Unit := .protocol () (.execute env)
    ∃ es v, (a, es) ∈ s.trace [a] ∧ .write ⟨1, lit "USB_FLASH_DEV"⟩ v ∈ es ∧
      ∃ d : Diagnostic, lit "USB_FLASH_DEV" = d.name ∧ Admissible d v := by
  intro env device s a
  obtain ⟨r', cs, h, hexec, hw, -⟩ := execute_single env .usbDev
  let s' : Plant Unit Unit := { s with
    protocols := Function.update s.protocols () r'.self
    proc := r'.proc }
  have hact : s.act a = some s' := by
    simp only [a, Plant.act, Operation.run]
    rw [show execute env ⟨s.protocols (), s.proc⟩ = some r' from hexec]
    rfl
  have htrace : s.trace [a] = [(a, r'.proc.log)] := Plant.trace_cons hact rfl []
  have hmem : (a, r'.proc.log) ∈ s.trace [a] := htrace ▸ List.mem_singleton_self _
  obtain ⟨v, hv⟩ : ∃ v, Event.write ⟨1, lit "USB_FLASH_DEV"⟩ v ∈ r'.proc.log := by
    have hwrite : (_, _) ∈ writes r'.proc.log := hw ▸ List.mem_singleton_self _
    obtain ⟨e, he, heq⟩ := List.mem_filterMap.mp hwrite
    cases e with
    | write var v =>
      obtain ⟨rfl, -⟩ := Prod.mk.inj (Option.some.inj heq)
      exact ⟨v, he⟩
    | _ => cases heq
  exact ⟨_, v, hmem, hv, published_data_admissible s [a] _ hmem _ v hv⟩

end Pca9536Driver.Analysis
