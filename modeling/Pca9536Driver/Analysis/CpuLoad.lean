import Pca9536Driver.Interface.Top

/-!
# When the processor load is read out of the summary line

The channel `CPU_LOAD` is the sum of the second and the fourth field of a line of
`top`, rounded to an integer. These fields are the user and the system share as long as
both stay below 100.0; at 100.0 the channel shows something else.
-/

set_option autoImplicit false

namespace Pca9536Driver.Analysis

open Pca9536Driver.Library Pca9536Driver.Model Pca9536Driver.Interface

/-- The sum of the user and the system share, rounded to the nearest integer, halves away
from zero. -/
def expectedLoad (u : Usage) : Value :=
  .int16 (some (Int16.ofInt (roundAway (((u.us.tenths + u.sy.tenths : ℕ) : ℚ) / 10))))

/-- In every scan, with any channels and from any state, every channel with the name
`CPU_LOAD` is written, and what is written is the load. -/
def LoadExact (env : Env) (u : Usage) : Prop :=
  ∀ (chs : List Channel) (mask : BitVec 8) (conned : Bool) (p : Process),
    ∃ r' w, execute (summarised env u) ⟨⟨chs.map Channel.toScada, mask, conned⟩, p⟩ = some r' ∧
      writes r'.proc.log = writes p.log ++ w ∧ Publishes chs w .cpuLoad (expectedLoad u)

/-! ## The published number -/

/-- INTERNAL: a number of tenths and the integer nearest to it. -/
theorem tenths_bounds (t : ℕ) :
    (((t + 5) / 10 : ℕ) : ℚ) - 1 / 2 ≤ t / 10 ∧ (t : ℚ) / 10 ≤ ((t + 5) / 10 : ℕ) + 2 / 5 := by
  have h1 : 10 * ((t + 5) / 10) ≤ t + 5 := Nat.mul_div_le _ _
  have h2 : t + 1 ≤ 10 * ((t + 5) / 10) + 5 := by omega
  have h1' : 10 * (((t + 5) / 10 : ℕ) : ℚ) ≤ t + 5 := by exact_mod_cast h1
  have h2' : (t : ℚ) + 1 ≤ 10 * (((t + 5) / 10 : ℕ) : ℚ) + 5 := by exact_mod_cast h2
  constructor <;> linarith

/-- INTERNAL: `std::round` of tenths. -/
theorem roundAway_tenths (t : ℕ) : roundAway ((t : ℚ) / 10) = ((t + 5) / 10 : ℕ) := by
  obtain ⟨h1, h2⟩ := tenths_bounds t
  exact roundAway_eq (by positivity) h1 (by linarith)

/-- INTERNAL: **a printed percentage is converted to the nearest integer**, halves upwards. -/
theorem toInt16_tenths (A : Arithmetic) {t : ℕ} (ht : t ≤ 2000) :
    toInt16 A (stripped 1 t) 1 = some (Int16.ofInt ((t + 5) / 10 : ℕ)) := by
  obtain ⟨h1, h2⟩ := tenths_bounds t
  have hread : strto (stripped 1 t) = some (.fin ((t : ℚ) / 10)) := by
    simpa using strto_stripped 1 t
  apply toInt16_of_near A hread (by omega) h1 (by linarith)
  rcases Nat.eq_zero_or_pos t with rfl | hpos
  · left
    simp
  · right
    have hpos' : (1 : ℚ) ≤ t := by exact_mod_cast hpos
    linarith

/-- INTERNAL: **what is published for a line**: the sum of the two fields that are read. -/
theorem value_cpuLoad {env : Env} {u : Usage} {cs : Cache → Bytes}
    (hfresh : ∀ c, ∃ h, cs c = collect ((summarised env u).popen h c.command)) (out : Bytes) :
    Diagnostic.cpuLoad.value (summarised env u).arith (Diagnostic.cpuLoad.shared cs) out =
      .int16 (some (Int16.ofInt ((u.second + u.fourth + 5) / 10 : ℕ))) := by
  obtain ⟨h, hh⟩ := hfresh .cpuLoad
  have hsum : u.second + u.fourth ≤ 2000 := by
    have := u.second_le
    have := u.fourth_le
    omega
  have hshared : Diagnostic.cpuLoad.shared cs = stripped 1 (u.second + u.fourth) :=
    hh.trans (collect_summarised env u h)
  rw [hshared, Diagnostic.value, toInt16_tenths _ hsum]

/-- **When the load is exact**: for every line, in every environment, what every scan
publishes as `CPU_LOAD` is the rounded sum of the user and the system share iff both are
below 100.0.
SOURCE: simple_test_protocol.cpp:135-137,166-169 -/
theorem load_exact_iff (env : Env) (u : Usage) :
    LoadExact env u ↔ u.us.tenths < 1000 ∧ u.sy.tenths < 1000 := by
  have hus := u.us.le
  have hsy := u.sy.le
  constructor
  · intro hexact
    obtain ⟨r', cs, h, hexec, hw, hfresh⟩ := execute_single (summarised env u) .cpuLoad
    obtain ⟨r'', w, hexec', hw', hshows⟩ :=
      hexact [⟨some ⟨1, Diagnostic.cpuLoad.name⟩, none⟩] 0xFF false ⟨fun _ => [], []⟩
    obtain rfl := Option.some.inj (hexec.symm.trans hexec')
    rw [value_cpuLoad hfresh] at hw
    obtain rfl := hw.symm.trans hw'
    have hvalue := hshows.1 _ (List.mem_singleton_self _) rfl
    simp only [expectedLoad, roundAway_tenths, Value.int16.injEq, Option.some.injEq] at hvalue
    -- Both numbers fit into 16 bits, so they are equal before the cast as well.
    have h2 := u.second_le
    have h4 := u.fourth_le
    have heq := congrArg Int16.toInt hvalue
    rw [Int16.toInt_ofInt_of_le (by omega) (by omega),
      Int16.toInt_ofInt_of_le (by omega) (by omega)] at heq
    unfold Usage.second Usage.fourth at heq
    split_ifs at heq <;> omega
  · rintro ⟨hus, hsy⟩ chs mask conned p
    obtain ⟨r', cs, w, hexec, hw, hall, hfresh⟩ :=
      execute_shows (summarised env u) chs mask conned p
    refine ⟨r', w, hexec, hw, publishes_of_value hall fun out => ?_⟩
    refine (value_cpuLoad hfresh out).trans ?_
    unfold expectedLoad
    rw [roundAway_tenths, Usage.second, Usage.fourth, if_pos hus, if_pos hus, if_pos hsy]

/-- **A processor that is fully used shows no load**: with 100.0 percent of user time, a
scan publishes 0 instead of 100. -/
theorem full_load_is_reported_as_zero :
    let zero : Percent := ⟨0, by decide⟩
    let u : Usage := ⟨⟨1000, by decide⟩, zero, zero, zero, zero, zero, zero, zero⟩
    u.line = lit "%Cpu(s):100.0 us,  0.0 sy,  0.0 ni,  0.0 id,  0.0 wa,  0.0 hi,  0.0 si,  0.0 st" ∧
    expectedLoad u = .int16 (some 100) ∧
    ∃ r', execute (summarised ⟨.exact, fun _ _ => [], fun _ _ => []⟩ u)
        ⟨⟨[⟨some ⟨some ⟨1, lit "CPU_LOAD"⟩⟩, none⟩], 0xFF, false⟩, ⟨fun _ => [], []⟩⟩ = some r' ∧
      writes r'.proc.log = [(⟨1, lit "CPU_LOAD"⟩, .int16 (some 0))] := by
  intro zero u
  refine ⟨by decide, ?_, ?_⟩
  · unfold expectedLoad
    rw [roundAway_tenths]
    decide
  · obtain ⟨r', cs, h, hexec, hw, hfresh⟩ :=
      execute_single (summarised ⟨.exact, fun _ _ => [], fun _ _ => []⟩ u) .cpuLoad
    rw [value_cpuLoad hfresh] at hw
    exact ⟨r', hexec, hw.trans (by decide)⟩

end Pca9536Driver.Analysis
