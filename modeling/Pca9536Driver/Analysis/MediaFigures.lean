import Pca9536Driver.Analysis.DeviceDetection
import Pca9536Driver.Interface.DiskFree
import Mathlib.Algebra.Order.Floor.Div

/-!
# The figures of a medium

Of a mounted medium `df` prints the size and the used space in megabytes. The size is
published in gigabytes, rounded up to a power of two; the table of the driver reaches up
to 4096, so this is exact for every capacity the channel is made for. The used space is
published in megabytes, up to the largest number of 16 bits.
-/

set_option autoImplicit false

namespace Pca9536Driver.Analysis

open Pca9536Driver.Library Pca9536Driver.Model Pca9536Driver.Interface

/-! ## Media -/

/-- A mounted medium of a capacity the channel for the size is made for, and what `df`
prints about it. -/
structure MountedMedium (M : Medium) where
  dev : Devices
  mounted : Mounted dev M.target
  header : Line
  row : DiskRow
  total_pos : 0 < row.total
  total_le : row.total ≤ 4096 * 1024
  used_le : row.used ≤ row.total

/-- An environment in which the probes and `df` report on the medium. -/
def MountedMedium.report {M : Medium} (X : MountedMedium M) (env : Env) : Env :=
  { probed env X.dev with
    popen := fun log cmd =>
      if cmd = M.df (lit "2") then awkSecond 2 (X.row.table X.header)
      else if cmd = M.df (lit "3") then awkSecond 3 (X.row.table X.header)
      else (probed env X.dev).popen log cmd }

/-! ## Gigabytes -/

/-- The least power of two that, in gigabytes, holds this many megabytes. -/
def gigabytes (megabytes : ℕ) : ℕ := 2 ^ Nat.clog 2 (megabytes ⌈/⌉ 1024)

/-- INTERNAL: a power of two is large enough iff the medium fits into it. -/
theorem gigabytes_le_iff (megabytes k : ℕ) :
    gigabytes megabytes ≤ 2 ^ k ↔ megabytes ≤ 1024 * 2 ^ k := by
  unfold gigabytes
  rw [Nat.pow_le_pow_iff_right (by norm_num), Nat.clog_le_iff_le_pow (by norm_num),
    ceilDiv_le_iff_le_mul (by norm_num)]

/-- INTERNAL: it is the least power of two that is not below the size. -/
theorem isLeast_gigabytes (megabytes : ℕ) :
    IsLeast {s | (∃ k, s = 2 ^ k) ∧ megabytes ≤ 1024 * s} (gigabytes megabytes) := by
  constructor
  · exact ⟨⟨_, rfl⟩, (gigabytes_le_iff _ _).mp le_rfl⟩
  · rintro s ⟨⟨k, rfl⟩, h⟩
    exact (gigabytes_le_iff _ _).mpr h

/-- A larger medium shows no smaller size. -/
theorem gigabytes_mono : Monotone gigabytes := by
  intro a b hab
  unfold gigabytes
  apply Nat.pow_le_pow_right (by norm_num)
  apply Nat.clog_mono_right
  have hpos : 0 < 1024 := by norm_num
  rw [ceilDiv_le_iff_le_mul hpos]
  exact hab.trans (le_smul_ceilDiv hpos)

/-- A size that is a power of two is shown as it is. -/
theorem gigabytes_nominal (k : ℕ) : gigabytes (1024 * 2 ^ k) = 2 ^ k := by
  apply le_antisymm
  · exact (gigabytes_le_iff _ _).mpr le_rfl
  · have h := (isLeast_gigabytes (1024 * 2 ^ k)).1.2
    omega

/-- INTERNAL: the sizes considered are in the table. -/
theorem gigabytes_le {megabytes : ℕ} (h : megabytes ≤ 4096 * 1024) : gigabytes megabytes ≤ 4096 :=
  (gigabytes_le_iff megabytes 12).mpr (by omega)

/-- INTERNAL: what is made of the size in the table of `df`. No step of it is rounded. -/
theorem mediaSize_decimal (A : Arithmetic) {megabytes : ℕ} (hpos : 0 < megabytes)
    (hle : megabytes ≤ 4096 * 1024) :
    mediaSize A (decimal megabytes) = Int16.ofInt (gigabytes megabytes) := by
  have hle' : (megabytes : ℚ) ≤ 2 ^ 22 := by exact_mod_cast hle
  have hrange : ¬ binary64.overflow ≤ |(megabytes : ℚ)| := by
    rw [not_le]
    apply binary64.abs_lt_overflow (by positivity)
    calc (megabytes : ℚ) ≤ 2 ^ 22 := hle'
      _ < 2 ^ binary64.emax := pow_lt_pow_right₀ (by norm_num) (by decide)
  have hrnd : A.double.rnd megabytes = megabytes :=
    A.double.rnd_natCast megabytes (hle.trans (by norm_num [binary64]))
  have hdiv : A.double.rnd (megabytes / (1024 : ℕ)) = megabytes / 1024 := by
    have h := A.double.fixes megabytes 10 (by norm_num [binary64]; omega) (by decide)
    norm_num at h ⊢
    exact h
  have hsize : mediaSize A (decimal megabytes) = roundToPowerOfTwo (.fin (megabytes / 1024)) := by
    simp only [mediaSize, atofWith, strto_decimal, hrange, if_false, hrnd, Rounding.divConst, hdiv]
  rw [hsize]
  apply roundToPowerOfTwo_eq (by positivity)
  · rw [Nat.clog_le_iff_le_pow (by norm_num), ceilDiv_le_iff_le_mul (by norm_num)]
    omega
  · have h := (isLeast_gigabytes megabytes).1.2
    rw [div_le_iff₀ (by norm_num), mul_comm]
    unfold gigabytes at h
    exact_mod_cast h
  · intro j hj
    have h : ¬ megabytes ≤ 1024 * 2 ^ j := by
      rw [← gigabytes_le_iff, gigabytes, Nat.pow_le_pow_iff_right (by norm_num)]
      omega
    rw [lt_div_iff₀ (by norm_num), mul_comm]
    exact_mod_cast not_le.mp h

/-! ## What a scan publishes -/

namespace MountedMedium

variable {M : Medium} (X : MountedMedium M)

/-- The published size. -/
def sizeShown : Int16 := Int16.ofInt (gigabytes X.row.total)

/-- The published used space. -/
def usedShown : Int16 := Int16.ofInt (min X.row.used 32767 : ℕ)

/-- INTERNAL: the size fits. -/
theorem toInt_sizeShown : X.sizeShown.toInt = gigabytes X.row.total := by
  have h := gigabytes_le X.total_le
  exact Int16.toInt_ofInt_of_le (by omega) (by omega)

/-- INTERNAL: the used space fits or is cut off at 32767. -/
theorem toInt_usedShown : X.usedShown.toInt = (min X.row.used 32767 : ℕ) :=
  Int16.toInt_ofInt_of_le (by omega) (by omega)

/-- INTERNAL: the probes are not disturbed by the reports of `df`. -/
theorem report_command (env : Env) (log : List Event) (c : Cache) :
    (X.report env).popen log c.command = (probed env X.dev).popen log c.command := by
  have h2 : c.command ≠ M.df (lit "2") := by cases M <;> cases c <;> decide
  have h3 : c.command ≠ M.df (lit "3") := by cases M <;> cases c <;> decide
  simp only [report, h2, h3, if_false]

/-- INTERNAL: the two figures as they are collected. -/
theorem collect_report (env : Env) (log : List Event) :
    collect ((X.report env).popen log (M.df (lit "2"))) = decimal X.row.total ∧
      collect ((X.report env).popen log (M.df (lit "3"))) = decimal X.row.used := by
  have h32 : M.df (lit "3") ≠ M.df (lit "2") := by cases M <;> decide
  simp only [report, if_true, h32, if_false]
  exact collect_diskColumn X.header X.row

end MountedMedium

/-- INTERNAL: **the values of the two channels**, made from strings of one scan. -/
theorem value_figures {M : Medium} (X : MountedMedium M) {env : Env} {cs : Cache → Bytes}
    (hfresh : ∀ c, ∃ h, cs c = collect ((X.report env).popen h c.command)) (log : List Event) :
    M.size.value (X.report env).arith (M.size.shared cs)
        (M.size.output (X.report env) log (M.size.shared cs)) = .int16 (some X.sizeShown) ∧
      M.used.value (X.report env).arith (M.used.shared cs)
        (M.used.output (X.report env) log (M.used.shared cs)) = .int16 (some X.usedShown) := by
  have hmount : cs M.cache ≠ [] := by
    simp only [X.report_command env] at hfresh
    exact ((strings_of_probed hfresh).1 M).mpr X.mounted.found
  have hused_le : X.row.used ≤ 2 ^ 24 := X.used_le.trans (X.total_le.trans (by norm_num))
  obtain ⟨hsize, hused, -⟩ := value_figures_of_df M (X.report env) log hmount
  obtain ⟨htotal, htaken⟩ := X.collect_report env log
  rw [htotal, mediaSize_decimal _ X.total_pos X.total_le] at hsize
  rw [htaken, toInt16_decimal _ hused_le] at hused
  exact ⟨hsize, hused⟩

/-- What the two figures say about a medium: the size is the least power of two, in
gigabytes, that holds the medium, the used space is given in megabytes up to 32767, and
both are in proportion. -/
structure Describes {M : Medium} (X : MountedMedium M) (size used : Int16) : Prop where
  size_isLeast : ∃ S : ℕ, size.toInt = S ∧
    IsLeast {s | (∃ k, s = 2 ^ k) ∧ X.row.total ≤ 1024 * s} S
  used_eq : used.toInt = (min X.row.used 32767 : ℕ)
  used_le : used.toInt ≤ 1024 * size.toInt

/-- INTERNAL: **the published figures describe the medium**. -/
theorem MountedMedium.describes {M : Medium} (X : MountedMedium M) :
    Describes X X.sizeShown X.usedShown where
  size_isLeast := ⟨_, X.toInt_sizeShown, isLeast_gigabytes _⟩
  used_eq := X.toInt_usedShown
  used_le := by
    have hheld := (isLeast_gigabytes X.row.total).1.2
    have hused := X.used_le
    rw [X.toInt_sizeShown, X.toInt_usedShown]
    omega

/-- **The figures describe the medium**: for every medium of a capacity the size is made
for, in every environment and arithmetic, with any channels and from any state, a scan
publishes the least power of two that holds the medium and the used space up to 32767.
The size grows with the capacity and gives a nominal one as itself; below 32767 every
megabyte shows.
SOURCE: simple_test_protocol.cpp:27-44,59-78,212-231,246-265 -/
theorem figures_describe_medium (M : Medium) (X : MountedMedium M) (env : Env)
    (chs : List Channel) (mask : BitVec 8) (conned : Bool) (p : Process) :
    (∃ r' w, execute (X.report env) ⟨⟨chs.map Channel.toScada, mask, conned⟩, p⟩ = some r' ∧
      writes r'.proc.log = writes p.log ++ w ∧
      Publishes chs w M.size (.int16 (some X.sizeShown)) ∧
      Publishes chs w M.used (.int16 (some X.usedShown))) ∧
    Describes X X.sizeShown X.usedShown ∧
    (∀ X' : MountedMedium M, X.row.total ≤ X'.row.total →
      X.sizeShown.toInt ≤ X'.sizeShown.toInt) ∧
    (∀ k, X.row.total = 1024 * 2 ^ k → X.sizeShown.toInt = 2 ^ k) ∧
    ∀ X' : MountedMedium M, X'.row.used = X.row.used + 1 → X.row.used < 32767 →
      X'.usedShown.toInt = X.usedShown.toInt + 1 := by
  refine ⟨?_, X.describes, ?_, ?_, ?_⟩
  · obtain ⟨r', cs, w, hexec, hw, hall, hfresh⟩ := execute_shows (X.report env) chs mask conned p
    have hvalues (log : List Event) := value_figures X hfresh log
    exact ⟨r', w, hexec, hw, publishes_of_output hall fun log => (hvalues log).1,
      publishes_of_output hall fun log => (hvalues log).2⟩
  · intro X' hle
    rw [X.toInt_sizeShown, X'.toInt_sizeShown]
    exact_mod_cast gigabytes_mono hle
  · intro k hk
    rw [X.toInt_sizeShown, hk, gigabytes_nominal]
    norm_num
  · intro X' hused hlt
    rw [X.toInt_usedShown, X'.toInt_usedShown]
    omega

/-- **The used space stops at 32767**: of a medium with 65536 megabytes, 40000 of them
used, a scan publishes 32767. -/
theorem used_space_saturates :
    let X : MountedMedium .usb :=
      { dev :=
          { mounts := [{ source := ⟨lit "/dev/sda1", by decide, by decide⟩
                         target := ⟨lit "/media/usb", by decide, by decide⟩
                         fstype := ⟨lit "vfat", by decide, by decide⟩
                         options := ⟨lit "rw", by decide, by decide⟩ }]
            interfaces := [] }
        mounted := ⟨_, List.mem_singleton_self _, rfl⟩
        header := ⟨lit "Filesystem 1M-blocks  Used Available Use% Mounted on", by decide, by decide⟩
        row :=
          { source := ⟨lit "/dev/sda1", by decide, by decide⟩
            source_ne := by decide
            source_noBlank := by decide
            total := 65536
            used := 40000
            sizeGap := 4
            usedGap := 0
            tail := ⟨lit "    25536  62% /media/usb", by decide, by decide⟩ }
        total_pos := by decide
        total_le := by decide
        used_le := by decide }
    X.row.used = 40000 ∧
    ∃ r', execute (X.report ⟨.exact, fun _ _ => [], fun _ _ => []⟩)
        ⟨⟨[⟨some ⟨some ⟨1, lit "USB_FLASH_USED"⟩⟩, none⟩], 0xFF, false⟩, ⟨fun _ => [], []⟩⟩ =
          some r' ∧
      writes r'.proc.log = [(⟨1, lit "USB_FLASH_USED"⟩, .int16 (some 32767))] := by
  intro X
  refine ⟨rfl, ?_⟩
  obtain ⟨r', cs, h, hexec, hw, hfresh⟩ :=
    execute_single (X.report ⟨.exact, fun _ _ => [], fun _ _ => []⟩) Medium.usb.used
  have hvalue := (value_figures X hfresh h).2
  exact ⟨r', hexec, hw.trans (by rw [hvalue]; rfl)⟩

end Pca9536Driver.Analysis
