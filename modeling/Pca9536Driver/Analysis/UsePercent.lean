import Pca9536Driver.Interface.Columns
import Pca9536Driver.Analysis.DeviceDetection

/-!
# The three percentages show the column of `df`

`DISK_PERCENT` takes the percent sign away before it reads the number, the percentages of
the media leave it in the text and let `std::stof` stop there. A dash, which `df` prints for
a file system without a size, is no numeral and shows as 0.
-/

set_option autoImplicit false

namespace Pca9536Driver.Analysis

open Pca9536Driver.Library Pca9536Driver.Model Pca9536Driver.Interface

/-! ## The tables -/

/-- What `df` prints: the rows of the root file system and of the media. -/
structure UseTables where
  header : Line
  root : UseRow
  row : Medium → UseRow

/-- An environment in which `df` prints the tables. -/
def UseTables.report (t : UseTables) (env : Env) : Env :=
  { env with
    popen := fun log cmd =>
      if cmd = lit "df -h / | awk 'NR==2\x7bprint $5\x7d' | tr -d '%'" then
        trDelete 37 (awkSecond 5 (t.root.table t.header))
      else if cmd = Medium.usb.df (lit "5") then awkSecond 5 ((t.row .usb).table t.header)
      else if cmd = Medium.sd.df (lit "5") then awkSecond 5 ((t.row .sd).table t.header)
      else env.popen log cmd }

/-- The number shown for a row: its percentage, 0 without one. -/
def percentShown (row : UseRow) : Int16 := Int16.ofInt (row.percent.getD 0 : ℕ)

variable (t : UseTables) (env : Env) (dev : Devices) (log : List Event)

/-- INTERNAL: the used share of the root file system as collected. -/
theorem collect_disk :
    collect ((probed (t.report env) dev).popen log (Cache.command .diskPercent)) =
      t.root.plainText := by
  have hprobe : (t.report env).popen log (Cache.command .diskPercent) =
      trDelete 37 (awkSecond 5 (t.root.table t.header)) := by
    simp only [UseTables.report, Cache.command, if_true]
  rw [probed_popen_of_ne _ _ _ (by decide) (by decide) (by decide), hprobe]
  exact collect_useColumn_plain t.header t.root

/-- INTERNAL: the used share of a medium as collected. -/
theorem collect_medium (M : Medium) :
    collect ((probed (t.report env) dev).popen log (M.df (lit "5"))) = (t.row M).useText := by
  have h1 : M.df (lit "5") ≠ Cache.command .usbMount := by cases M <;> decide
  have h2 : M.df (lit "5") ≠ Cache.command .sdMount := by cases M <;> decide
  have h3 : M.df (lit "5") ≠ Cache.command .modemCheck := by cases M <;> decide
  have h4 : M.df (lit "5") ≠ lit "df -h / | awk 'NR==2\x7bprint $5\x7d' | tr -d '%'" := by
    cases M <;> decide
  have h5 : Medium.sd.df (lit "5") ≠ Medium.usb.df (lit "5") := by decide
  rw [probed_popen_of_ne _ _ _ h1 h2 h3, ← collect_useColumn t.header (t.row M)]
  simp only [UseTables.report, h4, if_false]
  cases M
  · rw [if_pos rfl]
  · rw [if_neg h5, if_pos rfl]

/-! ## The numbers -/

/-- INTERNAL: **a number up to 100 is converted to itself**. -/
theorem toInt16_count (A : Arithmetic) {s : Bytes} {n : ℕ} (hread : strto s = some (.fin n))
    (hn : n ≤ 100) : toInt16 A s 1 = some (Int16.ofInt n) := by
  apply toInt16_of_near A hread (by omega) (by linarith) (by linarith)
  rcases Nat.eq_zero_or_pos n with rfl | hpos
  · exact Or.inl Nat.cast_zero
  · have hone : (1 : ℚ) ≤ n := by exact_mod_cast hpos
    exact Or.inr (le_trans (by norm_num) hone)

/-- INTERNAL: **the percent sign makes no difference**, and a dash is 0. -/
theorem toInt16_percent (A : Arithmetic) (row : UseRow) :
    toInt16 A row.useText 1 = some (percentShown row) ∧
      toInt16 A row.plainText 1 = some (percentShown row) := by
  unfold UseRow.useText UseRow.plainText percentShown
  cases hrow : row.percent with
  | some n =>
    have hn := row.percent_le n hrow
    have hsign : lit "%" = [37] := by decide
    constructor
    · apply toInt16_count A _ hn
      rw [hsign]
      exact strto_decimal_append n (by decide) (by decide) []
    · exact toInt16_count A (strto_decimal n) hn
  | none =>
    have hdash : strto (lit "-") = none := by decide
    have hne : lit "-" ≠ [] := by decide
    simp [toInt16, stofWith, hdash, hne]

/-! ## The channels -/

/-- **The percentages show the column of `df`.** For all tables of `df`, all mounted file
systems, with any channels and from any state, in every arithmetic: a scan publishes the
used part of the root file system under `DISK_PERCENT`, and for each medium the used part
in its row, if the probe finds the medium, else 0. All three are numbers from 0 to 100.
SOURCE: simple_test_protocol.cpp:35-44,141-143,150-155,174-177,232-240,266-274 -/
theorem percents_show_use_column (chs : List Channel) (mask : BitVec 8) (conned : Bool)
    (p : Process) :
    ∃ r' w, execute (probed (t.report env) dev)
        ⟨⟨chs.map Channel.toScada, mask, conned⟩, p⟩ = some r' ∧
      writes r'.proc.log = writes p.log ++ w ∧
      Publishes chs w .diskPercent (.int16 (some (percentShown t.root))) ∧
      (∀ M : Medium, (∃ m ∈ dev.mounts, M.target <:+: m.line.text) →
        Publishes chs w M.perc (.int16 (some (percentShown (t.row M))))) ∧
      (∀ M : Medium, (¬ ∃ m ∈ dev.mounts, M.target <:+: m.line.text) →
        Publishes chs w M.perc (.int16 (some 0))) ∧
      ∀ row, (percentShown row).toInt = (row.percent.getD 0 : ℕ) ∧ row.percent.getD 0 ≤ 100 := by
  obtain ⟨r', cs, w, hexec, hw, hall, hfresh⟩ :=
    execute_shows (probed (t.report env) dev) chs mask conned p
  have hstring := (strings_of_probed hfresh).1
  refine ⟨r', w, hexec, hw, publishes_of_value hall ?_,
    fun M hfound => publishes_of_output hall ?_,
    fun M hfound => publishes_of_value hall ?_, fun row => ?_⟩
  · intro out
    obtain ⟨h, hh⟩ := hfresh .diskPercent
    have hshared : Diagnostic.diskPercent.shared cs = t.root.plainText := by
      rw [← collect_disk t env dev h, ← hh]
      rfl
    rw [hshared, Diagnostic.value]
    exact congrArg Value.int16 (toInt16_percent _ t.root).2
  · intro log
    obtain ⟨-, -, hperc⟩ := value_figures_of_df M (probed (t.report env) dev) log
      ((hstring M).mpr hfound)
    rw [hperc, collect_medium]
    exact congrArg Value.int16 (toInt16_percent _ (t.row M)).1
  · intro out
    have hc : cs M.cache = [] := by
      by_contra hne
      exact hfound ((hstring M).mp hne)
    exact (value_absent M out hc).2.2.2
  · have hle : row.percent.getD 0 ≤ 100 := by
      cases hrow : row.percent with
      | some n => exact row.percent_le n hrow
      | none => exact Nat.zero_le _
    exact ⟨Int16.toInt_ofInt_of_le (by omega) (by omega), hle⟩

/-- `percents_show_use_column` for a system with a root file system and a USB medium. -/
theorem percents_show_use_column_usb :
    let header : Line := ⟨lit "Filesystem Size Used Avail Use% Mounted on", by decide, by decide⟩
    let root : UseRow :=
      { source := (word (lit "/dev/mmcblk0p2") (by decide) (by decide), 0)
        size := (word (lit "1.7G") (by decide) (by decide), 1)
        used := (word (lit "702M") (by decide) (by decide), 0)
        avail := (word (lit "876M") (by decide) (by decide), 1)
        percent := some 45
        percent_le := by simp
        target := ⟨lit "/", by decide, by decide⟩ }
    let medium : UseRow :=
      { source := (word (lit "/dev/sda1") (by decide) (by decide), 5)
        size := (word (lit "7633") (by decide) (by decide), 1)
        used := (word (lit "382") (by decide) (by decide), 1)
        avail := (word (lit "7251") (by decide) (by decide), 1)
        percent := some 6
        percent_le := by simp
        target := ⟨lit "/media/usb", by decide, by decide⟩ }
    let dev : Devices :=
      { mounts := [{ source := ⟨lit "/dev/sda1", by decide, by decide⟩
                     target := ⟨lit "/media/usb", by decide, by decide⟩
                     fstype := ⟨lit "vfat", by decide, by decide⟩
                     options := ⟨lit "rw", by decide, by decide⟩ }]
        interfaces := [] }
    let env : Env := ⟨.nearest, fun _ _ => [], fun _ _ => []⟩
    let chs : List Channel := [⟨some ⟨1, lit "DISK_PERCENT"⟩, none⟩,
      ⟨some ⟨2, lit "USB_FLASH_PERC"⟩, none⟩, ⟨some ⟨3, lit "SD_CARD_PERC"⟩, none⟩]
    ∃ r', execute (probed ((⟨header, root, fun _ => medium⟩ : UseTables).report env) dev)
        ⟨⟨chs.map Channel.toScada, 0, false⟩, ⟨fun _ => [], []⟩⟩ = some r' ∧
      (⟨1, lit "DISK_PERCENT"⟩, .int16 (some 45)) ∈ writes r'.proc.log ∧
      (⟨2, lit "USB_FLASH_PERC"⟩, .int16 (some 6)) ∈ writes r'.proc.log ∧
      (⟨3, lit "SD_CARD_PERC"⟩, .int16 (some 0)) ∈ writes r'.proc.log := by
  intro header root medium dev env chs
  obtain ⟨r', w, hexec, hw, hdisk, hfound, habsent, -⟩ := percents_show_use_column
    ⟨header, root, fun _ => medium⟩ env dev chs 0 false ⟨fun _ => [], []⟩
  have husb : ∃ m ∈ dev.mounts, Medium.usb.target <:+: m.line.text :=
    ⟨_, List.mem_singleton_self _, by decide⟩
  have hsd : ¬ ∃ m ∈ dev.mounts, Medium.sd.target <:+: m.line.text := by
    rintro ⟨m, hm, hinfix⟩
    obtain rfl := List.mem_singleton.mp hm
    exact absurd hinfix (by decide)
  refine ⟨r', hexec, ?_, ?_, ?_⟩ <;> rw [hw]
  · exact hdisk.2 ⟨some ⟨1, lit "DISK_PERCENT"⟩, none⟩ (by simp [chs]) _ rfl rfl
  · exact (hfound .usb husb).2 ⟨some ⟨2, lit "USB_FLASH_PERC"⟩, none⟩ (by simp [chs]) _ rfl rfl
  · exact (habsent .sd hsd).2 ⟨some ⟨3, lit "SD_CARD_PERC"⟩, none⟩ (by simp [chs]) _ rfl rfl

end Pca9536Driver.Analysis
