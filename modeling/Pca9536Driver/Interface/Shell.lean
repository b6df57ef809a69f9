import Pca9536Driver.Interface.Publishing

/-!
# The devices of the system and the commands that look for them

The mounted file systems and the network interfaces of the system, and what the probe
commands print about them: `mount` prints a line for each file system, `ls` a line for
each interface, and `grep` keeps the lines that contain a text. `probed` is an environment
with these probes.

What `Execute` finds in the output is decided by the lines that contain the text
(`collect_grep_eq_nil_iff`, `contains_collect_grep`).
-/

set_option autoImplicit false

namespace Pca9536Driver.Interface

open Pca9536Driver.Library Pca9536Driver.Model

/-! ## Lines -/

/-- A text that stands on one line: without line ends and NUL bytes. -/
structure Line where
  text : Bytes
  noNewline : newline ∉ text
  noNul : (0 : UInt8) ∉ text

/-- What `grep` prints of some lines, for a literal pattern. -/
def grep (pat : Bytes) (ls : List Line) : Bytes :=
  unlines ((ls.map Line.text).filter (contains · pat))

/-- INTERNAL: `grep` prints lines, and these are free of NUL bytes. -/
theorem noNul_grep (pat : Bytes) (ls : List Line) : (0 : UInt8) ∉ grep pat ls := by
  intro h
  obtain ⟨s, hs, h0⟩ := List.mem_flatMap.mp h
  obtain ⟨l, -, rfl⟩ := List.mem_map.mp (List.mem_filter.mp hs).1
  rcases List.mem_append.mp h0 with h0 | h0
  · exact l.noNul h0
  · simp [newline] at h0

/-- INTERNAL: the text of a pattern is found in the output of `grep` iff it is found in a
line. -/
theorem contains_collect_grep (p : Bytes) (b : UInt8) (hb : b ∉ trailing)
    (hp : newline ∉ p ++ [b]) (ls : List Line) :
    contains (collect (grep (p ++ [b]) ls)) (p ++ [b]) = true ↔
      ∃ l ∈ ls, p ++ [b] <:+: l.text := by
  rw [contains_iff, collect_of_noNul (noNul_grep _ ls), infix_trimEnd_iff _ _ _ _ hb, grep,
    infix_unlines_iff _ _ hp (by simp)]
  simp

/-- INTERNAL: **`grep` leaves an empty string iff no line contains the pattern**. -/
theorem collect_grep_eq_nil_iff (p : Bytes) (b : UInt8) (hb : b ∉ trailing)
    (hp : newline ∉ p ++ [b]) (ls : List Line) :
    collect (grep (p ++ [b]) ls) = [] ↔ ∀ l ∈ ls, ¬ p ++ [b] <:+: l.text := by
  constructor
  · intro hnil l hl hinfix
    have hfound := (contains_collect_grep p b hb hp ls).mpr ⟨l, hl, hinfix⟩
    rw [hnil, contains_iff, List.infix_nil] at hfound
    simp at hfound
  · intro hnone
    have hempty : (ls.map Line.text).filter (contains · (p ++ [b])) = [] := by
      simpa [List.filter_eq_nil_iff] using hnone
    rw [collect_of_noNul (noNul_grep _ ls), grep, hempty]
    rfl

/-! ## File systems and interfaces -/

/-- A mounted file system, in the words of `mount`. -/
structure Mount where
  source : Line
  target : Line
  fstype : Line
  options : Line

/-- The line `mount` prints: `SOURCE on TARGET type FSTYPE (OPTIONS)`. -/
def Mount.line (m : Mount) : Line where
  text := m.source.text ++ lit " on " ++ m.target.text ++ lit " type " ++ m.fstype.text ++
    lit " (" ++ m.options.text ++ lit ")"
  noNewline := by
    have h1 : newline ∉ lit " on " := by decide
    have h2 : newline ∉ lit " type " := by decide
    have h3 : newline ∉ lit " (" := by decide
    have h4 : newline ∉ lit ")" := by decide
    simp [h1, h2, h3, h4, m.source.noNewline, m.target.noNewline, m.fstype.noNewline,
      m.options.noNewline]
  noNul := by
    have h1 : (0 : UInt8) ∉ lit " on " := by decide
    have h2 : (0 : UInt8) ∉ lit " type " := by decide
    have h3 : (0 : UInt8) ∉ lit " (" := by decide
    have h4 : (0 : UInt8) ∉ lit ")" := by decide
    simp [h1, h2, h3, h4, m.source.noNul, m.target.noNul, m.fstype.noNul, m.options.noNul]

/-- The mount point stands in its line. -/
theorem Mount.target_infix (m : Mount) : m.target.text <:+: m.line.text :=
  ⟨m.source.text ++ lit " on ", lit " type " ++ m.fstype.text ++ lit " (" ++ m.options.text ++
    lit ")", by simp [Mount.line]⟩

/-- The devices of a system: its mounted file systems and its network interfaces. -/
structure Devices where
  mounts : List Mount
  interfaces : List Line

/-- An environment in which `mount` and `ls`, filtered by `grep`, report the devices. -/
def probed (env : Env) (dev : Devices) : Env :=
  { env with
    popen := fun log cmd =>
      if cmd = lit "mount | grep '/media/usb'" then
        grep (lit "/media/usb") (dev.mounts.map Mount.line)
      else if cmd = lit "mount | grep '/media/sdcard'" then
        grep (lit "/media/sdcard") (dev.mounts.map Mount.line)
      else if cmd = lit "ls /sys/class/net/ | grep 'usb0'" then grep (lit "usb0") dev.interfaces
      else env.popen log cmd }

/-- INTERNAL: the probes of the driver are these commands. -/
theorem probed_popen (env : Env) (dev : Devices) (log : List Event) :
    (probed env dev).popen log (Cache.command .usbMount) =
      grep (lit "/media/usb") (dev.mounts.map Mount.line) ∧
    (probed env dev).popen log (Cache.command .sdMount) =
      grep (lit "/media/sdcard") (dev.mounts.map Mount.line) ∧
    (probed env dev).popen log (Cache.command .modemCheck) =
      grep (lit "usb0") dev.interfaces := by
  have h1 : lit "mount | grep '/media/sdcard'" ≠ lit "mount | grep '/media/usb'" := by decide
  have h2 : lit "ls /sys/class/net/ | grep 'usb0'" ≠ lit "mount | grep '/media/usb'" := by decide
  have h3 : lit "ls /sys/class/net/ | grep 'usb0'" ≠ lit "mount | grep '/media/sdcard'" := by
    decide
  simp only [probed, Cache.command, h1, h2, h3, if_true, if_false, and_self]

/-- INTERNAL: another command is not a device probe. -/
theorem probed_popen_of_ne (env : Env) (dev : Devices) (log : List Event) {cmd : Bytes}
    (husb : cmd ≠ Cache.command .usbMount) (hsd : cmd ≠ Cache.command .sdMount)
    (hmodem : cmd ≠ Cache.command .modemCheck) :
    (probed env dev).popen log cmd = env.popen log cmd := by
  simp only [Cache.command] at husb hsd hmodem
  simp only [probed, husb, hsd, hmodem, if_false]

/-- INTERNAL: **what the shared strings say about the devices**: they look for the texts in
the whole lines. -/
theorem probed_strings (env : Env) (dev : Devices) (log : List Event) :
    (collect ((probed env dev).popen log (Cache.command .usbMount)) = [] ↔
      ∀ m ∈ dev.mounts, ¬ lit "/media/usb" <:+: m.line.text) ∧
    (collect ((probed env dev).popen log (Cache.command .sdMount)) = [] ↔
      ∀ m ∈ dev.mounts, ¬ lit "/media/sdcard" <:+: m.line.text) ∧
    (contains (collect ((probed env dev).popen log (Cache.command .modemCheck))) (lit "usb0") =
      true ↔ ∃ l ∈ dev.interfaces, lit "usb0" <:+: l.text) := by
  have husb : lit "/media/usb" = lit "/media/us" ++ [98] := by decide
  have hsd : lit "/media/sdcard" = lit "/media/sdcar" ++ [100] := by decide
  have hmodem : lit "usb0" = lit "usb" ++ [48] := by decide
  obtain ⟨hprobe, hprobe', hprobe''⟩ := probed_popen env dev log
  refine ⟨?_, ?_, ?_⟩
  · rw [hprobe, husb, collect_grep_eq_nil_iff _ _ (by decide) (by decide)]
    simp
  · rw [hprobe', hsd, collect_grep_eq_nil_iff _ _ (by decide) (by decide)]
    simp
  · rw [hprobe'', hmodem, contains_collect_grep _ _ (by decide) (by decide)]

end Pca9536Driver.Interface
