import Pca9536Driver.Interface.Shell

/-!
# When the device detection is exact

The probes search whole lines for a text; the commands run later use exact names. The two
agree unless some line contains the text without naming the device.
-/

set_option autoImplicit false

namespace Pca9536Driver.Analysis

open Pca9536Driver.Library Pca9536Driver.Model Pca9536Driver.Interface

/-! ## Exact detection -/

/-- The two removable media. -/
inductive Medium where
  | usb | sd

namespace Medium

/-- The mount point of the medium. -/
def target : Medium → Bytes
  | usb => lit "/media/usb"
  | sd => lit "/media/sdcard"

/-- The shared string that decides on the medium. -/
def cache : Medium → Cache
  | usb => .usbMount
  | sd => .sdMount

/-- The channel for the presence. -/
def device : Medium → Diagnostic
  | usb => .usbDev
  | sd => .sdDev

/-- The channel for the size. -/
def size : Medium → Diagnostic
  | usb => .usbSize
  | sd => .sdSize

/-- The channel for the used space. -/
def used : Medium → Diagnostic
  | usb => .usbUsed
  | sd => .sdUsed

/-- The channel for the used share. -/
def perc : Medium → Diagnostic
  | usb => .usbPerc
  | sd => .sdPerc

/-- The command that prints a column of the row of a medium. -/
def df (M : Medium) (column : Bytes) : Bytes :=
  lit "df -m " ++ M.target ++ lit " | awk 'NR==2\x7bprint $" ++ column ++ lit "\x7d'"

end Medium

/-- Something is mounted on exactly this mount point. -/
def Mounted (dev : Devices) (target : Bytes) : Prop := ∃ m ∈ dev.mounts, m.target.text = target

/-- A network interface has exactly this name. -/
def HasInterface (dev : Devices) (name : Bytes) : Prop := ∃ l ∈ dev.interfaces, l.text = name

/-- Every channel with the name of a diagnostic is written, and everything written under this
name is made from the output of a command that is run in this scan, right before the
write. -/
def PublishesFrom (env : Env) (base log : List Event) (chs : List Channel)
    (w : List (Variable × Value)) (d : Diagnostic) (cmd : Bytes)
    (convert : Bytes → Option Int16) : Prop :=
  (∀ x ∈ w, x.1.projectPath = d.name → ∃ h,
    base ++ h ++ [.popen cmd, .write x.1 x.2] <+: log ∧
      x.2 = .int16 (convert (collect (env.popen (base ++ h) cmd)))) ∧
  ∀ ch ∈ chs, ∀ var, ch.inVar = some var → var.projectPath = d.name → ∃ value, (var, value) ∈ w

/-- What exact detection of a medium means: if something is mounted exactly at its place,
the device channels name the place and the figures come from `df`; otherwise the channels
say `NOT CONNECTED` and 0. Either way every channel is written. -/
structure MediumExact (env : Env) (base log : List Event) (chs : List Channel)
    (w : List (Variable × Value)) (M : Medium) (mounted : Prop) : Prop where
  yes : mounted → Publishes chs w M.device (.string M.target) ∧
    PublishesFrom env base log chs w M.size (M.df (lit "2"))
      (fun out => some (mediaSize env.arith out)) ∧
    PublishesFrom env base log chs w M.used (M.df (lit "3")) (toInt16 env.arith · 1) ∧
    PublishesFrom env base log chs w M.perc (M.df (lit "5")) (toInt16 env.arith · 1)
  no : ¬ mounted → Publishes chs w M.device (.string (lit "NOT CONNECTED")) ∧
    Publishes chs w M.size (.int16 (some 0)) ∧ Publishes chs w M.used (.int16 (some 0)) ∧
    Publishes chs w M.perc (.int16 (some 0))

/-- What exact detection of the modem means: the channels show the path of the interface, if
it is there, and else `NOT CONNECTED`. -/
structure ModemExact (chs : List Channel) (w : List (Variable × Value)) (present : Prop) :
    Prop where
  yes : present → Publishes chs w .modemIface (.string (lit "/sys/class/net/usb0"))
  no : ¬ present → Publishes chs w .modemIface (.string (lit "NOT CONNECTED"))

/-- In every scan, with any channels and from any state, the detection is exact. -/
def DetectionExact (env : Env) (dev : Devices) : Prop :=
  ∀ (chs : List Channel) (mask : BitVec 8) (conned : Bool) (p : Process),
    ∃ r' w, execute (probed env dev) ⟨⟨chs.map Channel.toScada, mask, conned⟩, p⟩ = some r' ∧
      writes r'.proc.log = writes p.log ++ w ∧
      (∀ M, MediumExact (probed env dev) p.log r'.proc.log chs w M (Mounted dev M.target)) ∧
      ModemExact chs w (HasInterface dev (lit "usb0"))

/-- No line contains the text of a device unless the device is there: what `mount` prints
has `/media/usb` or `/media/sdcard` in it only if something is mounted exactly there, and
an interface with `usb0` in its name exists only together with `usb0`. -/
def Unambiguous (dev : Devices) : Prop :=
  (∀ M : Medium, (∃ m ∈ dev.mounts, M.target <:+: m.line.text) → Mounted dev M.target) ∧
  ((∃ l ∈ dev.interfaces, lit "usb0" <:+: l.text) → HasInterface dev (lit "usb0"))

/-! ## From the shared strings to the channels -/

variable {env : Env} {cs : Cache → Bytes} {base log : List Event}

/-- INTERNAL: the commands for the figures of a medium whose probe found something. -/
theorem commands_of_df (M : Medium) (h : cs M.cache ≠ []) :
    M.size.command (M.size.shared cs) = some (M.df (lit "2")) ∧
    M.used.command (M.used.shared cs) = some (M.df (lit "3")) ∧
    M.perc.command (M.perc.shared cs) = some (M.df (lit "5")) := by
  cases M with
  | usb => exact ⟨if_neg h, if_neg h, if_neg h⟩
  | sd => exact ⟨if_neg h, if_neg h, if_neg h⟩

/-- INTERNAL: **the figures of a medium whose probe found something** are made from what
`df` prints. -/
theorem value_figures_of_df (M : Medium) (env : Env) (log : List Event) (h : cs M.cache ≠ []) :
    M.size.value env.arith (M.size.shared cs) (M.size.output env log (M.size.shared cs)) =
      .int16 (some (mediaSize env.arith (collect (env.popen log (M.df (lit "2")))))) ∧
    M.used.value env.arith (M.used.shared cs) (M.used.output env log (M.used.shared cs)) =
      .int16 (toInt16 env.arith (collect (env.popen log (M.df (lit "3")))) 1) ∧
    M.perc.value env.arith (M.perc.shared cs) (M.perc.output env log (M.perc.shared cs)) =
      .int16 (toInt16 env.arith (collect (env.popen log (M.df (lit "5")))) 1) := by
  obtain ⟨hsize, hused, hperc⟩ := commands_of_df M h
  simp only [Diagnostic.output, hsize, hused, hperc]
  cases M with
  | usb => exact ⟨congrArg (Value.int16 ∘ some) (if_neg h), congrArg Value.int16 (if_neg h),
      congrArg Value.int16 (if_neg h)⟩
  | sd => exact ⟨congrArg (Value.int16 ∘ some) (if_neg h), congrArg Value.int16 (if_neg h),
      congrArg Value.int16 (if_neg h)⟩

/-- INTERNAL: the device channel of a medium whose probe found something. -/
theorem value_device {A : Arithmetic} (M : Medium) (out : Bytes)
    (h : cs M.cache ≠ []) : M.device.value A (M.device.shared cs) out = .string M.target := by
  cases M with
  | usb => exact congrArg Value.string (if_neg h)
  | sd => exact congrArg Value.string (if_neg h)

/-- INTERNAL: **the channels of a medium whose probe found nothing.** -/
theorem value_absent {A : Arithmetic} (M : Medium) (out : Bytes) (h : cs M.cache = []) :
    M.device.value A (M.device.shared cs) out = .string (lit "NOT CONNECTED") ∧
    M.size.value A (M.size.shared cs) out = .int16 (some 0) ∧
    M.used.value A (M.used.shared cs) out = .int16 (some 0) ∧
    M.perc.value A (M.perc.shared cs) out = .int16 (some 0) := by
  cases M with
  | usb => exact ⟨congrArg Value.string (if_pos h), congrArg (Value.int16 ∘ some) (if_pos h),
      congrArg Value.int16 (if_pos h), congrArg Value.int16 (if_pos h)⟩
  | sd => exact ⟨congrArg Value.string (if_pos h), congrArg (Value.int16 ∘ some) (if_pos h),
      congrArg Value.int16 (if_pos h), congrArg Value.int16 (if_pos h)⟩

/-- INTERNAL: the name shown for a modem that is found. -/
theorem value_modemIface {A : Arithmetic} (out : Bytes)
    (h : contains (cs .modemCheck) (lit "usb0") = true) :
    Diagnostic.modemIface.value A (Diagnostic.modemIface.shared cs) out =
      .string (lit "/sys/class/net/usb0") := by
  simp only [Diagnostic.value, Diagnostic.shared, Diagnostic.cache, h, if_true]

/-- INTERNAL: a channel whose second command is run is made from its output. -/
theorem publishesFrom_of_command {chs : List Channel} {w : List (Variable × Value)}
    (hall : List.Forall₂ (Shows env cs base log) (chs.filterMap Channel.diagnostic) w)
    {d : Diagnostic} {cmd : Bytes} {convert : Bytes → Option Int16}
    (hcmd : d.command (d.shared cs) = some cmd)
    (hvalue : ∀ l, d.value env.arith (d.shared cs) (d.output env l (d.shared cs)) =
      .int16 (convert (collect (env.popen l cmd)))) :
    PublishesFrom env base log chs w d cmd convert := by
  refine ⟨fun x hx hname => ?_,
    fun ch hch var hin hname => exists_write_of_channel hall hch hin hname⟩
  obtain ⟨-, h, hx', hlog⟩ := mem_writes_of_name (fun x => mem_diagnostics) hall hx hname
  rw [hcmd] at hlog
  exact ⟨h, hlog, hx'.trans (hvalue _)⟩

/-- INTERNAL: **the detection of a medium is exact** if its shared string is. -/
theorem mediumExact_of_string {chs : List Channel} {w : List (Variable × Value)}
    (hall : List.Forall₂ (Shows env cs base log) (chs.filterMap Channel.diagnostic) w)
    (M : Medium) {mounted : Prop} (hstring : cs M.cache ≠ [] ↔ mounted) :
    MediumExact env base log chs w M mounted := by
  constructor
  · intro hmounted
    have hc := hstring.mpr hmounted
    obtain ⟨hsize, hused, hperc⟩ := commands_of_df M hc
    have hvalues (l : List Event) := value_figures_of_df M env l hc
    exact ⟨publishes_of_value hall fun out => value_device M out hc,
      publishesFrom_of_command hall hsize fun l => (hvalues l).1,
      publishesFrom_of_command hall hused fun l => (hvalues l).2.1,
      publishesFrom_of_command hall hperc fun l => (hvalues l).2.2⟩
  · intro hmounted
    have hc : cs M.cache = [] := by
      by_contra hne
      exact hmounted (hstring.mp hne)
    have hvalues {A : Arithmetic} (out : Bytes) := value_absent (A := A) M out hc
    exact ⟨publishes_of_value hall fun out => (hvalues out).1,
      publishes_of_value hall fun out => (hvalues out).2.1,
      publishes_of_value hall fun out => (hvalues out).2.2.1,
      publishes_of_value hall fun out => (hvalues out).2.2.2⟩

/-- INTERNAL: the detection of the modem is exact if its shared string is. -/
theorem modemExact_of_string {chs : List Channel} {w : List (Variable × Value)}
    (hall : List.Forall₂ (Shows env cs base log) (chs.filterMap Channel.diagnostic) w)
    {present : Prop} (hstring : contains (cs .modemCheck) (lit "usb0") = true ↔ present) :
    ModemExact chs w present := by
  constructor
  · intro h
    have hc := hstring.mpr h
    exact publishes_of_value hall fun out => value_modemIface out hc
  · intro h
    have hc : contains (cs .modemCheck) (lit "usb0") = false :=
      Bool.eq_false_iff.mpr fun hc => h (hstring.mp hc)
    apply publishes_of_value hall
    intro out
    simp only [Diagnostic.value, Diagnostic.shared, Diagnostic.cache, hc, Bool.false_eq_true,
      if_false]

/-- INTERNAL: `grep` finds what is mounted there. -/
theorem Mounted.found {dev : Devices} {target : Bytes} (h : Mounted dev target) :
    ∃ m ∈ dev.mounts, target <:+: m.line.text := by
  obtain ⟨m, hm, rfl⟩ := h
  exact ⟨m, hm, m.target_infix⟩

/-- INTERNAL: `grep` finds the interface. -/
theorem HasInterface.found {dev : Devices} {name : Bytes} (h : HasInterface dev name) :
    ∃ l ∈ dev.interfaces, name <:+: l.text := by
  obtain ⟨l, hl, rfl⟩ := h
  exact ⟨l, hl, List.infix_rfl⟩

/-- INTERNAL: shared strings that are outputs of the probes say whether a line contains
the text of a device. -/
theorem strings_of_probed {dev : Devices}
    (hfresh : ∀ c, ∃ h, cs c = collect ((probed env dev).popen h c.command)) :
    (∀ M : Medium, cs M.cache ≠ [] ↔ ∃ m ∈ dev.mounts, M.target <:+: m.line.text) ∧
    (contains (cs .modemCheck) (lit "usb0") = true ↔
      ∃ l ∈ dev.interfaces, lit "usb0" <:+: l.text) := by
  constructor
  · intro M
    obtain ⟨h, hh⟩ := hfresh M.cache
    obtain ⟨husb, hsd, -⟩ := probed_strings env dev h
    rw [hh]
    cases M with
    | usb =>
      have hnot := husb.not
      push Not at hnot
      exact hnot
    | sd =>
      have hnot := hsd.not
      push Not at hnot
      exact hnot
  · obtain ⟨h, hh⟩ := hfresh .modemCheck
    rw [hh]
    exact (probed_strings env dev h).2.2

/-- **When the detection is exact**: for every table of file systems and every list of
interfaces, what a scan publishes about the media and the modem is exact, with any
channels and from any state, iff no line contains the text of a device that is not there.
SOURCE: simple_test_protocol.cpp:147-155,190-274 -/
theorem detection_exact_iff (env : Env) (dev : Devices) :
    DetectionExact env dev ↔ Unambiguous dev := by
  constructor
  · intro hexact
    -- One channel is enough to see a device that is not there.
    have hscan (d : Diagnostic) := hexact [⟨some ⟨1, d.name⟩, none⟩] 0xFF false ⟨fun _ => [], []⟩
    constructor
    · intro M hfound
      by_contra hnot
      obtain ⟨r', cs, h, hexec, hw, hfresh⟩ := execute_single (probed env dev) M.device
      obtain ⟨r'', w, hexec', hw', hM, -⟩ := hscan M.device
      obtain rfl := Option.some.inj (hexec.symm.trans hexec')
      rw [value_device M _ (((strings_of_probed hfresh).1 M).mpr hfound)] at hw
      obtain rfl := hw.symm.trans hw'
      have hno := ((hM M).no hnot).1.1 (⟨1, M.device.name⟩, .string M.target) (by simp) rfl
      have hne : M.target ≠ lit "NOT CONNECTED" := by cases M <;> decide
      exact hne (Value.string.inj hno)
    · intro hfound
      by_contra hnot
      obtain ⟨r', cs, h, hexec, hw, hfresh⟩ := execute_single (probed env dev) .modemIface
      obtain ⟨r'', w, hexec', hw', -, hM⟩ := hscan .modemIface
      obtain rfl := Option.some.inj (hexec.symm.trans hexec')
      rw [value_modemIface _ ((strings_of_probed hfresh).2.mpr hfound)] at hw
      obtain rfl := hw.symm.trans hw'
      have hno := (hM.no hnot).1 (⟨1, Diagnostic.modemIface.name⟩, .string (lit "/sys/class/net/usb0"))
        (by simp) rfl
      have hne : lit "/sys/class/net/usb0" ≠ lit "NOT CONNECTED" := by decide
      exact hne (Value.string.inj hno)
  · rintro ⟨hmedia, hmodem⟩ chs mask conned p
    obtain ⟨r', cs, w, hexec, hw, hall, hfresh⟩ := execute_shows (probed env dev) chs mask conned p
    obtain ⟨hstring, hcontains⟩ := strings_of_probed hfresh
    refine ⟨r', w, hexec, hw, fun M => ?_, ?_⟩
    · exact mediumExact_of_string hall M ((hstring M).trans ⟨hmedia M, Mounted.found⟩)
    · exact modemExact_of_string hall (hcontains.trans ⟨hmodem, HasInterface.found⟩)

/-- **A second medium is taken for the first**: with one file system, mounted at
`/media/usb2`, a scan reports a device at `/media/usb`. -/
theorem second_medium_is_reported :
    let dev : Devices :=
      { mounts := [{ source := ⟨lit "/dev/sdb1", by decide, by decide⟩
                     target := ⟨lit "/media/usb2", by decide, by decide⟩
                     fstype := ⟨lit "vfat", by decide, by decide⟩
                     options := ⟨lit "rw", by decide, by decide⟩ }]
        interfaces := [] }
    ¬ Mounted dev (lit "/media/usb") ∧
    ∃ r', execute (probed ⟨.exact, fun _ _ => [], fun _ _ => []⟩ dev)
        ⟨⟨[⟨some ⟨some ⟨1, lit "USB_FLASH_DEV"⟩⟩, none⟩], 0xFF, false⟩, ⟨fun _ => [], []⟩⟩ =
          some r' ∧
      writes r'.proc.log = [(⟨1, lit "USB_FLASH_DEV"⟩, .string (lit "/media/usb"))] := by
  intro dev
  constructor
  · rintro ⟨m, hm, htarget⟩
    obtain rfl := List.mem_singleton.mp hm
    exact absurd htarget (by decide)
  · obtain ⟨r', cs, h, hexec, hw, hfresh⟩ :=
      execute_single (probed ⟨.exact, fun _ _ => [], fun _ _ => []⟩ dev) Medium.usb.device
    have hfound : ∃ m ∈ dev.mounts, Medium.usb.target <:+: m.line.text :=
      ⟨_, List.mem_singleton_self _, by decide⟩
    rw [value_device .usb _ (((strings_of_probed hfresh).1 .usb).mpr hfound)] at hw
    exact ⟨r', hexec, hw⟩

end Pca9536Driver.Analysis
