import Pca9536Driver.Library.History
import Pca9536Driver.Interface.Panel

/-!
# The expander

What the commands are for: the PCA9536 on bus 2 at address 0x41, with its output register
0x01 and its direction register 0x03. A command is read the way `i2cset` reads its
arguments (`registerWrite`), so that the device follows the command texts the modules
issue and not the masks they meant. `Pca9536.run` is the device behind a list of commands
of which some may fail. A pin drives its load when it is an output and its output bit is
0.

`Justified` says of a history that every output it switches on had a reason, and
`Justified.output` what follows for the device; `Honest` says that every write of the
output register encodes what has been read up to this moment.
-/

set_option autoImplicit false

namespace Pca9536Driver.Interface

open Pca9536Driver.Library Pca9536Driver.Model

/-- The registers of the device that the modules write. -/
structure Pca9536 where
  output : BitVec 8
  direction : BitVec 8
  deriving DecidableEq

/-- The register and the value a command writes, if it is a call of `i2cset` for this
device.
SOURCE: README.md:77-80 -/
def registerWrite (cmd : Bytes) : Option (ℕ × BitVec 8) :=
  match fields cmd with
  | [prog, flag, bus, addr, reg, value] =>
    if prog = lit "i2cset" ∧ flag = lit "-y" ∧ wholeNat bus = some 2 ∧ wholeNat addr = some 0x41 then
      match wholeNat reg, wholeNat value with
      | some r, some v => if v < 256 then some (r, BitVec.ofNat 8 v) else none
      | _, _ => none
    else none
  | _ => none

/-- The value a command writes to a given register, if it does. -/
def writeTo (reg : ℕ) (cmd : Bytes) : Option (BitVec 8) :=
  match registerWrite cmd with
  | none => none
  | some (reg', v) => if reg' = reg then some v else none

/-- The byte that a command writes to the output register. -/
def outputWrite (cmd : Bytes) : Option (BitVec 8) := writeTo 1 cmd

/-- The byte that a command writes to the direction register. -/
def directionWrite (cmd : Bytes) : Option (BitVec 8) := writeTo 3 cmd

namespace Pca9536

/-- A write to a register. The modules use no other one. -/
def store (d : Pca9536) (reg : ℕ) (v : BitVec 8) : Pca9536 :=
  if reg = 1 then { d with output := v } else if reg = 3 then { d with direction := v } else d

/-- A command that takes effect. -/
def apply (d : Pca9536) (cmd : Bytes) : Pca9536 :=
  match registerWrite cmd with
  | none => d
  | some (reg, v) => d.store reg v

/-- The device behind a list of commands, the first of which has number `k`: command
number `k` takes effect if `ok k` says so and else has no effect. -/
def run (ok : ℕ → Bool) : ℕ → Pca9536 → List Bytes → Pca9536
  | _, d, [] => d
  | k, d, cmd :: cmds => run ok (k + 1) (if ok k then d.apply cmd else d) cmds

/-- Whether the pin of an output drives its load. -/
def active (d : Pca9536) (o : Output) : Prop :=
  d.direction.getLsbD o.bit = false ∧ d.output.getLsbD o.bit = false

/-- INTERNAL: two lists of commands in a row; the attempts are counted on. -/
theorem run_append (ok : ℕ → Bool) (k : ℕ) (d : Pca9536) (cmds cmds' : List Bytes) :
    run ok k d (cmds ++ cmds') = run ok (k + cmds.length) (run ok k d cmds) cmds' := by
  induction cmds generalizing k d with
  | nil => rfl
  | cons cmd cmds ih =>
    rw [List.cons_append, run, run, ih, List.length_cons]
    congr 1
    omega

end Pca9536

/-! ## The commands of the modules -/

/-- INTERNAL: **the expander reads back the mask a command was made from.** -/
theorem registerWrite_outputCommand (mask : BitVec 8) :
    registerWrite (outputCommand mask) = some (1, mask) := by
  have hwords : fields (outputCommand mask) =
      [lit "i2cset", lit "-y", lit "2", lit "0x41", lit "0x01", decimal mask.toNat] := by
    have hsplit : outputCommand mask = lit "i2cset" ++ 32 :: (lit "-y" ++ 32 :: (lit "2" ++
        32 :: (lit "0x41" ++ 32 :: (lit "0x01" ++ 32 :: decimal mask.toNat)))) := rfl
    have hdec := any_isBlank_of_digits (isDigit_of_mem_decimal mask.toNat)
    rw [hsplit]
    iterate 5 rw [fields_word_cons _ _ _ (by decide) (by decide) rfl]
    rw [fields_word _ (decimal_ne_nil _) hdec]
  have haddr : wholeNat (lit "2") = some 2 ∧ wholeNat (lit "0x41") = some 0x41 ∧
      wholeNat (lit "0x01") = some 1 := by decide
  have hlt : mask.toNat < 256 := mask.isLt
  simp [registerWrite, hwords, haddr, wholeNat_decimal, hlt]

/-- The command of the README, with a hexadecimal mask. -/
example : registerWrite (lit "i2cset -y 2 0x41 0x01 0x0e") = some (1, 0x0E) := by decide

/-- The output command writes its mask. -/
@[simp] theorem outputWrite_outputCommand (mask : BitVec 8) :
    outputWrite (outputCommand mask) = some mask := by
  simp [outputWrite, writeTo, registerWrite_outputCommand]

/-- The output command leaves the directions alone. -/
@[simp] theorem directionWrite_outputCommand (mask : BitVec 8) :
    directionWrite (outputCommand mask) = none := by
  simp [directionWrite, writeTo, registerWrite_outputCommand]

/-- The direction command leaves the outputs alone. -/
@[simp] theorem outputWrite_direction :
    outputWrite (lit "i2cset -y 2 0x41 0x03 0x00") = none := by decide

/-- INTERNAL: the commands for the USB line do not reach the expander. -/
theorem writeTo_gpioset {cmd : Bytes}
    (h : cmd = lit "gpioset 0 268=0" ∨ cmd = lit "gpioset 0 268=1") (reg : ℕ) :
    writeTo reg cmd = none := by
  have hnone : registerWrite cmd = none := by rcases h with rfl | rfl <;> decide
  simp [writeTo, hnone]

namespace Pca9536

variable (d : Pca9536)

/-- INTERNAL: each register takes the byte that is written to it. -/
theorem apply_eq (cmd : Bytes) :
    d.apply cmd =
      ⟨(outputWrite cmd).getD d.output, (directionWrite cmd).getD d.direction⟩ := by
  unfold apply outputWrite directionWrite writeTo
  rcases registerWrite cmd with _ | ⟨reg, v⟩
  · rfl
  · by_cases h1 : reg = 1
    · simp [store, h1]
    · by_cases h3 : reg = 3 <;> simp [store, h1, h3]

/-- INTERNAL: without a direction command the directions stay. -/
theorem run_direction (ok : ℕ → Bool) (k : ℕ) (cmds : List Bytes)
    (h : ∀ cmd ∈ cmds, directionWrite cmd = none) :
    (run ok k d cmds).direction = d.direction := by
  induction cmds generalizing k d with
  | nil => rfl
  | cons cmd cmds ih =>
    rw [run, ih _ _ fun c hc => h c (List.mem_cons_of_mem cmd hc)]
    split_ifs
    · simp [apply_eq, h cmd]
    · rfl

/-- INTERNAL: behind a list of commands whose last one succeeds and writes the output
register, the register holds what that one wrote. -/
theorem run_output_concat (ok : ℕ → Bool) (k : ℕ) (cmds : List Bytes) (mask : BitVec 8)
    (hok : ok (k + cmds.length) = true) :
    (run ok k d (cmds ++ [outputCommand mask])).output = mask := by
  simp [run_append, run, hok, apply_eq]

end Pca9536

/-! ## Histories whose register writes have a reason -/

/-- Every write of the output register that switches an output on has a reason in the
history before it. -/
def Justified (reason : List Event → Output → Prop) (l : List Event) : Prop :=
  ∀ (es : List Event) (cmd : Bytes) (m : BitVec 8), es ++ [.system cmd] <+: l →
    outputWrite cmd = some m → ∀ o : Output, m.getLsbD o.bit = false → reason es o

/-- INTERNAL: an earlier part of a justified history is justified. -/
theorem Justified.of_prefix {reason : List Event → Output → Prop} {l l' : List Event}
    (h : Justified reason l') (hle : l <+: l') : Justified reason l :=
  fun es cmd m hes => h es cmd m (hes.trans hle)

/-- INTERNAL: each write justified by one reason that does not look back. -/
theorem justified_of_forall {reason : Output → Prop} {l : List Event}
    (h : ∀ cmd ∈ systems l, ∀ m, outputWrite cmd = some m →
      ∀ o : Output, m.getLsbD o.bit = false → reason o) : Justified (fun _ => reason) l := by
  rintro es cmd m ⟨t, rfl⟩ hcmd o hbit
  exact h cmd (by simp) m hcmd o hbit

/-- INTERNAL: **behind a justified history a clear output bit has a reason**, or the bit
was clear at the start and no command has written the register. -/
theorem Justified.output {reason : List Event → Output → Prop}
    (hmono : ∀ l l' o, l <+: l' → reason l o → reason l' o) {l : List Event}
    (h : Justified reason l) (k : ℕ) (d : Pca9536) (o : Output)
    (hbit : (Pca9536.run (fun _ => true) k d (systems l)).output.getLsbD o.bit = false) :
    reason l o ∨ d.output.getLsbD o.bit = false ∧ ∀ cmd ∈ systems l, outputWrite cmd = none := by
  induction l using List.reverseRecOn with
  | nil => exact Or.inr ⟨hbit, by simp⟩
  | append_singleton l e ih =>
    have hpre : l <+: l ++ [e] := List.prefix_append _ _
    have ih' := ih (h.of_prefix hpre)
    -- An event that does not change the commands leaves the verdict alone.
    have hquiet (hsys : systems [e] = []) : reason (l ++ [e]) o ∨
        d.output.getLsbD o.bit = false ∧ ∀ cmd ∈ systems (l ++ [e]), outputWrite cmd = none := by
      rw [systems_append, hsys, List.append_nil] at hbit ⊢
      exact (ih' hbit).imp (hmono _ _ o hpre) id
    cases e with
    | popen cmd => exact hquiet rfl
    | write var value => exact hquiet rfl
    | read var buff => exact hquiet rfl
    | system cmd =>
      have hrun : (Pca9536.run (fun _ => true) k d (systems (l ++ [.system cmd]))).output =
          (outputWrite cmd).getD (Pca9536.run (fun _ => true) k d (systems l)).output := by
        simp [Pca9536.run_append, Pca9536.run, Pca9536.apply_eq]
      rw [hrun] at hbit
      cases hw : outputWrite cmd with
      | none =>
        rw [hw] at hbit
        refine (ih' hbit).imp (hmono _ _ o hpre) fun ⟨hd, hnone⟩ => ⟨hd, ?_⟩
        simpa [or_imp, forall_and, hw] using hnone
      | some m =>
        rw [hw] at hbit
        exact Or.inl (hmono _ _ o hpre (h l cmd m List.prefix_rfl hw o hbit))

/-! ## Histories whose register writes follow the reads -/

/-- Every write of the output register encodes the panel `on` as assigned by the reads
before it. -/
def Honest (on : Panel) (l : List Event) : Prop :=
  ∀ (es : List Event) (cmd : Bytes) (m : BitVec 8), es ++ [.system cmd] <+: l →
    outputWrite cmd = some m → m = encode (assignAll on (assignments (reads es)))

/-- INTERNAL: without commands there is nothing to justify. -/
theorem honest_of_systems_eq_nil (on : Panel) {l : List Event} (h : systems l = []) :
    Honest on l := by
  rintro es cmd m ⟨t, rfl⟩
  simp at h

/-- INTERNAL: one command that shows the panel. -/
theorem honest_singleton {on : Panel} {cmd : Bytes}
    (h : ∀ m, outputWrite cmd = some m → m = encode on) : Honest on [.system cmd] := by
  intro es cmd' m hes hcmd
  have hes' : es ++ [Event.system cmd'] <+: [] ++ [.system cmd] := hes
  rcases List.prefix_concat_iff.mp hes' with heq | hnil
  · simp only [List.nil_append, List.append_eq_singleton_iff, List.cons.injEq, Event.system.injEq,
      and_true, reduceCtorEq, and_false, or_false] at heq
    obtain ⟨rfl, rfl⟩ := heq
    exact h m hcmd
  · simp at hnil

/-- INTERNAL: honest histories compose; the second one starts with the panel the first one
has read. -/
theorem Honest.append {on : Panel} {l l' : List Event} (h : Honest on l)
    (h' : Honest (assignAll on (assignments (reads l))) l') : Honest on (l ++ l') := by
  intro es cmd m hes hcmd
  rcases concat_prefix_append_iff.mp hes with hfirst | ⟨t, rfl, hsecond⟩
  · exact h es cmd m hfirst hcmd
  · rw [h' t cmd m hsecond hcmd, reads_append, assignments_append, assignAll_append]

/-- INTERNAL: an output that is on after the readings was on before or has been read `true`. -/
theorem on_or_read_of_assignAll {on : Panel} {rs : List (Variable × Bytes)} {o : Output}
    (h : assignAll on (assignments rs) o = true) :
    on o = true ∨ ∃ x ∈ rs, x.1.projectPath = o.name ∧ x.2 = lit "true" := by
  rw [assignAll_apply, lastValue_assignments] at h
  cases hr : lastRead o.name rs with
  | none =>
    left
    simpa [hr] using h
  | some buff =>
    right
    obtain rfl : buff = lit "true" := by simpa [hr] using h
    simpa using mem_of_lastValue hr

/-- INTERNAL: in an honest history an output is switched on because of the panel before it
or of a string `true` read under its name. -/
theorem Honest.justified {on : Panel} {l : List Event} (h : Honest on l) :
    Justified (fun es o => on o = true ∨
      ∃ x ∈ reads es, x.1.projectPath = o.name ∧ x.2 = lit "true") l := by
  intro es cmd m hes hcmd o hbit
  rw [h es cmd m hes hcmd, getLsbD_encode] at hbit
  exact on_or_read_of_assignAll (by simpa using hbit)

end Pca9536Driver.Interface
