import Pca9536Driver.Library.Assignment
import Pca9536Driver.Model.SimpleTestProtocol
import Pca9536Driver.Model.TestFB

/-!
# The output panel

What the output side is for: four outputs that are on or off. Both modules keep them in
the low half of an 8-bit mask, active low, and write the mask as a decimal number.
`encode` is that representation; `drive_eq` and `mask_eq_encode` say that the protocol
module updates it and that the function block rebuilds it.
-/

set_option autoImplicit false

namespace Pca9536Driver.Interface

open Pca9536Driver.Library Pca9536Driver.Model

/-- The outputs of the expander. -/
inductive Output where
  | redLed | dout | buzzer | blueLed
  deriving DecidableEq

namespace Output

/-- The bit of an output.
SOURCE: README.md:86-89 -/
def bit : Output → ℕ
  | redLed => 0
  | dout => 1
  | buzzer => 2
  | blueLed => 3

/-- The project path of an output variable. -/
def name : Output → Bytes
  | redLed => lit "RED_LED"
  | dout => lit "DOUT"
  | buzzer => lit "BUZZER"
  | blueLed => lit "BLUE_LED"

/-- The four outputs. -/
def all : List Output := [redLed, dout, buzzer, blueLed]

/-- The list of the outputs is complete. -/
theorem mem_all (o : Output) : o ∈ all := by cases o <;> decide

/-- The outputs are on the lower four bits. -/
theorem bit_lt (o : Output) : o.bit < 4 := by cases o <;> decide

/-- Each of the lower four bits belongs to an output. -/
theorem exists_bit {b : ℕ} (h : b < 4) : ∃ o : Output, o.bit = b := by
  interval_cases b
  exacts [⟨redLed, rfl⟩, ⟨dout, rfl⟩, ⟨buzzer, rfl⟩, ⟨blueLed, rfl⟩]

/-- No two outputs share a bit. -/
theorem bit_injective : Function.Injective bit := by
  intro o o' h
  cases o <;> cases o' <;> first | rfl | cases h

/-- No two outputs share a name. -/
theorem name_injective : Function.Injective name := by
  have h : ∀ o ∈ all, ∀ o' ∈ all, name o = name o' → o = o' := by decide
  exact fun o o' => h o (mem_all o) o' (mem_all o')

/-- The output that a project path names, if it names one. -/
def ofPath (path : Bytes) : Option Output := all.find? (fun o => decide (o.name = path))

/-- An output is found by its own name. -/
theorem ofPath_eq_some_iff (path : Bytes) (o : Output) : ofPath path = some o ↔ path = o.name :=
  find?_name_eq_some_iff mem_all name_injective path o

/-- INTERNAL: no output is found iff the path is none of the names. -/
theorem ofPath_eq_none_iff (path : Bytes) : ofPath path = none ↔ ∀ o : Output, path ≠ o.name :=
  find?_name_eq_none_iff mem_all path

end Output

/-! ## Masks -/

/-- Which outputs are on. -/
abbrev Panel := Output → Bool

/-- All outputs are off. -/
def Panel.off : Panel := fun _ => false

/-- The mask of a panel: bits 4 to 7 are set and an output's bit is clear iff it is on. -/
def encode (on : Panel) : BitVec 8 :=
  Output.all.foldl (fun mask o => if on o then mask &&& ~~~(1#8 <<< o.bit) else mask) 0xFF

/-- INTERNAL: `mask &= ~(1 << b)` changes this bit only. -/
theorem getLsbD_clear (mask : BitVec 8) (b i : ℕ) (hi : i < 8) :
    (mask &&& ~~~(1#8 <<< b)).getLsbD i = (mask.getLsbD i && decide (i ≠ b)) := by
  simp only [BitVec.getLsbD_and, BitVec.getLsbD_not, BitVec.getLsbD_shiftLeft, BitVec.getLsbD_one]
  by_cases h : i = b
  · subst h
    simp [hi]
  · by_cases hib : i < b
    · simp [hib, h, hi]
    · have hpos : i - b ≠ 0 := by omega
      simp [hib, h, hi, hpos]

/-- INTERNAL: `mask |= 1 << b` changes this bit only. -/
theorem getLsbD_set (mask : BitVec 8) (b i : ℕ) (hi : i < 8) :
    (mask ||| (1#8 <<< b)).getLsbD i = (mask.getLsbD i || decide (i = b)) := by
  simp only [BitVec.getLsbD_or, BitVec.getLsbD_shiftLeft, BitVec.getLsbD_one]
  by_cases h : i = b
  · subst h
    simp [hi]
  · by_cases hib : i < b
    · simp [hib, h]
    · have hpos : i - b ≠ 0 := by omega
      simp [hib, h, hpos]

/-- INTERNAL: a bit survives iff it belongs to no output of the list that is on. -/
theorem getLsbD_foldl_clear (on : Panel) (l : List Output) (mask : BitVec 8) (i : ℕ) (hi : i < 8) :
    (l.foldl (fun mask o => if on o then mask &&& ~~~(1#8 <<< o.bit) else mask) mask).getLsbD i =
      (mask.getLsbD i && decide (∀ o ∈ l, on o = true → i ≠ o.bit)) := by
  induction l generalizing mask with
  | nil => simp
  | cons o l ih =>
    rw [List.foldl_cons, ih]
    by_cases ho : on o = true
    · simp [ho, getLsbD_clear _ _ _ hi, Bool.and_assoc]
    · simp [ho]

/-- An output is active low. -/
theorem getLsbD_encode (on : Panel) (o : Output) : (encode on).getLsbD o.bit = !on o := by
  have hff : ∀ o : Output, (0xFF : BitVec 8).getLsbD o.bit = true := by
    intro o
    cases o <;> rfl
  have hiff : (∀ o' ∈ Output.all, on o' = true → o.bit ≠ o'.bit) ↔ on o = false := by
    constructor
    · intro h
      by_contra hon
      exact h o (Output.mem_all o) (by simpa using hon) rfl
    · intro hoff o' _ hon heq
      rw [Output.bit_injective heq, hon] at hoff
      cases hoff
  unfold encode
  rw [getLsbD_foldl_clear _ _ _ _ (by have := o.bit_lt; omega), hff, Bool.true_and]
  cases hon : on o <;> simpa [hon] using hiff

/-- The upper four bits are always set. -/
theorem getLsbD_encode_high (on : Panel) (i : ℕ) (h4 : 4 ≤ i) (h8 : i < 8) :
    (encode on).getLsbD i = true := by
  have hff : (0xFF : BitVec 8).getLsbD i = true := by interval_cases i <;> rfl
  unfold encode
  rw [getLsbD_foldl_clear _ _ _ _ h8, hff, Bool.true_and, decide_eq_true_eq]
  intro o _ _
  have := o.bit_lt
  omega

/-- INTERNAL: **a mask is determined by its panel**: it is the encoding iff its high half
is set and the bits of the outputs fit. -/
theorem eq_encode_iff (mask : BitVec 8) (on : Panel) :
    mask = encode on ↔
      (∀ i, 4 ≤ i → i < 8 → mask.getLsbD i = true) ∧
        ∀ o : Output, mask.getLsbD o.bit = !on o := by
  constructor
  · rintro rfl
    exact ⟨getLsbD_encode_high on, getLsbD_encode on⟩
  · rintro ⟨hhigh, hlow⟩
    apply BitVec.eq_of_getLsbD_eq
    intro i hi
    rcases lt_or_ge i 4 with h4 | h4
    · obtain ⟨o, rfl⟩ := Output.exists_bit h4
      rw [hlow, getLsbD_encode]
    · rw [hhigh i h4 hi, getLsbD_encode_high on i h4 hi]

/-- All outputs off is the mask `0xFF`. -/
theorem encode_off : encode Panel.off = 0xFF := by decide

/-! ## The protocol module updates the mask -/

/-- The assignments a list of reads makes: the name says which output, the string
`true` that it goes on. -/
def assignments (l : List (Variable × Bytes)) : List (Output × Bool) :=
  l.filterMap fun x => (Output.ofPath x.1.projectPath).map (·, decide (x.2 = lit "true"))

/-- Without readings nothing is assigned. -/
@[simp] theorem assignments_nil : assignments [] = [] := rfl

/-- Two lists of readings in a row. -/
@[simp] theorem assignments_append (l l' : List (Variable × Bytes)) :
    assignments (l ++ l') = assignments l ++ assignments l' := by simp [assignments]

/-- INTERNAL: a reading of an output assigns it. -/
theorem assignments_singleton {var : Variable} {o : Output}
    (h : Output.ofPath var.projectPath = some o) (buff : Bytes) :
    assignments [(var, buff)] = [(o, decide (buff = lit "true"))] := by
  simp [assignments, h]

/-- INTERNAL: a reading of another name assigns nothing. -/
theorem assignments_singleton_of_none {var : Variable}
    (h : Output.ofPath var.projectPath = none) (buff : Bytes) :
    assignments [(var, buff)] = [] := by
  simp [assignments, h]

/-- The string read last from a variable of this name. -/
def lastRead (name : Bytes) (rs : List (Variable × Bytes)) : Option Bytes :=
  lastValue name (rs.map fun x => (x.1.projectPath, x.2))

/-- No string has been read iff no variable of the name has. -/
theorem lastRead_eq_none_iff (name : Bytes) (rs : List (Variable × Bytes)) :
    lastRead name rs = none ↔ ∀ x ∈ rs, x.1.projectPath ≠ name := by
  simp [lastRead, lastValue_eq_none_iff]

/-- INTERNAL: **the last assignment to an output is the last string read under its
name**. -/
theorem lastValue_assignments (o : Output) (rs : List (Variable × Bytes)) :
    lastValue o (assignments rs) =
      (lastRead o.name rs).map fun buff => decide (buff = lit "true") := by
  induction rs using List.reverseRecOn with
  | nil => rfl
  | append_singleton rs x ih =>
    obtain ⟨var, buff⟩ := x
    rw [assignments_append, lastRead, List.map_append, List.map_singleton, lastValue_concat]
    cases ho : Output.ofPath var.projectPath with
    | none =>
      have hno : var.projectPath ≠ o.name := (Output.ofPath_eq_none_iff _).mp ho o
      rw [assignments_singleton_of_none ho, List.append_nil, ih, if_neg hno]
      rfl
    | some o' =>
      have hpath := (Output.ofPath_eq_some_iff _ _).mp ho
      rw [assignments_singleton ho, lastValue_concat]
      by_cases heq : o' = o
      · simp [heq, hpath]
      · have hne : var.projectPath ≠ o.name := by
          rw [hpath]
          exact Output.name_injective.ne heq
        rw [if_neg heq, if_neg hne, ih]
        rfl

/-- INTERNAL: assigning an output's bit assigns the output. -/
theorem assignBit_encode (buff : Bytes) (o : Output) (on : Panel) :
    assignBit buff o.bit (encode on) =
      encode (Function.update on o (decide (buff = lit "true"))) := by
  have hlt (o' : Output) : o'.bit < 8 := by have := o'.bit_lt; omega
  have hne {i : ℕ} (h4 : 4 ≤ i) : i ≠ o.bit := by have := o.bit_lt; omega
  rw [eq_encode_iff]
  by_cases hb : buff = lit "true"
  · simp only [assignBit, hb, if_true, decide_true]
    constructor
    · intro i h4 h8
      simp [getLsbD_clear _ _ _ h8, getLsbD_encode_high on i h4 h8, hne h4]
    · intro o'
      rw [getLsbD_clear _ _ _ (hlt o'), getLsbD_encode]
      by_cases ho : o' = o
      · subst ho; simp
      · simp [ho, Output.bit_injective.ne ho]
  · simp only [assignBit, hb, if_false, decide_false]
    constructor
    · intro i h4 h8
      simp [getLsbD_set _ _ _ h8, getLsbD_encode_high on i h4 h8]
    · intro o'
      rw [getLsbD_set _ _ _ (hlt o'), getLsbD_encode]
      by_cases ho : o' = o
      · subst ho; simp
      · simp [ho, Output.bit_injective.ne ho]

/-- The commands `drive` issues for a string read under a name, with the panel after it. -/
def driveCommands (path buff : Bytes) (on : Panel) : List Bytes :=
  (if path = lit "USB_POWER" then
    [if buff = lit "true" then lit "gpioset 0 268=0" else lit "gpioset 0 268=1"] else []) ++
  [outputCommand (encode on)]

/-- INTERNAL: **`drive` follows the panel**: it makes the assignment the name and the
string stand for and writes the mask of the result. -/
theorem drive_eq (var : Variable) (buff : Bytes) (r : Runtime) (on : Panel)
    (hmask : r.self.mask = encode on) :
    let on' := assignAll on (assignments [(var, buff)])
    drive var.projectPath buff r =
      { self := { r.self with mask := encode on' },
        proc := { r.proc with
          log := r.proc.log ++ (driveCommands var.projectPath buff on').map .system } } := by
  cases ho : Output.ofPath var.projectPath with
  | some o =>
    have hpath := (Output.ofPath_eq_some_iff _ _).mp ho
    have hset := assignBit_encode buff o on
    rw [assignments_singleton ho, assignAll_singleton]
    cases o <;>
      simp +decide only [drive, hpath, Output.name, Runtime.setMask, Runtime.system,
        Process.system, Process.emit, driveCommands, Output.bit, hmask, if_true, if_false,
        List.nil_append, List.map_cons, List.map_nil] at hset ⊢ <;>
      rw [hset]
  | none =>
    have hno := (Output.ofPath_eq_none_iff _).mp ho
    have h1 := hno .blueLed
    have h2 := hno .redLed
    have h3 := hno .buzzer
    have h4 := hno .dout
    simp only [Output.name] at h1 h2 h3 h4
    rw [assignments_singleton_of_none ho, assignAll_nil]
    have hself : { r.self with mask := encode on } = r.self := by rw [← hmask]
    by_cases hu : var.projectPath = lit "USB_POWER" <;>
      simp +decide [drive, h1, h2, h3, h4, hu, Runtime.system, Process.system,
        Process.emit, driveCommands, hmask, hself]

/-! ## The function block rebuilds the mask -/

/-- The panel the inputs of the function block command. -/
def TestFBInputs.panel (i : TestFBInputs) : Panel
  | .redLed => i.redLed
  | .dout => i.dout
  | .buzzer => i.buzzer
  | .blueLed => i.blueLed

/-- **The mask of the function block** is the panel of its inputs. -/
theorem mask_eq_encode (fb : TestFB) : fb.mask = encode (TestFBInputs.panel fb.inputs) := by
  have h : ∀ b r z d : Bool,
      TestFB.clearBit d 1 (TestFB.clearBit z 2 (TestFB.clearBit r 0 (TestFB.clearBit b 3 0xFF))) =
        encode (TestFBInputs.panel ⟨b, r, z, false, d⟩) := by decide
  exact h fb.inputs.blueLed fb.inputs.redLed fb.inputs.buzzer fb.inputs.dout

end Pca9536Driver.Interface
