import Pca9536Driver.Library.Numeral

/-!
# The process the modules run in

Both modules are shared objects loaded by one MasterPLC runtime. Seen from outside, an
`Execute` is a sequence of events: commands given to the shell through `popen` or
`system`, values written to the variables of the project, values read from them. A
`Process` is the history of these events and the function-static strings of
`SimpleTestProtocol::Execute`, which every instance of that class shares.

What the modules cannot decide themselves is the `Env`: what a command prints and what
string an output variable holds. Both may depend on the whole history, so an
environment can change in any way between two commands.

Null pointers are part of the model: `ScadaParameter::m_var` is null until the runtime
resolves it.
-/

set_option autoImplicit false

namespace Pca9536Driver.Model

open Pca9536Driver.Library

/-! ## The SDK types -/

/-- `vm::Variable`, with the members the driver uses.
SOURCE: node_typese.h:93, pt_node.h:248-255 -/
structure Variable where
  id : ℤ
  projectPath : Bytes
  deriving DecidableEq

/-- `api::ScadaParameter`: a pointer to a variable, `none` for null.
SOURCE: scada_parameter.h:19-20 -/
structure ScadaParameter where
  m_var : Option Variable

/-- `api::ScadaChannel`: an optional input and an optional output parameter.
SOURCE: scada_channel.h:27-28 -/
structure ScadaChannel where
  inVar : Option ScadaParameter
  outVar : Option ScadaParameter

/-- What the driver passes to `ScadaChannel::Write`. The number is `none` where the
source converts a floating-point value to `int16_t` and the conversion is undefined. -/
inductive Value where
  | int16 (v : Option Int16)
  | string (s : Bytes)
  deriving DecidableEq

/-! ## Events and the environment -/

/-- One interaction of the modules with the rest of the system. -/
inductive Event where
  | popen (cmd : Bytes)
  | system (cmd : Bytes)
  | write (var : Variable) (value : Value)
  | read (var : Variable) (buff : Bytes)
  deriving DecidableEq

/-- The rest of the system: the floating-point arithmetic, what a command started by
`popen` prints and what string `OutVar->Value.GetString` gives after `OutVar->Read`. -/
structure Env where
  arith : Arithmetic
  popen : List Event → Bytes → Bytes
  read : List Event → Variable → Bytes

/-- The eight function-static strings of `SimpleTestProtocol::Execute`.
SOURCE: simple_test_protocol.cpp:97-104 -/
inductive Cache where
  | cpuTemp | cpuLoad | ramPercent | diskPercent | uptime | modemCheck | usbMount | sdMount
  deriving DecidableEq

/-- The state the modules share: the static strings and the history. -/
structure Process where
  caches : Cache → Bytes
  log : List Event

namespace Process

/-- The process behind one event more. -/
def emit (p : Process) (e : Event) : Process := { p with log := p.log ++ [e] }

@[simp] theorem emit_caches (p : Process) (e : Event) : (p.emit e).caches = p.caches := rfl

@[simp] theorem emit_log (p : Process) (e : Event) : (p.emit e).log = p.log ++ [e] := rfl

/-- `system(cmd)`. The exit status is not looked at. -/
def system (p : Process) (cmd : Bytes) : Process := p.emit (.system cmd)

@[simp] theorem system_caches (p : Process) (cmd : Bytes) :
    (p.system cmd).caches = p.caches := rfl

@[simp] theorem system_log (p : Process) (cmd : Bytes) :
    (p.system cmd).log = p.log ++ [.system cmd] := rfl

end Process

/-- The characters `exec_command` strips: blank, newline, carriage return and tab. -/
def trailing : Bytes := lit " \n\r\t"

/-- What `exec_command` makes of the output of its command: lines are read into a buffer
of 128 bytes and appended as C strings, trailing white space is cut off.
SOURCE: simple_test_protocol.cpp:13-24 -/
def collect (output : Bytes) : Bytes := trimEnd trailing (readLines 126 output [])

/-- INTERNAL: an output without NUL bytes is only trimmed. -/
theorem collect_of_noNul {out : Bytes} (h : (0 : UInt8) ∉ out) :
    collect out = trimEnd trailing out := by
  unfold collect
  rw [readLines_of_noNul 126 out [] h, List.nil_append]

/-- INTERNAL: **a word with a line end behind it** is collected as the word, whatever the
line end is made of. -/
theorem collect_word {s lineEnd : Bytes} (hne : s ≠ []) (hs : ∀ b ∈ s, b ≠ 0 ∧ b ∉ trailing)
    (hend : ∀ b ∈ lineEnd, b ∈ trailing) : collect (s ++ lineEnd) = s := by
  have htrim : RightTrimmed trailing (s ++ lineEnd) s := by
    refine ⟨⟨lineEnd, rfl, hend⟩, fun s' b heq => ?_⟩
    exact (hs b (by simp [heq])).2
  have hnul : (0 : UInt8) ∉ s ++ lineEnd := by
    rw [List.mem_append, not_or]
    exact ⟨fun h => (hs 0 h).1 rfl, fun h => absurd (hend 0 h) (by decide)⟩
  rw [collect_of_noNul hnul, htrim.trimEnd_eq hne]

/-- A digit is neither a NUL byte nor white space. -/
theorem digit_ne {b : UInt8} (hb : isDigit 10 b = true) : b ≠ 0 ∧ b ∉ trailing := by
  have hr := digit_byte_range hb
  have hlit : trailing = [32, 10, 13, 9] := by decide
  simp only [hlit, List.mem_cons, List.not_mem_nil, or_false, ne_eq, ← UInt8.toNat_inj]
  simp
  omega

/-- INTERNAL: a number with a line end behind it is collected as the number. -/
theorem collect_number {s lineEnd : Bytes} (hne : s ≠ [])
    (hs : ∀ b ∈ s, isDigit 10 b = true ∨ b = 46) (hend : ∀ b ∈ lineEnd, b ∈ trailing) :
    collect (s ++ lineEnd) = s := by
  apply collect_word hne _ hend
  intro b hb
  rcases hs b hb with hdigit | rfl
  · exact digit_ne hdigit
  · decide

/-- INTERNAL: the same for the line end of the system. -/
theorem collect_number_line {s : Bytes} (hne : s ≠ [])
    (hs : ∀ b ∈ s, isDigit 10 b = true ∨ b = 46) : collect (s ++ [newline]) = s := by
  apply collect_number hne hs
  intro b hb
  rw [List.mem_singleton.mp hb]
  decide

/-- `exec_command(cmd)`.
SOURCE: simple_test_protocol.cpp:9-25 -/
def execCommand (env : Env) (cmd : Bytes) (p : Process) : Bytes × Process :=
  (collect (env.popen p.log cmd), p.emit (.popen cmd))

/-! ## Projections of the history -/

/-- The values written to variables. -/
def writes (log : List Event) : List (Variable × Value) :=
  log.filterMap fun
    | .write var value => some (var, value)
    | _ => none

/-- The commands run to ask for something. -/
def popens (log : List Event) : List Bytes :=
  log.filterMap fun
    | .popen cmd => some cmd
    | _ => none

/-- The commands run for their effect. -/
def systems (log : List Event) : List Bytes :=
  log.filterMap fun
    | .system cmd => some cmd
    | _ => none

/-- The strings read from variables. -/
def reads (log : List Event) : List (Variable × Bytes) :=
  log.filterMap fun
    | .read var buff => some (var, buff)
    | _ => none

section Projections

variable (l l' : List Event) (cmd : Bytes) (var : Variable) (value : Value) (buff : Bytes)

@[simp] theorem writes_append : writes (l ++ l') = writes l ++ writes l' := by simp [writes]

@[simp] theorem popens_append : popens (l ++ l') = popens l ++ popens l' := by simp [popens]

@[simp] theorem systems_append : systems (l ++ l') = systems l ++ systems l' := by
  simp [systems]

@[simp] theorem reads_append : reads (l ++ l') = reads l ++ reads l' := by simp [reads]

@[simp] theorem writes_nil : writes [] = [] := rfl
@[simp] theorem writes_popen : writes (.popen cmd :: l) = writes l := rfl
@[simp] theorem writes_system : writes (.system cmd :: l) = writes l := rfl
@[simp] theorem writes_read : writes (.read var buff :: l) = writes l := rfl
@[simp] theorem writes_write : writes (.write var value :: l) = (var, value) :: writes l := rfl

@[simp] theorem popens_nil : popens [] = [] := rfl
@[simp] theorem popens_popen : popens (.popen cmd :: l) = cmd :: popens l := rfl
@[simp] theorem popens_system : popens (.system cmd :: l) = popens l := rfl
@[simp] theorem popens_read : popens (.read var buff :: l) = popens l := rfl
@[simp] theorem popens_write : popens (.write var value :: l) = popens l := rfl

@[simp] theorem systems_nil : systems [] = [] := rfl
@[simp] theorem systems_popen : systems (.popen cmd :: l) = systems l := rfl
@[simp] theorem systems_system : systems (.system cmd :: l) = cmd :: systems l := rfl
@[simp] theorem systems_read : systems (.read var buff :: l) = systems l := rfl
@[simp] theorem systems_write : systems (.write var value :: l) = systems l := rfl

@[simp] theorem reads_nil : reads [] = [] := rfl
@[simp] theorem reads_popen : reads (.popen cmd :: l) = reads l := rfl
@[simp] theorem reads_system : reads (.system cmd :: l) = reads l := rfl
@[simp] theorem reads_read : reads (.read var buff :: l) = (var, buff) :: reads l := rfl
@[simp] theorem reads_write : reads (.write var value :: l) = reads l := rfl

variable (cmds : List Bytes)

@[simp] theorem writes_map_popen : writes (cmds.map .popen) = [] := by
  simp [writes, List.filterMap_map]

@[simp] theorem writes_map_system : writes (cmds.map .system) = [] := by
  simp [writes, List.filterMap_map]

@[simp] theorem popens_map_popen : popens (cmds.map .popen) = cmds := by
  simp [popens, List.filterMap_map]

@[simp] theorem popens_map_system : popens (cmds.map .system) = [] := by
  simp [popens, List.filterMap_map]

@[simp] theorem systems_map_popen : systems (cmds.map .popen) = [] := by
  simp [systems, List.filterMap_map]

@[simp] theorem systems_map_system : systems (cmds.map .system) = cmds := by
  simp [systems, List.filterMap_map]

@[simp] theorem reads_map_popen : reads (cmds.map .popen) = [] := by
  simp [reads, List.filterMap_map]

@[simp] theorem reads_map_system : reads (cmds.map .system) = [] := by
  simp [reads, List.filterMap_map]

end Projections

end Pca9536Driver.Model
