import Pca9536Driver.Model.Process

/-!
# When the output of a command comes back trimmed

`exec_command` reads the output of a command in pieces, appends each piece as a C string
and cuts the white space off the end. The pieces always add up to the whole output; the
bytes lost are those behind a NUL in a piece. What is not cut off is the white space of an
output that has nothing else.
-/

set_option autoImplicit false

namespace Pca9536Driver.Analysis

open Pca9536Driver.Library Pca9536Driver.Model

/-- INTERNAL: what `exec_command` returns ends before the first NUL byte. -/
theorem noNul_collect (out : Bytes) : (0 : UInt8) ∉ collect out := by
  intro h
  have hread : (0 : UInt8) ∉ readLines 126 out [] := noNul_readLines 126 out [] (by simp)
  unfold collect trimEnd at h
  split at h
  · exact hread (List.mem_of_mem_take h)
  · exact hread h

/-- INTERNAL: cutting off white space does not remove a NUL, and none comes back. -/
theorem noNul_of_rightTrimmed {out : Bytes} (h : RightTrimmed trailing out (collect out)) :
    (0 : UInt8) ∉ out := by
  obtain ⟨t, hsplit, ht⟩ := h.cut
  intro h0
  rw [hsplit, List.mem_append] at h0
  rcases h0 with h0 | h0
  · exact noNul_collect out h0
  · exact absurd (ht 0 h0) (by decide)

/-- **When the output comes back trimmed**: for every command and every output, of any
length and with any lines, what `exec_command` returns is the output without its longest
suffix of blanks, line ends and tabs iff the output has no NUL byte and does not consist
of such characters only.
SOURCE: simple_test_protocol.cpp:9-25 -/
theorem exec_command_trims_iff (env : Env) (cmd : Bytes) (p : Process) :
    RightTrimmed trailing (env.popen p.log cmd) (execCommand env cmd p).1 ↔
      (0 : UInt8) ∉ env.popen p.log cmd ∧
        (env.popen p.log cmd = [] ∨ ∃ b ∈ env.popen p.log cmd, b ∉ trailing) := by
  unfold execCommand
  constructor
  · intro h
    have hnul := noNul_of_rightTrimmed h
    rw [collect_of_noNul hnul, rightTrimmed_trimEnd_iff] at h
    exact ⟨hnul, h⟩
  · rintro ⟨hnul, h⟩
    rw [collect_of_noNul hnul, rightTrimmed_trimEnd_iff]
    exact h

/-- **An empty line is not trimmed**: of a command that prints a line end only, the line
end is returned. -/
theorem empty_line_is_returned :
    let env : Env := ⟨.exact, fun _ _ => lit "\n", fun _ _ => []⟩
    let out := (execCommand env (lit "ip link show usb0 | awk '\x7bprint $9\x7d' | head -n 1")
      ⟨fun _ => [], []⟩).1
    out = lit "\n" ∧ ¬ RightTrimmed trailing (lit "\n") out := by
  have hout : collect (lit "\n") = lit "\n" := by
    rw [collect_of_noNul (by decide)]
    decide
  simp only [execCommand, hout, true_and]
  exact fun h => h.last [] 10 (by decide) (by decide)

end Pca9536Driver.Analysis
