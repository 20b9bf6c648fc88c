import MapScript.Proofs.Codec
import MapScript.Proofs.Division

/-!
# Code of scripts is accepted

Everything that a script is built into can be written as words and read back, is a well-nested
program, and is recovered with nothing left on the stack, whatever jumps and labels the script has.
-/

namespace MapScript

open Structured

namespace Script

/-- What a script is built into has the right number of operands. -/
theorem wellFormed_of_build {start : Nat} {stmts : List Stmt} {code : List Instruction}
    (h : build start stmts = .ok code) : ∀ i ∈ code, i.wellFormed = true := by
  obtain ⟨items, n, labels, o, stop, next, -, -, -, rfl, -⟩ := exists_outlined_of_build h
  exact o.wellFormed

theorem wellNested_of_build {start : Nat} {stmts : List Stmt} {code : List Instruction}
    (h : build start stmts = .ok code) : (Program.ofInstructions start code).WellNested := by
  obtain ⟨items, n, labels, o, stop, next, -, -, ho, rfl, hd⟩ := exists_outlined_of_build h
  exact ho.laid.wellNested hd

/-- What a script is built into is recovered with nothing left on the stack. -/
theorem exists_recovered_of_build {start : Nat} {stmts : List Stmt} {code : List Instruction}
    (h : build start stmts = .ok code) :
    ∃ d, Structured.ofInstructions start code = .ok d ∧ d.residual = [] := by
  have hb := Program.build_eq_ok_of_wellNested (wellNested_of_build h)
  obtain ⟨items, n, labels, o, stop, next, -, -, -, rfl, hd⟩ := exists_outlined_of_build h
  obtain ⟨o', -, hw⟩ := hd.exists_walk
  exact ⟨_, Structured.ofInstructions_eq_ok hb hw, rfl⟩

theorem instructions_eq_ok {start : Nat} {text : String} {code : List Instruction} :
    instructions start text = .ok code ↔ ∃ stmts, read text = .ok stmts ∧
      build start stmts = .ok code := by
  rw [instructions, bind_eq_ok]
  simp only [mapError_eq_ok]

/-- Texts fail before there is code, or have code. -/
theorem instructions_ne_encode {start : Nat} {text : String} {e : Bytecode.EncodeError} :
    instructions start text ≠ .error (.encode e) := by
  intro h
  rw [instructions, bind_eq_error] at h
  rcases h with h | ⟨stmts, -, h⟩
  · rw [read, bind_eq_error] at h
    rcases h with h | ⟨tokens, -, h⟩
    · obtain ⟨e', -, he⟩ := mapError_eq_error.mp h
      cases he
    · obtain ⟨e', -, he⟩ := mapError_eq_error.mp h
      cases he
  · obtain ⟨e', -, he⟩ := mapError_eq_error.mp h
    cases he

/-- **Scripts are accepted.**  The code of a text never fails to be written as words; these words
are read back as the same code, which is a well-nested program and is recovered with nothing left
on the stack. -/
theorem accepted_of_words (start : Nat) (text : String) :
    (∀ e, words start text ≠ .error (.encode e)) ∧
    ∀ ws code, words start text = .ok ws → instructions start text = .ok code →
      Bytecode.decode ws = .ok code ∧
      (∃ p, Program.build start code = .ok p ∧ p.WellNested) ∧
      ∃ d, Structured.ofInstructions start code = .ok d ∧ d.residual = [] := by
  constructor
  · intro e h
    rw [words, bind_eq_error] at h
    rcases h with h | ⟨code, hc, h⟩
    · exact instructions_ne_encode h
    · obtain ⟨stmts, -, hb⟩ := instructions_eq_ok.mp hc
      obtain ⟨ws, hws⟩ := Bytecode.encodeFrom_eq_ok (wellFormed_of_build hb) 0
      obtain ⟨e', he', -⟩ := mapError_eq_error.mp h
      rw [Bytecode.encode, hws] at he'
      cases he'
  · intro ws code hw hc
    obtain ⟨stmts, -, hb⟩ := instructions_eq_ok.mp hc
    have hwn := wellNested_of_build hb
    rw [words, hc] at hw
    exact ⟨Bytecode.decodeFrom_of_encodeFrom (mapError_eq_ok.mp hw) 0,
      ⟨_, Program.build_eq_ok_of_wellNested hwn, hwn⟩, exists_recovered_of_build hb⟩

/-- Jumps out of a body and into one, and calls that recovery drops. -/
def wandering : String :=
  "::again:: if Temp[1].byte == 2 then goto out if 1 then ::inside:: Entity.stop() end end " ++
    "::out:: System.noop() goto inside System.reset_stack() goto again"

theorem accepted_of_words_wandering : ∃ ws code, words 0 wandering = .ok ws ∧
    instructions 0 wandering = .ok code ∧ Bytecode.decode ws = .ok code ∧
    (∃ p, Program.build 0 code = .ok p ∧ p.WellNested) ∧
    ∃ d, Structured.ofInstructions 0 code = .ok d ∧ d.residual = [] := by
  have hok : (words 0 wandering).isOk = true := by
    unfold words instructions read Token.scan wandering
    -- evaluation is slow in taking a text apart, so it starts from the characters
    rw [String.toList_append, String.toList_ofList, String.toList_ofList]
    decide +kernel
  cases hw : words 0 wandering with
  | error e =>
    rw [hw] at hok
    cases hok
  | ok ws =>
    obtain ⟨code, hcode, -⟩ := bind_eq_ok.mp hw
    exact ⟨ws, code, rfl, hcode, (accepted_of_words 0 wandering).2 ws code hw hcode⟩

end Script

end MapScript
