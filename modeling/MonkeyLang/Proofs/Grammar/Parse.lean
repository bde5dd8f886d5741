import MonkeyLang.Proofs.Grammar.Complete
import MonkeyLang.Proofs.Grammar.Sound
import MonkeyLang.Proofs.Parser.Refinement

/-!
# The language that is accepted

What is read without a mistake is what the grammar derives, with the tree of the derivation. So a
list of terminals has one tree at most, and `parse` decides whether the tokens of a source are a
program: it reports no error exactly if they are.
-/

namespace MonkeyLang

open Grammar

namespace Grammar

theorem settled_nil (ts : List Terminal) : Settled ts [] := .inr (.inr ⟨rfl, by simp, by simp⟩)

/-- Statements derived from terminals are what is read from them. -/
theorem IsStatements.reads {ts : List Terminal} {ss : List Stmt} (h : IsStatements ts ss) :
    Production.Unbounded.statements ts = ⟨[], .found ss []⟩ := by
  have hrun := h.complete readsStatements_statements [] (settled_nil ts)
  rw [List.append_nil, map_of_clean _ Production.Unbounded.statements_nil, List.append_nil] at hrun
  exact hrun

/-- Statements that are read without a mistake are derived. -/
theorem isStatements_of_clean {ts : List Terminal}
    (hm : (Production.Unbounded.statements ts).mistakes = []) :
    ∃ ss, Production.Unbounded.statements ts = ⟨[], .found ss []⟩ ∧ IsStatements ts ss := by
  obtain ⟨ss, front, rest, hrun, hts, rfl, hss⟩ := sound_statements ts hm
  rw [List.append_nil] at hts
  exact ⟨ss, hrun, hts ▸ hss⟩

theorem mistakes_ofTerminals (ts : List Terminal) :
    (Program.ofTerminals ts).mistakes = (Production.Unbounded.statements ts).mistakes := by
  rw [Production.ofTerminals_eq]
  split <;> next hrun => rw [hrun]

/-- Without a mistake a program is read, it is derived, and nothing is left unread. -/
theorem ofTerminals_of_clean {ts : List Terminal} (hm : (Program.ofTerminals ts).mistakes = []) :
    ∃ p, Program.ofTerminals ts = ⟨p, [], []⟩ ∧ IsProgram ts p := by
  rw [mistakes_ofTerminals] at hm
  obtain ⟨ss, hrun, hss⟩ := isStatements_of_clean hm
  exact ⟨⟨ss⟩, by rw [Production.ofTerminals_eq, hrun], hss⟩

/-- A list of terminals derives the program that is read from it without a mistake, and no
other. -/
theorem isProgram_iff (ts : List Terminal) (p : Program) :
    IsProgram ts p ↔ Program.ofTerminals ts = ⟨p, [], []⟩ := by
  constructor
  · intro h
    rw [Production.ofTerminals_eq, IsStatements.reads h]
  · intro h
    obtain ⟨q, hq, hd⟩ := ofTerminals_of_clean (congrArg Reading.mistakes h)
    obtain rfl : q = p := congrArg Reading.program (hq.symm.trans h)
    exact hd

end Grammar

theorem program_parse (source : String) :
    (parse source).program = (Program.ofTerminals (Token.terminals source.toList)).program := by
  rw [parse_eq]
  rfl

/-- The errors of a source are its mistakes, each at its token. -/
theorem errors_parse (source : String) :
    (parse source).errors = (Program.ofTerminals (Token.terminals source.toList)).mistakes.map
      (·.locate (Token.scan source).toArray source.utf8ByteSize) := by
  rw [parse_eq]
  rfl

/-- Errors are reported exactly where mistakes were noted. -/
theorem errors_parse_eq_nil_iff (source : String) :
    (parse source).errors = [] ↔
      (Program.ofTerminals (Token.terminals source.toList)).mistakes = [] := by
  rw [errors_parse, List.map_eq_nil_iff]

/-- A source whose terminals derive a program is read as that program. -/
theorem parse_of_isProgram {source : String} {p : Program}
    (h : IsProgram (Token.terminals source.toList) p) :
    (parse source).errors = [] ∧ (parse source).program = p := by
  rw [errors_parse_eq_nil_iff, program_parse, (isProgram_iff _ p).1 h]
  exact ⟨rfl, rfl⟩

/-- A source without errors derives the program that is read from it. -/
theorem isProgram_of_parse {source : String} (h : (parse source).errors = []) :
    IsProgram (Token.terminals source.toList) (parse source).program := by
  obtain ⟨p, hrun, hp⟩ := ofTerminals_of_clean ((errors_parse_eq_nil_iff source).1 h)
  rw [program_parse, hrun]
  exact hp

/-- `parse` accepts the language of the grammar: it reports no error exactly if the tokens of the
source derive a program, and then that is the program it returns. -/
theorem isProgram_iff_parse (source : String) (p : Program) :
    IsProgram ((Token.scan source).map Token.toTerminal) p ↔
      (parse source).errors = [] ∧ (parse source).program = p := by
  constructor
  · exact parse_of_isProgram
  · rintro ⟨h, rfl⟩
    exact isProgram_of_parse h

end MonkeyLang
