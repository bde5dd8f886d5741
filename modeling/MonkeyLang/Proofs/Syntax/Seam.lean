import MonkeyLang.Proofs.Grammar.Parse
import MonkeyLang.Proofs.Production.Mistakes
import MonkeyLang.Proofs.Token.Seam

/-!
# Sources one behind the other

A source that is complete has no syntax errors and ends with a semicolon. Whatever stands behind
such a source is read as if it stood alone: scanning starts anew behind the semicolon, and so do
the statements, since the last statement of the source is over (`ofTerminals_append`). Its errors
are what they are when it stands alone, as many bytes further back as the source in front is long
(`parse_append_semicolon`).
-/

namespace MonkeyLang

open Grammar Token
open Production (bind_of_found)

namespace Program

/-- What is read behind terminals that derive a program and leave no statement open: the statements
of that program first, the mistakes and the rest as if nothing stood in front. -/
theorem ofTerminals_append {ts us : List Terminal} {p : Program} (h : IsProgram ts p)
    (hsettled : Settled ts us) :
    ofTerminals (ts ++ us) =
      { ofTerminals us with program := ⟨p.statements ++ (ofTerminals us).program.statements⟩ } := by
  have hrun := h.complete readsStatements_statements us hsettled
  obtain ⟨ms, ss, hus⟩ := Production.Unbounded.statements_found us
  rw [Production.ofTerminals_eq, Production.ofTerminals_eq, hrun, hus, map_eq_pure_bind,
    bind_of_found hus]
  simp only [pure, Production.succeed, List.append_nil]

end Program

/-- The kind of the last token of a source, apart from the mark of its end. -/
def lastTokenKind (source : String) : Option Kind := (Token.scan source).getLast?.map (·.kind)

theorem lastKind_terminals (source : String) :
    lastKind (terminals source.toList) = lastTokenKind source := by
  rw [lastKind, terminals, List.getLast?_map, Option.map_map]
  rfl

/-! ## Behind a semicolon -/

section
variable {a : String} (hlast : ∀ k ∈ lastTokenKind a, k = .semicolon)
include hlast

/-- The tokens of a text behind a semicolon, or behind no token at all, are its own. -/
theorem scan_append_semicolon (b : String) :
    Token.scan (a ++ b) = Token.scan a ++ (Token.scan b).map (Token.shift a.utf8ByteSize) := by
  have hkind : ∀ t ∈ (scan a).getLast?, t.kind = .semicolon := fun t ht =>
    hlast t.kind (Option.mem_map_of_mem _ ht)
  have hscan := scanFrom_append (seam_of_semicolon b.toList hkind) 0
  rw [scanFrom_shift, byteLength_toList, ← String.toList_append] at hscan
  exact hscan

theorem terminals_append_semicolon (b : String) :
    terminals (a ++ b).toList = terminals a.toList ++ terminals b.toList := by
  have hscan := congrArg (List.map Token.toTerminal) (scan_append_semicolon hlast b)
  rw [List.map_append, List.map_map] at hscan
  exact hscan

theorem settled_semicolon (us : List Terminal) : Settled (terminals a.toList) us := by
  rw [Settled, lastKind_terminals]
  rcases h : lastTokenKind a with _ | k
  · rw [← lastKind_terminals, lastKind, Option.map_eq_none_iff, List.getLast?_eq_none_iff] at h
    exact .inl h
  · obtain rfl := hlast k h
    exact .inr (.inl rfl)

/-- What is read behind a source without mistakes that leaves no statement open. -/
theorem ofTerminals_append_semicolon (ha : (parse a).errors = []) (b : String) :
    Program.ofTerminals (terminals (a ++ b).toList) =
      { Program.ofTerminals (terminals b.toList) with
        program := ⟨(parse a).program.statements ++ (parse b).program.statements⟩ } := by
  rw [terminals_append_semicolon hlast, program_parse b]
  exact Program.ofTerminals_append (isProgram_of_parse ha) (settled_semicolon hlast _)

end

/-! ## Complete sources -/

/-- A source without syntax errors whose last token is a semicolon. -/
structure Complete (source : String) : Prop where
  errors_eq_nil : (parse source).errors = []
  lastTokenKind_eq : lastTokenKind source = some .semicolon

instance (source : String) : Decidable (Complete source) :=
  decidable_of_iff ((parse source).errors = [] ∧ lastTokenKind source = some .semicolon)
    ⟨fun h => ⟨h.1, h.2⟩, fun h => ⟨h.1, h.2⟩⟩

namespace Complete

variable {a : String}

theorem lastKind_eq (h : Complete a) : lastKind (terminals a.toList) = some .semicolon := by
  rw [lastKind_terminals, h.lastTokenKind_eq]

theorem ne_empty (h : Complete a) : a ≠ "" := by
  rintro rfl
  have hlast := h.lastKind_eq
  rw [String.toList_empty, terminals_nil] at hlast
  cases hlast

theorem last_semicolon (h : Complete a) : ∀ k ∈ lastTokenKind a, k = .semicolon := by
  rw [h.lastTokenKind_eq]
  rintro _ ⟨⟩
  rfl

/-- What is read from a complete source with another one behind it: the statements of both, and
errors exactly if there are some in the second. -/
theorem parse_append (h : Complete a) (b : String) :
    (parse (a ++ b)).program =
        ⟨(parse a).program.statements ++ (parse b).program.statements⟩ ∧
      ((parse (a ++ b)).errors = [] ↔ (parse b).errors = []) := by
  have hof := ofTerminals_append_semicolon h.last_semicolon h.errors_eq_nil b
  rw [errors_parse_eq_nil_iff, errors_parse_eq_nil_iff, program_parse, hof]
  exact ⟨rfl, Iff.rfl⟩

/-- A complete source has a statement. -/
theorem statements_ne_nil (h : Complete a) : (parse a).program.statements ≠ [] := by
  intro hn
  have hd := isProgram_of_parse h.errors_eq_nil
  rw [IsProgram, hn] at hd
  have hlast := h.lastKind_eq
  generalize terminals a.toList = ts at hd hlast
  cases hd
  cases hlast

/-- Complete sources one behind the other are complete. -/
theorem append (h : Complete a) {b : String} (hb : Complete b) : Complete (a ++ b) := by
  refine ⟨(h.parse_append b).2.2 hb.errors_eq_nil, ?_⟩
  rw [← lastKind_terminals, terminals_append_semicolon h.last_semicolon, lastKind_append,
    hb.lastKind_eq]
  intro hn
  have hlast := hb.lastKind_eq
  rw [hn] at hlast
  cases hlast

end Complete

/-! ## Errors behind a semicolon -/

/-- Placed from the end of the tokens, a mistake in the last of them stands where it stands among
those alone, further back by what is in front. -/
theorem Mistake.locate_append {m : Mistake} {tokens : List Token} (hm : m.left ≤ tokens.length)
    (front : List Token) (n bytes : Nat) :
    m.locate (front ++ tokens.map (Token.shift n)).toArray (n + bytes) =
      (m.locate tokens.toArray bytes).shift n := by
  have hindex : (front ++ tokens.map (Token.shift n)).length - m.left =
      front.length + (tokens.length - m.left) := by
    rw [List.length_append, List.length_map]
    omega
  rw [locate, locate, spanOfLeft_toArray, spanOfLeft_toArray, hindex,
    List.getElem?_append_right (Nat.le_add_right _ _), Nat.add_sub_cancel_left, List.getElem?_map]
  rcases tokens[tokens.length - m.left]? with _ | t
  · simp [SyntaxError.shift, Span.shift, Span.point, Nat.add_comm]
  · rfl

/-- A source without errors whose last token, if it has one, is a semicolon, and any other source
behind it: the statements that are read are those of both, and the errors are those of the second
one, as many bytes further back as the first one is long. -/
theorem parse_append_semicolon (a b : String) (ha : (parse a).errors = [])
    (hlast : ∀ k ∈ lastTokenKind a, k = .semicolon) :
    (parse (a ++ b)).program = ⟨(parse a).program.statements ++ (parse b).program.statements⟩ ∧
      (parse (a ++ b)).errors = (parse b).errors.map (SyntaxError.shift a.utf8ByteSize) := by
  have hof := ofTerminals_append_semicolon hlast ha b
  refine ⟨by rw [program_parse, hof], ?_⟩
  rw [errors_parse, errors_parse, hof, List.map_map, String.utf8ByteSize_append,
    scan_append_semicolon hlast]
  refine List.map_congr_left fun m hm => ?_
  obtain ⟨us, hus, habout⟩ := Program.about_mistakes hm
  refine Mistake.locate_append ?_ _ _ _
  rw [habout.left_eq]
  exact Nat.le_trans hus.length_le (Nat.le_of_eq (List.length_map _))

/-- Behind a string whose characters take more than a byte each, a binding that fails and a block
without its brace. -/
theorem parse_append_semicolon_recovery :
    (parse "let s = \"é😀\";").errors = [] ∧
    (∀ k ∈ lastTokenKind "let s = \"é😀\";", k = .semicolon) ∧
    (parse ("let s = \"é😀\";" ++ "let 5; if (s) \x7b s")).program =
      ⟨(parse "let s = \"é😀\";").program.statements ++
        (parse "let 5; if (s) \x7b s").program.statements⟩ ∧
    (parse ("let s = \"é😀\";" ++ "let 5; if (s) \x7b s")).errors =
      (parse "let 5; if (s) \x7b s").errors.map
        (SyntaxError.shift ("let s = \"é😀\";" : String).utf8ByteSize) := by
  have ha : (parse "let s = \"é😀\";").errors = [] := by decide +kernel
  have hlast : ∀ k ∈ lastTokenKind "let s = \"é😀\";", k = .semicolon := by decide +kernel
  exact ⟨ha, hlast, parse_append_semicolon _ _ ha hlast⟩

end MonkeyLang
