import MonkeyLang.Proofs.Eval.Sequence
import MonkeyLang.Proofs.Text.Decimal
import MonkeyLang.Value.Render

/-!
# Integer literals

A text of decimal digits is read as the number that the digits stand for, and refused if that is
too large for a signed 64-bit integer; how long the text is and with how many zeros it begins does
not matter (`parse_numeral`, `parse_numeral_large`). An integer is shown as the digits of its
absolute value, behind a minus if it is negative. The minus is an operator and no part of the
literal, so the text shown for the least integer is refused: its digits alone stand for a number
that is one too large. The text shown for any other integer has that integer for its value
(`interpretIn_inspect_integer`).
-/

namespace MonkeyLang

open Grammar Token

open Decimal

/-! ## The tokens of numerals -/

/-- Every digit is one byte long. -/
theorem Decimal.IsNumeral.utf8ByteSize_eq {text : String} (h : IsNumeral text) :
    text.utf8ByteSize = text.length := by
  have hbytes : ∀ cs : List Char, (∀ c ∈ cs, c.isDigit = true) → byteLength cs = cs.length := by
    intro cs hcs
    induction cs with
    | nil => rfl
    | cons c cs ih =>
      obtain ⟨hc, htail⟩ := List.forall_mem_cons.1 hcs
      have hsize : c.utf8Size = 1 := Char.utf8Size_eq_one_iff.2
        (Nat.le_trans (toNat_le_of_isDigit hc) (by decide))
      rw [byteLength_cons, ih htail, hsize, List.length_cons, Nat.add_comm]
  rw [← byteLength_toList, hbytes _ h.isDigit, String.length_toList]

namespace Token

variable {text : String}

/-- A numeral is a token by itself. -/
theorem next?_numeral (h : IsNumeral text) (offset : Nat) :
    next? offset text.toList =
      some (⟨⟨.integer, text⟩, ⟨offset, offset + text.length⟩⟩, []) := by
  have hlength := h.utf8ByteSize_eq
  obtain ⟨ds, rfl⟩ : ∃ ds, text = .ofList ds := ⟨_, String.ofList_toList.symm⟩
  have hdigits := h.isDigit
  rw [byteLength_ofList] at hlength
  rw [String.toList_ofList] at hdigits ⊢
  obtain ⟨c, cs, rfl⟩ := List.exists_cons_of_ne_nil fun hn : ds = [] => h.ne_empty (hn ▸ rfl)
  obtain ⟨hc, hcs⟩ := List.forall_mem_cons.1 hdigits
  have hblank := isBlank_of_isDigit hc
  have hread : Lexeme.read c cs = ⟨.integer, c :: cs, []⟩ := by
    have hhead : ∀ d ∈ ([] : List Char).head?, d.isDigit = false := nofun
    obtain ⟨htake, hdrop⟩ := takeWhile_append_of_head hcs hhead
    rw [List.append_nil] at htake hdrop
    rw [Lexeme.read_digit hc, htake, hdrop]
  rw [next?_of_lexeme offset (List.dropWhile_cons_of_neg (by rw [hblank]; decide)), hread,
    List.takeWhile_cons_of_neg (by rw [hblank]; decide), Lexeme.token,
    Lexeme.literal_of_ne Kind.noConfusion, hlength, byteLength_nil, Nat.add_zero]

theorem scanFrom_numeral (h : IsNumeral text) (offset : Nat) :
    scanFrom offset text.toList = [⟨⟨.integer, text⟩, ⟨offset, offset + text.length⟩⟩] := by
  rw [scanFrom_of_next? (next?_numeral h offset), scanFrom_nil]

/-- The minus in front of a numeral is a token of its own. -/
theorem scan_negative (h : IsNumeral text) :
    scan ("-" ++ text) =
      [⟨⟨.minus, "-"⟩, ⟨0, 1⟩⟩, ⟨⟨.integer, text⟩, ⟨1, 1 + text.length⟩⟩] := by
  have hnext : next? 0 ("-" ++ text).toList = some (⟨⟨.minus, "-"⟩, ⟨0, 1⟩⟩, text.toList) := by
    rw [String.toList_append]
    rfl
  rw [scan, scanFrom_of_next? hnext, scanFrom_numeral h]

end Token

/-! ## Integers that are too large -/

namespace Production.Unbounded

open Production hiding expression operand statements

variable {t : Terminal} {ts rest : List Terminal} {ms : List Mistake} {closed : Bool}

theorem expression_large {text : String} (h : largest < number text) (floor : Precedence) :
    expression floor (⟨.integer, text⟩ :: rest) =
      ⟨[⟨.integerRange text, rest.length + 1⟩], .failed rest false⟩ := by
  have hoperand : operand (⟨.integer, text⟩ :: rest) =
      ⟨[⟨.integerRange text, rest.length + 1⟩], .failed rest false⟩ := by
    rw [operand_integer]
    simp only [integer, int64?_of_lt h]
  rw [expression_eq, bind_of_failed hoperand]

/-- With its operand a unary operator is refused. -/
theorem expression_unary_of_failed {kind : Kind} {l : String} {o : UnaryOperator}
    (hk : UnaryOperator.ofKind? kind = some o)
    (h : expression .unary ts = ⟨ms, .failed rest closed⟩) (floor : Precedence) :
    expression floor (⟨kind, l⟩ :: ts) = ⟨ms, .failed rest closed⟩ := by
  have hoperand : operand (⟨kind, l⟩ :: ts) = ⟨ms, .failed rest closed⟩ := by
    rw [operand_unary hk, map_eq_pure_bind, bind_of_failed h]
  rw [expression_eq, bind_of_failed hoperand]

/-- A program that is one expression, which is refused, has no statement. -/
theorem statements_of_failed (hlet : ahead (t :: ts) ≠ .letWord)
    (hreturn : ahead (t :: ts) ≠ .returnWord)
    (h : expression .lowest (t :: ts) = ⟨ms, .failed [] closed⟩) :
    statements (t :: ts) = ⟨ms, .found [] []⟩ := by
  have hstatement : statement (t :: ts) = ⟨ms, .found none []⟩ := by
    rw [statement_expression hlet hreturn]
    simp only [attempt, bind_of_failed h, withoutSemicolon]
  have hrest : (do
      let others ← statements
      return (none : Option Stmt).toList ++ others : Production (List Stmt)) [] =
        ⟨[], .found [] []⟩ := rfl
  rw [statements_cons, bind_of_found hstatement, hrest, List.append_nil]

end Production.Unbounded

/-! ## What is read from numerals -/

/-- An expression is a program, without a semicolon behind it. -/
theorem Grammar.IsExpr.isProgram {ts : List Terminal} {e : Expr} (h : IsExpr .equality ts e) :
    IsProgram ts ⟨[.expression e]⟩ := by
  have hd := IsStatements.bare (.expression h) rfl .nil
  rwa [List.append_nil] at hd

section
variable {text : String} (h : IsNumeral text)
include h

theorem parse_numeral (hle : number text ≤ largest) :
    (parse text).errors = [] ∧
      (parse text).program = ⟨[.expression (.integer (.ofNat (number text)))]⟩ := by
  refine parse_of_isProgram ?_
  have hterminals : terminals text.toList = [⟨.integer, text⟩] := by
    rw [terminals, scanFrom_numeral h]
    rfl
  rw [← value_toList] at hle ⊢
  have hd : IsExpr .equality [⟨.integer, text⟩] _ := (IsExpr.integer hle).loosest
  rw [hterminals]
  exact hd.isProgram

theorem parse_numeral_large (hlt : largest < number text) :
    parse text = ⟨⟨[]⟩, [⟨.integerRange text, ⟨0, text.length⟩⟩], []⟩ := by
  have hread : Program.ofTerminals [⟨.integer, text⟩] =
      ⟨⟨[]⟩, [⟨.integerRange text, 1⟩], []⟩ := by
    rw [Production.ofTerminals_eq, Production.Unbounded.statements_of_failed Kind.noConfusion
      Kind.noConfusion
      (Production.Unbounded.expression_large hlt .lowest)]
    rfl
  rw [parse_eq, scan, scanFrom_numeral h, Parsed.ofTokens]
  simp only [List.map_cons, List.map_nil, hread]
  simp [Mistake.locate, spanOfLeft]

theorem parse_negative (hle : number text ≤ largest) :
    (parse ("-" ++ text)).errors = [] ∧
      (parse ("-" ++ text)).program =
        ⟨[.expression (.unary .negate (.integer (.ofNat (number text))))]⟩ := by
  refine parse_of_isProgram ?_
  have hterminals : terminals ("-" ++ text).toList =
      [⟨UnaryOperator.negate.kind, "-"⟩, ⟨.integer, text⟩] :=
    congrArg (List.map toTerminal) (scan_negative h)
  rw [← value_toList] at hle ⊢
  have hd : IsExpr .unary [⟨.integer, text⟩] _ := (IsExpr.integer hle).loosen (by decide)
  rw [hterminals]
  exact (IsExpr.unary hd).loosest.isProgram

theorem parse_negative_large (hlt : largest < number text) :
    parse ("-" ++ text) = ⟨⟨[]⟩, [⟨.integerRange text, ⟨1, 1 + text.length⟩⟩], []⟩ := by
  have hread : Program.ofTerminals [⟨.minus, "-"⟩, ⟨.integer, text⟩] =
      ⟨⟨[]⟩, [⟨.integerRange text, 1⟩], []⟩ := by
    rw [Production.ofTerminals_eq, Production.Unbounded.statements_of_failed Kind.noConfusion
      Kind.noConfusion
      (Production.Unbounded.expression_unary_of_failed rfl
        (Production.Unbounded.expression_large hlt .unary) .lowest)]
    rfl
  rw [parse_eq, scan_negative h, Parsed.ofTokens]
  simp only [List.map_cons, List.map_nil, hread]
  simp [Mistake.locate, spanOfLeft]

end

/-! ## What numerals evaluate to -/

section
variable {text : String} (h : IsNumeral text) (hle : number text ≤ largest) (k : Nat) (σ : ScopeId)
  (s : Store)
include h hle

theorem interpretIn_numeral :
    interpretIn (k + 2) text σ s = some (.value (.integer (.ofNat (number text))), s) := by
  obtain ⟨hclean, hprogram⟩ := parse_numeral h hle
  rw [interpretIn_of_clean hclean, hprogram]
  rfl

theorem interpretIn_negative :
    interpretIn (k + 3) ("-" ++ text) σ s =
      some (.value (.integer (-.ofNat (number text))), s) := by
  obtain ⟨hclean, hprogram⟩ := parse_negative h hle
  rw [interpretIn_of_clean hclean, hprogram]
  rfl

end

/-- The text shown for an integer has the integer for its value, unless it is the least one. -/
theorem interpretIn_inspect_integer {n : Int64} (hn : n ≠ .minValue) (k : Nat) (σ : ScopeId)
    (s : Store) :
    interpretIn (k + 3) (Value.integer n).inspect σ s = some (.value (.integer n), s) := by
  have hlt := n.toInt_lt
  have hge := n.le_toInt
  rw [Value.inspect]
  rcases Int.lt_or_le n.toInt 0 with hneg | hnonneg
  · have hmin : n.toInt ≠ -2 ^ 63 := fun h => hn (Int64.toInt_inj.1 h)
    have hle : number (toString (-n.toInt).toNat) ≤ largest := by
      rw [number_toString, largest]
      omega
    have hvalue : -Int64.ofNat (-n.toInt).toNat = n := by
      rw [← Int64.toInt_inj, Int64.toInt_neg_ofNat_of_le (by omega)]
      omega
    rw [render_of_neg hneg, interpretIn_negative (isNumeral_toString _) hle, number_toString,
      hvalue]
  · have hle : number (toString n.toInt.toNat) ≤ largest := by
      rw [number_toString]
      exact toNat_le_largest n
    rw [render_of_nonneg hnonneg, interpretIn_numeral (isNumeral_toString _) hle, number_toString,
      ofNat_toNat hnonneg]

/-- A text of decimal digits stands for a number. If this is at most `0x7FFFFFFFFFFFFFFF`, the
largest signed 64-bit integer, the text is read without errors as an integer literal with the value
of the number, it evaluates to that in every store, and it is written as the decimal form of the
number, which has no zero at the front. If it is larger, nothing is read, and the only error is
about the whole text. The text shown for an integer other than the least one evaluates to that
integer, in every store; of the text shown for the least one nothing is read, and the only error is
about its digits. -/
theorem integer_literals :
    (∀ text : String, IsNumeral text →
      (number text ≤ 0x7FFFFFFFFFFFFFFF → ∃ n : Int64, n.toInt = number text ∧
        (parse text).errors = [] ∧ (parse text).program = ⟨[.expression (.integer n)]⟩ ∧
        (∀ k σ s, interpretIn (k + 2) text σ s = some (.value (.integer n), s)) ∧
        (Expr.integer n).render = toString (number text) ∧
        (parse text).program.render = toString (number text) ∧
        IsNumeral (toString (number text)) ∧ number (toString (number text)) = number text ∧
        ((toString (number text)).toList.head? = some '0' → number text = 0)) ∧
      (0x7FFFFFFFFFFFFFFF < number text →
        (parse text).program = ⟨[]⟩ ∧
        (parse text).errors = [⟨.integerRange text, ⟨0, text.length⟩⟩])) ∧
    (∀ n : Int64, n ≠ .minValue → ∀ k σ s,
      interpretIn (k + 3) (Value.integer n).inspect σ s = some (.value (.integer n), s)) ∧
    (∀ depth σ s, interpretIn depth (Value.integer .minValue).inspect σ s =
      some (.rejected [⟨.integerRange "9223372036854775808", ⟨1, 20⟩⟩], s)) := by
  refine ⟨fun text h => ⟨fun hle => ?_, fun hlt => ?_⟩, fun n hn => interpretIn_inspect_integer hn,
    fun depth σ s => ?_⟩
  · obtain ⟨hclean, hprogram⟩ := parse_numeral h hle
    have hrender := render_ofNat_of_le hle
    refine ⟨_, toInt_ofNat_of_le hle, hclean, hprogram, interpretIn_numeral h hle, hrender, ?_,
      isNumeral_toString _, number_toString _, eq_zero_of_head_toString⟩
    rw [hprogram]
    exact hrender
  · rw [parse_numeral_large h hlt]
    exact ⟨rfl, rfl⟩
  · have htext : (Value.integer .minValue).inspect = "-" ++ "9223372036854775808" := by decide
    have hlarge : largest < number "9223372036854775808" := by decide
    have hread := parse_negative_large ⟨by decide, List.all_eq_true.1 rfl⟩ hlarge
    rw [htext, interpretIn_of_errors (congrArg Parsed.errors hread)]
    rfl

/-- Zeros at the front, a number that is one too large, and a negative integer. -/
theorem integer_literals_edges :
    (parse "007").program = ⟨[.expression (.integer 7)]⟩ ∧
    (parse "9223372036854775808").errors = [⟨.integerRange "9223372036854775808", ⟨0, 19⟩⟩] ∧
    interpretIn 3 (Value.integer (-5)).inspect 0 .initial =
      some (.value (.integer (-5)), .initial) := by
  have hzeros : IsNumeral "007" := ⟨by decide, List.all_eq_true.1 rfl⟩
  have hlarge : IsNumeral "9223372036854775808" := ⟨by decide, List.all_eq_true.1 rfl⟩
  obtain ⟨hdigits, hshown, -⟩ := integer_literals
  refine ⟨?_, ?_, hshown (-5) (by decide) 0 0 .initial⟩
  · obtain ⟨n, hn, -, hprogram, -⟩ := (hdigits "007" hzeros).1 (by decide)
    obtain rfl : n = 7 := Int64.toInt_inj.1 hn
    exact hprogram
  · exact ((hdigits "9223372036854775808" hlarge).2 (by decide)).2

end MonkeyLang
