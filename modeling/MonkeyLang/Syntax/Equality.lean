import MonkeyLang.Syntax.Basic

/-!
# Equality of programs

Two trees are compared node by node. `Expr.same_iff` and its companions say that the comparison
decides equality, which gives trees their `DecidableEq` instances.
-/

namespace MonkeyLang

mutual

/-- Are two expressions the same tree? -/
def Expr.same : Expr → Expr → Bool
  | .identifier x, .identifier y => x == y
  | .integer x, .integer y => x == y
  | .string x, .string y => x == y
  | .boolean x, .boolean y => x == y
  | .unary o a, .unary p b => o == p && a.same b
  | .binary o a b, .binary p c d => o == p && a.same c && b.same d
  | .conditional c a none, .conditional d b none => c.same d && sameStatements a b
  | .conditional c a (some e), .conditional d b (some f) =>
    c.same d && sameStatements a b && sameStatements e f
  | .function xs a, .function ys b => xs == ys && sameStatements a b
  | .call f a, .call g b => f.same g && sameArguments a b
  | _, _ => false
termination_by structural a => a

/-- Are two statements the same tree? -/
def Stmt.same : Stmt → Stmt → Bool
  | .binding x a, .binding y b => x == y && a.same b
  | .leave a, .leave b => a.same b
  | .expression a, .expression b => a.same b
  | .block a, .block b => sameStatements a b
  | _, _ => false
termination_by structural a => a

/-- Are two lists of statements the same, tree by tree? -/
def sameStatements : List Stmt → List Stmt → Bool
  | [], [] => true
  | s :: ss, t :: ts => s.same t && sameStatements ss ts
  | _, _ => false
termination_by structural a => a

/-- Are two lists of expressions the same, tree by tree? -/
def sameArguments : List Expr → List Expr → Bool
  | [], [] => true
  | a :: as, b :: bs => a.same b && sameArguments as bs
  | _, _ => false
termination_by structural a => a

end

mutual

/-- The comparison of expressions decides equality. -/
theorem Expr.same_iff : ∀ a b : Expr, a.same b = true ↔ a = b
  | .identifier _, b => by cases b <;> simp [Expr.same]
  | .integer _, b => by cases b <;> simp [Expr.same]
  | .string _, b => by cases b <;> simp [Expr.same]
  | .boolean _, b => by cases b <;> simp [Expr.same]
  | .unary _ a, b => by cases b <;> simp [Expr.same, Expr.same_iff a]
  | .binary _ a b, c => by
    cases c <;> simp [Expr.same, Expr.same_iff a, Expr.same_iff b, and_assoc]
  | .conditional c a none, d => by
    rcases d with _ | _ | _ | _ | _ | _ | ⟨_, _, _ | _⟩ | _ | _ <;>
      simp [Expr.same, Expr.same_iff c, sameStatements_iff a]
  | .conditional c a (some e), d => by
    rcases d with _ | _ | _ | _ | _ | _ | ⟨_, _, _ | _⟩ | _ | _ <;>
      simp [Expr.same, Expr.same_iff c, sameStatements_iff a, sameStatements_iff e, and_assoc]
  | .function _ a, b => by cases b <;> simp [Expr.same, sameStatements_iff a]
  | .call f a, b => by cases b <;> simp [Expr.same, Expr.same_iff f, sameArguments_iff a]

/-- The comparison of statements decides equality. -/
theorem Stmt.same_iff : ∀ a b : Stmt, a.same b = true ↔ a = b
  | .binding _ a, b => by cases b <;> simp [Stmt.same, Expr.same_iff a]
  | .leave a, b => by cases b <;> simp [Stmt.same, Expr.same_iff a]
  | .expression a, b => by cases b <;> simp [Stmt.same, Expr.same_iff a]
  | .block a, b => by cases b <;> simp [Stmt.same, sameStatements_iff a]

theorem sameStatements_iff : ∀ a b : List Stmt, sameStatements a b = true ↔ a = b
  | [], b => by cases b <;> simp [sameStatements]
  | s :: ss, b => by
    cases b <;> simp [sameStatements, Stmt.same_iff s, sameStatements_iff ss]

theorem sameArguments_iff : ∀ a b : List Expr, sameArguments a b = true ↔ a = b
  | [], b => by cases b <;> simp [sameArguments]
  | a :: as, b => by cases b <;> simp [sameArguments, Expr.same_iff a, sameArguments_iff as]

end

instance : DecidableEq Expr := fun a b => decidable_of_iff _ (Expr.same_iff a b)

instance : DecidableEq Stmt := fun a b => decidable_of_iff _ (Stmt.same_iff a b)

deriving instance DecidableEq for Program

end MonkeyLang
