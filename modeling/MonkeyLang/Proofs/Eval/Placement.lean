import MonkeyLang.Proofs.Eval.Agreement
import MonkeyLang.Proofs.Eval.Ending
import MonkeyLang.Proofs.Eval.Frame
import MonkeyLang.Proofs.Eval.Simulation
import MonkeyLang.Value.Render

/-!
# Statements do the same wherever they stand

Statements in a row may be a program, a block, the branch of a conditional that is chosen, or the
body of a function that is called. The first three run them in the scope they stand in, and come to
the same in the same store. A call runs them in a new scope inside that one, and comes to what they
come to as a program there, up to the identity that the function itself has taken
(`statements_run_alike`).

A program and a call end at a `return` with its value, a block hands the `return` on. So the loop of
a program is that of a block with a `return` taken as the result (`returning_evalBlock`), and this
makes no difference at the outermost level (`Program.evaluate_eq_evalBlock`).
-/

namespace MonkeyLang

open Evaluation

/-! ## In the scope of the statement around them -/

namespace Task

variable (σ : ScopeId)

theorem same_single (st : Stmt) : (block σ [st]).Same (stmt σ st) :=
  same_of_run_eq 0 0 fun n => bind_pure (evalStmt n σ st)

theorem same_expression (e : Expr) : (stmt σ (.expression e)).Same (expr σ e) :=
  same_of_run_eq 1 0 fun _ => rfl

theorem same_block (ss : List Stmt) : (stmt σ (.block ss)).Same (block σ ss) :=
  same_of_run_eq 1 0 fun _ => rfl

theorem same_consequence (ss : List Stmt) (b : Option (List Stmt)) :
    (expr σ (.conditional (.boolean true) ss b)).Same (block σ ss) :=
  same_of_run_eq 2 1 fun _ => rfl

theorem same_alternative (a ss : List Stmt) :
    (expr σ (.conditional (.boolean false) a (some ss))).Same (block σ ss) :=
  same_of_run_eq 2 1 fun _ => rfl

/-- An expression by itself, as a program, is what stands in it. -/
theorem Same.expression {σ : ScopeId} {e : Expr} {ss : List Stmt}
    (h : (expr σ e).Same (block σ ss)) : (block σ [.expression e]).Same (block σ ss) :=
  ((same_single σ _).trans (same_expression σ e)).trans h

end Task

/-! ## Negated conditions -/

/-- A negated condition chooses the other one of two evaluations. -/
theorem not_bind (v : Value) (m m' : Evaluation Value) :
    (ofExcept (UnaryOperator.not.apply v) >>= fun w => if w.isTruthy then m else m') =
      if v.isTruthy then m' else m := by
  cases v with
  | boolean b =>
    obtain ⟨b, _⟩ := b
    cases b <;> rfl
  | integer _ | string _ | null | function _ | builtin _ | error _ _ => rfl

/-- A conditional with its condition negated is the one with its branches exchanged. -/
theorem Task.same_not (σ : ScopeId) (c : Expr) (a : List Stmt) (b : Option (List Stmt)) :
    (expr σ (.conditional (.unary .not c) a b)).Same
      (expr σ (.conditional c (b.getD []) (some a))) := by
  have hnegated : ∀ n, (expr σ (.conditional (.unary .not c) a b)).run (n + 2) =
      evalExpr n σ c >>= fun v =>
        if v.isTruthy then evalBlock (n + 1) σ (b.getD []) else evalBlock (n + 1) σ a := by
    intro n
    refine (bind_assoc _ _ _).trans (bind_congr fun v => ?_)
    exact not_bind v (evalBlock (n + 1) σ a) (evalBlock (n + 1) σ (b.getD []))
  refine same_of_below 2 2 1 2 (fun n => ?_) fun n => ?_
  · rw [hnegated]
    exact (evalExpr_below_succ n σ c).bind fun v => .refl _
  · rw [hnegated]
    refine (Below.refl (evalExpr n σ c)).bind fun v => ?_
    split
    · exact run_below_succ n (.block σ (b.getD []))
    · exact run_below_succ n (.block σ a)

/-! ## In the scope of a call -/

namespace Renaming

/-- A renaming with the pairs of `r` and maybe more relates the values and the stores. -/
def Corresponds (r : Renaming) (p q : Value × Store) : Prop :=
  ∃ r', r ≤ r' ∧ r'.Relates p.2 q.2 ∧ r'.Alike p.1 q.1

/-- What is concluded from evaluations in step corresponds: new error values make one more pair. -/
theorem rel_conclude {r : Renaming} {m m' : Evaluation Value} {s t : Store}
    (h : Option.Rel (r.Ends Alike) (m s) (m' t)) :
    Option.Rel r.Corresponds (m.conclude s) (m'.conclude t) := by
  rw [conclude_eq_map, conclude_eq_map]
  generalize m s = p, m' t = q at h ⊢
  cases h with
  | none => exact .none
  | @some p q hend =>
    obtain ⟨o, u⟩ := p
    obtain ⟨o', u'⟩ := q
    obtain ⟨r', hle, hu, ho⟩ := hend
    refine .some ?_
    cases ho with
    | result hv | left hv => exact ⟨r', hle, hu, hv⟩
    | faulted fault =>
      exact ⟨_, le_trans hle (le_withIdentities hu.identity_lt), hu.fresh, .error withPair_self⟩

theorem Alike.inspect_eq {r : Renaming} {v w : Value} (h : r.Alike v w) :
    v.inspect = w.inspect := by
  cases h <;> rfl

end Renaming

/-- With an identity taken and nothing else done, a store is as it was. -/
theorem Store.Valid.relates_fresh {s : Store} (hs : s.Valid) : s.identity.Relates s s.fresh.2 where
  scope_lt := by
    rintro σ _ ⟨rfl, hσ⟩
    exact ⟨hσ, hσ⟩
  identity_lt := by
    rintro i _ ⟨rfl, hi⟩
    exact ⟨hi, Nat.lt_succ_of_lt hi⟩
  alike := by
    rintro σ _ ⟨rfl, -⟩
    exact hs.alikeScopes σ

theorem Store.Valid.enclose {s : Store} (hs : s.Valid) {σ : ScopeId} (hσ : σ < s.scopes.size) :
    (s.enclose σ).2.Valid :=
  hs.add nofun (List.forall_mem_cons.2 ⟨hσ, fun _ => hs.enclosing_lt⟩)

/-- The program that calls a function with the given body where it writes it. -/
def Program.ofBody (ss : List Stmt) : Program := ⟨[.expression (.call (.function [] ss) [])]⟩

namespace Program

/-- It makes the function and calls it. -/
theorem evalBlock_ofBody (n : Nat) (σ : ScopeId) (ss : List Stmt) :
    evalBlock (n + 3) σ (ofBody ss).statements =
      Evaluation.closure σ [] ss >>= fun f => apply (n + 1) f [] :=
  bind_pure (evalExpr (n + 2) σ (.call (.function [] ss) []))

/-- The body runs in a scope inside that of the call, with one identity more taken. -/
theorem evaluate_ofBody (n : Nat) (σ : ScopeId) (ss : List Stmt) (s : Store) :
    (ofBody ss).evaluate (n + 3) σ s =
      (evalBlock n (s.enclose σ).1 ss).conclude (s.enclose σ).2.fresh.2 := by
  rw [evaluate_eq_evalBlock, evalBlock_ofBody,
    ← conclude_returning (evalBlock n (s.enclose σ).1 ss)]
  rfl

/-- It changes no scope there was. -/
theorem extends_of_ofBody {σ : ScopeId} {ss : List Stmt} {s t : Store} {v : Value}
    (h : (ofBody ss).Ends σ s (v, t)) : s.Extends t := by
  obtain ⟨n, hn⟩ := h
  have hrun : (ofBody ss).evaluate (n + 3) σ s = some (v, t) := hn _ (Nat.le_add_right n 3)
  rw [evaluate_eq_evalBlock, evalBlock_ofBody] at hrun
  have hclosure : Moves Store.Extends (Evaluation.closure σ [] ss) := by
    rintro s _ _ ⟨⟩
    exact s.extends_fresh
  exact (steady_extends.bind hclosure fun f => apply_extends (n + 1) f []).conclude
    steady_extends Store.extends_newError hrun

/-- Whether it ends within a bound and what it comes to is so with its body as a program in a scope
of its own. -/
theorem rel_evaluate_ofBody {σ : ScopeId} {s : Store} (hs : s.Valid) (hσ : σ < s.scopes.size)
    (n : Nat) (ss : List Stmt) :
    Option.Rel (s.enclose σ).2.identity.Corresponds
      ((Program.mk ss).evaluate n (s.enclose σ).1 (s.enclose σ).2)
      ((ofBody ss).evaluate (n + 3) σ s) := by
  rw [evaluate_ofBody, evaluate_eq_evalBlock]
  refine Renaming.rel_conclude ?_
  have hchild : (s.enclose σ).2.identity.scopes (s.enclose σ).1 (s.enclose σ).1 := by
    refine ⟨rfl, ?_⟩
    show _ < Array.size _
    rw [Store.enclose, Store.size_add]
    exact Nat.lt_succ_self _
  exact Renaming.follows_inOrder (fun r st hle => Renaming.follows_stmt n st (hle.1 _ _ hchild))
    (.null .null) ss _ _ (hs.enclose hσ).relates_fresh

end Program

/-- Statements in a row, as a program, come to the same as a block of them, and as the chosen branch
of a conditional, whatever its other branch is: the same value in the same store. The loop of a
program, up to a `return`, comes to what the loop of a block does, with its `return` taken as the
result, which makes no difference at the outermost level. In the body of a function that is called
where it is written they come to what they come to as a program in a new scope inside the one
around: both end or neither does, with values of one type and one text, which correspond along with
the stores; and the call leaves all scopes that there were as they were. A conditional whose
condition is negated ends as the one with its branches exchanged. -/
theorem statements_run_alike :
    (∀ n (p : Program) σ,
      p.evaluate n σ = (upToReturn (evalStmt n σ) .null p.statements).conclude ∧
        p.evaluate n σ = (evalBlock n σ p.statements).conclude) ∧
    (∀ n σ ss, returning (evalBlock n σ ss) = upToReturn (evalStmt n σ) .null ss) ∧
    (∀ (ss other : List Stmt) (alternative : Option (List Stmt)) σ s r,
      ((Program.mk [.block ss]).Ends σ s r ↔ (Program.mk ss).Ends σ s r) ∧
      ((Program.mk [.expression (.conditional (.boolean true) ss alternative)]).Ends σ s r ↔
        (Program.mk ss).Ends σ s r) ∧
      ((Program.mk [.expression (.conditional (.boolean false) other (some ss))]).Ends σ s r ↔
        (Program.mk ss).Ends σ s r)) ∧
    (∀ (ss : List Stmt) σ s, s.Valid → σ < s.scopes.size →
      ((∃ r, (Program.ofBody ss).Ends σ s r) ↔
        ∃ r, (Program.mk ss).Ends (s.enclose σ).1 (s.enclose σ).2 r) ∧
      ∀ v t w u, (Program.ofBody ss).Ends σ s (v, t) →
        (Program.mk ss).Ends (s.enclose σ).1 (s.enclose σ).2 (w, u) →
          s.Extends t ∧ w.type = v.type ∧ w.inspect = v.inspect ∧
            (s.enclose σ).2.identity.Corresponds (w, u) (v, t)) ∧
    (∀ c a b σ, (Task.expr σ (.conditional (.unary .not c) a (some b))).Same
      (.expr σ (.conditional c b (some a)))) ∧
    ∀ c a σ, (Task.expr σ (.conditional (.unary .not c) a none)).Same
      (.expr σ (.conditional c [] (some a))) := by
  refine ⟨fun n p σ => ⟨rfl, p.evaluate_eq_evalBlock n σ⟩, returning_evalBlock,
    fun ss other alternative σ s r => ⟨?_, ?_, ?_⟩, fun ss σ s hs hσ => ?_,
    fun c a b σ => Task.same_not σ c a (some b), fun c a σ => Task.same_not σ c a none⟩
  · exact Program.ends_congr ((Task.same_single σ _).trans (Task.same_block σ ss))
  · exact Program.ends_congr (Task.same_consequence σ ss alternative).expression
  · exact Program.ends_congr (Task.same_alternative σ other ss).expression
  · have hrel := fun n => Program.rel_evaluate_ofBody hs hσ n ss
    have hends := exists_settles_iff (Program.evaluate_lasting _ _ _)
      (Program.evaluate_lasting _ _ _) hrel
    refine ⟨hends.symm, fun v t w u hcall hprogram => ?_⟩
    have hcorresponds := hprogram.rel hrel hcall
    have ⟨_, _, _, halike⟩ := hcorresponds
    exact ⟨Program.extends_of_ofBody hcall, halike.type_eq, halike.inspect_eq, hcorresponds⟩

/-- A function is made and left behind a binding that it captures: its body, called and as a
program, leaves functions that print alike. -/
theorem statements_run_alike_closure :
    let body : List Stmt :=
      [.binding "x" (.integer 1), .leave (.function [] [.expression (.identifier "x")])]
    Store.initial.Valid ∧ 0 < Store.initial.scopes.size ∧
      ∃ v t w u, (Program.ofBody body).Ends 0 .initial (v, t) ∧
        (Program.mk body).Ends (Store.initial.enclose 0).1 (Store.initial.enclose 0).2 (w, u) ∧
        Store.initial.Extends t ∧ w.type = v.type ∧ w.inspect = v.inspect ∧
          (Store.initial.enclose 0).2.identity.Corresponds (w, u) (v, t) := by
  intro body
  have hcall : (Program.ofBody body).Ends 0 .initial _ :=
    (Program.evaluate_lasting _ 0 _).settles_iff.2 ⟨9, rfl⟩
  have hprogram : (Program.mk body).Ends 1 (Store.initial.enclose 0).2 _ :=
    (Program.evaluate_lasting _ 1 _).settles_iff.2 ⟨9, rfl⟩
  obtain ⟨-, -, -, hbody, -⟩ := statements_run_alike
  have hsize : 0 < Store.initial.scopes.size := Nat.lt_succ_self 0
  exact ⟨Store.initial_valid, hsize, _, _, _, _, hcall, hprogram,
    (hbody body 0 .initial Store.initial_valid hsize).2 _ _ _ _ hcall hprogram⟩

end MonkeyLang
