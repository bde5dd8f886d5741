import MonkeyLang.Proofs.Eval.Invariant
import MonkeyLang.Proofs.Eval.Sequence
import MonkeyLang.Proofs.Syntax.RoundTrip
import MonkeyLang.Value.Render

/-!
# Functions can be entered again

A function comes into being where a source says so, and is kept as it was written there. So
wherever sources lead to, all functions are well-formed, and all names that are bound are names:
evaluation makes a closure of a part of the program, which is well-formed, or of a part of the body
of a closure that is well-formed already (`evalExpr_forms`). The text that is shown for such a
function is read back as the function (`functions_reenter`).

`Evaluation.Forms P m` says of a single evaluation that it keeps stores well-formed and has a
result as `P` asks for; it passes through evaluations in sequence.
-/

namespace MonkeyLang

/-! ## Well-formed stores -/

/-- The value is no function, or one that is well-formed. -/
def Value.WellFormed : Value → Prop
  | .function f => (Expr.function f.parameters f.body).WellFormed
  | _ => True

/-- All that is bound are names, and values that are well-formed. -/
def Store.WellFormed (s : Store) : Prop :=
  ∀ σ x v, (s.bindings σ).get? x = some v → IsName x ∧ v.WellFormed

theorem Value.wellFormed_of_isPlain {v : Value} (h : v.IsPlain) : v.WellFormed := by
  cases h <;> trivial

theorem Store.wellFormed_initial : Store.initial.WellFormed := by
  intro σ x v h
  cases σ with
  | zero => cases h
  | succ σ => cases h

namespace Evaluation

variable {α β : Type} {P : α → Prop} {m : Evaluation α}

/-- From a well-formed store, `m` leaves a well-formed one, whichever way it ends; its result is as
`P` asks for, and what it is left with is well-formed. -/
def Forms (P : α → Prop) (m : Evaluation α) : Prop :=
  ∀ s o t, s.WellFormed → m s = some (o, t) → t.WellFormed ∧ o.All P Value.WellFormed

/-! ## Evaluations in sequence -/

theorem forms_endless : Forms P endless := nofun

theorem forms_done {a : α} (ha : P a) : Forms P (done a) := by
  rintro s _ _ hs ⟨⟩
  exact ⟨hs, ha⟩

theorem forms_leave {v : Value} (hv : v.WellFormed) : Forms P (leave v) := by
  rintro s _ _ hs ⟨⟩
  exact ⟨hs, hv⟩

theorem forms_fail (fault : Fault) : Forms P (fail fault) := by
  rintro s _ _ hs ⟨⟩
  exact ⟨hs, trivial⟩

theorem forms_ofExcept {e : Except Fault α} (he : ∀ a, e = .ok a → P a) :
    Forms P (ofExcept e) := by
  cases e with
  | ok a => exact forms_done (he a rfl)
  | error fault => exact forms_fail fault

theorem Forms.bind {Q : β → Prop} {f : α → Evaluation β} (hm : Forms P m)
    (hf : ∀ a, P a → Forms Q (f a)) : Forms Q (m >>= f) := by
  intro s o t hs h
  rcases hrun : m s with _ | ⟨a | v | fault, u⟩
  · rw [bind_of_none hrun] at h
    cases h
  · rw [bind_of_result hrun] at h
    obtain ⟨hu, ha⟩ := hm s _ u hs hrun
    exact hf a ha u o t hu h
  · rw [bind_of_left hrun] at h
    cases h
    exact hm s _ _ hs hrun
  · rw [bind_of_faulted hrun] at h
    cases h
    exact hm s _ _ hs hrun

theorem Forms.returning {m : Evaluation Value} (hm : Forms Value.WellFormed m) :
    Forms Value.WellFormed (returning m) := by
  intro s o t hs h
  unfold Evaluation.returning at h
  split at h
  · next v u hrun =>
    cases h
    exact hm s (.left v) _ hs hrun
  · exact hm s o t hs h

/-- An error value at the end of an evaluation is well-formed as well. -/
theorem Forms.conclude {m : Evaluation Value} (hm : Forms Value.WellFormed m) {s t : Store}
    {v : Value} (hs : s.WellFormed) (h : m.conclude s = some (v, t)) :
    t.WellFormed ∧ v.WellFormed := by
  unfold Evaluation.conclude at h
  split at h
  · cases h
  · next hrun =>
    cases h
    exact hm s _ _ hs hrun
  · next hrun =>
    cases h
    exact hm s _ _ hs hrun
  · next hrun =>
    cases h
    exact ⟨(hm s _ _ hs hrun).1, trivial⟩

theorem forms_inOrder {run : Stmt → Evaluation Value}
    (hrun : ∀ st, st.WellFormed → Forms Value.WellFormed (run st)) {last : Value}
    (hl : last.WellFormed) : ∀ ss, WellFormedStatements ss →
      Forms Value.WellFormed (inOrder run last ss)
  | [], _ => forms_done hl
  | st :: ss, h => (hrun st h.1).bind fun _ hv => forms_inOrder hrun hv ss h.2

theorem forms_statements {run : Stmt → Evaluation Value}
    (hrun : ∀ st, st.WellFormed → Forms Value.WellFormed (run st)) {ss : List Stmt}
    (h : WellFormedStatements ss) : Forms Value.WellFormed (inOrder run .null ss) :=
  forms_inOrder hrun (Value.wellFormed_of_isPlain .null) ss h

theorem forms_each {run : Expr → Evaluation Value}
    (hrun : ∀ e, e.WellFormed → Forms Value.WellFormed (run e)) : ∀ es, WellFormedArguments es →
      Forms (fun vs => ∀ v ∈ vs, v.WellFormed) (each run es)
  | [], _ => forms_done (List.forall_mem_nil _)
  | e :: es, h => (hrun e h.1).bind fun _ hv => (forms_each hrun es h.2).bind fun _ hvs =>
      forms_done (List.forall_mem_cons.2 ⟨hv, hvs⟩)

/-! ## Single steps -/

theorem forms_lookup (σ : ScopeId) (x : String) : Forms Value.WellFormed (lookup σ x) := by
  intro s o t hs h
  unfold lookup at h
  split at h
  · next v hv =>
    cases h
    obtain ⟨τ, -, hτ⟩ := List.exists_of_findSome?_eq_some hv
    exact ⟨hs, (hs τ x v hτ).2⟩
  · split at h <;> cases h <;> exact ⟨hs, trivial⟩

theorem forms_define (σ : ScopeId) {x : String} {v : Value} (hx : IsName x) (hv : v.WellFormed) :
    Forms (fun _ => True) (define σ x v) := by
  rintro s _ _ hs ⟨⟩
  refine ⟨fun τ y w h => ?_, trivial⟩
  rcases Store.name_bound_of_set h with ⟨rfl, rfl⟩ | h
  · exact ⟨hx, hv⟩
  · exact hs τ y w h

theorem forms_closure (σ : ScopeId) {xs : List String} {body : List Stmt}
    (h : (Expr.function xs body).WellFormed) : Forms Value.WellFormed (closure σ xs body) := by
  rintro s _ _ hs ⟨⟩
  exact ⟨hs, h⟩

theorem forms_enter {f : Closure} {vs : List Value} (hf : (Value.function f).WellFormed)
    (hvs : ∀ v ∈ vs, v.WellFormed) : Forms (fun _ => True) (enter f vs) := by
  rintro s _ _ hs ⟨⟩
  refine ⟨fun τ y w h => ?_, trivial⟩
  rcases Store.bound_of_add h with h | h
  · obtain ⟨hy, hw⟩ := List.of_mem_zip (mem_zip_of_bindParameters h)
    exact ⟨hf.1 y hy, hvs w hw⟩
  · exact hs τ y w h

end Evaluation

open Evaluation

/-! ## The evaluation of programs -/

mutual

/-- A well-formed expression keeps stores well-formed. -/
theorem evalExpr_forms : ∀ n σ e, e.WellFormed → Forms Value.WellFormed (evalExpr n σ e)
  | 0, _, _, _ => forms_endless
  | n + 1, σ, e, he => by
    have hblock : ∀ ss, WellFormedStatements ss →
        Forms Value.WellFormed (inOrder (evalStmt n σ) .null ss) := fun ss =>
      forms_statements (evalStmt_forms n σ)
    cases e with
    | identifier x => exact forms_lookup σ x
    | integer _ | string _ | boolean _ => exact forms_done trivial
    | unary o a =>
      exact (evalExpr_forms n σ a he).bind fun v _ => forms_ofExcept fun r hr =>
        Value.wellFormed_of_isPlain (o.isPlain_of_apply hr)
    | binary o a b =>
      exact (evalExpr_forms n σ a he.1).bind fun v _ => (evalExpr_forms n σ b he.2).bind fun v' _ =>
        forms_ofExcept fun r hr => Value.wellFormed_of_isPlain (o.isPlain_of_apply hr)
    | conditional c a b =>
      obtain ⟨hc, ha, hb⟩ := wellFormed_conditional.1 he
      refine (evalExpr_forms n σ c hc).bind fun v _ => ?_
      split
      · exact hblock a ha
      · cases b with
        | none => exact hblock [] trivial
        | some ss => exact hblock ss (hb ss rfl)
    | function xs body => exact forms_closure σ he
    | call f as =>
      exact (evalExpr_forms n σ f he.1).bind fun v hv =>
        (forms_each (evalExpr_forms n σ) as he.2).bind fun vs hvs => apply_forms n v vs hv hvs

/-- So does a well-formed statement. -/
theorem evalStmt_forms : ∀ n σ st, st.WellFormed → Forms Value.WellFormed (evalStmt n σ st)
  | 0, _, _, _ => forms_endless
  | n + 1, σ, st, hst => by
    cases st with
    | binding x e =>
      exact (evalExpr_forms n σ e hst.2).bind fun v hv =>
        (forms_define σ hst.1 hv).bind fun _ _ => forms_done trivial
    | leave e => exact (evalExpr_forms n σ e hst).bind fun v hv => forms_leave hv
    | expression e => exact evalExpr_forms n σ e hst
    | block ss => exact hst.elim

/-- So does a call of a well-formed function with well-formed arguments. -/
theorem apply_forms : ∀ n f vs, f.WellFormed → (∀ v ∈ vs, v.WellFormed) →
    Forms Value.WellFormed (apply n f vs)
  | 0, _, _, _, _ => forms_endless
  | n + 1, f, vs, hf, hvs => by
    cases f with
    | function f =>
      exact (forms_enter hf hvs).bind fun σ _ =>
        (forms_statements (evalStmt_forms n σ) hf.2).returning
    | builtin b =>
      exact forms_ofExcept fun r hr => Value.wellFormed_of_isPlain (b.content.isPlain_of_call hr)
    | integer _ | boolean _ | string _ | null | error _ _ => exact forms_fail _

end

/-- What a source comes to in a well-formed store is well-formed, and so is the store it leaves. -/
theorem interpretIn_wellFormed {n : Nat} {source : String} {σ : ScopeId} {s t : Store}
    {r : Interpretation} (hs : s.WellFormed) (h : interpretIn n source σ s = some (r, t)) :
    t.WellFormed ∧ ∀ v, r = .value v → v.WellFormed := by
  have hblock : Forms Value.WellFormed (evalBlock n σ (parse source).program.statements) :=
    forms_statements (evalStmt_forms n σ) (wellFormed_parse source)
  rcases interpretIn_cases h with ⟨rfl, rfl⟩ | ⟨v, rfl, hrun⟩
  · exact ⟨hs, nofun⟩
  · rw [Program.evaluate_eq_evalBlock] at hrun
    obtain ⟨ht, hv⟩ := hblock.conclude hs hrun
    refine ⟨ht, ?_⟩
    rintro _ ⟨⟩
    exact hv

/-! ## The text of a function -/

/-- The text shown for a closure is read without errors as a function literal with the parameters
and the body of the closure, and evaluates anywhere to a closure with these and the same text. -/
structure Closure.Reenters (f : Closure) : Prop where
  errors_eq_nil : (parse (Value.function f).inspect).errors = []
  program_eq : (parse (Value.function f).inspect).program =
    ⟨[.expression (.function f.parameters f.body)]⟩
  evaluates : ∀ k σ s, ∃ g t,
    interpretIn (k + 2) (Value.function f).inspect σ s = some (.value (.function g), t) ∧
      g.parameters = f.parameters ∧ g.body = f.body ∧ g.scope = σ ∧
      (Value.function g).inspect = (Value.function f).inspect

theorem Closure.reenters {f : Closure} (h : (Value.function f).WellFormed) : f.Reenters := by
  have hp : (Program.mk [.expression (.function f.parameters f.body)]).WellFormed := ⟨h, trivial⟩
  have hread := parse_of_isProgram (Program.isProgram_render hp)
  have htext : (Expr.function f.parameters f.body).render = (Value.function f).inspect := rfl
  rw [Program.render_expression, htext] at hread
  obtain ⟨hclean, hprogram⟩ := hread
  refine ⟨hclean, hprogram, fun k σ s => ?_⟩
  refine ⟨⟨s.fresh.1, f.parameters, f.body, σ⟩, s.fresh.2, ?_, rfl, rfl, rfl, rfl⟩
  rw [interpretIn_of_clean hclean, hprogram]
  rfl

/-- The stores that sources without errors lead to from the initial one, interpreted one after the
other in any scopes. -/
inductive Store.Interpreted : Store → Prop
  | initial : Interpreted .initial
  | source {s t n text σ v} : Interpreted s →
      interpretIn n text σ s = some (.value v, t) → Interpreted t

theorem Store.Interpreted.wellFormed {s : Store} (h : s.Interpreted) : s.WellFormed := by
  induction h with
  | initial => exact Store.wellFormed_initial
  | source _ hrun ih => exact (interpretIn_wellFormed ih hrun).1

/-- Wherever sources lead, a function that is bound in any scope, or that a source comes to, can be
entered again as the text that is shown for it. -/
theorem functions_reenter {s : Store} (hs : s.Interpreted) :
    (∀ σ x f, (s.bindings σ).get? x = some (.function f) → f.Reenters) ∧
    ∀ n text σ f t, interpretIn n text σ s = some (.value (.function f), t) → f.Reenters := by
  have hformed := hs.wellFormed
  refine ⟨fun σ x f h => ?_, fun n text σ f t h => ?_⟩
  · exact Closure.reenters (hformed σ x _ h).2
  · exact Closure.reenters ((interpretIn_wellFormed hformed h).2 _ rfl)

/-- A function that is made in a call and bound outside of it. -/
theorem functions_reenter_made :
    ∃ s f, Store.Interpreted s ∧ (s.bindings 0).get? "f" = some (.function f) ∧
      (Value.function f).inspect = "fn(y) \x7b (x + y) \x7d" ∧ f.Reenters := by
  let source := "let make = fn(x) \x7b fn(y) \x7b x + y \x7d \x7d; let f = make(1);"
  have hclean : (parse source).errors = [] := by decide +kernel
  have hmade : ((interpretIn 9 source 0 .initial).any fun r =>
      ((r.2.bindings 0).get? "f").any fun v =>
        decide (v.type = .function ∧ v.inspect = "fn(y) \x7b (x + y) \x7d")) = true := by
    decide +kernel
  obtain ⟨⟨r, s⟩, hrun, hbound⟩ := (Option.any_eq_true _ _).1 hmade
  obtain ⟨v, hv, hshown⟩ := (Option.any_eq_true _ _).1 hbound
  obtain ⟨htype, htext⟩ := of_decide_eq_true hshown
  have hs : Store.Interpreted s := by
    have hvalue := hrun
    rw [interpretIn_of_clean hclean] at hvalue
    obtain ⟨⟨w, t⟩, -, heq⟩ := Option.map_eq_some_iff.1 hvalue
    cases heq
    exact .source .initial hrun
  cases v with
  | function f => exact ⟨s, f, hs, hv, htext, (functions_reenter hs).1 0 "f" f hv⟩
  | integer _ | boolean _ | string _ | null | builtin _ | error _ _ => cases htype

end MonkeyLang
