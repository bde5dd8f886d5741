import MonkeyLang.Eval.Basic
import MonkeyLang.Proofs.Eval.Renaming

/-!
# Evaluation up to renaming

Evaluations in stores that a renaming relates run in step. Both end or neither does, and what they
come to is related by a renaming that has the pairs there were, and pairs of what was made on the
way: the scopes of calls and the identities of functions. `Renaming.Follows r A m m'` says this of
two evaluations, with the relation `A` between their results; it passes through evaluations in
sequence. An expression is followed by itself in a scope that corresponds, and a call by a call of a
value that corresponds, with arguments that do (`Renaming.follows_call`).
-/

namespace MonkeyLang

/-- Outcomes of one kind, with results or values that are related, or with the same fault. -/
inductive Outcome.Rel {α β : Type} (A : α → β → Prop) (V : Value → Value → Prop) :
    Outcome α → Outcome β → Prop
  | result {a b} : A a b → Rel A V (.result a) (.result b)
  | left {v w} : V v w → Rel A V (.left v) (.left w)
  | faulted (fault) : Rel A V (.faulted fault) (.faulted fault)

namespace Renaming

open Evaluation

variable {α β α' β' : Type} {r r' : Renaming} {A : Renaming → α → β → Prop}
  {m : Evaluation α} {m' : Evaluation β}

/-- A renaming with the pairs of `r` and maybe more relates the stores that are left, and the
outcomes. -/
def Ends (r : Renaming) (A : Renaming → α → β → Prop) (p : Outcome α × Store)
    (q : Outcome β × Store) : Prop :=
  ∃ r', r ≤ r' ∧ r'.Relates p.2 q.2 ∧ p.1.Rel (A r') r'.Alike q.1

/-- From stores that `r` relates both evaluations end or neither, and what they come to is
related. -/
def Follows (r : Renaming) (A : Renaming → α → β → Prop) (m : Evaluation α)
    (m' : Evaluation β) : Prop :=
  ∀ s t, r.Relates s t → Option.Rel (r.Ends A) (m s) (m' t)

/-- What is related beyond `r'` is related beyond a smaller renaming. -/
theorem ends_of_le (h : r ≤ r') {p : Option (Outcome α × Store)} {q : Option (Outcome β × Store)}
    (hpq : Option.Rel (r'.Ends A) p q) : Option.Rel (r.Ends A) p q := by
  refine rel_imp hpq ?_
  rintro p q - ⟨r'', hle, hst, ho⟩
  exact ⟨r'', le_trans h hle, hst, ho⟩

/-! ## Evaluations in sequence -/

theorem follows_endless : r.Follows A endless endless := fun _ _ _ => .none

theorem follows_done {a : α} {b : β} (h : A r a b) : r.Follows A (done a) (done b) :=
  fun _ _ hst => .some ⟨r, le_refl r, hst, .result h⟩

theorem follows_leave {v w : Value} (h : r.Alike v w) :
    r.Follows A (leave v : Evaluation α) (leave w : Evaluation β) :=
  fun _ _ hst => .some ⟨r, le_refl r, hst, .left h⟩

theorem follows_fail (fault : Fault) :
    r.Follows A (fail fault : Evaluation α) (fail fault : Evaluation β) :=
  fun _ _ hst => .some ⟨r, le_refl r, hst, .faulted fault⟩

theorem follows_ofExcept {e : Except Fault Value} (he : ∀ v, e = .ok v → v.IsPlain) :
    r.Follows Alike (ofExcept e) (ofExcept e) := by
  cases e with
  | ok v => exact follows_done (r.alike_of_isPlain (he v rfl))
  | error fault => exact follows_fail fault

/-- What follows starts with results that a renaming beyond `r` relates. -/
theorem Follows.bind {B : Renaming → α' → β' → Prop} {f : α → Evaluation α'}
    {f' : β → Evaluation β'} (hm : r.Follows A m m')
    (hf : ∀ r' a b, r ≤ r' → A r' a b → r'.Follows B (f a) (f' b)) :
    r.Follows B (m >>= f) (m' >>= f') := by
  intro s t hst
  have hrun := hm s t hst
  generalize hp : m s = p, hq : m' t = q at hrun
  cases hrun with
  | none =>
    rw [bind_of_none hp, bind_of_none hq]
    exact .none
  | @some p q hend =>
    obtain ⟨o, u⟩ := p
    obtain ⟨o', u'⟩ := q
    obtain ⟨r', hle, hu, ho⟩ := hend
    cases ho with
    | result ha =>
      rw [bind_of_result hp, bind_of_result hq]
      exact ends_of_le hle (hf r' _ _ hle ha u u' hu)
    | left hv =>
      rw [bind_of_left hp, bind_of_left hq]
      exact .some ⟨r', hle, hu, .left hv⟩
    | faulted fault =>
      rw [bind_of_faulted hp, bind_of_faulted hq]
      exact .some ⟨r', hle, hu, .faulted fault⟩

theorem Follows.returning {m m' : Evaluation Value} (hm : r.Follows Alike m m') :
    r.Follows Alike (returning m) (returning m') := by
  intro s t hst
  have hrun := hm s t hst
  unfold Evaluation.returning
  generalize m s = p, m' t = q at hrun ⊢
  cases hrun with
  | none => exact .none
  | @some p q hend =>
    obtain ⟨o, u⟩ := p
    obtain ⟨o', u'⟩ := q
    obtain ⟨r', hle, hu, ho⟩ := hend
    cases ho with
    | result hv | left hv => exact .some ⟨r', hle, hu, .result hv⟩
    | faulted fault => exact .some ⟨r', hle, hu, .faulted fault⟩

theorem follows_inOrder {run run' : Stmt → Evaluation Value}
    (hrun : ∀ r' st, r ≤ r' → r'.Follows Alike (run st) (run' st)) {last last' : Value}
    (hl : r.Alike last last') (ss : List Stmt) :
    r.Follows Alike (inOrder run last ss) (inOrder run' last' ss) := by
  induction ss generalizing r last last' with
  | nil => exact follows_done hl
  | cons st ss ih =>
    exact (hrun r st (le_refl r)).bind fun r' v w hle hv =>
      ih (fun r'' st' hle' => hrun r'' st' (le_trans hle hle')) hv

theorem follows_each {run run' : Expr → Evaluation Value}
    (hrun : ∀ r' e, r ≤ r' → r'.Follows Alike (run e) (run' e)) (es : List Expr) :
    r.Follows (fun r' => List.Forall₂ r'.Alike) (each run es) (each run' es) := by
  induction es generalizing r with
  | nil => exact follows_done .nil
  | cons e es ih =>
    refine (hrun r e (le_refl r)).bind fun r' v w hle hv => ?_
    refine (ih fun r'' e' hle' => hrun r'' e' (le_trans hle hle')).bind fun r'' vs ws hle' hvs => ?_
    exact follows_done (.cons (hv.mono hle') hvs)

/-! ## Single steps -/

theorem follows_lookup {σ τ : ScopeId} (hσ : r.scopes σ τ) (x : String) :
    r.Follows Alike (lookup σ x) (lookup τ x) := by
  intro s t hst
  have hget := hst.get? hσ x
  unfold lookup
  generalize s.get? σ x = found, t.get? τ x = found' at hget ⊢
  cases hget with
  | some hv => exact .some ⟨r, le_refl r, hst, .result hv⟩
  | none =>
    cases Builtin.ofName? x with
    | some b => exact .some ⟨r, le_refl r, hst, .result (r.alike_of_isPlain (.builtin b))⟩
    | none => exact .some ⟨r, le_refl r, hst, .faulted _⟩

theorem follows_define {σ τ : ScopeId} (hσ : r.scopes σ τ) (x : String) {v w : Value}
    (hv : r.Alike v w) : r.Follows (fun _ _ _ => True) (define σ x v) (define τ x w) :=
  fun _ _ hst => .some ⟨r, le_refl r, hst.set hσ x hv, .result trivial⟩

/-- The identities of two new functions make one more pair. -/
theorem follows_closure {σ τ : ScopeId} (hσ : r.scopes σ τ) (xs : List String)
    (body : List Stmt) :
    r.Follows Alike (Evaluation.closure σ xs body) (Evaluation.closure τ xs body) := by
  intro s t hst
  refine .some ⟨_, le_withIdentities hst.identity_lt, hst.fresh, .result ?_⟩
  exact .function withPair_self hσ

/-- The scopes of two calls make one more pair. -/
theorem follows_enter {i j : Identity} {xs : List String} {body : List Stmt} {σ τ : ScopeId}
    (hσ : r.scopes σ τ) {vs ws : List Value} (hvs : List.Forall₂ r.Alike vs ws) :
    r.Follows scopes (Evaluation.enter ⟨i, xs, body, σ⟩ vs)
      (Evaluation.enter ⟨j, xs, body, τ⟩ ws) := by
  intro s t hst
  have hadd := hst.add (alikeBindings_bindParameters hvs xs) (hst.chain hσ)
  exact .some ⟨_, le_withScopes hst.scope_lt, hadd, .result withPair_self⟩

/-! ## The evaluation of programs -/

mutual

/-- An expression is followed by itself in a scope that corresponds. -/
theorem follows_expr : ∀ n {r : Renaming} {σ τ} e, r.scopes σ τ →
    r.Follows Alike (evalExpr n σ e) (evalExpr n τ e)
  | 0, _, _, _, _, _ => follows_endless
  | n + 1, r, σ, τ, e, hσ => by
    have hexpr : ∀ e r', r ≤ r' → r'.Follows Alike (evalExpr n σ e) (evalExpr n τ e) :=
      fun e r' hle => follows_expr n e (hle.1 _ _ hσ)
    have hblock : ∀ ss r', r ≤ r' →
        r'.Follows Alike (inOrder (evalStmt n σ) .null ss) (inOrder (evalStmt n τ) .null ss) :=
      fun ss r' hle => follows_inOrder (fun r'' st hle' =>
        follows_stmt n st ((le_trans hle hle').1 _ _ hσ)) (.null .null) ss
    cases e with
    | identifier x => exact follows_lookup hσ x
    | integer n => exact follows_done (.integer n)
    | string contents => exact follows_done (.string contents)
    | boolean b => exact follows_done (r.alike_of_isPlain (.boolean b))
    | unary o a =>
      refine (hexpr a r (le_refl r)).bind fun r' v w _ hv => ?_
      rw [hv.unary_eq o]
      exact follows_ofExcept fun _ => o.isPlain_of_apply
    | binary o a b =>
      refine (hexpr a r (le_refl r)).bind fun r' v w hle hv => ?_
      refine (hexpr b r' hle).bind fun r'' v' w' hle' hv' => ?_
      rw [(hv.mono hle').binary_eq hv' o]
      exact follows_ofExcept fun _ => o.isPlain_of_apply
    | conditional c a b =>
      refine (hexpr c r (le_refl r)).bind fun r' v w hle hv => ?_
      rw [hv.isTruthy_eq]
      split
      · exact hblock a r' hle
      · exact hblock (b.getD []) r' hle
    | function xs body => exact follows_closure hσ xs body
    | call f as =>
      refine (hexpr f r (le_refl r)).bind fun r' v w hle hv => ?_
      refine (follows_each (fun r'' e hle' => hexpr e r'' (le_trans hle hle')) as).bind ?_
      exact fun r'' vs ws hle' hvs => follows_call n (hv.mono hle') hvs

/-- A statement is followed by itself in a scope that corresponds. -/
theorem follows_stmt : ∀ n {r : Renaming} {σ τ} st, r.scopes σ τ →
    r.Follows Alike (evalStmt n σ st) (evalStmt n τ st)
  | 0, _, _, _, _, _ => follows_endless
  | n + 1, r, σ, τ, st, hσ => by
    cases st with
    | binding x e =>
      refine (follows_expr n e hσ).bind fun r' v w hle hv => ?_
      refine (follows_define (hle.1 _ _ hσ) x hv).bind fun r'' _ _ _ _ => ?_
      exact follows_done (.null .null)
    | leave e => exact (follows_expr n e hσ).bind fun r' v w _ hv => follows_leave hv
    | expression e => exact follows_expr n e hσ
    | block ss =>
      exact follows_inOrder (fun r' st hle => follows_stmt n st (hle.1 _ _ hσ)) (.null .null) ss

/-- A call is followed by a call of a value that corresponds, with arguments that do. -/
theorem follows_call : ∀ n {r : Renaming} {f g vs ws}, r.Alike f g → List.Forall₂ r.Alike vs ws →
    r.Follows Alike (apply n f vs) (apply n g ws)
  | 0, _, _, _, _, _, _, _ => follows_endless
  | n + 1, r, f, g, vs, ws, hf, hvs => by
    cases hf with
    | @builtin b =>
      show r.Follows Alike (ofExcept (b.call vs)) (ofExcept (b.call ws))
      rw [Alike.builtin_eq hvs b]
      exact follows_ofExcept fun _ => b.isPlain_of_call
    | @function i j xs body σ τ hi hσ =>
      refine (follows_enter hσ hvs).bind fun r' σ' τ' _ hσ' => Follows.returning ?_
      exact follows_inOrder (fun r'' st hle => follows_stmt n st (hle.1 _ _ hσ')) (.null .null) body
    | integer _ | string _ | null _ | boolean _ | error _ => exact follows_fail _

end

end Renaming

end MonkeyLang
