import MonkeyLang.Proofs.Eval.Invariant

/-!
# Names that are not mentioned

A name matters to a program only where it stands as an identifier: in the program itself, or in the
body of a function that the program may come to call. So let two stores differ in what a name is
bound to and in nothing else (`Store.SameBut`), and let neither the program nor a function that is
bound to another name mention it. Then evaluations in the two stores run in step
(`Evaluation.Overlooks`): a look-up asks for other names only, and every scope on the way answers it
alike. They end in the same way, in stores that again differ in that name only
(`evaluation_overlooks`). Where the name is bound, in one of the scopes around or in one that a
closure has kept, makes no difference, and neither does it matter if a builtin has that name.
-/

namespace MonkeyLang

/-! ## Mention -/

mutual

/-- Does the name stand as an identifier in the expression? Names of parameters and the names that
statements bind do not count. -/
def Expr.mentions (z : String) : Expr → Bool
  | .identifier x => x == z
  | .integer _ | .string _ | .boolean _ => false
  | .unary _ operand => operand.mentions z
  | .binary _ left right => left.mentions z || right.mentions z
  | .conditional condition consequence none =>
    condition.mentions z || mentionedIn z consequence
  | .conditional condition consequence (some alternative) =>
    condition.mentions z || mentionedIn z consequence || mentionedIn z alternative
  | .function _ body => mentionedIn z body
  | .call callee arguments => callee.mentions z || mentionedInArguments z arguments

/-- Does the name stand as an identifier in the statement? -/
def Stmt.mentions (z : String) : Stmt → Bool
  | .binding _ value => value.mentions z
  | .leave value => value.mentions z
  | .expression value => value.mentions z
  | .block statements => mentionedIn z statements

/-- Does the name stand as an identifier in one of the statements? -/
def mentionedIn (z : String) : List Stmt → Bool
  | [] => false
  | s :: rest => s.mentions z || mentionedIn z rest

/-- Does the name stand as an identifier in one of the expressions? -/
def mentionedInArguments (z : String) : List Expr → Bool
  | [] => false
  | a :: rest => a.mentions z || mentionedInArguments z rest

end

/-- Does the name stand as an identifier in the program? -/
def Program.mentions (z : String) (p : Program) : Bool := mentionedIn z p.statements

section
variable {z : String}

theorem mentions_conditional {c : Expr} {a : List Stmt} {b : Option (List Stmt)} :
    (Expr.conditional c a b).mentions z =
      (c.mentions z || mentionedIn z a || mentionedIn z (b.getD [])) := by
  cases b <;> simp [Expr.mentions, mentionedIn]

theorem mentionedIn_eq_false_iff {ss : List Stmt} :
    mentionedIn z ss = false ↔ ∀ st ∈ ss, st.mentions z = false := by
  induction ss with
  | nil => simp [mentionedIn]
  | cons st ss ih => rw [mentionedIn, Bool.or_eq_false_iff, ih, List.forall_mem_cons]

theorem mentionedInArguments_eq_false_iff {es : List Expr} :
    mentionedInArguments z es = false ↔ ∀ e ∈ es, e.mentions z = false := by
  induction es with
  | nil => simp [mentionedInArguments]
  | cons e es ih => rw [mentionedInArguments, Bool.or_eq_false_iff, ih, List.forall_mem_cons]

end

/-- A value that is no function, or a function whose body does not mention the name. -/
def Value.Silent (z : String) (v : Value) : Prop :=
  ∀ f, v = .function f → mentionedIn z f.body = false

/-- No function that is bound to another name mentions the name. -/
def Store.Silent (z : String) (s : Store) : Prop :=
  ∀ σ x v, x ≠ z → (s.bindings σ).get? x = some v → v.Silent z

theorem Value.silent_of_isPlain {z : String} {v : Value} (h : v.IsPlain) : v.Silent z := by
  rintro f rfl
  cases h

/-! ## Stores that differ in one name -/

/-- The stores have the same scopes, each inside the same scopes and with the same bindings, but for
those of one name. -/
structure Store.SameBut (z : String) (s t : Store) : Prop where
  size_eq : s.scopes.size = t.scopes.size
  identity_eq : s.nextIdentity = t.nextIdentity
  enclosing_eq : ∀ σ, (s.scope σ).enclosing = (t.scope σ).enclosing
  get?_eq : ∀ σ x, x ≠ z → (s.bindings σ).get? x = (t.bindings σ).get? x

namespace Store

variable {z : String} {s t : Store}

/-- Binding the name anew is the difference that is allowed. -/
theorem sameBut_set (s : Store) (σ : ScopeId) (z : String) (v : Value) :
    s.SameBut z (s.set σ z v) where
  size_eq := (size_set s σ z v).symm
  identity_eq := rfl
  enclosing_eq τ := (enclosing_set s σ z v τ).symm
  get?_eq τ x hx := by
    by_cases hσ : σ < s.scopes.size
    · rw [get?_bindings_set hσ, if_neg fun h => hx h.2]
    · rw [set_of_size_le z v (Nat.not_lt.1 hσ)]

theorem SameBut.chain (h : s.SameBut z t) (σ : ScopeId) : s.chain σ = t.chain σ :=
  congrArg (σ :: ·) (h.enclosing_eq σ)

/-- Another name has the same value, seen from any scope. -/
theorem SameBut.get? (h : s.SameBut z t) (σ : ScopeId) {x : String} (hx : x ≠ z) :
    s.get? σ x = t.get? σ x := by
  have hscopes : (fun τ => (s.bindings τ).get? x) = fun τ => (t.bindings τ).get? x :=
    funext fun τ => h.get?_eq τ x hx
  rw [Store.get?, Store.get?, h.chain σ, hscopes]

theorem SameBut.set (h : s.SameBut z t) (σ : ScopeId) (x : String) (v : Value) :
    (s.set σ x v).SameBut z (t.set σ x v) := by
  by_cases hσ : σ < s.scopes.size
  · have hσ' : σ < t.scopes.size := h.size_eq ▸ hσ
    refine ⟨?_, h.identity_eq, fun τ => ?_, fun τ y hy => ?_⟩
    · rw [size_set, size_set, h.size_eq]
    · rw [enclosing_set, enclosing_set, h.enclosing_eq]
    · rw [get?_bindings_set hσ, get?_bindings_set hσ', h.get?_eq τ y hy]
  · rw [set_of_size_le x v (Nat.not_lt.1 hσ), set_of_size_le x v (h.size_eq ▸ Nat.not_lt.1 hσ)]
    exact h

theorem SameBut.add (h : s.SameBut z t) (b : Bindings Value) (e : List ScopeId) :
    (s.add b e).2.SameBut z (t.add b e).2 := by
  have hscope : ∀ σ, (s.add b e).2.scope σ = (t.add b e).2.scope σ ∨
      (s.add b e).2.scope σ = s.scope σ ∧ (t.add b e).2.scope σ = t.scope σ := by
    intro σ
    by_cases hσ : σ = s.scopes.size
    · have hnew := scope_add_self t b e
      rw [← h.size_eq, ← hσ] at hnew
      exact .inl ((hσ ▸ scope_add_self s b e).trans hnew.symm)
    · exact .inr ⟨scope_add_of_ne b e hσ, scope_add_of_ne b e (h.size_eq ▸ hσ)⟩
  refine ⟨?_, h.identity_eq, fun σ => ?_, fun σ x hx => ?_⟩
  · rw [size_add, size_add, h.size_eq]
  · rcases hscope σ with heq | ⟨hs, ht⟩
    · rw [heq]
    · rw [hs, ht, h.enclosing_eq]
  · rcases hscope σ with heq | ⟨hs, ht⟩
    · rw [bindings, bindings, heq]
    · rw [bindings, bindings, hs, ht]
      exact h.get?_eq σ x hx

theorem SameBut.fresh (h : s.SameBut z t) : s.fresh.2.SameBut z t.fresh.2 :=
  ⟨h.size_eq, congrArg (· + 1) h.identity_eq, h.enclosing_eq, h.get?_eq⟩

theorem silent_empty (z : String) : empty.Silent z := fun _ _ _ _ h => nomatch h

theorem Silent.fresh (h : s.Silent z) : s.fresh.2.Silent z := h

theorem Silent.set (h : s.Silent z) (σ : ScopeId) (x : String) {v : Value} (hv : v.Silent z) :
    (s.set σ x v).Silent z := by
  intro τ y w hy hw
  rcases bound_of_set hw with rfl | hw
  · exact hv
  · exact h τ y w hy hw

theorem Silent.add (h : s.Silent z) {b : Bindings Value}
    (hb : ∀ x v, b.get? x = some v → v.Silent z) (e : List ScopeId) :
    (s.add b e).2.Silent z := by
  intro σ x v hx hv
  rcases bound_of_add hv with hv | hv
  · exact hb x v hv
  · exact h σ x v hx hv

end Store

/-! ## Evaluations in step -/

namespace Evaluation

/-- The same outcome, with a result as `P` asks for, in stores that differ in what `z` is bound to,
and no value that mentions `z`. -/
structure Alike {α : Type} (z : String) (P : α → Prop) (a b : Outcome α × Store) : Prop where
  outcome_eq : a.1 = b.1
  all : a.1.All P (Value.Silent z)
  sameBut : a.2.SameBut z b.2
  silent : a.2.Silent z

/-- What `z` is bound to makes no difference to `m`. -/
def Overlooks {α : Type} (z : String) (P : α → Prop) (m : Evaluation α) : Prop :=
  ∀ s t, s.SameBut z t → s.Silent z → Option.Rel (Alike z P) (m s) (m t)

section
variable {α β : Type} {z : String} {P : α → Prop} {m : Evaluation α}

theorem overlooks_endless : Overlooks z P (endless : Evaluation α) := fun _ _ _ _ => .none

theorem overlooks_done {a : α} (ha : P a) : Overlooks z P (done a) :=
  fun _ _ hst hs => .some ⟨rfl, ha, hst, hs⟩

theorem overlooks_leave {v : Value} (hv : v.Silent z) : Overlooks z P (leave v : Evaluation α) :=
  fun _ _ hst hs => .some ⟨rfl, hv, hst, hs⟩

theorem overlooks_fail (fault : Fault) : Overlooks z P (fail fault : Evaluation α) :=
  fun _ _ hst hs => .some ⟨rfl, trivial, hst, hs⟩

theorem overlooks_ofExcept {e : Except Fault Value} (he : ∀ v, e = .ok v → v.IsPlain) :
    Overlooks z (Value.Silent z) (ofExcept e) := by
  cases e with
  | ok v => exact overlooks_done (Value.silent_of_isPlain (he v rfl))
  | error fault => exact overlooks_fail fault

/-- What follows runs in the stores that are left, which differ as little. -/
theorem Overlooks.bind {Q : β → Prop} {f : α → Evaluation β} (hm : Overlooks z P m)
    (hf : ∀ a, P a → Overlooks z Q (f a)) : Overlooks z Q (m >>= f) := by
  intro s t hst hs
  have hrun := hm s t hst hs
  generalize hp : m s = p, hq : m t = q at hrun
  cases hrun with
  | none =>
    rw [bind_of_none hp, bind_of_none hq]
    exact .none
  | @some p q hend =>
    obtain ⟨o, u⟩ := p
    obtain ⟨o', u'⟩ := q
    obtain ⟨heq, hall, hu, hsilent⟩ := hend
    obtain rfl : o = o' := heq
    cases o with
    | result a =>
      rw [bind_of_result hp, bind_of_result hq]
      exact hf a hall u u' hu hsilent
    | left v =>
      rw [bind_of_left hp, bind_of_left hq]
      exact .some ⟨rfl, hall, hu, hsilent⟩
    | faulted fault =>
      rw [bind_of_faulted hp, bind_of_faulted hq]
      exact .some ⟨rfl, trivial, hu, hsilent⟩

theorem Overlooks.returning {m : Evaluation Value} (hm : Overlooks z (Value.Silent z) m) :
    Overlooks z (Value.Silent z) (returning m) := by
  intro s t hst hs
  have hrun := hm s t hst hs
  unfold Evaluation.returning
  generalize m s = p, m t = q at hrun ⊢
  cases hrun with
  | none => exact .none
  | @some p q hend =>
    obtain ⟨o, u⟩ := p
    obtain ⟨o', u'⟩ := q
    obtain ⟨heq, hall, hu, hsilent⟩ := hend
    obtain rfl : o = o' := heq
    cases o with
    | result v | left v => exact .some ⟨rfl, hall, hu, hsilent⟩
    | faulted fault => exact .some ⟨rfl, trivial, hu, hsilent⟩

theorem overlooks_inOrder {run : Stmt → Evaluation Value} {ss : List Stmt}
    (hrun : ∀ st ∈ ss, Overlooks z (Value.Silent z) (run st)) {last : Value}
    (hl : last.Silent z) : Overlooks z (Value.Silent z) (inOrder run last ss) := by
  induction ss generalizing last with
  | nil => exact overlooks_done hl
  | cons st ss ih =>
    obtain ⟨hst, hss⟩ := List.forall_mem_cons.1 hrun
    exact hst.bind fun v hv => ih hss hv

theorem overlooks_each {run : Expr → Evaluation Value} {es : List Expr}
    (hrun : ∀ e ∈ es, Overlooks z (Value.Silent z) (run e)) :
    Overlooks z (fun vs => ∀ v ∈ vs, v.Silent z) (each run es) := by
  induction es with
  | nil => exact overlooks_done fun v hv => nomatch hv
  | cons e es ih =>
    obtain ⟨he, hes⟩ := List.forall_mem_cons.1 hrun
    exact he.bind fun v hv => (ih hes).bind fun vs hvs =>
      overlooks_done (List.forall_mem_cons.2 ⟨hv, hvs⟩)

/-! ## Single steps -/

/-- Another name is looked up alike: the scopes asked are the same, and so are their answers. -/
theorem overlooks_lookup (σ : ScopeId) {x : String} (hx : x ≠ z) :
    Overlooks z (Value.Silent z) (lookup σ x) := by
  intro s t hst hs
  unfold lookup
  rw [← hst.get? σ hx]
  cases hget : s.get? σ x with
  | some v =>
    obtain ⟨τ, -, hτ⟩ := List.exists_of_findSome?_eq_some hget
    exact .some ⟨rfl, hs τ x v hx hτ, hst, hs⟩
  | none =>
    cases Builtin.ofName? x with
    | some b => exact .some ⟨rfl, Value.silent_of_isPlain (.builtin b), hst, hs⟩
    | none => exact .some ⟨rfl, trivial, hst, hs⟩

/-- Any name may be bound, the overlooked one too. -/
theorem overlooks_define (σ : ScopeId) (x : String) {v : Value} (hv : v.Silent z) :
    Overlooks z (fun _ => True) (define σ x v) :=
  fun _ _ hst hs => .some ⟨rfl, trivial, hst.set σ x v, hs.set σ x hv⟩

theorem overlooks_closure (σ : ScopeId) (xs : List String) {body : List Stmt}
    (hbody : mentionedIn z body = false) :
    Overlooks z (Value.Silent z) (Evaluation.closure σ xs body) := by
  intro s t hst hs
  refine .some ⟨?_, ?_, hst.fresh, hs.fresh⟩
  · show Outcome.result (Value.function ⟨s.nextIdentity, xs, body, σ⟩) =
      .result (.function ⟨t.nextIdentity, xs, body, σ⟩)
    rw [hst.identity_eq]
  · rintro f ⟨⟩
    exact hbody

theorem overlooks_enter (f : Closure) {vs : List Value} (hvs : ∀ v ∈ vs, v.Silent z) :
    Overlooks z (fun _ => True) (Evaluation.enter f vs) := by
  intro s t hst hs
  have hadd := hst.add (bindParameters f.parameters vs) (s.chain f.scope)
  have hsilent := hs.add (b := bindParameters f.parameters vs)
    (fun x v hv => hvs v (mem_of_bindParameters hv)) (s.chain f.scope)
  refine .some ⟨congrArg Outcome.result hst.size_eq, trivial, ?_, hsilent⟩
  show Store.SameBut z _ (t.add _ (t.chain f.scope)).2
  rw [← hst.chain f.scope]
  exact hadd

end

end Evaluation

/-! ## The evaluation of programs -/

open Evaluation

section
variable {z : String}

mutual

/-- An expression overlooks what it does not mention. -/
theorem overlooks_expr : ∀ n σ {e : Expr}, e.mentions z = false →
    Overlooks z (Value.Silent z) (evalExpr n σ e)
  | 0, _, _, _ => overlooks_endless
  | n + 1, σ, e, he => by
    cases e with
    | identifier x => exact overlooks_lookup σ (by simpa [Expr.mentions] using he)
    | integer n => exact overlooks_done (Value.silent_of_isPlain (.integer n))
    | string text => exact overlooks_done (Value.silent_of_isPlain (.string text))
    | boolean b => exact overlooks_done (Value.silent_of_isPlain (.boolean b))
    | unary o a =>
      exact (overlooks_expr n σ (e := a) he).bind fun v _ => overlooks_ofExcept fun _ =>
        o.isPlain_of_apply
    | binary o a b =>
      obtain ⟨ha, hb⟩ := Bool.or_eq_false_iff.1 he
      exact (overlooks_expr n σ ha).bind fun v _ => (overlooks_expr n σ hb).bind fun w _ =>
        overlooks_ofExcept fun _ => o.isPlain_of_apply
    | conditional c a b =>
      simp only [mentions_conditional, Bool.or_eq_false_iff] at he
      obtain ⟨⟨hc, ha⟩, hb⟩ := he
      refine (overlooks_expr n σ hc).bind fun v _ => ?_
      split
      · exact overlooks_statements n σ ha
      · exact overlooks_statements n σ hb
    | function xs body => exact overlooks_closure σ xs he
    | call f as =>
      obtain ⟨hf, has⟩ := Bool.or_eq_false_iff.1 he
      refine (overlooks_expr n σ hf).bind fun v hv => ?_
      have has := mentionedInArguments_eq_false_iff.1 has
      exact (overlooks_each fun e he => overlooks_expr n σ (has e he)).bind fun vs hvs =>
        overlooks_call n hv hvs

theorem overlooks_stmt : ∀ n σ {st : Stmt}, st.mentions z = false →
    Overlooks z (Value.Silent z) (evalStmt n σ st)
  | 0, _, _, _ => overlooks_endless
  | n + 1, σ, st, h => by
    cases st with
    | binding x e =>
      exact (overlooks_expr n σ (e := e) h).bind fun v hv => (overlooks_define σ x hv).bind
        fun _ _ => overlooks_done (Value.silent_of_isPlain .null)
    | leave e => exact (overlooks_expr n σ (e := e) h).bind fun v hv => overlooks_leave hv
    | expression e => exact overlooks_expr n σ (e := e) h
    | block ss => exact overlooks_statements n σ h

/-- A call overlooks what the body of the closure does not mention. -/
theorem overlooks_call : ∀ n {f : Value} {vs}, f.Silent z → (∀ v ∈ vs, v.Silent z) →
    Overlooks z (Value.Silent z) (apply n f vs)
  | 0, _, _, _, _ => overlooks_endless
  | n + 1, f, vs, hf, hvs => by
    cases f with
    | function f =>
      exact (overlooks_enter f hvs).bind fun σ _ => (overlooks_statements n σ (hf f rfl)).returning
    | builtin b => exact overlooks_ofExcept fun _ => b.content.isPlain_of_call
    | integer _ | boolean _ | string _ | null | error _ _ => exact overlooks_fail _

theorem overlooks_statements : ∀ n σ {ss : List Stmt}, mentionedIn z ss = false →
    Overlooks z (Value.Silent z) (inOrder (evalStmt n σ) .null ss) := fun n σ ss h =>
  overlooks_inOrder (fun st hst => overlooks_stmt n σ (mentionedIn_eq_false_iff.1 h st hst))
    (Value.silent_of_isPlain .null)

end

/-- At the outermost level both evaluations come to the same value, an error value included. -/
theorem Evaluation.Overlooks.conclude {m : Evaluation Value} (hm : Overlooks z (Value.Silent z) m)
    {s t : Store} (hst : s.SameBut z t) (hs : s.Silent z) :
    Option.Rel (fun a b => a.1 = b.1 ∧ a.2.SameBut z b.2) (m.conclude s) (m.conclude t) := by
  have hrun := hm s t hst hs
  unfold Evaluation.conclude
  generalize m s = p, m t = q at hrun ⊢
  cases hrun with
  | none => exact .none
  | @some p q hend =>
    obtain ⟨o, u⟩ := p
    obtain ⟨o', u'⟩ := q
    obtain ⟨heq, -, hu, -⟩ := hend
    obtain rfl : o = o' := heq
    cases o with
    | result v | left v => exact .some ⟨rfl, hu⟩
    | faulted fault =>
      have hidentity : u.nextIdentity = u'.nextIdentity := hu.identity_eq
      exact .some ⟨congrArg (Value.error · fault.message) hidentity, hu.fresh⟩

end

/-- A name that neither the program nor a function in the store mentions may be bound to something
else, bound in addition or not be bound at all, in any scope: in every scope and within every bound
on nesting, the program ends in both stores or in neither, with the same outcome, the same value
where it concludes, and stores that differ in what the name is bound to and in nothing else. -/
theorem evaluation_overlooks (z : String) (p : Program) (hp : p.mentions z = false) (s t : Store)
    (hst : s.SameBut z t) (hs : s.Silent z) (n : Nat) (σ : ScopeId) :
    Option.Rel (fun a b => a.1 = b.1 ∧ a.2.SameBut z b.2) (evalBlock n σ p.statements s)
        (evalBlock n σ p.statements t) ∧
      Option.Rel (fun a b => a.1 = b.1 ∧ a.2.SameBut z b.2) (p.evaluate n σ s)
        (p.evaluate n σ t) := by
  have hm : Overlooks z (Value.Silent z) (evalBlock n σ p.statements) := overlooks_statements n σ hp
  refine ⟨?_, by simpa only [p.evaluate_eq_evalBlock] using hm.conclude hst hs⟩
  have hrun := hm s t hst hs
  generalize evalBlock n σ p.statements s = a, evalBlock n σ p.statements t = b at hrun ⊢
  cases hrun with
  | none => exact .none
  | some h => exact .some ⟨h.outcome_eq, h.sameBut⟩

/-- The scope that a closure has kept binds the name of a builtin, and then does not. The program
calls the closure, binds that name itself and adds to the closure's value. -/
theorem evaluation_overlooks_len :
    let f : Value := .function ⟨0, ["x"], [.expression (.binary .add (.identifier "x")
      (.identifier "k"))], 0⟩
    let p : Program := ⟨[.binding "len" (.string "len"), .expression (.binary .multiply
      (.call (.identifier "f") [.integer 2]) (.integer 3))]⟩
    let s : Store := ((Store.initial.fresh.2.set 0 "k" (.integer 5)).set 0 "f" f).enclose 0 |>.2
    let t : Store := s.set 0 "len" .null
    p.mentions "len" = false ∧ s.SameBut "len" t ∧ s.Silent "len" ∧
      (s.get? 1 "len").isNone ∧ (t.get? 1 "len").isSome ∧
      ∃ u u', p.evaluate 9 1 s = some (.integer 21, u) ∧
        p.evaluate 9 1 t = some (.integer 21, u') ∧ u.SameBut "len" u' := by
  intro f p s t
  have hf : f.Silent "len" := by
    intro g hg
    obtain rfl := Value.function.inj hg
    rfl
  have hnone : ∀ x v, (Bindings.empty : Bindings Value).get? x = some v → v.Silent "len" := nofun
  have hs : s.Silent "len" :=
    ((((Store.silent_empty "len").add hnone []).fresh.set 0 "k"
      (Value.silent_of_isPlain (.integer 5))).set 0 "f" hf).add hnone _
  have hst : s.SameBut "len" t := s.sameBut_set 0 "len" .null
  obtain ⟨-, hrel⟩ := evaluation_overlooks "len" p rfl s t hst hs 9 1
  have hleft : p.evaluate 9 1 s = some (.integer 21, _) := rfl
  have hright : p.evaluate 9 1 t = some (.integer 21, _) := rfl
  rw [hleft, hright] at hrel
  cases hrel with
  | some h => exact ⟨rfl, hst, hs, rfl, rfl, _, _, hleft, hright, h.2⟩

end MonkeyLang
