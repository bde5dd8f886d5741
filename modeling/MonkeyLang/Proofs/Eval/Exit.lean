import MonkeyLang.Eval.Interpret
import MonkeyLang.Proofs.Eval.Ending
import MonkeyLang.Proofs.Eval.InOrder

/-!
# Exits travel outwards

An evaluation may be left before its end, by a `return` or by a fault. Such an `Exit` is one of
everything around the place where it is taken, in the store that is left there: what would have come
next is skipped, a name that was to be bound is not, and a call that was to be made is not made. A
fault travels so to the outermost level, and a `return` to the call or the program it stands in,
where it becomes the value (`exits_unwind`).

`Inside` leads from a task to one that stands in it, at any depth and with no call between: an
operand, a condition, a chosen branch, a callee or an argument, the value of a binding or of a
`return`, a statement, each behind those in front of it, which have had results. One step of it is
what an exit passes (`Starts.ends_of_exit`), and the rest is induction.
-/

namespace MonkeyLang

open Evaluation

/-- A way to leave an evaluation before its end. -/
inductive Exit where
  /-- By a `return` of a value. -/
  | left (value : Value)
  /-- By a fault. -/
  | faulted (fault : Fault)

/-- How an evaluation ends that is left so, whatever its results would be. -/
def Exit.outcome {α : Type} : Exit → Outcome α
  | left v => .left v
  | faulted fault => .faulted fault

namespace Evaluation

variable {α β : Type} {m : Evaluation α} {s t : Store} {e : Exit}

/-- What follows an exit is skipped. -/
theorem bind_of_exit {f : α → Evaluation β} (h : m s = some (e.outcome, t)) :
    (m >>= f) s = some (e.outcome, t) := by
  cases e with
  | left v => exact bind_of_left h
  | faulted fault => exact bind_of_faulted h

theorem returning_of_left {m : Evaluation Value} {v : Value} (h : m s = some (.left v, t)) :
    returning m s = some (.result v, t) := by
  simp only [returning, h]

theorem returning_of_faulted {m : Evaluation Value} {fault : Fault}
    (h : m s = some (.faulted fault, t)) : returning m s = some (.faulted fault, t) := by
  simp only [returning, h]

theorem returning_ne_left (m : Evaluation Value) (v : Value) :
    returning m s ≠ some (.left v, t) := by
  intro h
  unfold returning at h
  split at h
  · cases h
  · next hm => exact hm v t h

end Evaluation

/-- Is the task a call? -/
def Task.isCall : Task → Bool
  | call _ _ => true
  | _ => false

/-- The second task stands in the first one, with no call between. -/
def Inside : Task × Store → Task × Store → Prop :=
  Relation.ReflTransGen fun p q => p.1.isCall = false ∧ Starts p q

/-! ## One step outwards -/

theorem each_of_le {n m : Nat} (hnm : n ≤ m) {σ : ScopeId} {as : List Expr} {s : Store}
    {r : Outcome (List Value) × Store} (h : each (evalExpr n σ) as s = some r) :
    each (evalExpr m σ) as s = some r := by
  have hlasting : Lasting fun n => each (evalExpr n σ) as s := fun n =>
    Below.each (evalExpr_below_succ n σ) as s
  exact hlasting.of_le hnm h

/-- An exit of what is started is an exit of the task that started it, unless that is a call. -/
theorem Starts.ends_of_exit {p q : Task × Store} (h : Starts p q) (hp : p.1.isCall = false)
    {e : Exit} {t : Store} (hq : q.1.Ends q.2 (e.outcome, t)) : p.1.Ends p.2 (e.outcome, t) := by
  obtain ⟨n, hn⟩ := hq
  cases h with
  | operand | left | condition | callee | binding | leave =>
    exact Task.ends_iff.2 ⟨n + 1, bind_of_exit (hn n (Nat.le_refl n))⟩
  | expression | block => exact Task.ends_iff.2 ⟨n + 1, hn n (Nat.le_refl n)⟩
  | right hv =>
    obtain ⟨m, hm⟩ := Task.yields_iff.1 hv
    refine Task.ends_iff.2 ⟨max n m + 1, ?_⟩
    exact (bind_of_result (hm _ (Nat.le_max_right n m))).trans
      (bind_of_exit (hn _ (Nat.le_max_left n m)))
  | consequence hv htrue =>
    obtain ⟨m, hm⟩ := Task.yields_iff.1 hv
    refine Task.ends_iff.2 ⟨max n m + 1, (bind_of_result (hm _ (Nat.le_max_right n m))).trans ?_⟩
    rw [if_pos htrue]
    exact hn _ (Nat.le_max_left n m)
  | alternative hv hfalse =>
    obtain ⟨m, hm⟩ := Task.yields_iff.1 hv
    refine Task.ends_iff.2 ⟨max n m + 1, (bind_of_result (hm _ (Nat.le_max_right n m))).trans ?_⟩
    rw [if_neg (by rw [hfalse]; exact Bool.false_ne_true)]
    exact hn _ (Nat.le_max_left n m)
  | @argument σ f front a back s v t' vs u k hf hfront =>
    obtain ⟨m, hm⟩ := Task.yields_iff.1 hf
    have hk : k ≤ max n (max m k) := by omega
    refine Task.ends_iff.2 ⟨max n (max m k) + 1, ?_⟩
    refine (bind_of_result (hm _ (by omega))).trans (bind_of_exit ?_)
    rw [each_append]
    refine (bind_of_result (each_of_le hk hfront)).trans (bind_of_exit ?_)
    exact bind_of_exit (hn _ (by omega))
  | @call σ f as s v t' vs u k hf has =>
    obtain ⟨m, hm⟩ := Task.yields_iff.1 hf
    have hk : k ≤ max n (max m k) := by omega
    refine Task.ends_iff.2 ⟨max n (max m k) + 1, ?_⟩
    refine (bind_of_result (hm _ (by omega))).trans ?_
    exact (bind_of_result (each_of_le hk has)).trans (hn _ (by omega))
  | @statement σ front st back s v t' hv =>
    obtain ⟨m, hm⟩ := Task.yields_iff.1 hv
    refine Task.ends_iff.2 ⟨max n m, ?_⟩
    have hrow : (Task.block σ (front ++ st :: back)).run (max n m) =
        evalBlock (max n m) σ front >>= fun v => inOrder (evalStmt (max n m) σ) v (st :: back) :=
      inOrder_append _ _ front (st :: back)
    rw [hrow]
    exact (bind_of_result (hm _ (Nat.le_max_right n m))).trans
      (bind_of_exit (hn _ (Nat.le_max_left n m)))
  | body => cases hp

/-! ## Calls -/

section
variable {f : Closure} {vs : List Value} {s u t : Store} {σ : ScopeId}

theorem call_ends_of_left (henter : enter f vs s = some (.result σ, u)) {v : Value}
    (hbody : (Task.block σ f.body).Ends u (.left v, t)) :
    (Task.call (.function f) vs).Ends s (.result v, t) := by
  obtain ⟨n, hn⟩ := Task.ends_iff.1 hbody
  exact Task.ends_iff.2 ⟨n + 1, (bind_of_result henter).trans (returning_of_left hn)⟩

theorem call_ends_of_faulted (henter : enter f vs s = some (.result σ, u)) {fault : Fault}
    (hbody : (Task.block σ f.body).Ends u (.faulted fault, t)) :
    (Task.call (.function f) vs).Ends s (.faulted fault, t) := by
  obtain ⟨n, hn⟩ := Task.ends_iff.1 hbody
  exact Task.ends_iff.2 ⟨n + 1, (bind_of_result henter).trans (returning_of_faulted hn)⟩

end

/-- No call is left by a `return`. -/
theorem apply_ne_left (n : Nat) (f : Value) (vs : List Value) (s t : Store) (v : Value) :
    apply n f vs s ≠ some (.left v, t) := by
  cases n with
  | zero => exact nofun
  | succ n =>
    cases f with
    | function f => exact returning_ne_left _ v
    | builtin b =>
      show ofExcept (b.content.call vs) s ≠ _
      cases b.content.call vs <;> exact nofun
    | integer _ | boolean _ | string _ | null | error _ _ => exact nofun

/-! ## All the way -/

/-- An exit passes everything it stands inside. -/
theorem Inside.ends_of_exit {p q : Task × Store} (h : Inside p q) {e : Exit} {t : Store}
    (hq : q.1.Ends q.2 (e.outcome, t)) : p.1.Ends p.2 (e.outcome, t) := by
  induction h using Relation.ReflTransGen.head_induction_on with
  | refl => exact hq
  | head hstep _ ih => exact hstep.2.ends_of_exit hstep.1 ih

/-- A fault passes calls as well. -/
theorem Reached.ends_of_faulted {p q : Task × Store} (h : Reached p q) {fault : Fault} {t : Store}
    (hq : q.1.Ends q.2 (.faulted fault, t)) : p.1.Ends p.2 (.faulted fault, t) := by
  induction h using Relation.ReflTransGen.head_induction_on with
  | refl => exact hq
  | @head p r hstep _ ih =>
    cases hcall : p.1.isCall with
    | false => exact hstep.ends_of_exit (e := .faulted fault) hcall ih
    | true =>
      cases hstep with
      | body henter => exact call_ends_of_faulted henter ih
      | _ => cases hcall

/-- Whatever a task stands inside is left by an exit of the task, in the store that it leaves. A
`return` in the body of a function is the value of the call, and no call is left by one. A fault is
one of everything the task was reached from, through calls as well. A `return` at the outermost
level is what the program comes to, and a fault makes it come to an error value with the message of
the fault. -/
theorem exits_unwind :
    (∀ p q (e : Exit) t, Inside p q → q.1.Ends q.2 (e.outcome, t) → p.1.Ends p.2 (e.outcome, t)) ∧
    (∀ f vs s σ u q v t, enter f vs s = some (.result σ, u) → Inside (.block σ f.body, u) q →
      q.1.Ends q.2 (.left v, t) → (Task.call (.function f) vs).Ends s (.result v, t)) ∧
    (∀ n f vs s v t, apply n f vs s ≠ some (.left v, t)) ∧
    (∀ p q fault t, Reached p q → q.1.Ends q.2 (.faulted fault, t) →
      p.1.Ends p.2 (.faulted fault, t)) ∧
    (∀ (p : Program) σ s q v t, Inside (.block σ p.statements, s) q →
      q.1.Ends q.2 (.left v, t) → p.Ends σ s (v, t)) ∧
    ∀ (p : Program) σ s q fault t, Reached (.block σ p.statements, s) q →
      q.1.Ends q.2 (.faulted fault, t) →
        p.Ends σ s (.error t.nextIdentity fault.message, t.fresh.2) := by
  refine ⟨fun p q e t h hq => h.ends_of_exit hq, fun f vs s σ u q v t henter h hq => ?_,
    fun n f vs s v t => apply_ne_left n f vs s t v, fun p q fault t h hq => h.ends_of_faulted hq,
    fun p σ s q v t h hq => ?_, fun p σ s q fault t h hq => ?_⟩
  · exact call_ends_of_left henter (h.ends_of_exit (e := .left v) hq)
  · exact Program.ends_iff.2 ⟨_, h.ends_of_exit (e := .left v) hq, rfl⟩
  · exact Program.ends_iff.2 ⟨_, h.ends_of_faulted hq, rfl⟩

/-- A `return` behind a binding in a branch of a conditional, which is an argument, in an operand,
in the value of a binding: in a program and in the body of a function. And a fault in the body of a
function. -/
theorem exits_unwind_branch :
    let early : Expr := .conditional (.boolean true)
      [.binding "a" (.integer 2), .leave (.integer 3), .expression (.integer 4)] none
    let body : List Stmt := [.binding "x" (.binary .add (.integer 1)
      (.call (.function ["y"] []) [early]))]
    let f : Closure := ⟨0, [], body, 0⟩
    let fails : List Stmt := [.expression (.call
      (.function [] [.expression (.unary .negate (.boolean true))]) [])]
    let left (σ : ScopeId) (s : Store) : Store := s.fresh.2.set σ "a" (.integer 2)
    let entered : Store := (Store.initial.add .empty [0]).2
    Inside (.block 0 body, .initial) (.stmt 0 (.leave (.integer 3)), left 0 .initial) ∧
      (Task.stmt 0 (.leave (.integer 3))).Ends (left 0 .initial)
        (.left (.integer 3), left 0 .initial) ∧
      (Task.block 0 body).Ends .initial (.left (.integer 3), left 0 .initial) ∧
      (Program.mk body).Ends 0 .initial (.integer 3, left 0 .initial) ∧
      enter f [] .initial = some (.result 1, entered) ∧
      (Task.call (.function f) []).Ends .initial (.result (.integer 3), left 1 entered) ∧
      ∃ t u, Reached (.block 0 fails, .initial) (.expr 1 (.unary .negate (.boolean true)), t) ∧
        (Task.expr 1 (.unary .negate (.boolean true))).Ends t
          (.faulted (.noUnary .negate .boolean), t) ∧
        (Task.block 0 fails).Ends .initial (.faulted (.noUnary .negate .boolean), t) ∧
        (Program.mk fails).Ends 0 .initial (.error 1 "unknown operator: -BOOLEAN", u) := by
  intro early body f fails left entered
  have hinside : ∀ σ s, Inside (.block σ body, s) (.stmt σ (.leave (.integer 3)), left σ s) := by
    intro σ s
    refine .head ⟨rfl, .first⟩ ?_
    refine .head ⟨rfl, .binding⟩ (.head ⟨rfl, .right ⟨1, rfl⟩⟩ ?_)
    refine .head ⟨rfl, .first_argument ⟨1, rfl⟩⟩ ?_
    refine .head ⟨rfl, .consequence ⟨1, rfl⟩ rfl⟩ (.single ⟨rfl, ?_⟩)
    exact @Starts.statement σ [.binding "a" (.integer 2)] _ _ _ _ _ ⟨2, rfl⟩
  have hleft : ∀ σ s, (Task.stmt σ (.leave (.integer 3))).Ends s (.left (.integer 3), s) :=
    fun σ s => Task.ends_iff.2 ⟨2, rfl⟩
  have hreach : Reached (.block 0 fails, .initial) (.expr 1 (.unary .negate (.boolean true)), _) :=
    .head .first (.head .expression
      (.head (.call (n := 1) ⟨1, rfl⟩ rfl) (.head (.body rfl)
        (.head .first (.single .expression)))))
  have hfault : ∀ s, (Task.expr 1 (.unary .negate (.boolean true))).Ends s
      (.faulted (.noUnary .negate .boolean), s) := fun s => Task.ends_iff.2 ⟨2, rfl⟩
  obtain ⟨hcontext, hcall, -, hfaults, hprogram, herror⟩ := exits_unwind
  exact ⟨hinside 0 _, hleft 0 _, hcontext _ _ (.left _) _ (hinside 0 _) (hleft 0 _),
    hprogram ⟨body⟩ 0 _ _ _ _ (hinside 0 _) (hleft 0 _), rfl,
    hcall f [] _ 1 _ _ _ _ rfl (hinside 1 _) (hleft 1 _), _, _, hreach, hfault _,
    hfaults _ _ _ _ hreach (hfault _), herror ⟨fails⟩ 0 _ _ _ _ hreach (hfault _)⟩

end MonkeyLang
