import MonkeyLang.Eval.Interpret
import MonkeyLang.Proofs.Eval.InOrder
import MonkeyLang.Proofs.Syntax.Seam

/-!
# Programs one after the other

Sources that are run one after the other in one scope do what all of them do as a single source, as
long as none but the last is ended by a `return` or a fault (`interpretIn_join`).
-/

namespace MonkeyLang

open Evaluation

/-- Unless `m` is ended by a `return` or a fault, what follows it is concluded in the store it
leaves. -/
theorem Evaluation.conclude_bind {m : Evaluation Value} {f : Value → Evaluation Value} {s : Store}
    (hm : ∀ o t, m s = some (o, t) → ∃ v, o = .result v) :
    (m >>= f).conclude s = (m.conclude s).bind fun r => (f r.1).conclude r.2 := by
  rcases hrun : m s with _ | ⟨o, t⟩
  · simp only [conclude, hrun, bind_of_none hrun, Option.bind_none]
  · obtain ⟨v, rfl⟩ := hm o t hrun
    simp only [conclude, hrun, bind_of_result hrun, Option.bind_some]

/-- Two programs in a row, of which the first runs to its end and the second is not empty. -/
theorem Program.evaluate_append {depth : Nat} {σ : ScopeId} {s : Store} {a b : List Stmt}
    (ha : ∀ o t, evalBlock depth σ a s = some (o, t) → ∃ v, o = .result v) (hb : b ≠ []) :
    (Program.mk (a ++ b)).evaluate depth σ s =
      ((Program.mk a).evaluate depth σ s).bind fun r => (Program.mk b).evaluate depth σ r.2 := by
  have hsplit : evalBlock depth σ (a ++ b) =
      evalBlock depth σ a >>= fun v => inOrder (evalStmt depth σ) v b := inOrder_append _ _ a b
  simp only [evaluate_eq_evalBlock]
  rw [hsplit, conclude_bind ha]
  refine congrArg _ (funext fun r => ?_)
  rw [inOrder_of_ne_nil _ r.1 .null hb]
  rfl

/-- A program that is one expression comes to what that comes to. -/
theorem Program.evaluate_expression (n : Nat) (σ : ScopeId) (e : Expr) :
    (Program.mk [.expression e]).evaluate (n + 1) σ = e.evaluate n σ :=
  (evaluate_eq_evalBlock _ _ σ).trans (congrArg conclude (bind_pure (evalExpr n σ e)))

/-! ## Sources -/

theorem interpretIn_of_clean {source : String} (h : (parse source).errors = []) (depth : Nat)
    (σ : ScopeId) (s : Store) :
    interpretIn depth source σ s =
      ((parse source).program.evaluate depth σ s).map fun r => (.value r.1, r.2) := by
  simp only [interpretIn, h, List.isEmpty_nil, if_true]

theorem interpretIn_of_errors {source : String} {e : SyntaxError} {es : List SyntaxError}
    (h : (parse source).errors = e :: es) (depth : Nat) (σ : ScopeId) (s : Store) :
    interpretIn depth source σ s = some (.rejected (e :: es), s) := by
  simp only [interpretIn, h, List.isEmpty_cons, Bool.false_eq_true, if_false]

/-- What comes of a source are its syntax errors, and nothing is run, or what its program comes
to. -/
theorem interpretIn_cases {depth : Nat} {source : String} {σ : ScopeId} {s t : Store}
    {r : Interpretation} (h : interpretIn depth source σ s = some (r, t)) :
    (r = .rejected (parse source).errors ∧ t = s) ∨
      ∃ v, r = .value v ∧ (parse source).program.evaluate depth σ s = some (v, t) := by
  simp only [interpretIn] at h
  split at h
  · obtain ⟨⟨v, u⟩, hrun, heq⟩ := Option.map_eq_some_iff.1 h
    cases heq
    exact .inr ⟨v, rfl, hrun⟩
  · cases h
    exact .inl ⟨rfl, rfl⟩

/-- No statement of a source is ended by a `return` or a fault, if it ends. -/
def RunsThrough (depth : Nat) (σ : ScopeId) (source : String) (s : Store) : Prop :=
  ∀ o t, evalBlock depth σ (parse source).program.statements s = some (o, t) → ∃ v, o = .result v

instance (depth : Nat) (σ : ScopeId) (source : String) (s : Store) :
    Decidable (RunsThrough depth σ source s) :=
  match h : evalBlock depth σ (parse source).program.statements s with
  | none => isTrue fun o t ht => by rw [h] at ht; cases ht
  | some (.result v, u) => isTrue fun o t ht => by rw [h] at ht; cases ht; exact ⟨v, rfl⟩
  | some (.left v, u) => isFalse fun hrun => by obtain ⟨w, hw⟩ := hrun _ _ h; cases hw
  | some (.faulted fault, u) => isFalse fun hrun => by obtain ⟨w, hw⟩ := hrun _ _ h; cases hw

/-- A complete source that runs through, and one behind it: the second runs in the store that the
first leaves. -/
theorem interpretIn_append {depth : Nat} {σ : ScopeId} {s : Store} {a b : String} (ha : Complete a)
    (hb : Complete b) (hrun : RunsThrough depth σ a s) :
    interpretIn depth (a ++ b) σ s =
      (interpretIn depth a σ s).bind fun r => interpretIn depth b σ r.2 := by
  rw [interpretIn_of_clean (ha.append hb).errors_eq_nil, interpretIn_of_clean ha.errors_eq_nil,
    (ha.parse_append b).1, Program.evaluate_append hrun hb.statements_ne_nil, Option.map_bind,
    Option.bind_map]
  refine congrArg _ (funext fun r => ?_)
  exact (interpretIn_of_clean hb.errors_eq_nil depth σ r.2).symm

/-- The store after running sources one after the other, which there is if all of them end. -/
def storeAfter (depth : Nat) (σ : ScopeId) : List String → Store → Option Store
  | [], s => some s
  | source :: rest, s =>
    (interpretIn depth source σ s).bind fun r => storeAfter depth σ rest r.2

/-- Run one after the other, all sources run through. -/
def AllRunThrough (depth : Nat) (σ : ScopeId) : List String → Store → Prop
  | [], _ => True
  | source :: rest, s =>
    RunsThrough depth σ source s ∧
      ∀ r, interpretIn depth source σ s = some r → AllRunThrough depth σ rest r.2

/-- Whether all sources run through can be found out by running them. -/
def decideAllRunThrough (depth : Nat) (σ : ScopeId) :
    ∀ (sources : List String) (s : Store), Decidable (AllRunThrough depth σ sources s)
  | [], _ => isTrue trivial
  | source :: rest, s =>
    match h : interpretIn depth source σ s with
    | none =>
      decidable_of_iff (RunsThrough depth σ source s)
        ⟨fun hrun => ⟨hrun, fun r hr => by rw [h] at hr; cases hr⟩, fun hall => hall.1⟩
    | some r =>
      have := decideAllRunThrough depth σ rest r.2
      decidable_of_iff (RunsThrough depth σ source s ∧ AllRunThrough depth σ rest r.2)
        ⟨fun hall => ⟨hall.1, fun r' hr => by rw [h] at hr; cases hr; exact hall.2⟩,
          fun hall => ⟨hall.1, hall.2 r h⟩⟩

instance (depth : Nat) (σ : ScopeId) (sources : List String) (s : Store) :
    Decidable (AllRunThrough depth σ sources s) := decideAllRunThrough depth σ sources s

theorem join_append_singleton_complete {sources : List String} {last : String}
    (hs : ∀ a ∈ sources, Complete a) (hlast : Complete last) :
    Complete (String.join (sources ++ [last])) := by
  induction sources with
  | nil => simpa using hlast
  | cons a sources ih =>
    rw [List.cons_append, String.join_cons]
    exact (hs a List.mem_cons_self).append (ih fun b hb => hs b (List.mem_cons_of_mem a hb))

/-- Complete sources as a single one: it does what the last of them does after the others. -/
theorem interpretIn_join {depth : Nat} {σ : ScopeId} {sources : List String} {last : String}
    {s : Store} (hs : ∀ a ∈ sources, Complete a) (hlast : Complete last)
    (hrun : AllRunThrough depth σ sources s) :
    interpretIn depth (String.join (sources ++ [last])) σ s =
      (storeAfter depth σ sources s).bind (interpretIn depth last σ) := by
  induction sources generalizing s with
  | nil => simp [storeAfter]
  | cons a sources ih =>
    have htail : ∀ b ∈ sources, Complete b := fun b hb => hs b (List.mem_cons_of_mem a hb)
    rw [List.cons_append, String.join_cons, interpretIn_append (hs a List.mem_cons_self)
      (join_append_singleton_complete htail hlast) hrun.1, storeAfter, Option.bind_assoc]
    rcases hr : interpretIn depth a σ s with _ | r
    · rfl
    · exact ih htail (hrun.2 r hr)

end MonkeyLang
