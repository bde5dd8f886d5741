import MonkeyLang.Proofs.Eval.Bound
import MonkeyLang.Proofs.Eval.Course

/-!
# How evaluations end, whatever the bound

Evaluations are run within a bound on how deeply they nest. Where one ends within a bound, it ends
in the same way within every larger one, so that its end is a property of what is evaluated and of
the store alone. `Settles f r` says that the answers of `f` to larger and larger bounds settle on
`r`. `Task.Ends` says so of the evaluation of a task, and `Program.Ends` of what a program comes to;
it is enough to see one of the answers (`Task.ends_iff`, `Program.ends_iff`).

Two tasks are interchangeable if they end in the same way from every store. They are if either is
found again in the other one within some bound (`Task.same_of_below`).
-/

namespace MonkeyLang

section
variable {α β : Type} {f : Nat → Option α} {g : Nat → Option β} {r r' : α} {q : β}

/-- From some bound on the answer is `r`. -/
def Settles (f : Nat → Option α) (r : α) : Prop := ∃ n, ∀ m, n ≤ m → f m = some r

/-- An answer within a bound is the answer within the next one too. -/
def Lasting (f : Nat → Option α) : Prop := ∀ n r, f n = some r → f (n + 1) = some r

theorem Settles.unique (h : Settles f r) (h' : Settles f r') : r = r' := by
  obtain ⟨n, hn⟩ := h
  obtain ⟨m, hm⟩ := h'
  have hr := hn (max n m) (Nat.le_max_left n m)
  rw [hm (max n m) (Nat.le_max_right n m)] at hr
  exact (Option.some.inj hr).symm

theorem Lasting.of_le (h : Lasting f) {n m : Nat} (hnm : n ≤ m) (hr : f n = some r) :
    f m = some r := by
  induction hnm with
  | refl => exact hr
  | step _ ih => exact h _ r ih

/-- Lasting answers settle on one that was given once. -/
theorem Lasting.settles_iff (h : Lasting f) : Settles f r ↔ ∃ n, f n = some r := by
  constructor
  · rintro ⟨n, hn⟩
    exact ⟨n, hn n (Nat.le_refl n)⟩
  · rintro ⟨n, hn⟩
    exact ⟨n, fun m hm => h.of_le hm hn⟩

/-- Answers that are related one by one, the second ones within bounds that are larger by `k`,
settle on answers that are related. -/
theorem Settles.rel {R : α → β → Prop} {k : Nat} (h : ∀ n, Option.Rel R (f n) (g (n + k)))
    (hf : Settles f r) (hg : Settles g q) : R r q := by
  obtain ⟨n, hn⟩ := hf
  obtain ⟨m, hm⟩ := hg
  have hrel := h (max n m)
  rw [hn _ (Nat.le_max_left n m), hm _ (by omega)] at hrel
  exact Option.rel_some_some.1 hrel

/-- If they are lasting, both settle or neither does. -/
theorem exists_settles_iff {R : α → β → Prop} {k : Nat} (hf : Lasting f) (hg : Lasting g)
    (h : ∀ n, Option.Rel R (f n) (g (n + k))) : (∃ r, Settles f r) ↔ ∃ r, Settles g r := by
  constructor
  · rintro ⟨r, n, hn⟩
    have hrel := h n
    rw [hn n (Nat.le_refl n)] at hrel
    generalize hrun : g (n + k) = p at hrel
    cases hrel with
    | @some _ p _ => exact ⟨p, hg.settles_iff.2 ⟨n + k, hrun⟩⟩
  · rintro ⟨r, n, hn⟩
    have hrel := h n
    rw [hn (n + k) (Nat.le_add_right n k)] at hrel
    generalize hrun : f n = p at hrel
    cases hrel with
    | @some p _ _ => exact ⟨p, hf.settles_iff.2 ⟨n, hrun⟩⟩

end

/-! ## Tasks -/

open Evaluation

namespace Task

theorem run_below_succ (n : Nat) (a : Task) : (a.run n).Below (a.run (n + 1)) := by
  cases a with
  | expr σ e => exact evalExpr_below_succ n σ e
  | stmt σ st => exact evalStmt_below_succ n σ st
  | block σ ss => exact .inOrder (evalStmt_below_succ n σ) .null ss
  | call f vs => exact apply_below_succ n f vs

theorem run_lasting (a : Task) (s : Store) : Lasting fun n => a.run n s :=
  fun n => a.run_below_succ n s

/-- The evaluation of the task from `s` ends with the given outcome and store. -/
def Ends (a : Task) (s : Store) (r : Outcome Value × Store) : Prop :=
  Settles (fun n => a.run n s) r

variable {a : Task} {s t : Store} {r r' : Outcome Value × Store}

/-- An evaluation ends as it ends within any bound. -/
theorem ends_iff : a.Ends s r ↔ ∃ n, a.run n s = some r := (a.run_lasting s).settles_iff

theorem Ends.unique (h : a.Ends s r) (h' : a.Ends s r') : r = r' := Settles.unique h h'

/-- Two tasks end in the same way from every store, or neither does. -/
def Same (a b : Task) : Prop := ∀ s r, a.Ends s r ↔ b.Ends s r

/-- Tasks are the same if either runs as the other one does within some bound. -/
theorem same_of_below {a b : Task} (j k j' k' : Nat)
    (h : ∀ n, (a.run (n + j)).Below (b.run (n + k)))
    (h' : ∀ n, (b.run (n + j')).Below (a.run (n + k'))) : a.Same b := by
  intro s r
  rw [ends_iff, ends_iff]
  constructor
  · rintro ⟨n, hn⟩
    exact ⟨n + k, h n s r ((a.run_lasting s).of_le (Nat.le_add_right n j) hn)⟩
  · rintro ⟨n, hn⟩
    exact ⟨n + k', h' n s r ((b.run_lasting s).of_le (Nat.le_add_right n j') hn)⟩

theorem same_of_run_eq {a b : Task} (j k : Nat) (h : ∀ n, a.run (n + j) = b.run (n + k)) :
    a.Same b :=
  same_of_below j k k j (fun n => h n ▸ .refl _) (fun n => h n ▸ .refl _)

theorem Same.trans {a b c : Task} (h : a.Same b) (h' : b.Same c) : a.Same c :=
  fun s r => (h s r).trans (h' s r)

theorem yields_iff {v : Value} : a.Yields s v t ↔ a.Ends s (.result v, t) := ends_iff.symm

end Task

/-! ## Operators -/

/-- How an evaluation ends that is what an operator or a builtin computes. -/
def Outcome.ofExcept {α : Type} : Except Fault α → Outcome α
  | .ok value => .result value
  | .error fault => .faulted fault

theorem Evaluation.ofExcept_eq {α : Type} (r : Except Fault α) (s : Store) :
    ofExcept r s = some (.ofExcept r, s) := by
  cases r <;> rfl

section
variable {σ : ScopeId} {s t u : Store} {x y : Expr} {l r : Value}

/-- An operator in front of an operand is applied to its value. -/
theorem Task.ends_unary (o : UnaryOperator) (hl : (expr σ x).Yields s l t) :
    (expr σ (.unary o x)).Ends s (.ofExcept (o.apply l), t) := by
  obtain ⟨n, hn⟩ := hl
  exact ends_iff.2 ⟨n + 1, (bind_of_result hn).trans (ofExcept_eq _ t)⟩

/-- An operator between two operands is applied to the values of both. -/
theorem Task.ends_binary (o : BinaryOperator) (hl : (expr σ x).Yields s l t)
    (hr : (expr σ y).Yields t r u) :
    (expr σ (.binary o x y)).Ends s (.ofExcept (o.apply l r), u) := by
  obtain ⟨n, hn⟩ := yields_iff.1 hl
  obtain ⟨m, hm⟩ := yields_iff.1 hr
  refine ends_iff.2 ⟨max n m + 1, (bind_of_result (hn _ (Nat.le_max_left n m))).trans ?_⟩
  exact (bind_of_result (hm _ (Nat.le_max_right n m))).trans (ofExcept_eq _ u)

end

/-! ## At the outermost level -/

/-- The value that is left at the outermost level, and its store. -/
def Outcome.conclude : Outcome Value → Store → Value × Store
  | .result v, s | .left v, s => (v, s)
  | .faulted fault, s => s.newError fault.message

theorem Evaluation.conclude_eq_map (m : Evaluation Value) (s : Store) :
    m.conclude s = (m s).map fun r => r.1.conclude r.2 := by
  unfold Evaluation.conclude
  rcases m s with _ | ⟨_ | _ | _, _⟩ <;> rfl

theorem Program.evaluate_lasting (p : Program) (σ : ScopeId) (s : Store) :
    Lasting fun n => p.evaluate n σ s := by
  intro n r h
  simp only [evaluate_eq_evalBlock, conclude_eq_map, Option.map_eq_some_iff] at h ⊢
  obtain ⟨r', hr', rfl⟩ := h
  exact ⟨r', Task.run_below_succ n (.block σ p.statements) s r' hr', rfl⟩

namespace Program

variable {p q : Program} {σ : ScopeId} {s : Store}

/-- Run in the scope from `s`, the program comes to the given value and store. -/
def Ends (p : Program) (σ : ScopeId) (s : Store) (r : Value × Store) : Prop :=
  Settles (fun n => p.evaluate n σ s) r

/-- What a program comes to is what its statements come to. -/
theorem ends_iff {r : Value × Store} :
    p.Ends σ s r ↔ ∃ q, (Task.block σ p.statements).Ends s q ∧ q.1.conclude q.2 = r := by
  rw [Ends, (p.evaluate_lasting σ s).settles_iff]
  simp only [evaluate_eq_evalBlock, conclude_eq_map, Option.map_eq_some_iff, Task.ends_iff]
  exact ⟨fun ⟨n, q, hq, hr⟩ => ⟨q, ⟨n, hq⟩, hr⟩, fun ⟨q, ⟨n, hq⟩, hr⟩ => ⟨n, q, hq, hr⟩⟩

/-- Programs with statements that are the same in a row come to the same. -/
theorem ends_congr (h : (Task.block σ p.statements).Same (.block σ q.statements))
    {r : Value × Store} : p.Ends σ s r ↔ q.Ends σ s r := by
  rw [ends_iff, ends_iff]
  exact exists_congr fun q => and_congr_left' (h s q)

end Program

end MonkeyLang
