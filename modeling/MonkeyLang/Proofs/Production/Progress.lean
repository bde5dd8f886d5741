import MonkeyLang.Proofs.Production.Law

/-!
# Where productions stop

Whichever way a production ends, what it leaves is an end of the list it was given (`Keeps`), and
most productions leave an end of its tail, so that they move past one terminal at least if there
is one (`Advances`), on malformed lists too. This is what any law says of a reply, so the law that
says nothing more will do.
-/

namespace MonkeyLang.Production

variable {α : Type} {p : Production α}

/-- What is left is an end of what was given. -/
def Keeps (p : Production α) : Prop := ∀ ts, (p ts).result.rest <:+ ts

/-- What is left is an end of what stands behind the first terminal. -/
def Advances (p : Production α) : Prop := ∀ ts, (p ts).result.rest <:+ ts.tail

/-- What remains found of an advance is shorter than what was given. -/
theorem Advances.length_le (h : Advances p) {ts rest : List Terminal} {ms : List Mistake} {a : α}
    (hp : p ts = ⟨ms, .found a rest⟩) : rest.length ≤ ts.length - 1 := by
  have hs := h ts
  rw [hp] at hs
  have hl := hs.length_le
  rw [List.length_tail] at hl
  exact hl

theorem Keeps.length_le (h : Keeps p) {ts rest : List Terminal} {ms : List Mistake} {a : α}
    (hp : p ts = ⟨ms, .found a rest⟩) : rest.length ≤ ts.length := by
  have hs := h ts
  rw [hp] at hs
  exact hs.length_le

/-- Nothing more is asked of a reply. -/
def Law.progress : Law where
  holds _ _ _ := True
  exhausts := True
  exhausted _ := trivial
  clean _ := trivial
  unexpected _ := trivial
  unclosed := trivial
  refused _ := trivial
  overflow _ := trivial
  keeps_of_advances _ := trivial
  cons _ _ := trivial
  seq _ _ _ _ _ := trivial
  failed _ _ := trivial
  resume _ _ := trivial

variable (n : Nat)

/-- Reading an expression moves on. -/
theorem expression_advances (floor : Precedence) : Advances (expression n floor) := fun _ =>
  ((Law.progress.all .any n).expression floor (Law.given_any (.inl trivial))).rest_suffix

theorem operand_advances : Advances (operand n) := fun _ =>
  ((Law.progress.all .any n).operand (Law.given_any (.inl trivial))).rest_suffix

theorem arguments_advances : Advances (arguments n) := fun _ =>
  ((Law.progress.all .any n).arguments (Law.given_any (.inl trivial))).rest_suffix

theorem keeps_parameters : Keeps (parameters n) := fun _ =>
  (Law.at_parameters (L := Law.progress) (F := .any) (Law.given_any (.inl trivial))).rest_suffix

theorem block_advances : Advances (block n) := fun _ =>
  ((Law.progress.all .any n).block (Law.given_any (.inl trivial))).rest_suffix

/-- Reading a statement moves on, whether or not there is one. -/
theorem statement_advances : Advances (statement n) := fun _ =>
  ((Law.progress.all .any n).statement (Law.given_any (.inl trivial))).rest_suffix

end MonkeyLang.Production
