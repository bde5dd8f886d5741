import MonkeyLang.Proofs.Grammar.Basic

/-!
# What mistakes are about

Every mistake that a production notes is about a terminal of the list it was given, or about the end
of that list: `Mistake.About` names the terminals from there on, and says of each cause what has to
be ahead for it to be noted. It is a law (`Law.about`), since what the first production of a
sequence leaves is an end of what was given.
-/

namespace MonkeyLang

open Production (ahead)

/-- The terminals give cause for the complaint: the kind that is found is the one ahead and is not
the one that was due; no expression begins with the one ahead; or an integer is ahead that is too
large. -/
def SyntaxError.Cause.Fits (us : List Terminal) : SyntaxError.Cause → Prop
  | .unexpected expected found => found = ahead us ∧ found ≠ expected
  | .noExpression kind => kind = ahead us ∧ Grammar.begins kind = false
  | .integerRange literal =>
    ∃ rest, us = ⟨.integer, literal⟩ :: rest ∧ Decimal.largest < Decimal.value literal.toList

/-- The mistake is about the first of the terminals, or about the end if there is none. -/
structure Mistake.About (us : List Terminal) (m : Mistake) : Prop where
  left_eq : m.left = us.length
  fits : m.cause.Fits us

namespace Production

/-- Every mistake is about an end of what was given. -/
def Outline.About (o : Outline) (ts : List Terminal) : Prop :=
  ∀ m ∈ o.mistakes, ∃ us, us <:+ ts ∧ m.About us

theorem Outline.About.single {m : Mistake} {ts rest : List Terminal} {found : Bool}
    (h : m.About ts) : (⟨[m], rest, found⟩ : Outline).About ts := by
  intro m' hm'
  obtain rfl := List.mem_singleton.1 hm'
  exact ⟨ts, List.suffix_rfl, h⟩

/-- What is about an end of the terminals that are left is about an end of all of them. -/
theorem Outline.About.of_suffix {o : Outline} {ts rest : List Terminal} (h : o.About rest)
    (hrest : rest <:+ ts) : o.About ts := by
  intro m hm
  obtain ⟨us, hus, habout⟩ := h m hm
  exact ⟨us, hus.trans hrest, habout⟩

theorem about_overflow {literal : String} {rest : List Terminal}
    (h : Decimal.int64? literal.toList = none) :
    Mistake.About (⟨.integer, literal⟩ :: rest) ⟨.integerRange literal, rest.length + 1⟩ := by
  refine ⟨rfl, rest, rfl, ?_⟩
  unfold Decimal.int64? at h
  split at h
  · cases h
  · next hlarge => exact Nat.lt_of_not_le hlarge

/-- Mistakes are about what was given. -/
def Law.about : Law where
  holds _ ts o := o.About ts
  exhausts := True
  exhausted _ := List.forall_mem_nil _
  clean _ := List.forall_mem_nil _
  unexpected hahead := .single ⟨rfl, rfl, hahead⟩
  unclosed := .single ⟨rfl, rfl, Kind.noConfusion⟩
  refused h := .single ⟨rfl, rfl, h⟩
  overflow h := .single (about_overflow h)
  keeps_of_advances h := h
  cons _ h := h.of_suffix (List.suffix_cons _ _)
  seq {a _ _ ts _ _ _} _ hrest hr _ hs := fun m hm => (List.mem_append.1 hm).elim (hr m)
    (hs.of_suffix (hrest.trans (a.limit_suffix ts)) m)
  failed _ h := h
  resume h _ := h

end Production

/-- Every mistake in a program is about one of its terminals or about their end. -/
theorem Program.about_mistakes {ts : List Terminal} {m : Mistake}
    (hm : m ∈ (Program.ofTerminals ts).mistakes) : ∃ us, us <:+ ts ∧ m.About us := by
  obtain ⟨-, _, h⟩ := Production.Law.about.ofTerminals .any fun t (_ : t ∈ ts) => trivial
  exact h m hm

end MonkeyLang
