import MonkeyLang.Proofs.Production.Mistakes

/-!
# The order of mistakes

Mistakes are noted from the front to the back, and no terminal is complained about twice in the
same way: once as standing in place of another one (`Cause.isUnexpected`), and once as refused,
since no expression begins with it or since it is too large an integer. `Mistake.Precedes` says so
of two mistakes, and `Program.mistakes_ordered` of all mistakes in a program. The end of the list
is different: every block that it leaves open complains about it.

A refused terminal is moved past when it is refused. A terminal that stands in place of another one
is not: the failure leaves it in front, and it is whatever reads on from there that moves past it.
So a sequence of productions keeps the order for one of two reasons. A *tidy* reply that finds
something has moved past all that it complained about; so it is with all productions from which
expressions are made. A statement, which may resume at the terminal that its failure left, is only
*orderly*. What comes behind it is a statement again or the end of a block, and these are *quiet*:
they do not expect another terminal than their first one. `Law.order` asks for one or the other by
the pace.
-/

namespace MonkeyLang

/-- Whether the complaint is that a terminal stands in place of another one. -/
def SyntaxError.Cause.isUnexpected : SyntaxError.Cause → Bool
  | .unexpected _ _ => true
  | .noExpression _ | .integerRange _ => false

namespace Mistake

/-- The second mistake is not about a terminal in front of that of the first; and two mistakes of
one class are about the same place at the end of the terminals only. -/
structure Precedes (a b : Mistake) : Prop where
  left_le : b.left ≤ a.left
  distinct : a.cause.isUnexpected = b.cause.isUnexpected → a.left = b.left → a.left = 0

/-- The mistake is about a terminal in front of the last `count` ones, or about their end. -/
def Passed (count : Nat) (m : Mistake) : Prop := count < m.left ∨ m.left = 0

variable {a b m : Mistake} {count fewer : Nat}

theorem Passed.le (h : m.Passed count) (hle : fewer ≤ count) : m.Passed fewer :=
  h.imp_left (Nat.lt_of_le_of_lt hle)

/-- A place that is moved past is passed. -/
theorem Passed.of_lt (hm : count ≤ m.left) (hlt : fewer < count ∨ fewer = 0) :
    m.Passed fewer := by
  unfold Passed
  omega

/-- What is behind a place follows the mistakes about terminals in front of it. -/
theorem Passed.precedes (ha : a.Passed count) (hle : count ≤ a.left) (hb : b.left ≤ count) :
    a.Precedes b := by
  refine ⟨Nat.le_trans hb hle, fun _ heq => ?_⟩
  rcases ha with ha | ha
  · omega
  · exact ha

end Mistake

namespace Production

variable {ts rest : List Terminal} {ms : List Mistake} {o : Outline}

namespace Outline

/-- The mistakes are in order, they are about terminals from the first of `ts` to the first one that
is left, and a terminal that was refused is not left. -/
structure Orderly (o : Outline) (ts : List Terminal) : Prop where
  ordered : o.mistakes.Pairwise Mistake.Precedes
  within : ∀ m ∈ o.mistakes, m.left ≤ ts.length
  reached : ∀ m ∈ o.mistakes, o.rest.length ≤ m.left
  refused : ∀ m ∈ o.mistakes, m.cause.isUnexpected = false → m.Passed o.rest.length

/-- Moreover, once something is found, no terminal that was complained about is left. -/
structure Tidy (o : Outline) (ts : List Terminal) : Prop extends o.Orderly ts where
  settled : o.found = true → ∀ m ∈ o.mistakes, m.Passed o.rest.length

/-- No other terminal is expected in place of the first one. -/
def Quiet (o : Outline) (ts : List Terminal) : Prop :=
  ∀ m ∈ o.mistakes, m.cause.isUnexpected = true → m.left < ts.length ∨ m.left = 0

/-- Nothing is wrong. -/
theorem Tidy.clean {found : Bool} : (⟨[], rest, found⟩ : Outline).Tidy ts :=
  ⟨⟨.nil, List.forall_mem_nil _, List.forall_mem_nil _, List.forall_mem_nil _⟩,
    fun _ => List.forall_mem_nil _⟩

theorem Quiet.clean {found : Bool} : (⟨[], rest, found⟩ : Outline).Quiet ts :=
  List.forall_mem_nil _

/-- One mistake, at a terminal that is left only if the production fails and did not refuse it. -/
theorem Tidy.single {m : Mistake} {found : Bool} (hrest : rest.length ≤ m.left)
    (hm : m.left ≤ ts.length)
    (hpassed : m.cause.isUnexpected = false ∨ found = true → m.Passed rest.length) :
    (⟨[m], rest, found⟩ : Outline).Tidy ts where
  ordered := List.pairwise_singleton _ m
  within := List.forall_mem_singleton.2 hm
  reached := List.forall_mem_singleton.2 hrest
  refused := List.forall_mem_singleton.2 fun hc => hpassed (.inl hc)
  settled hfound := List.forall_mem_singleton.2 (hpassed (.inr hfound))

/-- What is refused is no terminal that is expected. -/
theorem Quiet.single {m : Mistake} {found : Bool}
    (h : m.cause.isUnexpected = true → m.left < ts.length ∨ m.left = 0) :
    (⟨[m], rest, found⟩ : Outline).Quiet ts :=
  List.forall_mem_singleton.2 h

/-- What is wrong behind the first terminal is not complained about in its place. -/
theorem Orderly.quiet (h : o.Orderly rest) (hrest : rest <:+ ts.tail) : o.Quiet ts := by
  intro m hm _
  have hwithin := h.within m hm
  have hle := hrest.length_le
  rw [List.length_tail] at hle
  omega

/-- Mistakes about an end of the terminals are in order for all of them. -/
theorem Orderly.of_suffix (h : o.Orderly rest) (hrest : rest <:+ ts) : o.Orderly ts :=
  { h with within := fun m hm => Nat.le_trans (h.within m hm) hrest.length_le }

/-- Two replies, the second to what the first leaves, when their mistakes are in order. -/
theorem Orderly.append (hr : (⟨ms, rest, true⟩ : Outline).Orderly ts) (hs : o.Orderly rest)
    (hrest : rest <:+ ts) (hleft : o.rest <:+ rest)
    (h : ∀ a ∈ ms, ∀ b ∈ o.mistakes, a.Precedes b) :
    (⟨ms ++ o.mistakes, o.rest, o.found⟩ : Outline).Orderly ts where
  ordered := List.pairwise_append.2 ⟨hr.ordered, hs.ordered, h⟩
  within m hm := (List.mem_append.1 hm).elim (hr.within m) ((hs.of_suffix hrest).within m)
  reached m hm := (List.mem_append.1 hm).elim
    (fun hm => Nat.le_trans hleft.length_le (hr.reached m hm)) (hs.reached m)
  refused m hm hc := (List.mem_append.1 hm).elim
    (fun hm => (hr.refused m hm hc).le hleft.length_le) (fun hm => hs.refused m hm hc)

/-- The mistakes of a tidy reply precede all that follow. -/
theorem Tidy.append (hr : (⟨ms, rest, true⟩ : Outline).Tidy ts) (hs : o.Tidy rest)
    (hrest : rest <:+ ts) (hleft : o.rest <:+ rest) :
    (⟨ms ++ o.mistakes, o.rest, o.found⟩ : Outline).Tidy ts where
  toOrderly := hr.toOrderly.append hs.toOrderly hrest hleft fun a ha b hb =>
    (hr.settled rfl a ha).precedes (hr.reached a ha) (hs.within b hb)
  settled hfound m hm := (List.mem_append.1 hm).elim
    (fun hm => (hr.settled rfl m hm).le hleft.length_le) (hs.settled hfound m)

/-- The mistakes of a quiet reply follow those of the reply in front of it. -/
theorem Quiet.precedes (hr : (⟨ms, rest, true⟩ : Outline).Orderly ts) (hs : o.Orderly rest)
    (hq : o.Quiet rest) : ∀ a ∈ ms, ∀ b ∈ o.mistakes, a.Precedes b := by
  intro a ha b hb
  have hreached := hr.reached a ha
  have hwithin := hs.within b hb
  cases hc : a.cause.isUnexpected with
  | false => exact (hr.refused a ha hc).precedes hreached hwithin
  | true =>
    refine ⟨Nat.le_trans hwithin hreached, fun hclass heq => ?_⟩
    have hb := hq b hb (hclass ▸ hc)
    dsimp only at hreached
    omega

/-- A tidy reply that moves on settles what is in front of it. -/
theorem Orderly.append_advances (hr : (⟨ms, rest, true⟩ : Outline).Orderly ts) (hs : o.Tidy rest)
    (hq : o.Quiet rest) (hrest : rest <:+ ts) (hleft : o.rest <:+ rest.tail) :
    (⟨ms ++ o.mistakes, o.rest, o.found⟩ : Outline).Tidy ts where
  toOrderly := hr.append hs.toOrderly hrest (hleft.trans (List.tail_suffix rest))
    (hq.precedes hr hs.toOrderly)
  settled hfound m hm := by
    rcases List.mem_append.1 hm with hm | hm
    · -- What the first reply left in front is not left by the second one.
      have hle := hleft.length_le
      rw [List.length_tail] at hle
      have hlt : o.rest.length < rest.length ∨ o.rest.length = 0 := by omega
      exact .of_lt (hr.reached m hm) hlt
    · exact hs.settled hfound m hm

theorem Quiet.of_suffix (h : o.Quiet rest) (hrest : rest <:+ ts) : o.Quiet ts :=
  fun m hm hc => (h m hm hc).imp_left fun hlt => Nat.lt_of_lt_of_le hlt hrest.length_le

theorem Quiet.append (hr : (⟨ms, rest, true⟩ : Outline).Quiet ts) (hs : o.Quiet ts) :
    (⟨ms ++ o.mistakes, o.rest, o.found⟩ : Outline).Quiet ts :=
  List.forall_mem_append.2 ⟨hr, hs⟩

end Outline

/-- What is asked of the mistakes of a reply, by its pace. -/
def InOrder : Pace → List Terminal → Outline → Prop
  | .keeps, ts, o => o.Tidy ts
  | .advances, ts, o => o.Tidy ts ∧ o.Quiet ts
  | .resumes, ts, o => o.Orderly ts ∧ o.Quiet ts

open Outline in
/-- Mistakes are noted in order. -/
def Law.order : Law where
  holds := InOrder
  exhausts := True
  exhausted {pace _} _ := by
    cases pace
    · exact .clean
    · exact ⟨.clean, .clean⟩
    · exact ⟨Tidy.clean.toOrderly, .clean⟩
  clean {pace _ _} _ := by
    cases pace
    · exact .clean
    · exact ⟨.clean, .clean⟩
    · exact ⟨Tidy.clean.toOrderly, .clean⟩
  unexpected _ := .single (Nat.le_refl _) (Nat.le_refl _) nofun
  unclosed := ⟨.single (Nat.le_refl _) (Nat.le_refl _) fun _ => .inr rfl, .single fun _ => .inr rfl⟩
  refused {ts} _ := by
    have hlt : ts.tail.length < ts.length ∨ ts.tail.length = 0 := by
      rw [List.length_tail]
      omega
    exact ⟨.single (List.tail_suffix ts).length_le (Nat.le_refl _) fun _ =>
      .of_lt (Nat.le_refl ts.length) hlt, .single nofun⟩
  overflow _ := ⟨.single (Nat.le_succ _) (Nat.le_refl _) fun _ => .inl (Nat.lt_succ_self _),
    .single nofun⟩
  keeps_of_advances h := h.1
  cons _ h := ⟨{ h with toOrderly := h.toOrderly.of_suffix (List.suffix_cons _ _) },
    h.toOrderly.quiet List.suffix_rfl⟩
  seq {a _ _ ts rest ms o} hpace hrest hr hleft hs := by
    have hsuffix := hrest.trans (a.limit_suffix ts)
    cases hpace with
    | keeps => exact hr.append hs hsuffix hleft
    | advances =>
      exact ⟨hr.1.append hs hsuffix hleft, hr.2.append (hs.toOrderly.quiet hrest)⟩
    | closes =>
      exact ⟨hr.1.append_advances hs.1 hs.2 hsuffix hleft, hr.2.append (hs.2.of_suffix hsuffix)⟩
    | goesOn =>
      have hleft := hleft.trans (List.tail_suffix _)
      exact ⟨hr.1.append hs.1 hsuffix hleft (hs.2.precedes hr.1 hs.1),
        hr.2.append (hs.2.of_suffix hsuffix)⟩
  failed hpace h := by
    cases hpace with
    | keeps => exact h
    | advances => exact h
    | closes => exact ⟨⟨h.1, nofun⟩, h.2⟩
    | goesOn => exact h
  resume h hleft := ⟨{
    ordered := h.1.ordered
    within := h.1.within
    reached := fun m hm => Nat.le_trans hleft.length_le (h.1.reached m hm)
    refused := fun m hm hc => (h.1.refused m hm hc).le hleft.length_le }, h.2⟩

end Production

/-- The mistakes in a program are noted from its front to its end, and no two of one class are about
the same terminal. -/
theorem Program.mistakes_ordered (ts : List Terminal) :
    (Program.ofTerminals ts).mistakes.Pairwise Mistake.Precedes := by
  obtain ⟨-, _, h⟩ := Production.Law.order.ofTerminals .any fun t (_ : t ∈ ts) => trivial
  exact h.1.ordered

end MonkeyLang
