import MonkeyLang.Syntax.Production

/-!
# What passes to all productions

The productions of the grammar call each other, so whatever is to be known of one of them has to be
known of all. A `Law` is a property of replies that passes from productions to the ones made of
them. It says what holds when a production has nothing to complain about, what holds of each
complaint, and how it passes through a sequence. How much a production must get done for that
depends on its `Pace`: to be followed by others inside of a statement it may stay where it is; an
expression moves on; a statement moves on too, but may resume at a terminal that it has complained
about.

What is read is a tree, and `Forms` says of trees what passes from their parts to the whole. A reply
is as a law asks for (`Law.At`) if what is left is an end of what was given, by the pace; if the law
holds of it; and if what is found has the form. So are the replies of all productions
(`Law.all`): this is the one induction over the grammar, and what follows for a law is read off it.

A law may fail of a production whose bound on the depth of calls is used up. It is then a law for
bounds that suffice (`Law.Given`).
-/

namespace MonkeyLang

/-- Does a token of this kind begin an expression? -/
def Grammar.begins : Kind → Bool
  | .identifier | .integer | .string | .trueWord | .falseWord | .bang | .minus | .leftParen
  | .ifWord | .function => true
  | _ => false

namespace Production

variable {α β : Type} {ts us : List Terminal}

/-- The terminals that are left, whichever way a production ends. -/
def Result.rest : Result α → List Terminal
  | .found _ rest => rest
  | .failed rest _ => rest

/-- Whether the production found a value. -/
def Result.isFound : Result α → Bool
  | .found .. => true
  | .failed .. => false

/-! ## Single terminals -/

@[simp] theorem ahead_nil : ahead [] = .endOfInput := rfl

@[simp] theorem ahead_cons (t : Terminal) (rest : List Terminal) : ahead (t :: rest) = t.kind := rfl

/-- A kind other than that of the end is the kind of a terminal. -/
theorem exists_cons_of_ahead {kind : Kind} (h : ahead ts = kind)
    (hk : kind ≠ .endOfInput := by decide) : ∃ l rest, ts = ⟨kind, l⟩ :: rest := by
  subst h
  cases ts with
  | nil => exact absurd rfl hk
  | cons t rest => exact ⟨t.literal, rest, rfl⟩

/-- A terminal that is due and stands there is moved past. -/
theorem expect_bind (kind : Kind) (literal : String) (q : String → Production β)
    (rest : List Terminal) :
    (expect kind >>= q) (⟨kind, literal⟩ :: rest) = q literal rest := by
  have h : expect kind (⟨kind, literal⟩ :: rest) = ⟨[], .found literal rest⟩ := by simp [expect]
  rw [bind_of_found h]
  simp

theorem withoutSemicolon_suffix (ts : List Terminal) : withoutSemicolon ts <:+ ts := by
  unfold withoutSemicolon
  split
  · exact List.suffix_rfl
  · split
    · exact List.suffix_cons _ _
    · exact List.suffix_rfl

theorem afterSemicolon_suffix (ts : List Terminal) : afterSemicolon ts <:+ ts := by
  induction ts with
  | nil => exact List.suffix_rfl
  | cons t rest ih =>
    unfold afterSemicolon
    split
    · exact List.suffix_cons t rest
    · exact ih.trans (List.suffix_cons t rest)

/-- What a production gets done: it may stay where it is; it moves past the first terminal; or it
does so, but may go on at the terminal that it complained about last. -/
inductive Pace where
  | keeps
  | advances
  | resumes

/-- What is left of the terminals is an end of these. -/
def Pace.limit : Pace → List Terminal → List Terminal
  | .keeps, ts => ts
  | .advances, ts => ts.tail
  | .resumes, ts => ts.tail

/-- The paces of two productions and of the sequence of them. What stands behind a statement is a
statement again or the end of a block, and moves on. -/
inductive Pace.Seq : Pace → Pace → Pace → Prop where
  | keeps : Seq .keeps .keeps .keeps
  | advances : Seq .advances .keeps .advances
  | closes : Seq .resumes .advances .advances
  | goesOn : Seq .resumes .resumes .resumes

theorem Pace.limit_suffix (pace : Pace) (ts : List Terminal) : pace.limit ts <:+ ts := by
  cases pace
  · exact List.suffix_rfl
  · exact List.tail_suffix ts
  · exact List.tail_suffix ts

theorem Pace.Seq.limit_eq {a b c : Pace} (h : Seq a b c) (ts : List Terminal) :
    a.limit ts = c.limit ts := by
  cases h <;> rfl

/-- What a reply says but for the value. -/
structure Outline where
  mistakes : List Mistake
  rest : List Terminal
  found : Bool

/-- The reply without its value. -/
def Reply.outline (r : Reply α) : Outline := ⟨r.mistakes, r.result.rest, r.result.isFound⟩

/-- What holds, at each pace, of the replies of productions, and passes from productions to the ones
made of them. -/
structure Law where
  holds : Pace → List Terminal → Outline → Prop
  /-- Whether it holds of productions whose bound is used up. -/
  exhausts : Prop
  exhausted {pace : Pace} {ts : List Terminal} : exhausts → holds pace ts ⟨[], [], false⟩
  clean {pace : Pace} {ts rest : List Terminal} : rest <:+ ts → holds pace ts ⟨[], rest, true⟩
  unexpected {kind : Kind} {ts : List Terminal} : ahead ts ≠ kind →
    holds .keeps ts ⟨[⟨.unexpected kind (ahead ts), ts.length⟩], ts, false⟩
  unclosed : holds .advances [] ⟨[⟨.unexpected .rightBrace .endOfInput, 0⟩], [], true⟩
  refused {ts : List Terminal} : Grammar.begins (ahead ts) = false →
    holds .advances ts ⟨[⟨.noExpression (ahead ts), ts.length⟩], ts.tail, false⟩
  overflow {literal : String} {rest : List Terminal} : Decimal.int64? literal.toList = none →
    holds .advances (⟨.integer, literal⟩ :: rest)
      ⟨[⟨.integerRange literal, rest.length + 1⟩], rest, false⟩
  keeps_of_advances {ts : List Terminal} {o : Outline} : holds .advances ts o → holds .keeps ts o
  cons {t : Terminal} {rest : List Terminal} {o : Outline} : o.rest <:+ rest →
    holds .keeps rest o → holds .advances (t :: rest) o
  seq {a b c : Pace} {ts rest : List Terminal} {ms : List Mistake} {o : Outline} : Pace.Seq a b c →
    rest <:+ a.limit ts → holds a ts ⟨ms, rest, true⟩ →
    o.rest <:+ b.limit rest → holds b rest o → holds c ts ⟨ms ++ o.mistakes, o.rest, o.found⟩
  failed {a b c : Pace} {ts rest : List Terminal} {ms : List Mistake} : Pace.Seq a b c →
    holds a ts ⟨ms, rest, false⟩ → holds c ts ⟨ms, rest, false⟩
  resume {ts left : List Terminal} {o : Outline} : holds .advances ts o → left <:+ o.rest →
    holds .resumes ts ⟨o.mistakes, left, true⟩

/-- What is to be true of trees, and passes from what is found to the trees that are made of it. -/
structure Forms where
  /-- What the terminals are to be like. -/
  terminal : Terminal → Prop
  name : String → Prop
  expr : Expr → Prop
  exprs : List Expr → Prop
  stmt : Stmt → Prop
  stmts : List Stmt → Prop
  name_of {x : String} : terminal ⟨.identifier, x⟩ → name x
  identifier {x : String} : name x → expr (.identifier x)
  integer {literal : String} {value : Int64} : Decimal.int64? literal.toList = some value →
    expr (.integer value)
  string (x : String) : expr (.string x)
  boolean (b : Bool) : expr (.boolean b)
  unary {operator : UnaryOperator} {e : Expr} : expr e → expr (.unary operator e)
  binary {operator : BinaryOperator} {e f : Expr} : expr e → expr f → expr (.binary operator e f)
  conditional {c : Expr} {a : List Stmt} {b : Option (List Stmt)} : expr c → stmts a →
    (∀ ss ∈ b, stmts ss) → expr (.conditional c a b)
  function {xs : List String} {body : List Stmt} : (∀ x ∈ xs, name x) → stmts body →
    expr (.function xs body)
  call {f : Expr} {es : List Expr} : expr f → exprs es → expr (.call f es)
  exprs_nil : exprs []
  exprs_cons {e : Expr} {es : List Expr} : expr e → exprs es → exprs (e :: es)
  binding {x : String} {e : Expr} : name x → expr e → stmt (.binding x e)
  leave {e : Expr} : expr e → stmt (.leave e)
  expression {e : Expr} : expr e → stmt (.expression e)
  stmts_nil : stmts []
  stmts_cons {s : Stmt} {ss : List Stmt} : stmt s → stmts ss → stmts (s :: ss)

/-- Nothing is asked of a tree. -/
def Forms.any : Forms where
  terminal _ := True
  name _ := True
  expr _ := True
  exprs _ := True
  stmt _ := True
  stmts _ := True
  name_of _ := trivial
  identifier _ := trivial
  integer _ := trivial
  string _ := trivial
  boolean _ := trivial
  unary _ := trivial
  binary _ _ := trivial
  conditional _ _ _ := trivial
  function _ _ := trivial
  call _ _ := trivial
  exprs_nil := trivial
  exprs_cons _ _ := trivial
  binding _ _ := trivial
  leave _ := trivial
  expression _ := trivial
  stmts_nil := trivial
  stmts_cons _ _ := trivial

theorem Forms.stmts_append (F : Forms) {s? : Option Stmt} {ss : List Stmt}
    (hs : ∀ s ∈ s?, F.stmt s) (hss : F.stmts ss) : F.stmts (s?.toList ++ ss) := by
  cases s? with
  | none => exact hss
  | some s => exact F.stmts_cons (hs s rfl) hss

namespace Law

variable {L : Law} {F : Forms} {pace a b c : Pace} {P : α → Prop} {Q : β → Prop}
  {p : Production α} {q : α → Production β} {r : Reply α}

/-- The reply to the terminals is as the law asks for at the pace, and what is found has the
property. -/
structure At (L : Law) (pace : Pace) (P : α → Prop) (ts : List Terminal) (r : Reply α) :
    Prop where
  rest_suffix : r.result.rest <:+ pace.limit ts
  holds : L.holds pace ts r.outline
  found : ∀ v rest, r.result = .found v rest → P v

theorem at_found {v : α} {rest : List Terminal} (hrest : rest <:+ pace.limit ts) (hv : P v) :
    L.At pace P ts ⟨[], .found v rest⟩ where
  rest_suffix := hrest
  holds := L.clean (hrest.trans (pace.limit_suffix ts))
  found := by
    rintro _ _ ⟨⟩
    exact hv

theorem at_pure {v : α} (hv : P v) : L.At .keeps P ts ((pure v : Production α) ts) :=
  at_found List.suffix_rfl hv

theorem at_exhausted (h : L.exhausts) :
    L.At pace P ts ((Production.exhausted : Production α) ts) where
  rest_suffix := List.nil_suffix
  holds := L.exhausted h
  found := nofun

theorem At.keeps (h : L.At .advances P ts r) : L.At .keeps P ts r where
  rest_suffix := h.rest_suffix.trans (List.tail_suffix ts)
  holds := L.keeps_of_advances h.holds
  found := h.found

/-- A reply to what stands behind a terminal is one that moves past it. -/
theorem At.cons {t : Terminal} (h : L.At .keeps P ts r) : L.At .advances P (t :: ts) r where
  rest_suffix := h.rest_suffix
  holds := L.cons h.rest_suffix h.holds
  found := h.found

/-! ## Sequences -/

theorem At.bind (hp : L.At a P ts (p ts)) (hpace : Pace.Seq a b c)
    (hq : ∀ v rest, P v → rest <:+ a.limit ts → L.At b Q rest (q v rest)) :
    L.At c Q ts ((p >>= q) ts) := by
  obtain ⟨hrest, hholds, hfound⟩ := hp
  cases h : p ts with
  | mk ms result =>
    rw [h] at hrest hholds hfound
    cases result with
    | failed rest closed =>
      rw [bind_of_failed h]
      exact ⟨hpace.limit_eq ts ▸ hrest, L.failed hpace hholds, nofun⟩
    | found v rest =>
      have hnext := hq v rest (hfound v rest rfl) hrest
      rw [bind_of_found h]
      refine ⟨?_, L.seq hpace hrest hholds hnext.rest_suffix hnext.holds, hnext.found⟩
      rw [← hpace.limit_eq ts]
      exact hnext.rest_suffix.trans ((b.limit_suffix rest).trans hrest)

theorem At.map {f : α → β} (hp : L.At pace P ts (p ts)) (hf : ∀ v, P v → Q (f v)) :
    L.At pace Q ts ((f <$> p) ts) := by
  obtain ⟨hrest, hholds, hfound⟩ := hp
  rw [map_eq_pure_bind]
  cases h : p ts with
  | mk ms result =>
    rw [h] at hrest hholds hfound
    cases result with
    | failed rest closed =>
      rw [bind_of_failed h]
      exact ⟨hrest, hholds, nofun⟩
    | found v rest =>
      rw [bind_of_found h]
      show L.At pace Q ts ⟨ms ++ [], .found (f v) rest⟩
      rw [List.append_nil]
      refine ⟨hrest, hholds, ?_⟩
      rintro _ _ ⟨⟩
      exact hf v (hfound v rest rfl)

/-- A terminal that is due, and what stands behind it. -/
theorem at_due (kind : Kind) {q : String → Production β}
    (hq : ∀ l rest, ts = ⟨kind, l⟩ :: rest → L.At .keeps Q rest (q l rest))
    (hk : kind ≠ .endOfInput := by decide) : L.At .keeps Q ts ((expect kind >>= q) ts) := by
  by_cases hahead : ahead ts = kind
  · obtain ⟨l, rest, rfl⟩ := exists_cons_of_ahead hahead hk
    rw [expect_bind]
    exact (hq l rest rfl).cons.keeps
  · have hexpect : expect kind ts =
        ⟨[⟨.unexpected kind (ahead ts), ts.length⟩], .failed ts false⟩ := by
      cases ts with
      | nil => rfl
      | cons t rest => exact if_neg hahead
    rw [bind_of_failed hexpect]
    exact ⟨List.suffix_rfl, L.unexpected hahead, nofun⟩

/-- A sign or a keyword that is due. -/
theorem at_sign (kind : Kind) {q : Production β}
    (hq : ∀ rest, rest <:+ ts → L.At .keeps Q rest (q rest))
    (hk : kind ≠ .endOfInput := by decide) : L.At .keeps Q ts ((expect kind >>= fun _ => q) ts) :=
  at_due kind (fun _ rest h => hq rest (h ▸ List.suffix_cons _ rest)) hk

theorem at_semicolon : L.At .keeps (fun _ => True) ts (semicolon ts) :=
  at_found (withoutSemicolon_suffix ts) trivial

theorem at_refuse (h : Grammar.begins (ahead ts) = false) :
    L.At .advances P ts ((refuse : Production α) ts) := by
  cases ts with
  | nil => exact ⟨List.suffix_rfl, L.refused h, nofun⟩
  | cons t rest => exact ⟨List.suffix_rfl, L.refused h, nofun⟩

theorem at_integer {literal : String} {rest : List Terminal} :
    L.At .advances F.expr (⟨.integer, literal⟩ :: rest)
      (integer (⟨.integer, literal⟩ :: rest)) := by
  cases h : Decimal.int64? literal.toList with
  | some value =>
    simp only [Production.integer, h]
    exact at_found List.suffix_rfl (F.integer h)
  | none =>
    simp only [Production.integer, h]
    exact ⟨List.suffix_rfl, L.overflow h, nofun⟩

theorem at_behind (kind : Kind) (hp : ∀ rest, rest <:+ ts → L.At .keeps P rest (p rest)) :
    L.At .keeps (fun v? => ∀ v ∈ v?, P v) ts (behind kind p ts) := by
  have hnone : ∀ v ∈ (none : Option α), P v := nofun
  cases ts with
  | nil => exact at_found List.suffix_rfl hnone
  | cons t rest =>
    simp only [Production.behind]
    split
    · refine ((hp rest (List.suffix_cons t rest)).map fun v hv => ?_).cons.keeps
      rintro _ ⟨⟩
      exact hv
    · exact at_pure hnone

theorem At.attempt {P : Stmt → Prop} {p : Production Stmt}
    {resume : List Terminal → Bool → List Terminal} (hp : L.At .advances P ts (p ts))
    (hresume : ∀ us closed, resume us closed <:+ us) :
    L.At .resumes (fun s? => ∀ s ∈ s?, P s) ts (attempt resume p ts) := by
  obtain ⟨hrest, hholds, hfound⟩ := hp
  unfold Production.attempt
  cases h : p ts with
  | mk ms result =>
    rw [h] at hrest hholds hfound
    cases result with
    | failed rest closed =>
      exact ⟨(hresume rest closed).trans hrest, L.resume hholds (hresume rest closed), by
        rintro _ _ ⟨⟩ _ ⟨⟩⟩
    | found s rest =>
      refine ⟨hrest, L.resume hholds List.suffix_rfl, ?_⟩
      rintro _ _ ⟨⟩ _ ⟨⟩
      exact hfound s rest rfl

/-! ## The productions of the grammar -/

/-- If the law asks for it, a bound of `n` suffices for the terminals, but for `k` calls; and the
terminals are as they are to be. -/
structure Given (L : Law) (F : Forms) (k n : Nat) (ts : List Terminal) : Prop where
  enough : L.exhausts ∨ 4 * ts.length + k ≤ n
  terminals : ∀ t ∈ ts, F.terminal t

section
variable {k k' n : Nat}

theorem given_any (h : L.exhausts ∨ 4 * ts.length + k ≤ n) : L.Given .any k n ts :=
  ⟨h, fun _ _ => trivial⟩

theorem Given.exhausts (h : L.Given F k 0 ts) (hk : 0 < k := by decide) : L.exhausts :=
  h.enough.resolve_right (by omega)

theorem Given.of_suffix (h : L.Given F k n ts) (hs : us <:+ ts) : L.Given F k n us where
  enough := h.enough.imp_right fun hle => by
    have := hs.length_le
    omega
  terminals t ht := h.terminals t (hs.mem ht)

/-- A call on what is left. -/
theorem Given.call (h : L.Given F k (n + 1) ts) (hs : us <:+ ts) (hk : k' < k := by decide) :
    L.Given F k' n us where
  enough := h.enough.imp_right fun hle => by
    have := hs.length_le
    omega
  terminals t ht := h.terminals t (hs.mem ht)

/-- A call on what is left behind the first terminal. -/
theorem Given.behind {t : Terminal} (h : L.Given F k (n + 1) (t :: ts)) (hs : us <:+ ts)
    (hk : k' ≤ k + 3 := by decide) : L.Given F k' n us where
  enough := h.enough.imp_right fun hle => by
    have := hs.length_le
    rw [List.length_cons] at hle
    omega
  terminals u hu := h.terminals u (List.mem_cons_of_mem t (hs.mem hu))

end

/-- With a bound of `n` on the depth of calls, all replies are as the law asks for. -/
structure All (L : Law) (F : Forms) (n : Nat) : Prop where
  expression : ∀ floor {ts}, L.Given F 2 n ts →
    L.At .advances F.expr ts (Production.expression n floor ts)
  operand : ∀ {ts}, L.Given F 1 n ts → L.At .advances F.expr ts (Production.operand n ts)
  extend : ∀ {floor left ts}, L.Given F 1 n ts → F.expr left →
    L.At .keeps F.expr ts (Production.extend n floor left ts)
  arguments : ∀ {ts}, L.Given F 3 n ts → L.At .advances F.exprs ts (Production.arguments n ts)
  moreArguments : ∀ {ts}, L.Given F 1 n ts →
    L.At .keeps F.exprs ts (Production.moreArguments n ts)
  block : ∀ {ts}, L.Given F 4 n ts → L.At .advances F.stmts ts (Production.block n ts)
  statement : ∀ {ts}, L.Given F 3 n ts →
    L.At .resumes (fun s? => ∀ s ∈ s?, F.stmt s) ts (Production.statement n ts)

variable {n : Nat}

theorem at_moreParameters (n : Nat) (h : L.Given F 1 n ts) :
    L.At .keeps (fun xs => ∀ x ∈ xs, F.name x) ts (moreParameters n ts) := by
  induction n generalizing ts with
  | zero => exact at_exhausted h.exhausts
  | succ n ih =>
    unfold moreParameters
    split
    · refine at_sign .comma fun us hus => at_due .identifier fun x vs hvs => ?_
      subst hvs
      have hx := F.name_of (h.terminals _ (hus.mem List.mem_cons_self))
      refine (ih ((h.of_suffix hus).behind List.suffix_rfl)).bind .keeps fun xs _ hxs _ => ?_
      exact at_pure (List.forall_mem_cons.2 ⟨hx, hxs⟩)
    · exact at_sign .rightParen fun _ _ => at_pure (List.forall_mem_nil _)

theorem at_parameters (h : L.Given F 0 n ts) :
    L.At .keeps (fun xs => ∀ x ∈ xs, F.name x) ts (parameters n ts) := by
  unfold parameters
  split
  · exact at_sign .rightParen fun _ _ => at_pure (List.forall_mem_nil _)
  · refine at_due .identifier fun x us hus => ?_
    subst hus
    have hx := F.name_of (h.terminals _ List.mem_cons_self)
    have hbehind : L.Given F 1 n us := {
      enough := h.enough.imp_right fun hle => by
        rw [List.length_cons] at hle
        omega
      terminals := fun t ht => h.terminals t (List.mem_cons_of_mem _ ht) }
    refine (at_moreParameters n hbehind).bind .keeps fun xs _ hxs _ => ?_
    exact at_pure (List.forall_mem_cons.2 ⟨hx, hxs⟩)

theorem All.operand_succ (ih : L.All F n) (h : L.Given F 1 (n + 1) ts) :
    L.At .advances F.expr ts (Production.operand (n + 1) ts) := by
  rcases ts with _ | ⟨⟨kind, literal⟩, rest⟩
  · exact at_refuse rfl
  · cases kind with
    | identifier =>
      exact at_found List.suffix_rfl (F.identifier (F.name_of (h.terminals _ List.mem_cons_self)))
    | string => exact at_found List.suffix_rfl (F.string literal)
    | trueWord => exact at_found List.suffix_rfl (F.boolean true)
    | falseWord => exact at_found List.suffix_rfl (F.boolean false)
    | integer => exact at_integer
    | bang | minus =>
      have hvalue := ih.expression .unary (h.behind List.suffix_rfl)
      exact (hvalue.keeps.map fun _ he => F.unary he).cons
    | leftParen =>
      have hinner := ih.expression .lowest (h.behind List.suffix_rfl)
      refine (hinner.keeps.bind .keeps fun e us he _ => ?_).cons
      exact at_sign .rightParen fun _ _ => at_pure he
    | ifWord =>
      refine (at_sign .leftParen fun us₁ h₁ => ?_).cons
      have hcondition := ih.expression .lowest (h.behind h₁)
      refine hcondition.keeps.bind .keeps fun e us₂ he h₂ => ?_
      refine at_sign .rightParen fun us₃ h₃ => at_sign .leftBrace fun us₄ h₄ => ?_
      have hrest₄ := h₄.trans (h₃.trans (h₂.trans h₁))
      refine (ih.block (h.behind hrest₄)).keeps.bind .keeps fun ss us₅ hss h₅ => ?_
      refine (at_behind .elseWord fun us₆ h₆ => at_sign .leftBrace fun us₇ h₇ => ?_).bind .keeps
        fun alternative _ halternative _ => at_pure (F.conditional he hss halternative)
      exact (ih.block (h.behind (h₇.trans (h₆.trans (h₅.trans hrest₄))))).keeps
    | function =>
      refine (at_sign .leftParen fun us₁ h₁ => ?_).cons
      refine (at_parameters (h.behind h₁)).bind .keeps fun xs us₂ hxs h₂ => ?_
      refine at_sign .leftBrace fun us₃ h₃ => ?_
      have hbody := ih.block (h.behind (h₃.trans (h₂.trans h₁)))
      exact hbody.keeps.bind .keeps fun ss _ hss _ => at_pure (F.function hxs hss)
    | _ => exact at_refuse rfl

theorem All.extend_succ (ih : L.All F n) {floor : Precedence} {left : Expr}
    (h : L.Given F 1 (n + 1) ts) (hleft : F.expr left) :
    L.At .keeps F.expr ts (Production.extend (n + 1) floor left ts) := by
  unfold Production.extend
  split
  · exact at_found List.suffix_rfl hleft
  · next t rest =>
    split
    · split
      · next operator _ =>
        have hright := ih.expression operator.precedence (h.behind List.suffix_rfl)
        refine (hright.keeps.bind .keeps fun e us he hus => ?_).cons.keeps
        exact ih.extend (h.behind hus) (F.binary hleft he)
      · have hvalues := ih.arguments (h.behind List.suffix_rfl)
        refine (hvalues.keeps.bind .keeps fun es us hes hus => ?_).cons.keeps
        exact ih.extend (h.behind hus) (F.call hleft hes)
    · exact at_found List.suffix_rfl hleft

theorem All.arguments_succ (ih : L.All F n) (h : L.Given F 3 (n + 1) ts) :
    L.At .advances F.exprs ts (Production.arguments (n + 1) ts) := by
  unfold Production.arguments
  split
  · next hahead =>
    obtain ⟨l, rest, rfl⟩ := exists_cons_of_ahead hahead
    rw [expect_bind]
    exact at_found List.suffix_rfl F.exprs_nil
  · refine (ih.expression .lowest (h.call List.suffix_rfl)).bind .advances fun e us he hus => ?_
    have hmore := ih.moreArguments (h.call (hus.trans (List.tail_suffix ts)))
    exact hmore.bind .keeps fun es _ hes _ => at_pure (F.exprs_cons he hes)

theorem All.moreArguments_succ (ih : L.All F n) (h : L.Given F 1 (n + 1) ts) :
    L.At .keeps F.exprs ts (Production.moreArguments (n + 1) ts) := by
  unfold Production.moreArguments
  split
  · refine at_due .comma fun l us hus => ?_
    subst hus
    have hvalue := ih.expression .lowest (h.behind List.suffix_rfl)
    refine hvalue.keeps.bind .keeps fun e vs he hvs => ?_
    exact (ih.moreArguments (h.behind hvs)).bind .keeps fun es _ hes _ =>
      at_pure (F.exprs_cons he hes)
  · exact at_sign .rightParen fun _ _ => at_pure F.exprs_nil

theorem All.block_succ (ih : L.All F n) (h : L.Given F 4 (n + 1) ts) :
    L.At .advances F.stmts ts (Production.block (n + 1) ts) := by
  unfold Production.block
  split
  · refine ⟨List.suffix_rfl, L.unclosed, ?_⟩
    rintro _ _ ⟨⟩
    exact F.stmts_nil
  · next t rest =>
    split
    · exact at_found List.suffix_rfl F.stmts_nil
    · refine (ih.statement (h.call List.suffix_rfl)).bind .closes fun s? us hs hus => ?_
      exact (ih.block (h.behind hus)).bind .advances fun ss _ hss _ =>
        at_pure (F.stmts_append hs hss)

/-- A statement is an attempt at one, from which it resumes at what is left then. -/
theorem All.exists_attempt (ih : L.All F n) (h : L.Given F 3 (n + 1) ts) :
    ∃ p resume, Production.statement (n + 1) ts = attempt resume p ts ∧
      L.At .advances F.stmt ts (p ts) ∧ ∀ us closed, resume us closed <:+ us := by
  have hvalue {us : List Terminal} (hus : us <:+ ts) {f : Expr → Stmt}
      (hf : ∀ e, F.expr e → F.stmt (f e)) : L.At .advances F.stmt us
        ((Production.expression n .lowest >>= fun value => semicolon >>= fun _ =>
          pure (f value)) us) :=
    (ih.expression .lowest (h.call hus)).bind .advances fun e _ he _ =>
      at_semicolon.bind .keeps fun _ _ _ _ => at_pure (hf e he)
  unfold Production.statement
  split
  · next hahead =>
    obtain ⟨l, rest, rfl⟩ := exists_cons_of_ahead hahead
    refine ⟨_, _, rfl, ?_, fun us closed => ?_⟩
    · rw [expect_bind]
      refine (at_due .identifier fun x us₁ h₁ => at_sign .assign fun us₂ h₂ => ?_).cons
      subst h₁
      have hx := F.name_of (h.terminals _ (List.mem_cons_of_mem _ List.mem_cons_self))
      exact (hvalue (h₂.trans ((List.suffix_cons _ us₁).trans (List.suffix_cons _ _)))
        fun _ => F.binding hx).keeps
    · split
      · exact List.suffix_rfl
      · exact afterSemicolon_suffix us
  · next hahead =>
    obtain ⟨l, rest, rfl⟩ := exists_cons_of_ahead hahead
    refine ⟨_, _, rfl, ?_, fun _ _ => List.suffix_rfl⟩
    rw [expect_bind]
    exact (hvalue (List.suffix_cons _ rest) fun _ => F.leave).keeps.cons
  · exact ⟨_, _, rfl, hvalue List.suffix_rfl fun _ => F.expression,
      fun us _ => withoutSemicolon_suffix us⟩

theorem All.statement_succ (ih : L.All F n) (h : L.Given F 3 (n + 1) ts) :
    L.At .resumes (fun s? => ∀ s ∈ s?, F.stmt s) ts (Production.statement (n + 1) ts) := by
  obtain ⟨p, resume, heq, hp, hresume⟩ := ih.exists_attempt h
  rw [heq]
  exact hp.attempt hresume

/-- All productions reply as a law asks for, and read trees of the forms. -/
theorem all (L : Law) (F : Forms) (n : Nat) : L.All F n := by
  induction n with
  | zero =>
    exact ⟨fun _ _ h => at_exhausted h.exhausts, fun h => at_exhausted h.exhausts,
      fun h _ => at_exhausted h.exhausts, fun h => at_exhausted h.exhausts,
      fun h => at_exhausted h.exhausts, fun h => at_exhausted h.exhausts,
      fun h => at_exhausted h.exhausts⟩
  | succ n ih =>
    refine ⟨fun _ _ h => ?_, ih.operand_succ, ih.extend_succ, ih.arguments_succ,
      ih.moreArguments_succ, ih.block_succ, ih.statement_succ⟩
    exact (ih.operand (h.call List.suffix_rfl)).bind .advances fun e us he hus =>
      ih.extend (h.call (hus.trans (List.tail_suffix _))) he

theorem at_statements (n : Nat) (h : L.Given F 4 n ts) :
    L.At .resumes F.stmts ts (statements n ts) := by
  induction n generalizing ts with
  | zero => exact at_exhausted h.exhausts
  | succ n ih =>
    unfold statements
    split
    · exact at_found List.suffix_rfl F.stmts_nil
    · next t rest =>
      refine ((L.all F n).statement (h.call List.suffix_rfl)).bind .goesOn fun s? us hs hus => ?_
      have hothers := ih (h.behind hus)
      rw [← map_eq_pure_bind]
      exact hothers.map fun ss hss => F.stmts_append hs hss

/-- The mistakes of a program are as a law asks for, and its statements have the form. -/
theorem ofTerminals (L : Law) (F : Forms) (hts : ∀ t ∈ ts, F.terminal t) :
    F.stmts (Program.ofTerminals ts).program.statements ∧ ∃ found,
      L.holds .resumes ts
        ⟨(Program.ofTerminals ts).mistakes, (Program.ofTerminals ts).rest, found⟩ := by
  have h := at_statements (L := L) (depth ts) ⟨.inr (Nat.le_refl _), hts⟩
  unfold Program.ofTerminals
  split
  · next ms ss rest hrun =>
    rw [hrun] at h
    exact ⟨h.found ss rest rfl, true, h.holds⟩
  · next ms rest closed hrun =>
    rw [hrun] at h
    exact ⟨F.stmts_nil, false, h.holds⟩

end Law

end Production

end MonkeyLang
