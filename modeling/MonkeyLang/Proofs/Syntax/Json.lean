import MonkeyLang.Proofs.Json.Reading
import MonkeyLang.Syntax.Json

/-!
# Trees and their JSON form

Nothing of a tree is lost in its JSON form: reading the form gives the tree back, whatever the tree
holds (`Expr.read?_toJson` and its companions, by induction on the tree). A tree is not deeper than
its form, so the bound on the depth of reading, which is the depth of the form, suffices. The form
has no number that is not an integer; so both texts that are written for it are JSON texts, and
each of them gives the form back, and with it the tree (`toJson_lossless`).
-/

namespace MonkeyLang

open Json

namespace Json

/-! ## Depth -/

theorem depth_pos (j : Json) : 0 < j.depth := by
  cases j <;> exact Nat.succ_pos _

/-- A bound that is not less than a depth is not zero. -/
theorem exists_eq_succ {j : Json} {n : Nat} (h : j.depth ≤ n) : ∃ k, n = k + 1 :=
  Nat.exists_eq_succ_of_ne_zero (Nat.ne_of_gt (Nat.lt_of_lt_of_le j.depth_pos h))

theorem depth_nodeJson (kind : String) (body : Json) :
    (nodeJson kind body).depth = body.depth + 1 := by
  simp [nodeJson, depth, depthMembers]

theorem depth_blockJson (js : List Json) :
    (blockJson js).depth = depthItems js + 2 := by
  simp [blockJson, depth, depthMembers]

/-! ## Nodes

Each kind of node is read if what belongs to it is. Its fields are found by computation, which
leaves its parts to be read one after the other. -/

theorem names?_map (xs : List String) : names? (.arr (xs.map nameJson)) = some xs := by
  show (xs.map nameJson).mapM name? = some xs
  induction xs with
  | nil => rfl
  | cons x xs ih =>
    rw [List.map_cons, List.mapM_cons, ih]
    rfl

/-- A signed 64-bit word is within the bounds that are checked. -/
theorem int64?_toInt (n : Int64) : int64? (.int n.toInt) = some n := by
  have hle := n.le_toInt
  have hlt := n.toInt_lt
  have hbounds : -0x8000000000000000 ≤ n.toInt ∧ n.toInt ≤ 0x7FFFFFFFFFFFFFFF := by omega
  show (if _ then _ else _) = some n
  rw [if_pos hbounds, Int64.ofInt_toInt]

end Json

section
variable {n : Nat} {a b : Expr} {ss us : List Stmt} {as : List Expr} {js : List Json}

theorem read?_integer (k : Int64) :
    Expr.read? (n + 1) (Expr.integer k).toJson = some (.integer k) := by
  show (int64? (.int k.toInt)).bind _ = _
  rw [int64?_toInt]
  rfl

theorem read?_unary (o : UnaryOperator) (ha : Expr.read? n a.toJson = some a) :
    Expr.read? (n + 1) (Expr.unary o a).toJson = some (.unary o a) := by
  show (UnaryOperator.ofTag? o.tag).bind _ = _
  rw [o.ofTag?_tag, Option.bind_some]
  show (Expr.read? n a.toJson).bind _ = _
  rw [ha]
  rfl

theorem read?_binary (o : BinaryOperator) (ha : Expr.read? n a.toJson = some a)
    (hb : Expr.read? n b.toJson = some b) :
    Expr.read? (n + 1) (Expr.binary o a b).toJson = some (.binary o a b) := by
  show (BinaryOperator.ofTag? o.tag).bind _ = _
  rw [o.ofTag?_tag, Option.bind_some]
  show (Expr.read? n a.toJson).bind _ = _
  rw [ha, Option.bind_some]
  show (Expr.read? n b.toJson).bind _ = _
  rw [hb]
  rfl

/-- A conditional without an alternative is written with `null` in its place. -/
theorem read?_conditional (ha : Expr.read? n a.toJson = some a)
    (hss : readBlock? n (blockJson (statementsJson ss)) = some ss) :
    Expr.read? (n + 1) (Expr.conditional a ss none).toJson = some (.conditional a ss none) := by
  show (Expr.read? n a.toJson).bind _ = _
  rw [ha, Option.bind_some]
  show (readBlock? n (blockJson (statementsJson ss))).bind _ = _
  rw [hss]
  rfl

theorem read?_alternative (ha : Expr.read? n a.toJson = some a)
    (hss : readBlock? n (blockJson (statementsJson ss)) = some ss)
    (hus : readBlock? n (blockJson (statementsJson us)) = some us) :
    Expr.read? (n + 1) (Expr.conditional a ss (some us)).toJson =
      some (.conditional a ss (some us)) := by
  show (Expr.read? n a.toJson).bind _ = _
  rw [ha, Option.bind_some]
  show (readBlock? n (blockJson (statementsJson ss))).bind _ = _
  rw [hss, Option.bind_some]
  show (readBlock? n (blockJson (statementsJson us))).bind _ = _
  rw [hus]
  rfl

theorem read?_function (xs : List String)
    (hss : readBlock? n (blockJson (statementsJson ss)) = some ss) :
    Expr.read? (n + 1) (Expr.function xs ss).toJson = some (.function xs ss) := by
  show (names? (.arr (xs.map nameJson))).bind _ = _
  rw [names?_map, Option.bind_some]
  show (readBlock? n (blockJson (statementsJson ss))).bind _ = _
  rw [hss]
  rfl

theorem read?_call (ha : Expr.read? n a.toJson = some a)
    (has : (argumentsJson as).mapM (Expr.read? n) = some as) :
    Expr.read? (n + 1) (Expr.call a as).toJson = some (.call a as) := by
  show (Expr.read? n a.toJson).bind _ = _
  rw [ha, Option.bind_some]
  show ((argumentsJson as).mapM (Expr.read? n)).bind _ = _
  rw [has]
  rfl

theorem read?_binding (x : String) (ha : Expr.read? n a.toJson = some a) :
    Stmt.read? (n + 1) (Stmt.binding x a).toJson = some (.binding x a) := by
  show (Expr.read? n a.toJson).bind _ = _
  rw [ha]
  rfl

theorem read?_leave (ha : Expr.read? n a.toJson = some a) :
    Stmt.read? (n + 1) (Stmt.leave a).toJson = some (.leave a) := by
  show (Expr.read? n a.toJson).bind _ = _
  rw [ha]
  rfl

theorem read?_expression (ha : Expr.read? n a.toJson = some a) :
    Stmt.read? (n + 1) (Stmt.expression a).toJson = some (.expression a) := by
  show (Expr.read? n a.toJson).bind _ = _
  rw [ha]
  rfl

theorem read?_block (hss : readBlock? n (blockJson (statementsJson ss)) = some ss) :
    Stmt.read? (n + 1) (Stmt.block ss).toJson = some (.block ss) := by
  show (readBlock? n (blockJson (statementsJson ss))).bind _ = _
  rw [hss]
  rfl

/-- A block is read if its statements are. -/
theorem readBlock?_blockJson (h : js.mapM (Stmt.read? n) = some ss) :
    readBlock? (n + 1) (blockJson js) = some ss := by
  show js.mapM (Stmt.read? n) = some ss
  exact h

end

/-! ## Trees are read back -/

mutual

/-- An expression is read from its JSON form. -/
theorem Expr.read?_toJson : ∀ (e : Expr) {n : Nat}, e.toJson.depth ≤ n →
    Expr.read? n e.toJson = some e
  | e, n, h => by
    obtain ⟨n, rfl⟩ := exists_eq_succ h
    match e with
    | .identifier _ | .string _ | .boolean _ => rfl
    | .integer k => exact read?_integer k
    | .unary o a =>
      simp only [Expr.toJson, depth_nodeJson, depth, depthMembers] at h
      exact read?_unary o (a.read?_toJson (by omega))
    | .binary o a b =>
      simp only [Expr.toJson, depth_nodeJson, depth, depthMembers] at h
      exact read?_binary o (a.read?_toJson (by omega)) (b.read?_toJson (by omega))
    | .conditional c a none =>
      simp only [Expr.toJson, depth_nodeJson, depth, depthMembers, depth_blockJson] at h
      exact read?_conditional (c.read?_toJson (by omega)) (readBlock?_statementsJson a (by omega))
    | .conditional c a (some b) =>
      simp only [Expr.toJson, depth_nodeJson, depth, depthMembers, depth_blockJson] at h
      exact read?_alternative (c.read?_toJson (by omega)) (readBlock?_statementsJson a (by omega))
        (readBlock?_statementsJson b (by omega))
    | .function xs body =>
      simp only [Expr.toJson, depth_nodeJson, depth, depthMembers, depth_blockJson] at h
      exact read?_function xs (readBlock?_statementsJson body (by omega))
    | .call f as =>
      simp only [Expr.toJson, depth_nodeJson, depth, depthMembers] at h
      exact read?_call (f.read?_toJson (by omega)) (mapM_argumentsJson as (by omega))

/-- A statement is read from its JSON form. -/
theorem Stmt.read?_toJson : ∀ (st : Stmt) {n : Nat}, st.toJson.depth ≤ n →
    Stmt.read? n st.toJson = some st
  | st, n, h => by
    obtain ⟨n, rfl⟩ := exists_eq_succ h
    match st with
    | .binding x e =>
      simp only [Stmt.toJson, depth_nodeJson, depth, depthMembers] at h
      exact read?_binding x (e.read?_toJson (by omega))
    | .leave e =>
      simp only [Stmt.toJson, depth_nodeJson, depth, depthMembers] at h
      exact read?_leave (e.read?_toJson (by omega))
    | .expression e =>
      simp only [Stmt.toJson, depth_nodeJson, depth, depthMembers] at h
      exact read?_expression (e.read?_toJson (by omega))
    | .block ss =>
      simp only [Stmt.toJson, depth_nodeJson, depth_blockJson] at h
      exact read?_block (readBlock?_statementsJson ss (by omega))

/-- A block is read from its JSON form. -/
theorem readBlock?_statementsJson : ∀ (ss : List Stmt) {n : Nat},
    depthItems (statementsJson ss) + 2 ≤ n →
      readBlock? n (blockJson (statementsJson ss)) = some ss
  | ss, n, h => by
    obtain ⟨n, rfl⟩ : ∃ k, n = k + 1 := ⟨n - 1, by omega⟩
    exact readBlock?_blockJson (mapM_statementsJson ss (by omega))

theorem mapM_statementsJson : ∀ (ss : List Stmt) {n : Nat}, depthItems (statementsJson ss) ≤ n →
    (statementsJson ss).mapM (Stmt.read? n) = some ss
  | [], _, _ => rfl
  | st :: ss, n, h => by
    simp only [statementsJson, depthItems] at h
    rw [statementsJson, List.mapM_cons, st.read?_toJson (by omega),
      mapM_statementsJson ss (by omega)]
    rfl

theorem mapM_argumentsJson : ∀ (as : List Expr) {n : Nat}, depthItems (argumentsJson as) ≤ n →
    (argumentsJson as).mapM (Expr.read? n) = some as
  | [], _, _ => rfl
  | a :: as, n, h => by
    simp only [argumentsJson, depthItems] at h
    rw [argumentsJson, List.mapM_cons, a.read?_toJson (by omega), mapM_argumentsJson as (by omega)]
    rfl

end

/-- A program is read from its JSON form. -/
theorem ofJson?_toJson (p : Program) : Program.ofJson? p.toJson = some p := by
  have hread := readBlock?_statementsJson p.statements (n := p.toJson.depth)
    (Nat.le_of_eq (depth_blockJson _).symm)
  show (readBlock? p.toJson.depth (blockJson (statementsJson p.statements))).bind _ = some p
  rw [hread, Option.bind_some]
  rfl

/-! ## Texts -/

section
open Json

theorem proper_nodeJson {kind : String} {body : Json} (h : body.Proper) :
    (nodeJson kind body).Proper := ⟨h, trivial⟩

theorem proper_blockJson {js : List Json} (h : ProperItems js) : (blockJson js).Proper :=
  ⟨h, trivial⟩

theorem properItems_map_nameJson (xs : List String) : ProperItems (xs.map nameJson) := by
  induction xs with
  | nil => trivial
  | cons x xs ih => exact ⟨⟨trivial, trivial⟩, ih⟩

mutual

/-- All numbers in the JSON form of an expression are integers. -/
theorem Expr.proper_toJson : ∀ e : Expr, e.toJson.Proper
  | .identifier _ => proper_nodeJson ⟨trivial, trivial⟩
  | .integer _ | .string _ | .boolean _ => proper_nodeJson trivial
  | .unary _ a => proper_nodeJson ⟨trivial, a.proper_toJson, trivial⟩
  | .binary _ a b => proper_nodeJson ⟨trivial, a.proper_toJson, b.proper_toJson, trivial⟩
  | .conditional c a none =>
    proper_nodeJson ⟨c.proper_toJson, proper_blockJson (proper_statementsJson a), trivial, trivial⟩
  | .conditional c a (some b) =>
    proper_nodeJson ⟨c.proper_toJson, proper_blockJson (proper_statementsJson a),
      proper_blockJson (proper_statementsJson b), trivial⟩
  | .function xs body =>
    proper_nodeJson ⟨properItems_map_nameJson xs, proper_blockJson (proper_statementsJson body),
      trivial⟩
  | .call f as => proper_nodeJson ⟨f.proper_toJson, proper_argumentsJson as, trivial⟩

theorem Stmt.proper_toJson : ∀ st : Stmt, st.toJson.Proper
  | .binding _ e => proper_nodeJson ⟨⟨trivial, trivial⟩, e.proper_toJson, trivial⟩
  | .leave e | .expression e => proper_nodeJson ⟨e.proper_toJson, trivial⟩
  | .block ss => proper_nodeJson (proper_blockJson (proper_statementsJson ss))

theorem proper_statementsJson : ∀ ss : List Stmt, ProperItems (statementsJson ss)
  | [] => trivial
  | st :: ss => ⟨st.proper_toJson, proper_statementsJson ss⟩

theorem proper_argumentsJson : ∀ as : List Expr, ProperItems (argumentsJson as)
  | [] => trivial
  | a :: as => ⟨a.proper_toJson, proper_argumentsJson as⟩

end

end

/-- The JSON form of a program gives the program back. Its text without blanks and its text in lines
are JSON texts of the form, both are read as the form, and so the program comes back from either. -/
theorem toJson_lossless (p : Program) :
    Program.ofJson? p.toJson = some p ∧
      (IsText p.toJson.compress p.toJson ∧ parse? p.toJson.compress = some p.toJson ∧
        (parse? p.toJson.compress).bind Program.ofJson? = some p) ∧
      IsText p.toJson.pretty p.toJson ∧ parse? p.toJson.pretty = some p.toJson ∧
        (parse? p.toJson.pretty).bind Program.ofJson? = some p := by
  have hread := ofJson?_toJson p
  have hproper : p.toJson.Proper := proper_blockJson (proper_statementsJson p.statements)
  have hcompress := isText_compress hproper
  have hpretty := isText_pretty hproper
  have hparse := parse?_of_isText hcompress
  have hparse' := parse?_of_isText hpretty
  refine ⟨hread, ⟨hcompress, hparse, ?_⟩, hpretty, hparse', ?_⟩
  · rw [hparse, Option.bind_some, hread]
  · rw [hparse', Option.bind_some, hread]

end MonkeyLang
