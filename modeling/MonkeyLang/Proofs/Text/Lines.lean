import MonkeyLang.Text.Lines

/-!
# Lines are read back

Texts without line feeds that are printed as lines are read as the same lines: each line feed
belongs to the end of one of them (`splitFrom_line`, `split_join`).
-/

namespace MonkeyLang.Lines

theorem toList_join (texts : List String) :
    (join texts).toList = texts.flatMap fun text => text.toList ++ ['\n'] := by
  induction texts with
  | nil => rfl
  | cons text texts ih =>
    rw [join, List.map_cons, String.join_cons, String.toList_append, line, String.toList_append,
      List.flatMap_cons, ← ih]
    rfl

/-- A line goes up to its line feed. -/
theorem splitFrom_line {text : List Char} (h : '\n' ∉ text) (current rest : List Char) :
    splitFrom current (text ++ '\n' :: rest) =
      String.ofList (current.reverse ++ text) :: splitFrom [] rest := by
  induction text generalizing current with
  | nil => rw [List.nil_append, List.append_nil, splitFrom, if_pos rfl]
  | cons c text ih =>
    have hc : c ≠ '\n' := fun hc => h (hc ▸ List.mem_cons_self)
    have htext : '\n' ∉ text := fun hmem => h (List.mem_cons_of_mem c hmem)
    rw [List.cons_append, splitFrom, if_neg hc, ih htext, List.reverse_cons, List.append_assoc,
      List.singleton_append]

/-- Texts that stand on a line each are the lines of what is printed. -/
theorem split_join {texts : List String} (h : ∀ text ∈ texts, '\n' ∉ text.toList) :
    split (join texts) = texts := by
  rw [split, toList_join]
  induction texts with
  | nil => rfl
  | cons text texts ih =>
    obtain ⟨htext, htexts⟩ := List.forall_mem_cons.1 h
    rw [List.flatMap_cons, List.append_assoc, List.singleton_append, splitFrom_line htext,
      ih htexts, List.reverse_nil, List.nil_append, String.ofList_toList]

/-- Padding adds blanks to a text, as many as it takes to be as long as the width. -/
theorem toList_padded (width : Nat) (text : String) :
    (padded width text).toList = text.toList ++ List.replicate (width - text.length) ' ' := by
  rw [padded, String.toList_append, String.toList_ofList]

theorem length_toList_padded {width : Nat} {text : String} (h : text.length ≤ width) :
    (padded width text).toList.length = width := by
  rw [toList_padded, List.length_append, List.length_replicate, String.length_toList]
  omega

end MonkeyLang.Lines
