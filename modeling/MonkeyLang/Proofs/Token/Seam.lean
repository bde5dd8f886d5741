import MonkeyLang.Proofs.Token.Scan

/-!
# Texts one behind the other

The tokens of two texts, one behind the other, are the tokens of the first and those of the second,
if the second does not become a part of a lexeme of the first. `Seam` says so lexeme by lexeme, and
`scanFrom_append` draws the conclusion. A lexeme with text behind it is as long as it can be, so
only the last one of the first text matters (`seam_of_last`): where that is a semicolon anything may
follow (`seam_of_semicolon`).
-/

namespace MonkeyLang

theorem Kind.eq_of_ofSign_semicolon {c : Char} (h : Kind.ofSign c = .semicolon) : c = ';' := by
  unfold ofSign at h
  split at h <;> first | rfl | cases h

namespace Lexeme

theorem takeWhile_append_of_dropWhile_ne_nil {p : Char → Bool} {text : List Char}
    (h : text.dropWhile p ≠ []) (b : List Char) :
    (text ++ b).takeWhile p = text.takeWhile p ∧
      (text ++ b).dropWhile p = text.dropWhile p ++ b := by
  induction text with
  | nil => exact absurd rfl h
  | cons c text ih =>
    rcases hc : p c with _ | _
    · simp [hc]
    · have hd : (c :: text).dropWhile p = text.dropWhile p := by simp [hc]
      obtain ⟨htake, hdrop⟩ := ih (hd ▸ h)
      simp [hc, htake, hdrop]

/-- A string literal that ends before the text does ends there whatever stands behind the text. -/
theorem split_append_of_ne_nil {text : List Char} (h : (Quoted.split text).2 ≠ []) (b : List Char) :
    Quoted.split (text ++ b) = ((Quoted.split text).1, (Quoted.split text).2 ++ b) := by
  fun_induction Quoted.split text with
  | case1 => exact absurd rfl h
  | case2 rest => rfl
  | case3 c rest ih => simp [Quoted.split, ih h]
  | case4 c rest hq hb ih =>
    have hc : c ≠ '\\' := by
      rintro rfl
      cases rest with
      | nil => exact h rfl
      | cons d rest => exact hb d rest rfl rfl
    rw [List.cons_append, Quoted.split_cons _ hq hc, ih h]

/-- A sign is what it is by the character behind it. -/
theorem readSign_append_of_head {c : Char} {rest b : List Char}
    (h : rest = [] → b.head? ≠ some '=') :
    readSign c (rest ++ b) = { readSign c rest with rest := (readSign c rest).rest ++ b } := by
  rcases rest with _ | ⟨d, rest⟩
  · have halone : readSign c [] = ⟨.ofSign c, [c], []⟩ := readSign_of_single (by simp)
    rw [halone, List.nil_append, readSign_of_single fun _ => h rfl]
  · by_cases hs : (c = '=' ∨ c = '!') ∧ d = '='
    · obtain ⟨rfl | rfl, rfl⟩ := hs <;> rfl
    · have hhead : c = '=' ∨ c = '!' → some d ≠ some '=' := fun hc hd =>
        hs ⟨hc, Option.some.inj hd⟩
      have hshort : readSign c (d :: rest) = ⟨.ofSign c, [c], d :: rest⟩ := readSign_of_single hhead
      have hlong : readSign c (d :: (rest ++ b)) = ⟨.ofSign c, [c], d :: (rest ++ b)⟩ :=
        readSign_of_single hhead
      rw [List.cons_append, hshort, hlong]
      rfl

/-- A lexeme with text behind it is as long as it can be. -/
theorem read_append_of_ne_nil {c : Char} {rest : List Char} (h : (read c rest).rest ≠ [])
    (b : List Char) :
    read c (rest ++ b) = { read c rest with rest := (read c rest).rest ++ b } := by
  rcases read_cases c with hl | hd | rfl | ⟨-, -, -, hsign⟩
  · rw [read_letter hl] at h
    obtain ⟨htake, hdrop⟩ := takeWhile_append_of_dropWhile_ne_nil h b
    rw [read_letter hl, read_letter hl, htake, hdrop]
  · rw [read_digit hd] at h
    obtain ⟨htake, hdrop⟩ := takeWhile_append_of_dropWhile_ne_nil h b
    rw [read_digit hd, read_digit hd, htake, hdrop]
  · rw [read_quote] at h
    rw [read_quote, read_quote, split_append_of_ne_nil h b]
  · rw [hsign] at h
    rw [hsign, hsign]
    refine readSign_append_of_head fun hrest => ?_
    rw [hrest, readSign_of_single (by simp)] at h
    exact absurd rfl h

/-- A semicolon is a lexeme by itself. -/
theorem eq_of_read_semicolon {c : Char} {rest : List Char} (h : (read c rest).kind = .semicolon) :
    c = ';' := by
  rcases read_cases c with hl | hd | rfl | ⟨-, -, -, hsign⟩
  · rw [read_letter hl] at h
    exact absurd h (Kind.ofWord_ne rfl Kind.noConfusion _)
  · rw [read_digit hd] at h
    cases h
  · cases h
  · rw [hsign] at h
    unfold readSign at h
    split at h
    · cases h
    · cases h
    · exact Kind.eq_of_ofSign_semicolon h

end Lexeme

namespace Token

/-- The text `b` does not become a part of a lexeme of the text it follows. -/
inductive Seam (b : List Char) : List Char → Prop
  | blank {a} : a.dropWhile isBlank = [] → Seam b a
  | lexeme {a c rest} : a.dropWhile isBlank = c :: rest →
      Lexeme.read c (rest ++ b) =
        { Lexeme.read c rest with rest := (Lexeme.read c rest).rest ++ b } →
      Seam b (Lexeme.read c rest).rest → Seam b a

/-- Behind a token the text goes on where the token stops. -/
theorem next?_stop {offset : Nat} {text rest : List Char} {t : Token}
    (h : next? offset text = some (t, rest)) :
    t.span.stop + byteLength rest = offset + byteLength text := by
  rcases hd : text.dropWhile isBlank with _ | ⟨c, tail⟩
  · rw [next?_of_blank offset hd] at h
    cases h
  · rw [next?_of_lexeme offset hd] at h
    obtain ⟨rfl, rfl⟩ := Prod.mk.inj (Option.some.inj h)
    have hread := congrArg byteLength (Lexeme.read_append c tail)
    have htext := congrArg byteLength (List.takeWhile_append_dropWhile (p := isBlank) (l := text))
    rw [byteLength_append] at hread htext
    rw [hd] at htext
    simp only [Lexeme.token]
    omega

theorem scanFrom_congr {offset offset' : Nat} {text text' : List Char}
    (h : next? offset text = next? offset' text') :
    scanFrom offset text = scanFrom offset' text' := by
  rcases hn : next? offset' text' with _ | ⟨t, rest⟩
  · rw [scanFrom_eq_nil hn, scanFrom_eq_nil (h.trans hn)]
  · rw [scanFrom_of_next? hn, scanFrom_of_next? (h.trans hn)]

/-- Two texts that do not run into each other are scanned one after the other. -/
theorem scanFrom_append {a b : List Char} (h : Seam b a) (offset : Nat) :
    scanFrom offset (a ++ b) = scanFrom offset a ++ scanFrom (offset + byteLength a) b := by
  induction h generalizing offset with
  | @blank a ha =>
    rw [scanFrom_eq_nil (next?_of_blank offset ha), List.nil_append]
    have hblank : ∀ c ∈ a, isBlank c = true := by
      rw [← List.takeWhile_append_dropWhile (p := isBlank) (l := a), ha, List.append_nil]
      exact List.all_eq_true.1 List.all_takeWhile
    refine scanFrom_congr ?_
    unfold next?
    rw [List.dropWhile_append_of_pos hblank, List.takeWhile_append_of_pos hblank, byteLength_append,
      Nat.add_assoc]
  | @lexeme a c rest ha hread _ ih =>
    have hne : a.dropWhile isBlank ≠ [] := by rw [ha]; exact List.cons_ne_nil _ _
    obtain ⟨htake, hdrop⟩ := Lexeme.takeWhile_append_of_dropWhile_ne_nil hne b
    rw [ha, List.cons_append] at hdrop
    have hnext := next?_of_lexeme offset ha
    have hboth := next?_of_lexeme offset hdrop
    rw [hread, htake] at hboth
    rw [scanFrom_of_next? hnext, scanFrom_of_next? hboth, List.cons_append, ← next?_stop hnext,
      ← ih]
    rfl

/-- A lexeme with text behind it does not go on, so only the last one of a text can. -/
theorem seam_of_last {source front text : List Char} (hsource : source = front ++ text)
    (b : List Char)
    (h : ∀ t ∈ (scanFrom (byteLength front) text).getLast?, ∀ front c rest,
      source = front ++ c :: rest → t = (Lexeme.read c rest).token (byteLength front) →
      Lexeme.read c (rest ++ b) =
        { Lexeme.read c rest with rest := (Lexeme.read c rest).rest ++ b }) :
    Seam b text := by
  revert h
  refine scan_induction (fun front text _ hd _ _ => .blank hd)
    (fun front text c rest hhere hd hscan ih h => ?_) front text hsource
  have hread : Lexeme.read c (rest ++ b) =
      { Lexeme.read c rest with rest := (Lexeme.read c rest).rest ++ b } := by
    by_cases hrest : (Lexeme.read c rest).rest = []
    · refine h _ ?_ _ c rest hhere rfl
      rw [hscan, hrest, scanFrom_nil]
      rfl
    · exact Lexeme.read_append_of_ne_nil hrest b
  refine .lexeme hd hread (ih fun t ht => h t ?_)
  rw [Option.mem_def] at ht
  rw [hscan, List.getLast?_cons, ht]
  rfl

/-- Behind a semicolon, or behind blanks alone, anything may follow. -/
theorem seam_of_semicolon {a : List Char} (b : List Char)
    (h : ∀ t ∈ (scanFrom 0 a).getLast?, t.kind = .semicolon) : Seam b a := by
  refine seam_of_last (List.nil_append a).symm b fun t ht front c rest _ htoken => ?_
  have hkind : (Lexeme.read c rest).kind = .semicolon := by
    have hsemicolon := h t ht
    rwa [htoken] at hsemicolon
  obtain rfl := Lexeme.eq_of_read_semicolon hkind
  rfl

end Token

end MonkeyLang
