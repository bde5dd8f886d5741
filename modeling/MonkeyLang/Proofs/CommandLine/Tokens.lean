import Mathlib.Data.List.Forall2
import MonkeyLang.CommandLine.Answer
import MonkeyLang.Proofs.Text.Escaped
import MonkeyLang.Proofs.Text.Lines

/-!
# The listing of tokens is lossless

Each token has a line of its own in the listing, and the line tells its kind and its literal: the
names of kinds fit in a column without blanks in them, and the literal behind it is written on one
line and can be read back. `Terminal.ofLine?` reads such a line (`ofLine?_tokenLine`), so the
terminals of a source are all in the listing of its tokens (`listing_tells_terminals`).
-/

namespace MonkeyLang

namespace Kind

/-- Names fit in a column of eight. -/
theorem length_name_le (k : Kind) : k.name.length ≤ 8 := by cases k <;> decide

theorem notMem_name (k : Kind) : ' ' ∉ k.name.toList ∧ '\n' ∉ k.name.toList := by
  cases k <;> decide

/-- A name is what stands in its column in front of the blanks. -/
theorem takeWhile_padded_name (k : Kind) :
    (Lines.padded 8 k.name).toList.takeWhile (· != ' ') = k.name.toList := by
  have hname : ∀ c ∈ k.name.toList, (c != ' ') = true := fun c hc =>
    bne_iff_ne.2 fun h => k.notMem_name.1 (h ▸ hc)
  rw [Lines.toList_padded, List.takeWhile_append_of_pos hname, List.takeWhile_replicate]
  simp

end Kind

/-- The terminal that a line of a listing shows, if it shows one: the name of its kind is in the
first eight columns, and its literal begins behind the ninth. -/
def Terminal.ofLine? (line : String) : Option Terminal :=
  (Kind.ofName? (.ofList ((line.toList.take 8).takeWhile (· != ' ')))).bind fun kind =>
    (Escaped.read? (.ofList (line.toList.drop 9))).map fun literal => ⟨kind, literal⟩

namespace Command

theorem toList_tokenLine (t : Token) :
    (tokenLine t).toList =
      (Lines.padded 8 t.kind.name).toList ++ ' ' :: (Escaped.render t.literal).toList := by
  rw [tokenLine, String.toList_append, String.toList_append, List.append_assoc]
  rfl

theorem lineFeed_notMem_tokenLine (t : Token) : '\n' ∉ (tokenLine t).toList := by
  rw [toList_tokenLine, Lines.toList_padded]
  simp [t.kind.notMem_name, Escaped.lineFeed_notMem_render]

/-- A token's kind and literal are read back from its line. -/
theorem ofLine?_tokenLine (t : Token) : Terminal.ofLine? (tokenLine t) = some t.toTerminal := by
  have hwidth := Lines.length_toList_padded t.kind.length_name_le
  have hname : (tokenLine t).toList.take 8 = (Lines.padded 8 t.kind.name).toList := by
    rw [toList_tokenLine, List.take_left' hwidth]
  have hliteral : (tokenLine t).toList.drop 9 = (Escaped.render t.literal).toList := by
    have hfront : ((Lines.padded 8 t.kind.name).toList ++ [' ']).length = 9 := by
      rw [List.length_append, hwidth, List.length_singleton]
    rw [toList_tokenLine, List.append_cons, List.drop_left' hfront]
  rw [Terminal.ofLine?, hname, hliteral, Kind.takeWhile_padded_name, String.ofList_toList,
    String.ofList_toList, Kind.ofName?_name, Escaped.read?_render]
  rfl

/-- The line shows the token: the name of its kind with blanks up to the eighth column, a blank in
the ninth one, and then its literal made visible, with nothing in it that ends the line. All that
the line shows can be read back. -/
structure Shows (line : String) (t : Token) : Prop where
  line_eq : ∃ blanks, t.kind.name.length + blanks = 8 ∧
    line.toList = t.kind.name.toList ++ List.replicate blanks ' ' ++ ' ' ::
      (Escaped.render t.literal).toList
  lineFeed_notMem : '\n' ∉ line.toList
  literal_eq : Escaped.read? (Escaped.render t.literal) = some t.literal
  terminal_eq : Terminal.ofLine? line = some t.toTerminal

theorem shows_tokenLine (t : Token) : Shows (tokenLine t) t where
  line_eq := by
    refine ⟨8 - t.kind.name.length, Nat.add_sub_of_le t.kind.length_name_le, ?_⟩
    rw [toList_tokenLine, Lines.toList_padded]
  lineFeed_notMem := lineFeed_notMem_tokenLine t
  literal_eq := Escaped.read?_render t.literal
  terminal_eq := ofLine?_tokenLine t

/-- Tokens are read back from their lines, in order. -/
theorem mapM_ofLine?_tokenLine (ts : List Token) :
    (ts.map tokenLine).mapM Terminal.ofLine? = some (ts.map Token.toTerminal) := by
  induction ts with
  | nil => rfl
  | cons t ts ih => rw [List.map_cons, List.mapM_cons, ofLine?_tokenLine, ih]; rfl

/-- A file is read as the text that it holds. -/
theorem onSource_toUTF8 (source : String) (answer : String → Option Answer) :
    onSource (some source.toUTF8) answer = answer source := by
  have hread : String.fromUTF8? source.toUTF8 = some source := dif_pos source.isValidUTF8
  rw [onSource, Option.bind_some, hread]

end Command

/-- Listing the tokens of a file prints one line for each of them, the end mark included, in order:
the lines of what is printed are those that show the tokens. So the kinds and literals of all tokens
are read back from what is printed. -/
theorem listing_tells_terminals (source file input : String) (depth : Nat) :
    ∃ lines, (Command.tokens file).answer depth (some source.toUTF8) input =
        some (.success (Lines.join lines)) ∧
      Lines.split (Lines.join lines) = lines ∧
      List.Forall₂ Command.Shows lines (Token.stream source) ∧
      lines.mapM Terminal.ofLine? = some ((Token.stream source).map Token.toTerminal) := by
  have hshows : List.Forall₂ Command.Shows ((Token.stream source).map Command.tokenLine)
      (Token.stream source) :=
    List.forall₂_map_left_iff.2 (List.forall₂_same.2 fun t _ => Command.shows_tokenLine t)
  refine ⟨_, ?_, Lines.split_join fun line hline => ?_, hshows, Command.mapM_ofLine?_tokenLine _⟩
  · rw [Command.answer, Command.onSource_toUTF8]
    rfl
  · obtain ⟨t, -, rfl⟩ := List.mem_map.1 hline
    exact Command.lineFeed_notMem_tokenLine t

end MonkeyLang
