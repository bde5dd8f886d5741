import MonkeyLang.Scope.Store
import MonkeyLang.Text.Escaped

/-!
# Scopes as text

The description of a scope lists the names bound in it and says whether there is a scope around
it. Values are left out, since a closure may lead back to the scope.
-/

namespace MonkeyLang

/-- The description of a scope. -/
def Store.describe (s : Store) (σ : ScopeId) : String :=
  "Environment \x7b names: [" ++ ", ".intercalate ((s.bindings σ).names.map Escaped.render) ++
    "], has_outer: " ++ toString (s.outer? σ).isSome ++ " \x7d"

end MonkeyLang
