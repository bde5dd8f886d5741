/-!
# Bindings

`Bindings` are a finite map from names to values, kept as the list of its entries in strictly
increasing order of names. Strings are ordered by code points, which is the order of their UTF-8
bytes. `get?_insert` says what a look-up finds after an insertion, `mem_entries_iff` that the
entries are exactly what look-ups find, and `Bindings.ordered` that each name stands there once.
-/

namespace MonkeyLang

/-- A finite map from names to values of a type, as entries ordered by name. -/
structure Bindings (α : Type) where
  entries : List (String × α)
  ordered : entries.Pairwise (·.1 < ·.1)

namespace Bindings

variable {α : Type}

/-- No bindings. -/
def empty : Bindings α := ⟨[], .nil⟩

instance : Inhabited (Bindings α) := ⟨empty⟩

/-- The value of the entry with a name. -/
def find? (name : String) : List (String × α) → Option α
  | [] => none
  | (key, value) :: rest => if name = key then some value else find? name rest

/-- The entries with one of them put in its place, which it takes from an entry of its name. -/
def place (name : String) (value : α) : List (String × α) → List (String × α)
  | [] => [(name, value)]
  | (key, other) :: rest =>
    if name < key then (name, value) :: (key, other) :: rest
    else if name = key then (name, value) :: rest
    else (key, other) :: place name value rest

theorem lt_of_not_lt {a b : String} (hle : ¬ a < b) (hne : a ≠ b) : b < a := by
  refine Decidable.byContradiction fun h => hne ?_
  exact String.le_antisymm (String.not_lt.1 h) (String.not_lt.1 hle)

theorem mem_place {name : String} {value : α} {entry : String × α} :
    ∀ {entries : List (String × α)}, entry ∈ place name value entries →
      entry = (name, value) ∨ entry ∈ entries
  | [], h => by
    simp only [place, List.mem_singleton] at h
    exact .inl h
  | (key, other) :: rest, h => by
    unfold place at h
    split at h
    · simpa using h
    · split at h
      · rcases List.mem_cons.1 h with h | h
        · exact .inl h
        · exact .inr (List.mem_cons_of_mem _ h)
      · rcases List.mem_cons.1 h with h | h
        · exact .inr (h ▸ List.mem_cons_self)
        · exact (mem_place h).imp_right (List.mem_cons_of_mem _)

theorem ordered_place {name : String} {value : α} :
    ∀ {entries : List (String × α)}, entries.Pairwise (·.1 < ·.1) →
      (place name value entries).Pairwise (·.1 < ·.1)
  | [], _ => List.pairwise_singleton _ _
  | (key, other) :: rest, h => by
    unfold place
    obtain ⟨hhead, htail⟩ := List.pairwise_cons.1 h
    split
    · next hlt =>
      refine List.pairwise_cons.2 ⟨fun entry he => ?_, h⟩
      rcases List.mem_cons.1 he with he | he
      · exact he ▸ hlt
      · exact String.lt_trans hlt (hhead entry he)
    · next hge =>
      split
      · next heq =>
        subst heq
        exact List.pairwise_cons.2 ⟨hhead, htail⟩
      · next hne =>
        refine List.pairwise_cons.2 ⟨fun entry he => ?_, ordered_place htail⟩
        rcases mem_place he with he | he
        · subst he
          exact lt_of_not_lt hge hne
        · exact hhead entry he

/-- The value bound to a name. -/
def get? (b : Bindings α) (name : String) : Option α := find? name b.entries

/-- Is the name bound? -/
def contains (b : Bindings α) (name : String) : Bool := (b.get? name).isSome

/-- The same bindings, except that a name is bound to a value. -/
def insert (b : Bindings α) (name : String) (value : α) : Bindings α :=
  ⟨place name value b.entries, ordered_place b.ordered⟩

/-- The names that are bound, in increasing order. -/
def names (b : Bindings α) : List String := b.entries.map (·.1)

/-- The number of names that are bound. -/
def size (b : Bindings α) : Nat := b.entries.length

/-- Is no name bound? -/
def isEmpty (b : Bindings α) : Bool := b.entries.isEmpty

@[simp] theorem get?_empty (name : String) : (empty : Bindings α).get? name = none := rfl

theorem find?_place (name : String) (value : α) (key : String) :
    ∀ entries : List (String × α),
      find? key (place name value entries) = if key = name then some value else find? key entries
  | [] => by simp [place, find?]
  | (first, other) :: rest => by
    unfold place
    split
    · simp [find?]
    · split
      · next heq =>
        subst heq
        by_cases hk : key = name <;> simp [find?, hk]
      · next hne =>
        by_cases hk : key = first
        · subst hk
          simp [find?, Ne.symm hne]
        · simp [find?, hk, find?_place name value key rest]

/-- After an insertion the name has the new value, and no other name is affected. -/
theorem get?_insert (b : Bindings α) (name key : String) (value : α) :
    (b.insert name value).get? key = if key = name then some value else b.get? key :=
  find?_place name value key b.entries

theorem mem_iff_find? {name : String} {value : α} :
    ∀ {entries : List (String × α)}, entries.Pairwise (·.1 < ·.1) →
      ((name, value) ∈ entries ↔ find? name entries = some value)
  | [], _ => by simp [find?]
  | (key, other) :: rest, h => by
    obtain ⟨hhead, htail⟩ := List.pairwise_cons.1 h
    by_cases hk : name = key
    · subst hk
      have hnot : (name, value) ∉ rest := fun hm => String.lt_irrefl name (hhead _ hm)
      simp [find?, hnot, eq_comm]
    · simp [find?, hk, mem_iff_find? htail]

/-- The entries are what look-ups find. -/
theorem mem_entries_iff (b : Bindings α) (name : String) (value : α) :
    (name, value) ∈ b.entries ↔ b.get? name = some value :=
  mem_iff_find? b.ordered

end Bindings

end MonkeyLang
