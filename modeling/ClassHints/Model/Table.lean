import ClassHints.Text.Basic

/-!
# Tables

A table gives values to names and keeps the order in which the names first appeared.
-/

namespace ClassHints.Model

/-- Values by name, in the order the names first appeared. -/
abbrev Table (α : Type) := List (Text × α)

namespace Table

variable {α : Type}

/-- The value of a name. -/
def get? (t : Table α) (name : Text) : Option α :=
  match t with
  | [] => none
  | (n, v) :: rest => if n = name then some v else get? rest name

/-- Give a name a value. A name that has one already keeps its place. -/
def put (t : Table α) (name : Text) (value : α) : Table α :=
  match t with
  | [] => [(name, value)]
  | (n, v) :: rest =>
    if n = name then (n, value) :: rest else (n, v) :: put rest name value

/-- Give a name a value unless it has one already. -/
def offer (t : Table α) (name : Text) (value : α) : Table α :=
  if (t.get? name).isSome then t else t ++ [(name, value)]

/-- The values in the order of the names. -/
def values (t : Table α) : List α := t.map Prod.snd

/-- After a name was given a value it has that value, and no other name is touched. -/
theorem get?_put (t : Table α) (name other : Text) (value : α) :
    (t.put name value).get? other = if name = other then some value else t.get? other := by
  induction t with
  | nil => rfl
  | cons entry rest ih =>
    obtain ⟨n, v⟩ := entry
    by_cases hn : n = name
    · subst hn
      by_cases h : n = other <;> simp [put, get?, h]
    · by_cases h : n = other
      · subst h
        simp [put, get?, hn, Ne.symm hn]
      · simp [put, get?, hn, h, ih]

end Table

end ClassHints.Model
