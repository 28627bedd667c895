import ClassHints.Text.Blank

/-!
# Variables of the preprocessor
-/

namespace ClassHints.Model

open Text

/-- A variable of the preprocessor. -/
structure Variable where
  /-- The name with its dollar sign. -/
  name : Text
  /-- The value without the flags after it. -/
  value : Text
  /-- The words of the comment written before it. -/
  comment : Option Text
  deriving DecidableEq, Repr

/-- The flags that may follow a value. -/
def valueFlags : List Text := ["!default".toList, "!global".toList]

/-- A value without the flag it ends with. -/
def dropFlag? (value : Text) : Option Text :=
  (valueFlags.findSome? (before? · value)).map trimEnd

/-- Dropping the blanks at its end makes a text no longer. -/
theorem length_trimEnd_le (t : Text) : (trimEnd t).length ≤ t.length := by
  unfold trimEnd
  have h := (List.dropWhile_sublist (p := isBlank) (l := t.reverse)).length_le
  simpa using h

/-- Dropping a flag makes a value shorter. -/
theorem length_dropFlag? {value rest : Text} (h : dropFlag? value = some rest) :
    rest.length < value.length := by
  obtain ⟨r, hr, rfl⟩ := Option.map_eq_some_iff.1 h
  obtain ⟨flag, hmem, hflag⟩ := List.exists_of_findSome?_eq_some hr
  have hlen := congrArg List.length (eq_append_of_before? hflag)
  rw [List.length_append] at hlen
  have htrim := length_trimEnd_le r
  have hpos : 0 < flag.length := by
    simp only [valueFlags, List.mem_cons, List.not_mem_nil, or_false] at hmem
    rcases hmem with rfl | rfl <;> decide
  omega

/-- A value without any of the flags it ends with. -/
def dropFlags (value : Text) : Text :=
  match _h : dropFlag? value with
  | some rest => dropFlags rest
  | none => value
termination_by value.length
decreasing_by exact length_dropFlag? _h

/-- The variable that a declaration makes. -/
def Variable.make (name value : Text) (comment : Option Text) : Variable :=
  ⟨name, dropFlags (trim value), comment⟩

end ClassHints.Model
