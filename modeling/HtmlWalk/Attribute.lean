/-!
# Attribute lists

The attributes of an element are a list in source order, in which a name may occur more than
once. Reading and writing an attribute both mean the *first* of its name: a write overwrites the
first one, or adds a new one at the end, and later attributes of that name keep their values.
-/

namespace HtmlWalk

/-- A name with its value. -/
structure Attribute where
  /-- The name, without a namespace. -/
  name : String
  /-- The value. -/
  value : String
deriving DecidableEq

namespace Attribute

/-- The value of the first attribute called `name`. -/
def value? (name : String) : List Attribute → Option String
  | [] => none
  | a :: rest => if a.name = name then some a.value else value? name rest

/-- The list with the first attribute called `name` set to `value`, added at the end if absent. -/
def set (name value : String) : List Attribute → List Attribute
  | [] => [⟨name, value⟩]
  | a :: rest => if a.name = name then ⟨a.name, value⟩ :: rest else a :: set name value rest

theorem value?_set (name value n : String) (attrs : List Attribute) :
    value? n (set name value attrs) = if n = name then some value else value? n attrs := by
  induction attrs with
  | nil => simp only [set, value?, eq_comm]
  | cons a rest ih =>
    by_cases ha : a.name = name
    · by_cases h : n = name
      · simp [set, value?, ha, h]
      · simp [set, value?, ha, h, Ne.symm h]
    · by_cases hn : a.name = n
      · have : n ≠ name := fun h => ha (hn.trans h)
        simp [set, value?, hn, this]
      · simp [set, value?, ha, hn, ih]

end Attribute

end HtmlWalk
