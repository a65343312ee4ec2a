import Testbed.Text.Blank

/-!
# Component registry

The components under test, in the order in which they are started and reported.  A registry can be
built from any names; it is usable if there is a component, no name is blank and none occurs twice.
-/

namespace Testbed

structure Registry where
  components : List String
deriving DecidableEq, Repr

namespace Registry

/-- Why a registry is not usable. -/
inductive Error where
  | empty
  | blank
  | duplicates (names : List String)
deriving DecidableEq, Repr

def Error.message : Error → String
  | .empty => "Component registry is empty: nothing to test"
  | .blank => "Component registry contains a blank name"
  | .duplicates names => "Component registry contains duplicates: " ++ ", ".intercalate names

/-- Extends the repeated names found so far by those that `names` adds, given the names seen. -/
def repeatedFrom (seen found : List String) : (names : List String) → List String
  | [] => found
  | name :: rest =>
    repeatedFrom (name :: seen)
      (if seen.contains name && !found.contains name then found ++ [name] else found) rest

/-- The names that occur more than once, in the order of their second occurrences. -/
def repeated (names : List String) : List String :=
  repeatedFrom [] [] names

/-- The components of a usable registry. -/
def list (r : Registry) : Except Error (List String) :=
  if r.components.isEmpty then .error .empty
  else if r.components.any Text.isBlankText then .error .blank
  else
    match repeated r.components with
    | [] => .ok r.components
    | names => .error (.duplicates names)

def size (r : Registry) : Nat :=
  r.components.length

theorem list_eq_ok_iff {r : Registry} {names : List String} :
    r.list = .ok names ↔ names = r.components ∧ r.components ≠ [] ∧
      (∀ name ∈ r.components, Text.isBlankText name = false) ∧ repeated r.components = [] := by
  have hany : r.components.any Text.isBlankText = false ↔
      ∀ name ∈ r.components, Text.isBlankText name = false := by simp
  rw [← hany]
  unfold list
  cases hempty : r.components.isEmpty <;> cases hblank : r.components.any Text.isBlankText <;>
    cases hrep : repeated r.components <;> grind

end Registry

end Testbed
