import Testbed.Data.Value
import Testbed.Duration

/-!
# Validation issues

Configuration data is checked field by field.  A check either accepts, giving the value that is
meant, or reports everything that is wrong, each issue with its place in the data.
-/

namespace Testbed.Validation

open Data (Value)

/-- A step on the way to a place in the data. -/
inductive Step where
  | name (text : String)
  | index (n : Int)
deriving DecidableEq, Repr

/-- What is wrong at a place. -/
inductive Defect where
  | missing
  | unknownField
  | unnamedField
  | frozen
  | notText
  | undecodable
  | notFlag
  | unclearFlag
  | notInteger
  | unclearInteger
  | oversizedInteger
  | fractionalInteger
  | infiniteInteger
  | atLeast (least : Int)
  | notNumber
  | unclearNumber
  | badDuration (error : Duration.Error)
  | textAsSequence (kind : String)
  | notSequence
  | notMapping
  | notRecord (model : String)
  | tooShort
  | notPath
deriving DecidableEq, Repr

/-- The name of a kind of defect. -/
def Defect.code : Defect → String
  | .missing => "missing"
  | .unknownField => "extra_forbidden"
  | .unnamedField => "invalid_key"
  | .frozen => "frozen_instance"
  | .notText => "string_type"
  | .undecodable => "string_unicode"
  | .notFlag => "bool_type"
  | .unclearFlag => "bool_parsing"
  | .notInteger => "int_type"
  | .unclearInteger => "int_parsing"
  | .oversizedInteger => "int_parsing_size"
  | .fractionalInteger => "int_from_float"
  | .infiniteInteger => "finite_number"
  | .atLeast _ => "greater_than_equal"
  | .notNumber => "float_type"
  | .unclearNumber => "float_parsing"
  | .badDuration _ => "value_error"
  | .textAsSequence _ => "sequence_str"
  | .notSequence => "is_instance_of"
  | .notMapping => "dict_type"
  | .notRecord _ => "model_type"
  | .tooShort => "too_short"
  | .notPath => "path_type"

def Defect.message : Defect → String
  | .missing => "Field required"
  | .unknownField => "Extra inputs are not permitted"
  | .unnamedField => "Keys should be strings"
  | .frozen => "Instance is frozen"
  | .notText => "Input should be a valid string"
  | .undecodable => "Input should be a valid string, unable to parse raw data as a unicode string"
  | .notFlag => "Input should be a valid boolean"
  | .unclearFlag => "Input should be a valid boolean, unable to interpret input"
  | .notInteger => "Input should be a valid integer"
  | .unclearInteger => "Input should be a valid integer, unable to parse string as an integer"
  | .oversizedInteger => "Unable to parse input string as an integer, exceeded maximum size"
  | .fractionalInteger =>
    "Input should be a valid integer, got a number with a fractional part"
  | .infiniteInteger => "Input should be a finite number"
  | .atLeast least => "Input should be greater than or equal to " ++ toString least
  | .notNumber => "Input should be a valid number"
  | .unclearNumber => "Input should be a valid number, unable to parse string as a number"
  | .badDuration error => "Value error, " ++ error.message
  | .textAsSequence kind => Text.quoted kind ++ " instances are not allowed as a Sequence value"
  | .notSequence => "Input should be an instance of Sequence"
  | .notMapping => "Input should be a valid dictionary"
  | .notRecord model => "Input should be a valid dictionary or instance of " ++ model
  | .tooShort => "Value should have at least 1 item after validation, not 0"
  | .notPath => "Input is not a valid path for <class 'pathlib.Path'>"

/-- A defect with the way to its place. -/
structure Issue where
  place : List Step
  defect : Defect
deriving DecidableEq, Repr

def Issue.under (step : Step) (i : Issue) : Issue :=
  { i with place := step :: i.place }

/-- A result, or all issues in order. -/
abbrev Checked (α : Type) := Except (List Issue) α

def reject {α : Type} (defect : Defect) : Checked α :=
  .error [⟨[], defect⟩]

namespace Checked

variable {α β : Type}

def under (step : Step) (c : Checked α) : Checked α :=
  c.mapError (·.map (·.under step))

/-- Both results; the issues of both if there are any. -/
def both (a : Checked α) (b : Checked β) : Checked (α × β) :=
  match a, b with
  | .ok x, .ok y => .ok (x, y)
  | .ok _, .error f => .error f
  | .error e, .ok _ => .error e
  | .error e, .error f => .error (e ++ f)

/-- All results in order. -/
def all : List (Checked α) → Checked (List α)
  | [] => .ok []
  | c :: rest => (both c (all rest)).map fun (x, xs) ↦ x :: xs

theorem both_eq_ok_iff {a : Checked α} {b : Checked β} {x : α} {y : β} :
    both a b = .ok (x, y) ↔ a = .ok x ∧ b = .ok y := by
  cases a <;> cases b <;> simp [both]

end Checked

/-- The greatest and the least integer that a place can name as a number. -/
def indexBound : Int := 9223372036854775808

/-- The step for a key of a mapping. -/
def Step.ofKey (key : Value) : Step :=
  match key with
  | .text s => .name s
  | .flag b => .index (if b then 1 else 0)
  | .int n => if -indexBound ≤ n ∧ n < indexBound then .index n else .name (toString n)
  | key => .name key.shown

def Step.shown : Step → String
  | .name text => if text.toList.contains '.' then "\x60" ++ text ++ "\x60" else text
  | .index n => toString n

/-- A place as a dotted path. -/
def shownPlace (place : List Step) : String :=
  ".".intercalate (place.map Step.shown)

def Issue.shown (i : Issue) : String :=
  (if i.place.isEmpty then "" else "\n" ++ shownPlace i.place) ++
    "\n  " ++ i.defect.message ++ " [type=" ++ i.defect.code ++ "]"

/-- All issues of a model as one text. -/
def shownIssues (model : String) (issues : List Issue) : String :=
  toString issues.length ++ " validation error" ++ (if issues.length = 1 then "" else "s") ++
    " for " ++ model ++ String.join (issues.map Issue.shown)

/-- Why data is not accepted for a model.  An integer duration beyond the finite doubles is no issue
of the data but an error of its own. -/
inductive Rejection where
  | flawed (model : String) (issues : List Issue)
  | overflow
deriving DecidableEq, Repr

def Rejection.message : Rejection → String
  | .flawed model issues => shownIssues model issues
  | .overflow => Duration.Error.tooLarge.message

/-- The verdict on data for a model as a whole. -/
def verdict {α : Type} (model : String) (c : Checked α) : Except Rejection α :=
  c.mapError fun issues ↦
    if issues.any (·.defect = .badDuration .tooLarge) then .overflow else .flawed model issues

end Testbed.Validation
