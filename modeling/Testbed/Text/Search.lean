/-!
# Searching a text

Occurrences of a non-empty pattern are found from left to right, and the search goes on behind each
of them, so that they do not overlap.
-/

namespace Testbed.Text

/-- Whether a pattern occurs anywhere. -/
def occurs (pattern : List Char) : List Char → Bool
  | [] => pattern.isEmpty
  | c :: cs => pattern.isPrefixOf (c :: cs) || occurs pattern cs

/-- The segments between the occurrences of a pattern; `segment` in reverse precedes the text. -/
def segmentsFrom (pattern segment : List Char) (cs : List Char) : List (List Char) :=
  match cs with
  | [] => [segment.reverse]
  | c :: rest =>
    if pattern ≠ [] ∧ pattern.isPrefixOf (c :: rest) then
      segment.reverse :: segmentsFrom pattern [] (rest.drop (pattern.length - 1))
    else segmentsFrom pattern (c :: segment) rest
termination_by cs.length
decreasing_by all_goals simp only [List.length_drop, List.length_cons]; omega

/-- The segments of a text between the occurrences of a pattern, of which there is one more than
there are occurrences. -/
def segments (pattern cs : List Char) : List (List Char) :=
  segmentsFrom pattern [] cs

/-- Puts a text in the place of every occurrence of a pattern. -/
def substitute (pattern replacement cs : List Char) : List Char :=
  replacement.intercalate (segments pattern cs)

theorem occurs_iff {pattern cs : List Char} : occurs pattern cs = true ↔ pattern <:+: cs := by
  induction cs with
  | nil => simp [occurs]
  | cons c cs ih =>
    simp [occurs, ih, List.infix_cons_iff]

end Testbed.Text
