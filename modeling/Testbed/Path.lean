/-!
# Paths

A path is an optional root followed by names.  Empty names and single points are dropped; two
points are kept, since what they mean depends on links.  A root of exactly two slashes differs from
one of a single slash.
-/

namespace Testbed

/-- Where a path starts. -/
inductive Path.Root where
  | here
  | top
  | doubled
deriving DecidableEq, Repr

structure Path where
  root : Path.Root
  names : List (List Char)
deriving DecidableEq, Repr

namespace Path

/-- The pieces between slashes, the piece `piece` in reverse being underway. -/
def piecesFrom (piece : List Char) : List Char → List (List Char)
  | [] => [piece.reverse]
  | c :: rest =>
    if c = '/' then piece.reverse :: piecesFrom [] rest else piecesFrom (c :: piece) rest

def rootOf : List Char → Root
  | '/' :: '/' :: '/' :: _ => .top
  | '/' :: '/' :: _ => .doubled
  | '/' :: _ => .top
  | _ => .here

def isName (piece : List Char) : Bool :=
  !piece.isEmpty && piece != ['.']

def ofString (s : String) : Path where
  root := rootOf s.toList
  names := (piecesFrom [] s.toList).filter isName

def Root.text : Root → String
  | .here => ""
  | .top => "/"
  | .doubled => "//"

def text (p : Path) : String :=
  if p.root = .here ∧ p.names = [] then "."
  else p.root.text ++ "/".intercalate (p.names.map String.ofList)

end Path

end Testbed
