/-!
# Paths

Where in a document a value stands: the keys and indices that lead to it.
-/

namespace PlaneAccess.Yaml

/-- A step from a collection to a value in it. A key that is no plain text,
or a reference to one, is not shown. -/
inductive PathStep where
  | key (key : String)
  | hiddenKey
  | index (i : Nat)
  deriving DecidableEq, Repr

/-- The steps that lead to a value, the last one first. -/
abbrev Path := List PathStep

namespace Path

/-- The text of a path: keys behind points and indices in brackets. -/
def text : Path → String
  | [] => ""
  | .index i :: parent => text parent ++ "[" ++ toString i ++ "]"
  | [.key k] => k
  | [.hiddenKey] => "?"
  | .key k :: parent => text parent ++ "." ++ k
  | .hiddenKey :: parent => text parent ++ ".?"

end Path

end PlaneAccess.Yaml
