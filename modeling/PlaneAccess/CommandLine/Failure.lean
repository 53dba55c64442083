import PlaneAccess.Error

/-!
# Failures

An error that ends the program, with what was being done, and how it is
reported together with its causes.
-/

namespace PlaneAccess.CommandLine

/-- An error, and what was being done, if that is said. -/
structure Failure where
  doing : Option String
  error : Error

namespace Failure

def messages (f : Failure) : List String :=
  f.doing.toList ++ f.error.message :: f.error.causes

/-- A text with something in front of its first line and something else in
front of the others. -/
def indented (first others s : String) : String :=
  first ++ ("\n" ++ others).intercalate (s.splitOn "\n")

def numbered : Nat → List String → List String
  | _, [] => []
  | n, s :: ss =>
    let digits := toString n
    let pad := String.ofList (List.replicate (5 - digits.length) ' ')
    indented (pad ++ digits ++ ": ") "       " s :: numbered (n + 1) ss

/-- The lines for the causes. A single one has no number. -/
def causeLines : List String → List String
  | [s] => [indented "    " "    " s]
  | ss => numbered 0 ss

def reportOf : List String → String
  | [] => ""
  | [s] => "Error: " ++ s ++ "\n"
  | s :: causes =>
    "Error: " ++ s ++ "\n\nCaused by:\n" ++
      "\n".intercalate (causeLines causes) ++ "\n"

def report (f : Failure) : String := reportOf f.messages

end Failure

end PlaneAccess.CommandLine
