import PlaneAccess.Json.Error

/-!
# Readers

A reader looks at a text only as far as it must, so of an error in the data
and one in the JSON the first one counts.
-/

namespace PlaneAccess.Json

/-- A reader takes characters from the front of a text. -/
abbrev Reader (α : Type) := StateT (List Char) (Except Error) α

def malformed {α : Type} : Reader α := throw .malformed

def wrong {α : Type} (p : Problem) : Reader α := throw (.data p)

def isSpace (c : Char) : Bool :=
  c == ' ' || c == '\n' || c == '\t' || c == '\r'

/-- Skips white space and gives the character after it without taking it. -/
def peek : Reader (Option Char) := do
  modify (·.dropWhile isSpace)
  return (← get).head?

/-- Skips white space and gives the character after it, which must be
there. -/
def peekSome : Reader Char := do
  match ← peek with
  | some c => return c
  | none => malformed

def take : Reader Unit := modify List.tail

def takeText (cs : List Char) : Reader Unit := do
  if cs.isPrefixOf (← get) then modify (·.drop cs.length) else malformed

/-- Skips white space and takes a given character, which must be there. -/
def takeMark (c : Char) : Reader Unit := do
  if (← peek) == some c then take else malformed

end PlaneAccess.Json
