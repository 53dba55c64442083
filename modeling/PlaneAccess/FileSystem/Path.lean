import PlaneAccess.Text.Octets

/-!
# Paths

A path leads from the root, or from a working directory, through named
components. Repeated slashes and components of one dot do not count, but a
path that ends in one asks for a directory.
-/

namespace PlaneAccess.FileSystem

/-- What a path ends with. A slash or a dot ask for a directory. -/
inductive Path.Ending where
  | name
  | slash
  | dot
  deriving DecidableEq, Repr

/-- A path: whether it starts at the root, its components, and its end. Two
dots lead to the parent directory. -/
structure Path where
  isAbsolute : Bool
  parts : List String
  ending : Path.Ending
  deriving DecidableEq, Repr

namespace Path

def Ending.asDirectory : Ending → Bool
  | name => false
  | slash | dot => true

def asDirectory (p : Path) : Bool := p.ending.asDirectory

/-- What a path ends with whose text falls into these pieces between
slashes. -/
def endingOf (pieces : List String) : Ending :=
  match pieces.reverse.dropWhile (· == "") with
  | [] => if 1 < pieces.length then .slash else .name
  | last :: _ =>
    if last == "." then .dot
    else if pieces.getLast? == some "" then .slash
    else .name

/-- The path whose text falls into these pieces between slashes. -/
def ofPieces (pieces : List String) : Path where
  isAbsolute := 1 < pieces.length && pieces.head? == some ""
  parts := pieces.filter (fun p => p != "" && p != ".")
  ending := endingOf pieces

def ofText (s : String) : Path :=
  ofPieces ((Text.splitAt '/' s.toList).map String.ofList)

/-- The directory that holds what a path leads to, as far as the text says:
the path without its last component. -/
def parent (p : Path) : Path := ⟨p.isAbsolute, p.parts.dropLast, .name⟩

/-- The same, asked for as a directory. A path without components has the
working directory. -/
def directory (p : Path) : Path :=
  ⟨p.isAbsolute && !p.parts.isEmpty, p.parts.dropLast, .dot⟩

/-- A path from a directory on. -/
def join (dir p : Path) : Path :=
  if p.isAbsolute then p
  else ⟨dir.isAbsolute, dir.parts ++ p.parts, p.ending⟩

/-- The components to walk along. A path that asks for a directory goes on
into it. -/
def steps (p : Path) : List String :=
  if p.asDirectory then p.parts ++ ["."] else p.parts

def isEmpty (p : Path) : Bool :=
  !p.isAbsolute && p.parts.isEmpty && !p.asDirectory

/-- Whether the last component is the name of an entry, and not a dot or
two. -/
def endsInEntry (p : Path) : Bool :=
  p.ending != .dot && p.parts.getLast?.any (· != "..")

/-- The directory in which the last component is looked up, be it a dot. -/
def holder (p : Path) : Path :=
  if p.ending = .dot then p else ⟨p.isAbsolute, p.parts.dropLast, .dot⟩

end Path

end PlaneAccess.FileSystem
