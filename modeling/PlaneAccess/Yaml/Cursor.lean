import PlaneAccess.Yaml.Character

/-!
# Places in a text

What is left of a text together with the line and the column reached. The
ends of lines have been unified before, so each is one character.
-/

namespace PlaneAccess.Yaml

structure Cursor where
  rest : List Char
  line : Nat
  column : Nat
  deriving DecidableEq, Repr

namespace Cursor

def here (c : Cursor) : Option Char := c.rest.head?

def ahead (c : Cursor) (n : Nat) : Option Char := c.rest[n]?

/-- The next place. The end of a line leads to the next one. -/
def next (c : Cursor) : Cursor :=
  match c.rest with
  | [] => c
  | x :: xs =>
    if isBreak x then ⟨xs, c.line + 1, 0⟩ else ⟨xs, c.line, c.column + 1⟩

def skip (c : Cursor) : Nat → Cursor
  | 0 => c
  | n + 1 => c.next.skip n

/-- The characters of a class that stand here, and the place after them.
The class must not hold an end of a line. -/
def span (c : Cursor) (p : Char → Bool) : List Char × Cursor :=
  let (taken, left) := c.rest.span p
  (taken, ⟨left, c.line, c.column + taken.length⟩)

def skipWhile (c : Cursor) (p : Char → Bool) : Cursor := (c.span p).2

def atEnd (c : Cursor) : Bool := c.rest.isEmpty

/-- Whether a line starting here sets documents apart: three times the same
mark, with nothing else in the word. -/
def atDocumentMark (c : Cursor) (mark : Char) : Bool :=
  c.column == 0 && c.here == some mark && c.ahead 1 == some mark &&
    c.ahead 2 == some mark && endsWord (c.ahead 3)

def atDocumentBound (c : Cursor) : Bool :=
  c.atDocumentMark '-' || c.atDocumentMark '.'

end Cursor

end PlaneAccess.Yaml
