import PlaneAccess.Yaml.Cursor

/-!
# Gaps between words

A scalar may go over several lines. The white space between two of its words
is folded: within a line it is kept, one line end becomes a space, and of
several line ends all but the first are kept.
-/

namespace PlaneAccess.Yaml

/-- The white space between two words: the blanks of the first line in
reverse, the first end of a line if there is one (nothing if that end was
escaped), and the further ends in reverse. -/
structure Gap where
  blanks : List Char
  firstBreak : Option (List Char)
  moreBreaks : List Char
  deriving DecidableEq, Repr

namespace Gap

def empty : Gap := ⟨[], none, []⟩

/-- The gap that starts with an escaped end of a line. -/
def escapedBreak : Gap := ⟨[], some [], []⟩

def isBroken (g : Gap) : Bool := g.firstBreak.isSome

/-- The gap with one more end of a line. -/
def addBreak (g : Gap) (c : Char) : Gap :=
  match g.firstBreak with
  | none => { g with firstBreak := some [c] }
  | some _ => { g with moreBreaks := c :: g.moreBreaks }

/-- What stands for the gap in the text of the scalar. -/
def text (g : Gap) : List Char :=
  match g.firstBreak with
  | none => g.blanks.reverse
  | some ['\n'] =>
    if g.moreBreaks.isEmpty then [' '] else g.moreBreaks.reverse
  | some first => first ++ g.moreBreaks.reverse

/-- Reads white space on from a gap. A tab in front of column `indent` is
refused on any line but the first. -/
def scan (indent : Nat) (g : Gap) (line column : Nat) :
    List Char → Option (Gap × Cursor)
  | [] => some (g, ⟨[], line, column⟩)
  | c :: cs =>
    if isGap c then
      if g.isBroken then
        if c == '\t' && column < indent then none
        else g.scan indent line (column + 1) cs
      else
        scan indent { g with blanks := c :: g.blanks } line (column + 1) cs
    else if isBreak c then scan indent (g.addBreak c) (line + 1) 0 cs
    else some (g, ⟨c :: cs, line, column⟩)

end Gap

end PlaneAccess.Yaml
