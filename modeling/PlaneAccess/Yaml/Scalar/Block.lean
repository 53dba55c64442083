import PlaneAccess.Yaml.Cursor

/-!
# Block scalars

Indented lines below a header. A literal scalar keeps its line ends, a
folded one turns single line ends between unindented lines into spaces. The
header says what becomes of the last line ends.
-/

namespace PlaneAccess.Yaml.Block

/-- What becomes of the line ends after the last line. -/
inductive Chomping where
  | strip
  | clip
  | keep
  deriving DecidableEq, Repr

structure Header where
  chomping : Chomping
  increment : Option Nat

def chompingOf : Char → Option Chomping
  | '+' => some .keep
  | '-' => some .strip
  | _ => none

/-- The indentation that a digit asks for. Zero is refused. -/
def incrementOf (c : Char) : Option (Option Nat) :=
  if c == '0' then some none
  else if c.isDigit then some (some (c.toNat - '0'.toNat))
  else none

/-- Reads the marks of a header, in either order. -/
def header (cs : List Char) : Option (Header × Nat) :=
  match cs.head?.bind chompingOf with
  | some k =>
    match cs.tail.head?.bind incrementOf with
    | some none => none
    | some (some n) => some (⟨k, some n⟩, 2)
    | none => some (⟨k, none⟩, 1)
  | none =>
    match cs.head?.bind incrementOf with
    | some none => none
    | some (some n) =>
      match cs.tail.head?.bind chompingOf with
      | some k => some (⟨k, some n⟩, 2)
      | none => some (⟨.clip, some n⟩, 1)
    | none => some (⟨.clip, none⟩, 0)

/-- Reads empty lines and the indentation of the next line, up to a limit if
there is one. Gives the line ends, the deepest column reached, and the place
after. A tab within the indentation is refused. -/
def emptyLines (limit : Option Nat) (deepest line column : Nat) :
    List Char → Option (List Char × Nat × Cursor)
  | [] => some ([], deepest, ⟨[], line, column⟩)
  | c :: cs =>
    let inside := limit.all (column < ·)
    if c == ' ' && inside then
      emptyLines limit (max deepest (column + 1)) line (column + 1) cs
    else if c == '\t' && inside then none
    else if isBreak c then
      (emptyLines limit deepest (line + 1) 0 cs).map
        (fun (ends, r) => (c :: ends, r))
    else some ([], deepest, ⟨c :: cs, line, column⟩)

/-- What has been read of a block scalar: its parts in reverse, the end of
the last line, the ends of the empty lines after it, and whether the last
line starts with white space. -/
structure Reading where
  parts : List (List Char)
  lastBreak : List Char
  emptyBreaks : List Char
  indented : Bool

/-- What stands between the last line and a line that starts with the
character `c`. -/
def Reading.separator (r : Reading) (literal : Bool) (c : Char) : List Char :=
  if !literal && r.lastBreak == ['\n'] && !r.indented && !isGap c then
    if r.emptyBreaks.isEmpty then [' '] else r.emptyBreaks
  else r.lastBreak ++ r.emptyBreaks

/-- Reads the lines that are indented by `indent`. Each round takes at least
one character, so `fuel` as long as the text is enough. -/
def lines (literal : Bool) (indent : Nat) :
    Nat → Reading → Cursor → Option (Reading × Cursor)
  | 0, _, _ => none
  | fuel + 1, r, place =>
    match place.here with
    | none => some (r, place)
    | some c =>
      if place.column != indent then some (r, place)
      else
        let (body, stop) := place.span (fun x => !isBreak x)
        let ending := stop.here.toList
        let start := stop.next
        match emptyLines (some indent) 0 start.line start.column start.rest with
        | none => none
        | some (ends, _, next) =>
          lines literal indent fuel
            ⟨body :: r.separator literal c :: r.parts, ending, ends, isGap c⟩
            next

/-- The text of a scalar after its last line. -/
def Reading.finish (r : Reading) : Chomping → List Char
  | .strip => r.parts.reverse.flatten
  | .clip => r.parts.reverse.flatten ++ r.lastBreak
  | .keep => r.parts.reverse.flatten ++ r.lastBreak ++ r.emptyBreaks

/-- Reads the block scalar that starts here, in a collection whose entries
start at column `parent` (`-1` outside of all collections). -/
def scan (literal : Bool) (parent : Int) (c : Cursor) :
    Option (List Char × Cursor) := do
  let c := c.next
  let (head, used) ← header c.rest
  let c := (c.skip used).skipWhile isGap
  let c := if c.here == some '#' then c.skipWhile (fun x => !isBreak x) else c
  if !endsLine c.here then none
  let c := c.next
  let limit := head.increment.map (fun n => (max parent 0).toNat + n)
  let (ends, deepest, c) ← emptyLines limit 0 c.line c.column c.rest
  let indent := limit.getD (max (max deepest (parent + 1).toNat) 1)
  let (r, c) ← lines literal indent (c.rest.length + 1) ⟨[], [], ends, false⟩ c
  return (r.finish head.chomping, c)

end PlaneAccess.Yaml.Block
