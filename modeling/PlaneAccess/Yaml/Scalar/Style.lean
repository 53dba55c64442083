import PlaneAccess.Yaml.Character
import PlaneAccess.Yaml.Meaning
import PlaneAccess.Yaml.Tree

/-!
# Styles of scalars

How a string is written: plain if it then reads as itself, and otherwise
between quotes or as a literal block.
-/

namespace PlaneAccess.Yaml

def isPrintable (c : Char) : Bool :=
  let n := c.toNat
  n == 0xa || (0x20 ≤ n && n ≤ 0x7e) || (0xa0 ≤ n && n ≤ 0xd7ff) ||
    (0xe000 ≤ n && n ≤ 0xfffd && n != 0xfeff) || 0x10000 ≤ n

namespace Style

/-- Whether a word at the start of a text is a mark instead: `first` is its
first character, `second` the one after it. -/
def isLeadingMark (first : Char) (second : Option Char) : Bool :=
  "#,[]\x7b\x7d&*!|>'\"%@\x60".toList.contains first ||
    ((first == '?' || first == ':' || first == '-') && endsWord second)

def hasInnerMark : List Char → Bool
  | before :: c :: cs =>
    (c == ':' && endsWord cs.head?) || (c == '#' && endsWord (some before)) ||
      hasInnerMark (c :: cs)
  | _ => false

/-- Whether marks in a text keep it from being plain. -/
def hasMarks (cs : List Char) : Bool :=
  "---".toList.isPrefixOf cs || "...".toList.isPrefixOf cs ||
    cs.head?.any (isLeadingMark · cs.tail.head?) || hasInnerMark cs

def hasPair (p q : Char → Bool) : List Char → Bool
  | a :: b :: cs => (p a && q b) || hasPair p q (b :: cs)
  | _ => false

def atEdge (p : Char → Bool) (cs : List Char) : Bool :=
  cs.head?.any p || cs.getLast?.any p

def isSpace (c : Char) : Bool := c == ' '

/-- Whether all characters are printable, and no space stands before a line
end. Otherwise a text needs escapes. -/
def needsEscapes (cs : List Char) : Bool :=
  !cs.all isPrintable || hasPair isSpace isBreak cs

def allowsSingle (cs : List Char) : Bool :=
  !needsEscapes cs && !hasPair isBreak isSpace cs

/-- Whether a text may be plain. The empty one may, as far as its characters
go. -/
def allowsPlain (cs : List Char) : Bool :=
  cs.isEmpty ||
    (allowsSingle cs && !cs.any isBreak && !atEdge isSpace cs && !hasMarks cs)

def allowsBlock (cs : List Char) : Bool :=
  !cs.isEmpty && !needsEscapes cs && !cs.getLast?.any isSpace

def readsAsString (s : String) : Bool :=
  match Meaning.ofPlain s with
  | .string => !Meaning.isPadded s.toList
  | _ => false

def formOf (s : String) : Form :=
  let cs := s.toList
  if cs.contains '\n' then
    if allowsBlock cs then .literal else .quoted
  else if readsAsString s && allowsPlain cs then .plain
  else .quoted

def styleOf (form : Form) (cs : List Char) : ScalarStyle :=
  match form with
  | .plain => .plain
  | .literal => .literal
  | .quoted =>
    if !cs.contains '\n' && allowsSingle cs then .singleQuoted
    else .doubleQuoted

end Style

end PlaneAccess.Yaml
