/-!
# Characters of YAML

Which characters a text may hold, and the classes that tokens are told
apart by. The end of the text counts as a blank in most places, so these
classes are over `Option Char`, with `none` for the end.
-/

namespace PlaneAccess.Yaml

/-- Whether a text may hold the character at all. -/
def isAdmissible (c : Char) : Bool :=
  let n := c.toNat
  n == 0x9 || n == 0xa || n == 0xd || (0x20 ≤ n && n ≤ 0x7e) || n == 0x85 ||
    (0xa0 ≤ n && n ≤ 0xd7ff) || (0xe000 ≤ n && n ≤ 0xfffd) || 0x10000 ≤ n

def isBreak (c : Char) : Bool :=
  c == '\n' || c == '\r' || c == '\x85' || c == '\u2028' || c == '\u2029'

/-- Whether a character separates words on a line. -/
def isGap (c : Char) : Bool := c == ' ' || c == '\t'

def endsLine : Option Char → Bool
  | none => true
  | some c => isBreak c

def endsWord : Option Char → Bool
  | none => true
  | some c => isGap c || isBreak c

def isNameChar (c : Char) : Bool := c.isAlphanum || c == '_' || c == '-'

def isTagChar (c : Char) : Bool :=
  isNameChar c || ";/?:@&=+$.!~*'()%".toList.contains c

def isFlowMark (c : Char) : Bool := ",[]\x7b\x7d".toList.contains c

/-- Whether a character has a meaning of its own in front of a word. -/
def isIndicator (c : Char) : Bool :=
  "-?:,[]\x7b\x7d#&*!|>'\"%@\x60".toList.contains c

/-- The text with one character for each end of a line. The separators
U+2028 and U+2029 are kept, all other ends become a line feed. -/
def unifyBreaks : List Char → List Char
  | '\r' :: '\n' :: cs => '\n' :: unifyBreaks cs
  | c :: cs => (if c == '\r' || c == '\x85' then '\n' else c) :: unifyBreaks cs
  | [] => []

end PlaneAccess.Yaml
