import PlaneAccess.Yaml.Token.Property
import PlaneAccess.Yaml.Scalar.Plain
import PlaneAccess.Yaml.Scalar.Quoted
import PlaneAccess.Yaml.Scalar.Block

/-!
# Tokens of a text

Reads a text into tokens. Indentation becomes tokens that open and close
block collections. Whether something is the key of a mapping shows only at
the colon after it, so the places where a key may have started are kept, and
the token for the key is put in at such a place afterwards.
-/

namespace PlaneAccess.Yaml

/-- A place where a key may have started: the number of tokens before it,
and its line and column. A key that is `required` is the only thing that can
stand there. -/
structure KeyPlace where
  index : Nat
  line : Nat
  column : Nat
  required : Bool
  deriving DecidableEq, Repr

/-- The state of reading. There is one possible key for each open flow
collection and one outside of all of them, the innermost first. `indents`
are the columns of the open block collections around the innermost one. -/
structure Lexer where
  place : Cursor
  tokens : Array Token
  flowLevel : Nat
  keyAllowed : Bool
  keys : List (Option KeyPlace)
  indent : Int
  indents : List Int
  finished : Bool

namespace Lexer

/-- The state at the start of a text. A byte order mark is skipped. -/
def start (cs : List Char) : Lexer :=
  let place : Cursor :=
    match unifyBreaks cs with
    | '\uFEFF' :: cs => ⟨cs, 0, 1⟩
    | cs => ⟨cs, 0, 0⟩
  ⟨place, #[], 0, true, [none], -1, [], false⟩

def inFlow (l : Lexer) : Bool := 0 < l.flowLevel

def push (l : Lexer) (t : Token) : Lexer :=
  { l with tokens := l.tokens.push t }

def pushTo (l : Lexer) (t : Token) (place : Cursor) : Lexer :=
  { l with tokens := l.tokens.push t, place }

def pushMark (l : Lexer) (t : Token) (n : Nat) : Lexer :=
  l.pushTo t (l.place.skip n)

/-- Forgets the possible key at the innermost level. Not if it is
required. -/
def dropKey (l : Lexer) : Option Lexer :=
  match l.keys with
  | some k :: ks =>
    if k.required then none else some { l with keys := none :: ks }
  | _ => some l

def noteKey (l : Lexer) : Option Lexer :=
  if l.keyAllowed then do
    let l ← l.dropKey
    let key : KeyPlace :=
      ⟨l.tokens.size, l.place.line, l.place.column,
        !l.inFlow && l.indent == (l.place.column : Int)⟩
    return { l with keys := some key :: l.keys.tail }
  else some l

/-- Whether a key that started at `k` would be too long, or go over a line
end, if its colon came only here. -/
def isStale (l : Lexer) (k : KeyPlace) : Bool :=
  k.line < l.place.line || k.column + 1024 < l.place.column

def dropStale (l : Lexer) : Option Lexer := do
  let keys ← l.keys.mapM (fun
    | none => some none
    | some k =>
      if !l.isStale k then some (some k)
      else if k.required then none
      else some none)
  return { l with keys }

/-- Opens a block collection at a column, if it is deeper than the innermost
one. Its token comes after the first `i` tokens. -/
def openBlock (l : Lexer) (column : Nat) (i : Nat) (t : Token) : Lexer :=
  if !l.inFlow && l.indent < (column : Int) then
    { l with
      indents := l.indent :: l.indents
      indent := column
      tokens := l.tokens.insertIdxIfInBounds i t }
  else l

/-- Closes the block collections that are deeper than a column, given the
columns of those around the innermost one, its own, and the tokens so far. -/
def closeBlocks (column : Int) : List Int → Int → Array Token →
    List Int × Int × Array Token
  | [], indent, ts => ([], indent, ts)
  | i :: is, indent, ts =>
    if column < indent then closeBlocks column is i (ts.push .blockEnd)
    else (i :: is, indent, ts)

/-- Closes the block collections that are deeper than a column. Within a flow
collection columns have no meaning. -/
def unindent (l : Lexer) (column : Int) : Lexer :=
  if l.inFlow then l
  else
    let (indents, indent, tokens) :=
      closeBlocks column l.indents l.indent l.tokens
    { l with indents, indent, tokens }

/-- Skips white space and comments. A new line allows a key to start, but not
within a flow collection. -/
def skipSpace : Nat → Lexer → Lexer
  | 0, l => l
  | fuel + 1, l =>
    let tabs := l.inFlow || !l.keyAllowed
    let place := l.place.skipWhile (fun c => c == ' ' || (tabs && c == '\t'))
    let place :=
      if place.here == some '#' then place.skipWhile (fun c => !isBreak c)
      else place
    if place.here.any isBreak then
      skipSpace fuel
        { l with
          place := place.next
          keyAllowed := l.keyAllowed || !l.inFlow }
    else { l with place }

def readEnd (l : Lexer) : Option Lexer := do
  let l ← (l.unindent (-1)).dropKey
  return { l.push .streamEnd with keyAllowed := false, finished := true }

def readDirective (l : Lexer) : Option Lexer := do
  let l ← (l.unindent (-1)).dropKey
  let (t, place) ← Property.directive l.place
  return { l.pushTo t place with keyAllowed := false }

def readDocumentBound (l : Lexer) (t : Token) : Option Lexer := do
  let l ← (l.unindent (-1)).dropKey
  return { l.pushMark t 3 with keyAllowed := false }

/-- The start of a flow collection, which may be a key itself. -/
def readFlowStart (l : Lexer) (t : Token) : Option Lexer := do
  let l ← l.noteKey
  return { l.pushMark t 1 with
    keys := none :: l.keys
    flowLevel := l.flowLevel + 1
    keyAllowed := true }

def readFlowEnd (l : Lexer) (t : Token) : Option Lexer := do
  let l ← l.dropKey
  return { l.pushMark t 1 with
    keys := if l.inFlow then l.keys.tail else l.keys
    flowLevel := l.flowLevel - 1
    keyAllowed := false }

def readFlowEntry (l : Lexer) : Option Lexer := do
  let l ← l.dropKey
  return { l.pushMark .flowEntry 1 with keyAllowed := true }

def readBlockEntry (l : Lexer) : Option Lexer := do
  if !l.inFlow && !l.keyAllowed then none
  let l := l.openBlock l.place.column l.tokens.size .blockSequence
  let l ← l.dropKey
  return { l.pushMark .blockEntry 1 with keyAllowed := true }

def readKey (l : Lexer) : Option Lexer := do
  if !l.inFlow && !l.keyAllowed then none
  let l := l.openBlock l.place.column l.tokens.size .blockMapping
  let l ← l.dropKey
  return { l.pushMark .key 1 with keyAllowed := !l.inFlow }

/-- The colon in front of a value. If a key may have started on this line it
did, and its token is put in there. -/
def readValue (l : Lexer) : Option Lexer :=
  match l.keys with
  | some k :: ks =>
    let l := { l with
      tokens := l.tokens.insertIdxIfInBounds k.index .key
      keys := none :: ks }
    let l := l.openBlock k.column k.index .blockMapping
    some { l.pushMark .value 1 with keyAllowed := false }
  | _ => do
    if !l.inFlow && !l.keyAllowed then none
    let l := l.openBlock l.place.column l.tokens.size .blockMapping
    return { l.pushMark .value 1 with keyAllowed := !l.inFlow }

def readName (l : Lexer) (make : String → Token) : Option Lexer := do
  let l ← l.noteKey
  let (name, place) ← Property.name l.place
  return { l.pushTo (make name) place with keyAllowed := false }

def readTag (l : Lexer) : Option Lexer := do
  let l ← l.noteKey
  let (t, place) ← Property.tag l.inFlow l.place
  return { l.pushTo t place with keyAllowed := false }

def readBlockScalar (l : Lexer) (style : ScalarStyle) : Option Lexer := do
  let l ← l.dropKey
  let (text, place) ← Block.scan (style == .literal) l.indent l.place
  let t := Token.scalar style (String.ofList text)
  return { l.pushTo t place with keyAllowed := true }

def readQuoted (l : Lexer) (style : ScalarStyle) (quote : Char) :
    Option Lexer := do
  let l ← l.noteKey
  let (text, place) ← Quoted.scan quote l.place
  let t := Token.scalar style (String.ofList text)
  return { l.pushTo t place with keyAllowed := false }

/-- A plain scalar. A key may follow it on the next line. -/
def readPlain (l : Lexer) : Option Lexer := do
  let l ← l.noteKey
  let s ← Plain.scan l.inFlow (l.indent + 1).toNat l.place
  let t := Token.scalar .plain (String.ofList s.text)
  return { l.pushTo t s.after with keyAllowed := s.broken }

def startsPlain (l : Lexer) (c : Char) : Bool :=
  let after := l.place.ahead 1
  (!isGap c && !isBreak c && !isIndicator c) ||
    (c == '-' && !after.any isGap) ||
    (!l.inFlow && (c == '?' || c == ':') && !endsWord after)

def readToken (l : Lexer) (c : Char) : Option Lexer :=
  let wordEnds := endsWord (l.place.ahead 1)
  if l.place.column == 0 && c == '%' then l.readDirective
  else if l.place.atDocumentMark '-' then l.readDocumentBound .documentStart
  else if l.place.atDocumentMark '.' then l.readDocumentBound .documentEnd
  else if c == '[' then l.readFlowStart .flowSequence
  else if c == '\x7b' then l.readFlowStart .flowMapping
  else if c == ']' then l.readFlowEnd .flowSequenceEnd
  else if c == '\x7d' then l.readFlowEnd .flowMappingEnd
  else if c == ',' then l.readFlowEntry
  else if c == '-' && wordEnds then l.readBlockEntry
  else if c == '?' && (l.inFlow || wordEnds) then l.readKey
  else if c == ':' && (l.inFlow || wordEnds) then l.readValue
  else if c == '*' then l.readName .reference
  else if c == '&' then l.readName .anchor
  else if c == '!' then l.readTag
  else if c == '|' && !l.inFlow then l.readBlockScalar .literal
  else if c == '>' && !l.inFlow then l.readBlockScalar .folded
  else if c == '\'' then l.readQuoted .singleQuoted '\''
  else if c == '"' then l.readQuoted .doubleQuoted '"'
  else if l.startsPlain c then l.readPlain
  else none

/-- Reads on to the end of the next token. -/
def step (l : Lexer) : Option Lexer := do
  let l ← (l.skipSpace (l.place.rest.length + 1)).dropStale
  let l := l.unindent l.place.column
  match l.place.here with
  | none => l.readEnd
  | some c => l.readToken c

/-- The tokens that no later key can come in front of any more. -/
def settled (l : Lexer) : Array Token :=
  let bound := l.keys.foldl (fun n k => k.elim n (fun k => min n k.index))
    l.tokens.size
  l.tokens.extract 0 bound

end Lexer

/-- The tokens of a text, and whether there are tokens to its end. Otherwise
they are those that come before the place at which reading failed. -/
structure Tokens where
  tokens : List Token
  complete : Bool
  deriving DecidableEq, Repr

/-- Reads tokens until the text ends or no token can be read. Each token but
the last takes at least one character. -/
def Lexer.run : Nat → Lexer → Tokens
  | 0, l => ⟨l.tokens.toList, false⟩
  | fuel + 1, l =>
    if l.finished then ⟨l.tokens.toList, true⟩
    else
      match l.dropStale with
      | none => ⟨l.settled.toList, false⟩
      | some l =>
        match l.step with
        | none => ⟨l.settled.toList, false⟩
        | some l' => l'.run fuel

/-- The tokens of a text. A character that no text may hold leaves none. -/
def Tokens.ofText (cs : List Char) : Tokens :=
  if cs.all isAdmissible then Lexer.run (cs.length + 2) (Lexer.start cs)
  else ⟨[], false⟩

end PlaneAccess.Yaml
