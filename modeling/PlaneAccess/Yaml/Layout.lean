import PlaneAccess.Yaml.Scalar.Style

/-!
# Layout

How a tree is laid out as text. Collections are blocks indented by two
columns, save that the items of a sequence under a key are not indented.
-/

namespace PlaneAccess.Yaml.Layout

/-- Where a node begins: at the start of a line, after a mark that counts as
indentation, or after a word or a colon. -/
inductive Start where
  | line
  | mark
  | word
  deriving DecidableEq, Repr

def hexDigit (n : Nat) : Char :=
  if n < 10 then Char.ofNat ('0'.toNat + n) else Char.ofNat ('A'.toNat + n - 10)

def hexDigits : Nat → Nat → List Char
  | 0, _ => []
  | width + 1, n => hexDigits width (n / 16) ++ [hexDigit (n % 16)]

def escape (c : Char) : List Char :=
  if isPrintable c && !isBreak c && c != '"' && c != '\\' then [c]
  else
    let short := [('\x00', '0'), ('\x07', 'a'), ('\x08', 'b'), ('\t', 't'),
      ('\n', 'n'), ('\x0b', 'v'), ('\x0c', 'f'), ('\r', 'r'), ('\x1b', 'e'),
      ('"', '"'), ('\\', '\\'), ('\x85', 'N'), ('\xa0', '_'),
      ('\u2028', 'L'), ('\u2029', 'P')]
    let n := c.toNat
    match short.lookup c with
    | some d => ['\\', d]
    | none =>
      if n ≤ 0xff then '\\' :: 'x' :: hexDigits 2 n
      else if n ≤ 0xffff then '\\' :: 'u' :: hexDigits 4 n
      else '\\' :: 'U' :: hexDigits 8 n

/-- A line end and the indentation of the next line. -/
def spaces (indent : Nat) : List Char := List.replicate indent ' '

/-- The inside of a single-quoted scalar. Its line ends are followed by
indentation. -/
def singleQuoted (indent : Nat) : (afterBreak : Bool) → List Char → List Char
  | afterBreak, [] => if afterBreak then spaces indent else []
  | afterBreak, c :: cs =>
    if isBreak c then c :: singleQuoted indent true cs
    else
      (if afterBreak then spaces indent else []) ++
        (if c == '\'' then ['\'', '\''] else [c]) ++
        singleQuoted indent false cs

def literalLines (indent : Nat) : (afterBreak : Bool) → List Char → List Char
  | _, [] => []
  | afterBreak, c :: cs =>
    if isBreak c then c :: literalLines indent true cs
    else
      (if afterBreak then spaces indent else []) ++
        c :: literalLines indent false cs

/-- The marks after the bar of a literal block: the indentation if the text
itself starts with white space, and what becomes of the last line ends. -/
def literalHints (cs : List Char) : List Char :=
  let lead := if cs.head?.any (fun c => c == ' ' || isBreak c) then ['2'] else []
  let chomp :=
    match cs.reverse with
    | [] => ['-']
    | [c] => if isBreak c then ['+'] else ['-']
    | c :: d :: _ =>
      if !isBreak c then ['-'] else if isBreak d then ['+'] else []
  lead ++ chomp

/-- A scalar with the indentation of its further lines. -/
def scalar (indent : Nat) (form : Form) (cs : List Char) : List Char :=
  match Style.styleOf form cs with
  | .plain => cs
  | .singleQuoted => '\'' :: (singleQuoted indent false cs ++ ['\''])
  | .literal | .folded =>
    '|' :: (literalHints cs ++ '\n' :: literalLines indent true cs)
  | .doubleQuoted => '"' :: (cs.flatMap escape ++ ['"'])

def tagChar (c : Char) : List Char :=
  if isNameChar c || ";/?:@&=+$,.~*'()[]!".toList.contains c then [c]
  else (String.singleton c).toUTF8.toList.flatMap
    (fun b => '%' :: hexDigits 2 b.toNat)

/-- A tag. A lone exclamation mark is written in full. -/
def tag (t : String) : List Char :=
  match t.toList with
  | '!' :: c :: cs => '!' :: (c :: cs).flatMap tagChar
  | cs => '!' :: '<' :: (cs.flatMap tagChar ++ ['>'])

/-- The length of a text in UTF-8. -/
def size (s : String) : Nat := s.utf8ByteSize

/-- Whether a node may be a key in front of its colon on one line: an empty
collection, or a scalar of one line. Both must be short. -/
def isSimpleKey (t : Tree) : Bool :=
  let short (tag : Option String) (n : Nat) : Bool :=
    (tag.map size).getD 0 + n ≤ 128
  match t.target with
  | .scalar tag _ text => !text.toList.any isBreak && short tag (size text)
  | .sequence tag [] => short tag 0
  | .mapping tag [] => short tag 0
  | _ => false

/-- The text so far, in reverse, brought to the start of a line. -/
def newLine : List Char → List Char
  | [] => []
  | c :: out => if isBreak c then c :: out else '\n' :: c :: out

def append (out more : List Char) : List Char := more.reverse ++ out

def word (out : List Char) (start : Start) (w : List Char) : List Char :=
  append (if start == .line then out else ' ' :: out) w

/-- The text so far, in reverse, brought to where the first entry of a block
goes. -/
def firstLine (out : List Char) (start : Start) (indent : Nat) : List Char :=
  match start with
  | .line => out
  | .mark => ' ' :: out
  | .word => append (newLine out) (spaces indent)

/-- The text so far, in reverse, brought to where the next entry of a block
goes. -/
def nextLine (out : List Char) (indent : Nat) : List Char :=
  append (newLine out) (spaces indent)

mutual

/-- Lays out a node. `indent` is the indentation of the block around it, if
there is one, and `underKey` says whether that block is a mapping. The text
so far is kept in reverse. -/
def node (indent : Option Nat) (underKey : Bool) (start : Start)
    (out : List Char) : Tree → List Char
  | .scalar t form text =>
    let (out, start) := tagged t start out
    word out start (scalar ((indent.getD 0) + 2) form text.toList)
  | .sequence t [] =>
    let (out, start) := tagged t start out
    word out start ['[', ']']
  | .sequence t (i :: is) =>
    let (out, start) := tagged t start out
    let inner :=
      if underKey && start == .word then indent.getD 0
      else indent.elim 0 (· + 2)
    items inner (firstLine out start inner) (i :: is)
  | .mapping t [] =>
    let (out, start) := tagged t start out
    word out start ['\x7b', '\x7d']
  | .mapping t (e :: es) =>
    let (out, start) := tagged t start out
    let inner := indent.elim 0 (· + 2)
    entries inner (firstLine out start inner) (e :: es)
  | .reference t => node indent underKey start out t
  | .fault _ => out
where
  /-- The text so far with a tag after it, and where the node goes on. -/
  tagged (t : Option String) (start : Start) (out : List Char) :
      List Char × Start :=
    match t with
    | none => (out, start)
    | some t => (word out start (tag t), .word)

/-- Lays out the items of a sequence, the first of them where the text so far
ends. -/
def items (indent : Nat) (out : List Char) : List Tree → List Char
  | [] => out
  | [t] => node (some indent) false .mark ('-' :: out) t
  | t :: ts =>
    items indent
      (nextLine (node (some indent) false .mark ('-' :: out) t) indent) ts

/-- Lays out the entries of a mapping, the first of them where the text so
far ends. A key that is not simple is put behind a question mark. -/
def entries (indent : Nat) (out : List Char) :
    List (Tree × Tree) → List Char
  | [] => out
  | (k, v) :: es =>
    let out :=
      if isSimpleKey k then
        let out := node (some indent) true .line out k
        node (some indent) true .word (':' :: out) v
      else
        let out := node (some indent) true .mark ('?' :: out) k
        let out := nextLine out indent
        node (some indent) true .mark (':' :: out) v
    if es.isEmpty then out else entries indent (nextLine out indent) es

end

end PlaneAccess.Yaml.Layout

namespace PlaneAccess.Yaml

/-- The text of a tree, which ends with a line end. -/
def Tree.render (t : Tree) : List Char :=
  (Layout.newLine (Layout.node none false .line [] t)).reverse

end PlaneAccess.Yaml
