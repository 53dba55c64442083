import PlaneAccess.Yaml.Cursor
import PlaneAccess.Yaml.Token
import PlaneAccess.Yaml.Scalar.Quoted

/-!
# Anchors, tags and directives

The tokens that are made of a mark and a name.
-/

namespace PlaneAccess.Yaml.Property

def name (c : Cursor) : Option (String × Cursor) :=
  let (cs, after) := c.next.span isNameChar
  let ends := endsWord after.here ||
    after.here.any (fun x => "?:,]\x7d%@\x60".toList.contains x)
  if cs.isEmpty || !ends then none else some (String.ofList cs, after)

/-- The octets that a run of escapes such as `%c3%a9` stands for, the number
of characters it takes up, and what follows it. -/
def octets : List Char → Option (List UInt8 × Nat × List Char)
  | '%' :: a :: b :: cs => do
    let high ← Quoted.hexDigit a
    let low ← Quoted.hexDigit b
    let (os, n, rest) ← octets cs
    return ((16 * high + low).toUInt8 :: os, n + 3, rest)
  | '%' :: _ => none
  | cs => some ([], 0, cs)

/-- The characters of a tag from here on, the number of characters they take
up, and what follows them. Each round takes at least one character. -/
def tagChars (isPart : Char → Bool) :
    Nat → List Char → Option (List Char × Nat × List Char)
  | 0, _ => none
  | fuel + 1, cs =>
    match cs with
    | [] => some ([], 0, [])
    | c :: rest =>
      if c == '%' then do
        let (os, n, rest) ← octets cs
        let text ← String.fromUTF8? (ByteArray.mk os.toArray)
        let (more, m, rest) ← tagChars isPart fuel rest
        return (text.toList ++ more, n + m, rest)
      else if isPart c then do
        let (more, m, rest) ← tagChars isPart fuel rest
        return (c :: more, m + 1, rest)
      else some ([], 0, cs)

def tagText (isPart : Char → Bool) (c : Cursor) :
    Option (List Char × Cursor) := do
  let (text, n, rest) ← tagChars isPart (c.rest.length + 1) c.rest
  return (text, ⟨rest, c.line, c.column + n⟩)

def isFullTagChar (c : Char) : Bool :=
  isTagChar c || c == ',' || c == '[' || c == ']'

/-- Reads the handle of a tag: an exclamation mark, and a name between two
of them. A name without the second mark is read as well. -/
def handle (c : Cursor) : Option (List Char × Cursor) :=
  if c.here != some '!' then none
  else
    let (cs, after) := c.next.span isNameChar
    if after.here == some '!' then some ('!' :: (cs ++ ['!']), after.next)
    else some ('!' :: cs, after)

/-- Reads a tag: one in full between angle brackets, or a handle with a
suffix. A mark that stands alone is a tag without a handle. -/
def tag (inFlow : Bool) (c : Cursor) : Option (Token × Cursor) := do
  let (token, after) ←
    if c.ahead 1 == some '<' then do
      let (text, after) ← tagText isFullTagChar (c.skip 2)
      if text.isEmpty || after.here != some '>' then none
      pure (Token.tag "" (String.ofList text), after.next)
    else do
      let (h, after) ← handle c
      let (text, end') ← tagText isTagChar after
      if h.length > 1 && h.getLast? == some '!' then
        if text.isEmpty then none
        pure (Token.tag (String.ofList h) (String.ofList text), end')
      else if h.tail.isEmpty && text.isEmpty then
        pure (Token.tag "" "!", end')
      else
        pure (Token.tag "!" (String.ofList (h.tail ++ text)), end')
  if (inFlow && after.here == some ',') || endsWord after.here then
    return (token, after)
  else none

def number (c : Cursor) : Option (Nat × Cursor) :=
  let (cs, after) := c.span Char.isDigit
  if cs.isEmpty || 9 < cs.length then none
  else
    let n := cs.foldl (fun n d => 10 * n + (d.toNat - '0'.toNat)) 0
    some (n, after)

def version (c : Cursor) : Option (Token × Cursor) := do
  let (major, c) ← number (c.skipWhile isGap)
  if c.here != some '.' then none
  let (minor, c) ← number c.next
  return (Token.version major minor, c)

/-- Reads the handle that a directive declares and what it stands for. -/
def tagPrefix (c : Cursor) : Option (Token × Cursor) := do
  let (h, c) ← handle (c.skipWhile isGap)
  if h != ['!'] && h.getLast? != some '!' then none
  if !c.here.any isGap then none
  let (text, c) ← tagText isFullTagChar (c.skipWhile isGap)
  if text.isEmpty || !endsWord c.here then none
  return (Token.tagPrefix (String.ofList h) (String.ofList text), c)

def directive (c : Cursor) : Option (Token × Cursor) := do
  let (cs, c) := c.next.span isNameChar
  if cs.isEmpty || !endsWord c.here then none
  let (token, c) ←
    if cs == "YAML".toList then version c
    else if cs == "TAG".toList then tagPrefix c
    else none
  let c := c.skipWhile isGap
  let c := if c.here == some '#' then c.skipWhile (fun x => !isBreak x) else c
  if !endsLine c.here then none
  return (token, c.next)

end PlaneAccess.Yaml.Property
