import PlaneAccess.Yaml.Scalar.Gap

/-!
# Quoted scalars

Between single quotes only the quote itself is special: it is written twice.
Between double quotes a backslash starts an escape, and one at the end of a
line joins the lines.
-/

namespace PlaneAccess.Yaml.Quoted

/-- A part of a quoted scalar without white space, the number of characters
it takes up, and what follows it. -/
structure Word where
  text : List Char
  width : Nat
  rest : List Char

/-- The word with a character in front that took up `n` places. -/
def Word.push (w : Word) (c : Char) (n : Nat) : Word :=
  ⟨c :: w.text, w.width + n, w.rest⟩

def singleWord : List Char → Word
  | '\'' :: '\'' :: cs => (singleWord cs).push '\'' 2
  | [] => ⟨[], 0, []⟩
  | c :: cs =>
    if c == '\'' || endsWord (some c) then ⟨[], 0, c :: cs⟩
    else (singleWord cs).push c 1

def escaped (c : Char) : Option Char :=
  match c with
  | '0' => some '\x00'
  | 'a' => some '\x07'
  | 'b' => some '\x08'
  | 't' => some '\t'
  | '\t' => some '\t'
  | 'n' => some '\n'
  | 'v' => some '\x0b'
  | 'f' => some '\x0c'
  | 'r' => some '\r'
  | 'e' => some '\x1b'
  | ' ' => some ' '
  | '"' => some '"'
  | '/' => some '/'
  | '\\' => some '\\'
  | 'N' => some '\x85'
  | '_' => some '\xa0'
  | 'L' => some '\u2028'
  | 'P' => some '\u2029'
  | _ => none

def hexDigit (c : Char) : Option Nat :=
  if c.isDigit then some (c.toNat - '0'.toNat)
  else if 'a' ≤ c && c ≤ 'f' then some (c.toNat - 'a'.toNat + 10)
  else if 'A' ≤ c && c ≤ 'F' then some (c.toNat - 'A'.toNat + 10)
  else none

def ofHex (ds : List Char) : Option Char := do
  let n ← ds.foldlM (fun n d => (hexDigit d).map (16 * n + ·)) 0
  if h : n.isValidChar then some (Char.ofNatAux n h) else none

/-- The word between double quotes that starts here. It also ends in front
of a backslash at the end of a line. -/
def doubleWord : List Char → Option Word
  | [] => some ⟨[], 0, []⟩
  | '\\' :: [] => none
  | '\\' :: 'x' :: a :: b :: cs => do
    (← doubleWord cs).push (← ofHex [a, b]) 4
  | '\\' :: 'u' :: a :: b :: c :: d :: cs => do
    (← doubleWord cs).push (← ofHex [a, b, c, d]) 6
  | '\\' :: 'U' :: a :: b :: c :: d :: e :: f :: g :: h :: cs => do
    (← doubleWord cs).push (← ofHex [a, b, c, d, e, f, g, h]) 10
  | '\\' :: c :: cs =>
    if isBreak c then some ⟨[], 0, '\\' :: c :: cs⟩
    else do (← doubleWord cs).push (← escaped c) 2
  | c :: cs =>
    if c == '"' || endsWord (some c) then some ⟨[], 0, c :: cs⟩
    else do (← doubleWord cs).push c 1

def word (quote : Char) (cs : List Char) : Option Word :=
  if quote == '\'' then some (singleWord cs) else doubleWord cs

/-- Reads on to the closing quote. `parts` holds what has been read, in
reverse. Each round but the last takes some characters, so `fuel` as long as
the text is enough. -/
def words (quote : Char) :
    Nat → List (List Char) → Cursor → Option (List Char × Cursor)
  | 0, _, _ => none
  | fuel + 1, parts, place =>
    if place.atDocumentBound || place.atEnd then none
    else match word quote place.rest with
      | none => none
      | some w =>
        let parts := w.text :: parts
        let after : Cursor := ⟨w.rest, place.line, place.column + w.width⟩
        if after.here == some quote then
          some (parts.reverse.flatten, after.next)
        else
          let (start, origin) :=
            if after.here == some '\\' then
              (Gap.escapedBreak, after.skip 2)
            else (Gap.empty, after)
          match start.scan 0 origin.line origin.column origin.rest with
          | none => none
          | some (gap, next) => words quote fuel (gap.text :: parts) next

def scan (quote : Char) (c : Cursor) : Option (List Char × Cursor) :=
  let start := c.next
  words quote (start.rest.length + 1) [] start

end PlaneAccess.Yaml.Quoted
