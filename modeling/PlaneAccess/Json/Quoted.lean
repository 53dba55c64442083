import PlaneAccess.Decimal.Literal
import PlaneAccess.Json.Reader

/-!
# Text between quotes

The characters that a quoted text stands for, and how one is skipped.
-/

namespace PlaneAccess.Json

def hexFour (a b c d : Char) : Option Nat := Decimal.natural 16 [a, b, c, d]

def ofSurrogates (high low : Nat) : Option Char :=
  if 0xd800 ≤ high && high ≤ 0xdbff && 0xdc00 ≤ low && low ≤ 0xdfff then
    some (Char.ofNat (0x10000 + (high - 0xd800) * 0x400 + (low - 0xdc00)))
  else none

/-- The character that a letter after a backslash stands for. -/
def escaped (c : Char) : Option Char :=
  match c with
  | '"' => some '"'
  | '\\' => some '\\'
  | '/' => some '/'
  | 'b' => some '\x08'
  | 'f' => some '\x0c'
  | 'n' => some '\n'
  | 'r' => some '\r'
  | 't' => some '\t'
  | _ => none

/-- The text up to the closing quote, and what follows the quote. -/
def stringBody : List Char → Option (List Char × List Char)
  | [] => none
  | '"' :: cs => some ([], cs)
  | '\\' :: 'u' :: a :: b :: c :: d :: '\\' :: 'u' :: e :: f :: g :: h :: cs =>
    do
    let n ← hexFour a b c d
    if n.isValidChar then
      let (s, rest) ← stringBody ('\\' :: 'u' :: e :: f :: g :: h :: cs)
      return (Char.ofNat n :: s, rest)
    else
      let x ← ofSurrogates n (← hexFour e f g h)
      let (s, rest) ← stringBody cs
      return (x :: s, rest)
  | '\\' :: 'u' :: a :: b :: c :: d :: cs => do
    let n ← hexFour a b c d
    if n.isValidChar then
      let (s, rest) ← stringBody cs
      return (Char.ofNat n :: s, rest)
    else none
  | '\\' :: c :: cs => do
    let x ← escaped c
    let (s, rest) ← stringBody cs
    return (x :: s, rest)
  | c :: cs =>
    if c.toNat < 0x20 then none
    else do
      let (s, rest) ← stringBody cs
      return (c :: s, rest)

/-- What follows the closing quote of a text that nobody looks at. Its
escapes may stand for half a character. -/
def skipBody : List Char → Option (List Char)
  | [] => none
  | '"' :: cs => some cs
  | '\\' :: 'u' :: a :: b :: c :: d :: cs => do
    let _ ← hexFour a b c d
    skipBody cs
  | '\\' :: c :: cs => do
    let _ ← escaped c
    skipBody cs
  | c :: cs => if c.toNat < 0x20 then none else skipBody cs

def takeString : Reader String := do
  match ← get with
  | '"' :: cs =>
    match stringBody cs with
    | some (s, rest) => do
      set rest
      return String.ofList s
    | none => malformed
  | _ => malformed

end PlaneAccess.Json
