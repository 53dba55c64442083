import PlaneAccess.Decimal.Literal
import PlaneAccess.Yaml.Value

/-!
# What plain scalars mean

A plain scalar may stand for null, a boolean or a number. Everything else is
a string, as are digits after a leading zero.
-/

namespace PlaneAccess.Yaml

/-- What a plain scalar means. Integers beyond 64 bits that fit into 128 are
told apart; with them goes whether they need a sign. -/
inductive Meaning where
  | null
  | bool (b : Bool)
  | int (i : Integer)
  | wideInt (i : Int)
  | float (x : Binary64)
  | string

namespace Meaning

def isNullWord (s : String) : Bool :=
  s == "null" || s == "Null" || s == "NULL" || s == "~"

def boolWord (s : String) : Option Bool :=
  if s == "true" || s == "True" || s == "TRUE" then some true
  else if s == "false" || s == "False" || s == "FALSE" then some false
  else none

/-- Whether a text is digits after a leading zero, with a sign or without. -/
def isPadded (cs : List Char) : Bool :=
  let ds := match cs with
    | '-' :: ds => ds
    | '+' :: ds => ds
    | ds => ds
  match ds with
  | '0' :: d :: ds => (d :: ds).all Char.isDigit
  | _ => false

/-- The number after a mark of a base such as `0x`, without a sign of its
own. -/
def basedNatural (cs : List Char) : Option Nat :=
  match cs with
  | '0' :: 'x' :: ds => Decimal.natural 16 ds
  | '0' :: 'o' :: ds => Decimal.natural 8 ds
  | '0' :: 'b' :: ds => Decimal.natural 2 ds
  | _ => none

def integer (cs : List Char) : Option Int :=
  match cs with
  | '-' :: ds =>
    match basedNatural ds with
    | some n => some (-(n : Int))
    | none =>
      if isPadded cs then none
      else (Decimal.natural 10 ds).map (fun n => -(n : Int))
  | _ =>
    let ds := match cs with
      | '+' :: ds => ds
      | ds => ds
    match basedNatural ds with
    | some n => some (n : Int)
    | none => if isPadded cs then none else (Decimal.natural 10 ds).map Int.ofNat

def floatOf (s : String) : Option Binary64 :=
  let cs := s.toList
  let bare := match cs with
    | '+' :: ds => ds
    | ds => ds
  if bare.length < cs.length && bare.head?.any (fun c => c == '+' || c == '-')
  then none
  else if [".inf", ".Inf", ".INF"].contains (String.ofList bare) then
    some (.infinity false)
  else if ["-.inf", "-.Inf", "-.INF"].contains s then some (.infinity true)
  else if [".nan", ".NaN", ".NAN"].contains s then some .nan
  else match Decimal.float bare with
    | some (.finite n m e h) => some (.finite n m e h)
    | _ => none

/-- The meaning of an integer by its size, if it fits into 128 bits. -/
def ofInt? (i : Int) : Option Meaning :=
  match Integer.ofInt? i with
  | some i => some (int i)
  | none =>
    if -(Nat.pow 2 127 : Int) ≤ i ∧ i < Nat.pow 2 128 then some (wideInt i)
    else none

def ofInteger? (s : String) : Option Meaning :=
  (integer s.toList).bind ofInt?

def ofPlain (s : String) : Meaning :=
  if s.isEmpty || isNullWord s then null
  else match boolWord s with
    | some b => bool b
    | none =>
      match ofInteger? s with
      | some m => m
      | none =>
        if isPadded s.toList then string
        else match floatOf s with
          | some x => float x
          | none => string

end Meaning

end PlaneAccess.Yaml
