import PlaneAccess.Decimal.Notation
import PlaneAccess.Text.Quoted

/-!
# What was found

A reader that expects one kind of data and meets another says what it found
and what it expected.
-/

namespace PlaneAccess.Text

inductive Found where
  | bool (b : Bool)
  | int (i : Int)
  | wideInt (i : Int)
  | float (x : Binary64)
  | string (s : String)
  | null
  | unit
  | sequence
  | map

namespace Found

/-- Numbers in messages never have an exponent. -/
def floatNotation : Decimal.Notation where
  bounds := none
  plusSign := false
  nanText := "NaN"
  infinityText := "inf"
  negativeInfinityText := "-inf"

def textIn (n : Decimal.Notation) : Found → String
  | bool b => "boolean \x60" ++ toString b ++ "\x60"
  | int i => "integer \x60" ++ toString i ++ "\x60"
  | wideInt i =>
    "integer \x60" ++ toString i ++ "\x60 as " ++
      (if i < 0 then "i128" else "u128")
  | float x => "floating point \x60" ++ n.write x ++ "\x60"
  | string s => "string " ++ quoted s
  | null => "null"
  | unit => "unit value"
  | sequence => "sequence"
  | map => "map"

def text : Found → String := textIn floatNotation

end Found

end PlaneAccess.Text
