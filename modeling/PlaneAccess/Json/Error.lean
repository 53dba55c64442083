import PlaneAccess.Text.Found

/-!
# Errors in JSON

What can be wrong with data in JSON, and the message for it.
-/

namespace PlaneAccess.Json

open PlaneAccess.Text

inductive Problem where
  | wrongType (found : Found) (expected : String)
  | wrongInt (i : Int) (expected : String)
  | wrongLength (n : Nat) (expected : String)
  | missingField (name : String)
  | repeatedField (name : String)
  | unknownField (name expected : String)
  | unknownVariant (name expected : String)
  | refused (reason : String)

/-- Why data cannot be read: the text is no JSON, or the data is wrong. -/
inductive Error where
  | malformed
  | data (problem : Problem)

def floatNotation : Decimal.Notation where
  bounds := some (-5, 16)
  plusSign := true
  nanText := "NaN"
  infinityText := "inf"
  negativeInfinityText := "-inf"

namespace Problem

def message : Problem → String
  | wrongType found expected =>
    "invalid type: " ++ found.textIn floatNotation ++ ", expected " ++ expected
  | wrongInt i expected =>
    "invalid value: integer \x60" ++ toString i ++ "\x60, expected " ++ expected
  | wrongLength n expected =>
    "invalid length " ++ toString n ++ ", expected " ++ expected
  | missingField name => "missing field \x60" ++ name ++ "\x60"
  | repeatedField name => "duplicate field \x60" ++ name ++ "\x60"
  | unknownField name expected =>
    "unknown field \x60" ++ name ++ "\x60, expected " ++ expected
  | unknownVariant name expected =>
    "unknown variant \x60" ++ name ++ "\x60, expected " ++ expected
  | refused reason => reason

end Problem

end PlaneAccess.Json
