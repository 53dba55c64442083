import PlaneAccess.Text.Found
import PlaneAccess.Yaml.Path
import PlaneAccess.Yaml.Tree
import PlaneAccess.Yaml.Value

/-!
# Errors of reading

Why a document of one shape cannot be read from a tree, and where.
-/

namespace PlaneAccess.Yaml

open PlaneAccess.Text

inductive Problem where
  | wrongType (found : Found) (expected : String)
  | wrongText (text expected : String)
  | missingField (name : String)
  | repeatedField (name : String)
  | repeatedKey (key : Value)
  | taggedValue

namespace Problem

def keyText : Value → String
  | .null => "with null key"
  | .bool b => "with key \x60" ++ toString b ++ "\x60"
  | .int i => "with key " ++ toString i.val
  | .float x => "with key " ++ floatNotation.write x
  | .string s => "with key " ++ quoted s
  | _ => "in YAML map"

def message : Problem → String
  | wrongType found expected =>
    "invalid type: " ++ found.text ++ ", expected " ++ expected
  | wrongText text expected =>
    "invalid value: string " ++ quoted text ++ ", expected " ++ expected
  | missingField name => "missing field \x60" ++ name ++ "\x60"
  | repeatedField name => "duplicate field \x60" ++ name ++ "\x60"
  | repeatedKey key => "duplicate entry " ++ keyText key
  | taggedValue =>
    "untagged and internally tagged enums do not support enum input"

end Problem

inductive ReadError where
  | fault (cause : Fault)
  | problem (path : Path) (problem : Problem)

namespace ReadError

def message : ReadError → String
  | fault .cutOff => "malformed document"
  | fault .tooDeep => "recursion limit exceeded"
  | fault .tooManyAliases => "repetition limit exceeded"
  | problem [] p => p.message
  | problem path p => path.text ++ ": " ++ p.message

end ReadError

end PlaneAccess.Yaml
