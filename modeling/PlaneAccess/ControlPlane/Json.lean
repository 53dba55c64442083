import PlaneAccess.ControlPlane.Identity
import PlaneAccess.Json.Read
import PlaneAccess.Json.Write

/-!
# Control planes in JSON

A name is a text, a kind the word for it, and a control plane an object of
both.
-/

namespace PlaneAccess.ControlPlane

open PlaneAccess.Json

namespace Name

def ofJson : Reader Name := do
  match parseName (← string "a string") with
  | .ok n => return n
  | .error e => wrong (.refused e.message)

def toJson (n : Name) : String := quoted n.text

end Name

namespace Kind

def words : String :=
  "one of " ++
    ", ".intercalate (Kind.all.map (fun k => "\x60" ++ k.word ++ "\x60"))

/-- The kind with a word, which must be written as it is. -/
def ofVariant (s : String) : Except Problem Kind :=
  match Kind.ofWord? s with
  | some k => .ok k
  | none => .error (.unknownVariant s words)

def ofJson : Reader Kind := variant ofVariant

def toJson (k : Kind) : String := quoted k.word

end Kind

namespace Identity

/-- What messages call a control plane. -/
def recordName : String := "struct ControlPlaneIdentity"

def readMember (key : String) (s : Option Name × Option Kind) :
    Reader (Option Name × Option Kind) := do
  if key == "name" then
    if s.1.isSome then wrong (.repeatedField key)
    return (some (← memberValue Name.ofJson), s.2)
  else if key == "type" then
    if s.2.isSome then wrong (.repeatedField key)
    return (s.1, some (← memberValue Kind.ofJson))
  else
    skipMember
    return s

def ofJson : Reader Identity :=
  let fields := recordName ++ " with 2 elements"
  record recordName
    (do
      let name ← element 0 fields Name.ofJson
      let kind ← element 1 fields Kind.ofJson
      return ⟨name, kind⟩)
    (do
      match ← object (none, none) readMember with
      | (none, _) => wrong (.missingField "name")
      | (some _, none) => wrong (.missingField "type")
      | (some name, some kind) => return ⟨name, kind⟩)

def toJson (i : Identity) : String :=
  objectText [("name", i.name.toJson), ("type", i.kind.toJson)]

end Identity

end PlaneAccess.ControlPlane
