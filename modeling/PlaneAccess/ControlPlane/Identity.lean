import PlaneAccess.ControlPlane.Kind
import PlaneAccess.ControlPlane.Name

/-!
# Identities

A control plane is known by its name and its kind.
-/

namespace PlaneAccess.ControlPlane

structure Identity where
  name : Name
  kind : Kind
  deriving DecidableEq

inductive IdentityError where
  | invalidName (name : String) (fault : NameFault)
  | unknownKind (word : String)
  deriving DecidableEq, Repr

namespace IdentityError

def message : IdentityError → String
  | invalidName name fault =>
    "invalid control plane name " ++ Text.quoted name ++ ": " ++ fault.message
  | unknownKind word => "unknown control plane type: " ++ word

end IdentityError

def parseName (s : String) : Except IdentityError Name :=
  (Name.parse s).mapError (.invalidName s)

def parseKind (s : String) : Except IdentityError Kind :=
  match Kind.parse? s with
  | some k => .ok k
  | none => .error (.unknownKind s)

namespace Identity

/-- The control plane with a name and a kind. The name is looked at first. -/
def parse (name kind : String) : Except IdentityError Identity := do
  return ⟨← parseName name, ← parseKind kind⟩

def text (i : Identity) : String :=
  i.name.text ++ " (" ++ i.kind.word ++ ")"

end Identity

end PlaneAccess.ControlPlane
