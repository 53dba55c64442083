import PlaneAccess.ControlPlane.Naming

/-!
# Where credentials are

The credentials of a control plane are a payload of a bundle in the
namespace that hosts it.
-/

namespace PlaneAccess.Bundle

open PlaneAccess.ControlPlane

/-- A bundle in a namespace, and the key of one of its payloads. -/
structure Source where
  space : String
  name : String
  key : String
  deriving DecidableEq, Repr

namespace Source

/-- Where the credentials of a control plane are. -/
def of (i : Identity) (n : Naming) : Source :=
  ⟨n.space i.name.text, i.kind.bundleName, i.kind.payloadKey⟩

def text (s : Source) : String := s.space ++ "/" ++ s.name

end Source

end PlaneAccess.Bundle
