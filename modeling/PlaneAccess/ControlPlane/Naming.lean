import PlaneAccess.ControlPlane.Identity

/-!
# Naming schemes

The names of what belongs to a control plane, made from its own name: the
namespace that hosts it, and its entries in a kubeconfig.
-/

namespace PlaneAccess.ControlPlane

structure Naming where
  space : String → String
  cluster : String → String
  user : String → String
  context : String → String

/-- Something in front of a name and something after it. -/
structure Affix where
  before : String
  after : String
  deriving DecidableEq, Repr

namespace Affix

def apply (a : Affix) (name : String) : String := a.before ++ name ++ a.after

end Affix

namespace Naming

/-- The scheme that puts something around each name. -/
def ofAffixes (space cluster user context : Affix) : Naming :=
  ⟨space.apply, cluster.apply, user.apply, context.apply⟩

/-- The scheme that is used unless another one is given. The context has the
name of the control plane itself. -/
def standard : Naming :=
  ofAffixes ⟨"", "-system"⟩ ⟨"", "-cluster"⟩ ⟨"", "-admin"⟩ ⟨"", ""⟩

def entries (n : Naming) (name : String) : EntryNames :=
  ⟨n.cluster name, n.user name, n.context name⟩

end Naming

end PlaneAccess.ControlPlane
