/-!
# Kinds of control planes

The kind decides under which name the credentials of a control plane are
kept, and which placeholder names they use.
-/

namespace PlaneAccess.ControlPlane

inductive Kind where
  | k8s
  | ocm
  | vcluster
  | host
  | external
  deriving DecidableEq, Repr

/-- The names that stand for a cluster, a user and a context. -/
structure EntryNames where
  cluster : String
  user : String
  context : String
  deriving DecidableEq, Repr

namespace Kind

def all : List Kind := [k8s, ocm, vcluster, host, external]

def word : Kind → String
  | k8s => "k8s"
  | ocm => "ocm"
  | vcluster => "vcluster"
  | host => "host"
  | external => "external"

/-- The kind with exactly this word. -/
def ofWord? (s : String) : Option Kind := all.find? (fun k => k.word == s)

/-- The kind with this word, in letters of either case. -/
def parse? (s : String) : Option Kind := ofWord? s.toLower

def bundleName : Kind → String
  | ocm => "multicluster-controlplane-kubeconfig"
  | vcluster => "vc-vcluster"
  | _ => "admin-kubeconfig"

def payloadKey : Kind → String
  | vcluster => "config"
  | _ => "kubeconfig"

/-- The placeholder names in the kubeconfigs of a kind. They are the same for
all control planes of the kind. -/
def placeholders : Kind → Option EntryNames
  | ocm =>
    some ⟨"multicluster-controlplane", "user", "multicluster-controlplane"⟩
  | vcluster => some ⟨"my-vcluster", "my-vcluster", "my-vcluster"⟩
  | _ => none

end Kind

end PlaneAccess.ControlPlane
