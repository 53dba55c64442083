import PlaneAccess.NameMap
import PlaneAccess.Yaml.Value

/-!
# Kubeconfigs

A kubeconfig says how to reach clusters: clusters, users and contexts by
name, and the context that is current. A context puts a cluster and a user
together by their names. Fields that have no meaning here are kept as they
are.
-/

namespace PlaneAccess

open PlaneAccess.Yaml

structure Cluster where
  server : Option String
  authorityData : Option String
  authorityFile : Option String
  skipVerify : Option Bool
  serverName : Option String
  extra : NameMap Value

structure User where
  certificateData : Option String
  keyData : Option String
  certificateFile : Option String
  keyFile : Option String
  token : Option String
  username : Option String
  password : Option String
  extra : NameMap Value

/-- A cluster and a user by name, with the namespace to work in. -/
structure Context where
  cluster : String
  user : String
  space : Option String
  extra : NameMap Value

/-- A kubeconfig. The current context is empty or should be the name of a
context. -/
structure Kubeconfig where
  clusters : NameMap Cluster
  users : NameMap User
  contexts : NameMap Context
  currentContext : String
  preferences : Option Value
  extensions : Option Value

namespace Cluster

def empty : Cluster := ⟨none, none, none, none, none, .empty⟩

def same (a b : Cluster) : Bool :=
  a.server == b.server && a.authorityData == b.authorityData &&
    a.authorityFile == b.authorityFile && a.skipVerify == b.skipVerify &&
    a.serverName == b.serverName && a.extra.sameAs Value.same b.extra

end Cluster

namespace User

def empty : User := ⟨none, none, none, none, none, none, none, .empty⟩

def same (a b : User) : Bool :=
  a.certificateData == b.certificateData && a.keyData == b.keyData &&
    a.certificateFile == b.certificateFile && a.keyFile == b.keyFile &&
    a.token == b.token && a.username == b.username &&
    a.password == b.password && a.extra.sameAs Value.same b.extra

end User

namespace Context

def empty : Context := ⟨"", "", none, .empty⟩

def of (cluster user : String) : Context := ⟨cluster, user, none, .empty⟩

def same (a b : Context) : Bool :=
  a.cluster == b.cluster && a.user == b.user && a.space == b.space &&
    a.extra.sameAs Value.same b.extra

end Context

namespace Kubeconfig

def empty : Kubeconfig := ⟨.empty, .empty, .empty, "", none, none⟩

def isEmpty (k : Kubeconfig) : Bool :=
  k.clusters.isEmpty && k.users.isEmpty && k.contexts.isEmpty &&
    k.currentContext.isEmpty

def current (k : Kubeconfig) : Option Context :=
  k.contexts.get? k.currentContext

def sameOption : Option Value → Option Value → Bool
  | none, none => true
  | some a, some b => a.same b
  | _, _ => false

def same (a b : Kubeconfig) : Bool :=
  a.clusters.sameAs Cluster.same b.clusters &&
    a.users.sameAs User.same b.users &&
    a.contexts.sameAs Context.same b.contexts &&
    a.currentContext == b.currentContext &&
    sameOption a.preferences b.preferences &&
    sameOption a.extensions b.extensions

end Kubeconfig

end PlaneAccess
