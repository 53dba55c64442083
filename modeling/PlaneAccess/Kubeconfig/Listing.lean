import PlaneAccess.Kubeconfig.Basic
import PlaneAccess.Yaml.Record

/-!
# Kubeconfigs as lists

In a file the entries of a kubeconfig are lists, each entry with its name
beside it. They are a kubeconfig if no two entries of a list have one name.
-/

namespace PlaneAccess

open PlaneAccess.Yaml

/-- An entry of a list: a name, and what it names unless it is left out. -/
structure Named (α : Type) where
  name : String
  body : Option α

structure Listing where
  preferences : Option Value
  clusters : List (Named Cluster)
  users : List (Named User)
  contexts : List (Named Context)
  currentContext : Option String
  extensions : Option Value

inductive Section where
  | cluster
  | user
  | context
  deriving DecidableEq, Repr

namespace Section

def word : Section → String
  | cluster => "cluster"
  | user => "user"
  | context => "context"

end Section

/-- A name that two entries of a list have. -/
structure RepeatedName where
  list : Section
  name : String
  deriving DecidableEq, Repr

namespace Listing

def empty : Listing := ⟨none, [], [], [], none, none⟩

/-- Adds the entries of a list to a map, up to a name that is there
already. -/
def collectInto {α : Type} (list : Section) (default : α) (m : NameMap α) :
    List (Named α) → Except RepeatedName (NameMap α)
  | [] => .ok m
  | e :: es =>
    if m.contains e.name then .error ⟨list, e.name⟩
    else collectInto list default (m.insert e.name (e.body.getD default)) es

/-- The map of a list. An entry without a body has the default one. -/
def collect {α : Type} (list : Section) (default : α)
    (es : List (Named α)) : Except RepeatedName (NameMap α) :=
  collectInto list default .empty es

def toKubeconfig (l : Listing) : Except RepeatedName Kubeconfig := do
  let clusters ← collect .cluster .empty l.clusters
  let users ← collect .user .empty l.users
  let contexts ← collect .context .empty l.contexts
  return {
    clusters, users, contexts
    currentContext := l.currentContext.getD ""
    preferences := l.preferences
    extensions := l.extensions }

def entriesOf {α : Type} (m : NameMap α) : List (Named α) :=
  m.toList.map (fun e => ⟨e.1, some e.2⟩)

def ofKubeconfig (k : Kubeconfig) : Listing where
  preferences := k.preferences
  clusters := entriesOf k.clusters
  users := entriesOf k.users
  contexts := entriesOf k.contexts
  currentContext := some k.currentContext
  extensions := k.extensions

end Listing

end PlaneAccess
