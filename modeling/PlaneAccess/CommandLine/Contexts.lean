import PlaneAccess.Json.Write
import PlaneAccess.Kubeconfig.Basic

/-!
# The list of contexts

The contexts of a kubeconfig in the order of their names, as a table or in
JSON.
-/

namespace PlaneAccess.CommandLine

structure ContextRow where
  name : String
  cluster : String
  user : String
  space : Option String
  isCurrent : Bool
  deriving DecidableEq, Repr

namespace ContextRow

def all (k : Kubeconfig) : List ContextRow :=
  k.contexts.toList.map fun (name, c) =>
    ⟨name, c.cluster, c.user, c.space, name == k.currentContext⟩

def columns (r : ContextRow) : List String :=
  [if r.isCurrent then "*" else "", r.name, r.cluster, r.user,
    r.space.getD ""]

/-- The members of a line in JSON. The namespace is left out if there is
none. -/
def members (r : ContextRow) : List (String × String) :=
  [("name", Json.quoted r.name), ("cluster", Json.quoted r.cluster),
    ("user", Json.quoted r.user)] ++
    r.space.toList.map (fun s => ("namespace", Json.quoted s)) ++
    [("current", if r.isCurrent then "true" else "false")]

end ContextRow

def contextColumns : List String :=
  ["CURRENT", "NAME", "CLUSTER", "USER", "NAMESPACE"]

def tableLine (columns : List String) : String :=
  "\t".intercalate columns ++ "\n"

def contextTable (rows : List ContextRow) : String :=
  String.join ((contextColumns :: rows.map ContextRow.columns).map tableLine)

def contextJson (rows : List ContextRow) : String :=
  Json.arrayLines (rows.map ContextRow.members) ++ "\n"

end PlaneAccess.CommandLine
