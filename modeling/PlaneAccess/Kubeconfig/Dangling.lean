import PlaneAccess.Kubeconfig.Basic
import PlaneAccess.Text.Quoted

/-!
# References that lead nowhere

The current context names a context, and a context names a cluster and a
user. A name that is empty refers to nothing; any other should be there.
-/

namespace PlaneAccess

inductive DanglingReference where
  | currentContext (name : String)
  | cluster (context name : String)
  | user (context name : String)
  deriving DecidableEq, Repr

namespace DanglingReference

def message : DanglingReference → String
  | currentContext name =>
    "current-context " ++ Text.quoted name ++ " does not exist"
  | cluster context name =>
    "context " ++ Text.quoted context ++ " references missing cluster " ++
      Text.quoted name
  | user context name =>
    "context " ++ Text.quoted context ++ " references missing user " ++
      Text.quoted name

end DanglingReference

namespace Kubeconfig

def dangles {α : Type} (m : NameMap α) (name : String) : Bool :=
  !name.isEmpty && !m.contains name

def danglingIn (k : Kubeconfig) (name : String) (c : Context) :
    List DanglingReference :=
  (if dangles k.clusters c.cluster then [.cluster name c.cluster] else []) ++
    if dangles k.users c.user then [.user name c.user] else []

/-- All references that lead nowhere: the current context first, and then
the contexts in the order of their names. -/
def danglingReferences (k : Kubeconfig) : List DanglingReference :=
  (if dangles k.contexts k.currentContext then
    [.currentContext k.currentContext] else []) ++
    k.contexts.toList.flatMap (fun e => k.danglingIn e.1 e.2)

end Kubeconfig

end PlaneAccess
