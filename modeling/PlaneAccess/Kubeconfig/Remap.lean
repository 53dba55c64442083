import PlaneAccess.ControlPlane.Naming
import PlaneAccess.Kubeconfig.Basic

/-!
# From placeholders to names of one's own

The kubeconfigs of some kinds of control planes all use the same names. Here
they get names that belong to one control plane alone.
-/

namespace PlaneAccess.Kubeconfig

open PlaneAccess.ControlPlane

/-- The kubeconfig with the entries of three names moved to others. The
context at its new name puts the new cluster and user together, whether or
not it was there before, and becomes current. -/
def renameEntries (k : Kubeconfig) (old new : EntryNames) : Kubeconfig :=
  { k with
    clusters := k.clusters.rename old.cluster new.cluster
    users := k.users.rename old.user new.user
    contexts := (k.contexts.rename old.context new.context).insert new.context
      (Context.of new.cluster new.user)
    currentContext := new.context }

/-- The kubeconfig with the placeholders of a control plane's kind replaced
by its own names. Kinds without placeholders leave it as it is. -/
def remap (k : Kubeconfig) (i : Identity) (n : Naming) : Kubeconfig :=
  match i.kind.placeholders with
  | none => k
  | some old => k.renameEntries old (n.entries i.name.text)

end PlaneAccess.Kubeconfig
