import PlaneAccess.Kubeconfig.Basic

/-!
# Merging

One kubeconfig can be merged into another. Of entries with one name the
merged ones count, and so does their current context. Preferences and
extensions stay as they are.
-/

namespace PlaneAccess.Kubeconfig

def merge (k source : Kubeconfig) : Kubeconfig :=
  { k with
    clusters := k.clusters.union source.clusters
    users := k.users.union source.users
    contexts := k.contexts.union source.contexts
    currentContext := source.currentContext }

end PlaneAccess.Kubeconfig
