import PlaneAccess.Proofs.Kubeconfig.Renaming

/-!
# Kubeconfigs merged into others

Where the entries of a merged kubeconfig come from (`Kubeconfig.Combines`),
and what the names of a control plane stand for in it
(`Kubeconfig.HasOwnNames`).
-/

namespace PlaneAccess.Kubeconfig

open PlaneAccess.ControlPlane

/-- A kubeconfig has the entries of two others, and of entries with one name
those of the second one. It has the current context of the second one and the
preferences and extensions of the first one. -/
structure Combines (m k s : Kubeconfig) : Prop where
  clusters : ∀ n, m.clusters.get? n = (s.clusters.get? n).or (k.clusters.get? n)
  users : ∀ n, m.users.get? n = (s.users.get? n).or (k.users.get? n)
  contexts : ∀ n, m.contexts.get? n = (s.contexts.get? n).or (k.contexts.get? n)
  currentContext : m.currentContext = s.currentContext
  preferences : m.preferences = k.preferences
  extensions : m.extensions = k.extensions

theorem combines_merge (k s : Kubeconfig) : (k.merge s).Combines k s where
  clusters n := NameMap.get?_union k.clusters s.clusters n
  users n := NameMap.get?_union k.users s.users n
  contexts n := NameMap.get?_union k.contexts s.contexts n
  currentContext := rfl
  preferences := rfl
  extensions := rfl

/-- Merging the same kubeconfig once more adds nothing. -/
theorem merge_merge_self (k s : Kubeconfig) : (k.merge s).merge s = k.merge s := by
  rw [merge, merge]
  simp only [NameMap.union_union_self]

/-- The names of a control plane in a kubeconfig: the current context has one
of them and puts together the cluster and the user of the two others, which
are those that another kubeconfig has under its placeholders. -/
structure HasOwnNames (m source : Kubeconfig) (old new : EntryNames) : Prop where
  currentContext : m.currentContext = new.context
  context : m.contexts.get? new.context = some ⟨new.cluster, new.user, none, .empty⟩
  cluster : ∀ c, source.clusters.get? old.cluster = some c → m.clusters.get? new.cluster = some c
  user : ∀ u, source.users.get? old.user = some u → m.users.get? new.user = some u

theorem Renamed.hasOwnNames {k m : Kubeconfig} {old new : EntryNames} (h : k.Renamed m old new) :
    m.HasOwnNames k old new where
  currentContext := h.currentContext
  context := h.get?_context
  cluster _ hc := h.clusters.get?_new hc
  user _ hu := h.users.get?_new hu

theorem hasOwnNames_renameEntries (k : Kubeconfig) (old new : EntryNames) :
    (k.renameEntries old new).HasOwnNames k old new :=
  (k.renamed_renameEntries old new).hasOwnNames

/-- Names keep their meaning when a kubeconfig is merged into another one. -/
theorem HasOwnNames.of_combines {m k s source : Kubeconfig} {old new : EntryNames}
    (hm : m.Combines k s) (h : s.HasOwnNames source old new) : m.HasOwnNames source old new where
  currentContext := hm.currentContext.trans h.currentContext
  context := by
    rw [hm.contexts, h.context]
    rfl
  cluster c hc := by
    rw [hm.clusters, h.cluster c hc]
    rfl
  user u hu := by
    rw [hm.users, h.user u hu]
    rfl

end PlaneAccess.Kubeconfig
