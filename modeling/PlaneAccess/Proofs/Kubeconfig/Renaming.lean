import PlaneAccess.Kubeconfig.Merge
import PlaneAccess.Kubeconfig.Remap
import PlaneAccess.NameMap.Lemmas

/-!
# What remapping does

The placeholders of a control plane give way to its own names, whatever these
are: they may be placeholders themselves, and there may be other entries under
them already. Each of the three maps is described by what it gives for every
name (`Kubeconfig.remap_effect`). No placeholder is left to get into another
kubeconfig, unless it is one of the control plane's own names, and remapping
once more changes nothing (`Kubeconfig.remap_remap`).
-/

namespace PlaneAccess

open PlaneAccess.ControlPlane

/-! ## One map -/

namespace NameMap

variable {α : Type} {m m' : NameMap α} {old new : String}

/-- A map has the value that another one has under a name under a second name
instead, in the stead of what was there. All other names keep theirs, and so do
all of them if there is no such value. -/
inductive Moves (m m' : NameMap α) (old new : String) : Prop where
  | absent : m.get? old = none → m' = m → Moves m m' old new
  | moved {v : α} : m.get? old = some v →
    (∀ k, m'.get? k = if new = k then some v else if old = k then none else m.get? k) →
    Moves m m' old new

theorem moves_rename (m : NameMap α) (old new : String) : m.Moves (m.rename old new) old new := by
  cases h : m.get? old with
  | none => exact .absent h (rename_of_none h new)
  | some v =>
    refine .moved h fun k => ?_
    have hcontains : m.contains old = true := by rw [contains, h, Option.isSome_some]
    rw [get?_rename, hcontains, if_pos rfl, h]

theorem Moves.get?_old (h : m.Moves m' old new) (hne : new ≠ old) : m'.get? old = none := by
  cases h with
  | absent hnone heq => rw [heq, hnone]
  | moved _ hget => rw [hget, if_neg hne, if_pos rfl]

theorem Moves.get?_new (h : m.Moves m' old new) {v : α} (hv : m.get? old = some v) :
    m'.get? new = some v := by
  cases h with
  | absent hnone _ => cases hv.symm.trans hnone
  | moved hv' hget =>
    obtain rfl := Option.some.inj (hv.symm.trans hv')
    rw [hget, if_pos rfl]

theorem get?_union_of_none {k : String} (h : m'.get? k = none) :
    (m.union m').get? k = m.get? k := by
  rw [get?_union, h, Option.none_or]

end NameMap

/-! ## The kubeconfig -/

namespace Kubeconfig

/-- What becomes of a kubeconfig when the entries of three names get others. The
context is made anew, out of the two new names and nothing else. -/
structure Renamed (k m : Kubeconfig) (old new : EntryNames) : Prop where
  clusters : k.clusters.Moves m.clusters old.cluster new.cluster
  users : k.users.Moves m.users old.user new.user
  contexts : ∀ name, m.contexts.get? name =
    if new.context = name then some ⟨new.cluster, new.user, none, .empty⟩
    else if old.context = name then none else k.contexts.get? name
  currentContext : m.currentContext = new.context
  preferences : m.preferences = k.preferences
  extensions : m.extensions = k.extensions

/-- Under three old names a kubeconfig has what another one has, be it nothing,
save where an old name is the new one as well. -/
structure KeepsUnder (k m : Kubeconfig) (old new : EntryNames) : Prop where
  cluster : new.cluster ≠ old.cluster → m.clusters.get? old.cluster = k.clusters.get? old.cluster
  user : new.user ≠ old.user → m.users.get? old.user = k.users.get? old.user
  context : new.context ≠ old.context → m.contexts.get? old.context = k.contexts.get? old.context

theorem renamed_renameEntries (k : Kubeconfig) (old new : EntryNames) :
    k.Renamed (k.renameEntries old new) old new where
  clusters := k.clusters.moves_rename old.cluster new.cluster
  users := k.users.moves_rename old.user new.user
  contexts name := k.contexts.get?_insert_rename old.context new.context name _
  currentContext := rfl
  preferences := rfl
  extensions := rfl

theorem Renamed.get?_context {k m : Kubeconfig} {old new : EntryNames}
    (h : k.Renamed m old new) :
    m.contexts.get? new.context = some ⟨new.cluster, new.user, none, .empty⟩ := by
  rw [h.contexts, if_pos rfl]

theorem Renamed.keepsUnder_merge {k m : Kubeconfig} {old new : EntryNames}
    (h : k.Renamed m old new) (d : Kubeconfig) : d.KeepsUnder (d.merge m) old new where
  cluster hne := NameMap.get?_union_of_none (h.clusters.get?_old hne)
  user hne := NameMap.get?_union_of_none (h.users.get?_old hne)
  context hne := by
    refine NameMap.get?_union_of_none ?_
    rw [h.contexts, if_neg hne, if_pos rfl]

theorem renameEntries_renameEntries (k : Kubeconfig) (old new : EntryNames) :
    (k.renameEntries old new).renameEntries old new = k.renameEntries old new := by
  -- the context is moved away a second time, but made anew in the same place
  simp only [renameEntries, NameMap.rename_rename, NameMap.insert_rename_again]

theorem renamed_remap (k : Kubeconfig) {i : Identity} {old : EntryNames} (n : Naming)
    (hkind : i.kind.placeholders = some old) :
    k.Renamed (k.remap i n) old (n.entries i.name.text) := by
  rw [remap, hkind]
  exact k.renamed_renameEntries old _

/-- Remapping moves the placeholders of a kind to the names of a control plane
and makes its context anew. If the kind has no placeholders nothing is
different. Merging the outcome into another kubeconfig leaves what that one has
under the placeholders, where these are no names of the control plane. -/
theorem remap_effect (k : Kubeconfig) (i : Identity) (n : Naming) :
    (i.kind.placeholders = none → k.remap i n = k) ∧
      ∀ old, i.kind.placeholders = some old →
        k.Renamed (k.remap i n) old (n.entries i.name.text) ∧
          ∀ d : Kubeconfig, d.KeepsUnder (d.merge (k.remap i n)) old (n.entries i.name.text) := by
  constructor
  · intro hkind
    rw [remap, hkind]
  · intro old hkind
    have hrenamed := k.renamed_remap n hkind
    exact ⟨hrenamed, hrenamed.keepsUnder_merge⟩

/-- The cluster has the name of the placeholder, and there is a user under the
new name already. The user of the other kubeconfig whose name is the
placeholder stays. -/
theorem remap_effect_collision :
    let c := { Cluster.empty with server := some "a" }
    let u := { User.empty with token := some "t" }
    let own := { User.empty with token := some "own" }
    let k := { empty with
      clusters := .ofList [("multicluster-controlplane", c)]
      users := .ofList [("hub-admin", .empty), ("user", u)] }
    let d := { empty with users := .ofList [("user", own)] }
    let i : Identity := ⟨⟨"hub", by decide +kernel⟩, .ocm⟩
    let n : Naming := { Naming.standard with cluster := fun _ => "multicluster-controlplane" }
    (k.remap i n).clusters.get? "multicluster-controlplane" = some c ∧
      (k.remap i n).users.get? "hub-admin" = some u ∧
      (k.remap i n).users.get? "user" = none ∧
      (d.merge (k.remap i n)).users.get? "user" = some own := by
  intro c u own k d i n
  obtain ⟨hrenamed, hkeeps⟩ := (remap_effect k i n).2 _ rfl
  have hne : (n.entries i.name.text).user ≠ "user" := by decide
  have hu : k.users.get? "user" = some u :=
    (NameMap.get?_insert _ "user" "user" u).trans (if_pos rfl)
  exact ⟨hrenamed.clusters.get?_new rfl, hrenamed.users.get?_new hu,
    hrenamed.users.get?_old hne, (hkeeps d).user hne⟩

/-- Remapping a second time changes nothing, by whatever names. -/
theorem remap_remap (k : Kubeconfig) (i : Identity) (n : Naming) :
    (k.remap i n).remap i n = k.remap i n := by
  cases hkind : i.kind.placeholders with
  | none => simp only [remap, hkind]
  | some old =>
    simp only [remap, hkind]
    exact k.renameEntries_renameEntries old _

end Kubeconfig

end PlaneAccess
