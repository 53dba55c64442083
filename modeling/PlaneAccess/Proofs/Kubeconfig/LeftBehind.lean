import Mathlib.Data.List.Basic
import PlaneAccess.Proofs.Kubeconfig.Independence
import PlaneAccess.Proofs.Kubeconfig.Renaming
import PlaneAccess.Proofs.Kubeconfig.Report

/-!
# References that are left behind

Remapping gives the cluster and the user of a control plane other names, but of
the contexts that refer to them it makes only one anew. The others keep their
references, which lead nowhere then. These are the only ones that do so
(`Kubeconfig.danglingReferences_remap`).
-/

namespace PlaneAccess

open PlaneAccess.ControlPlane

namespace ControlPlane

/-- No placeholder is an empty name, which would refer to nothing. -/
theorem Kind.placeholders_ne_empty {kind : Kind} {old : EntryNames}
    (h : kind.placeholders = some old) : old.cluster ≠ "" ∧ old.user ≠ "" := by
  cases kind with
  | ocm =>
    obtain rfl := Option.some.inj h
    exact ⟨by decide, by decide⟩
  | vcluster =>
    obtain rfl := Option.some.inj h
    exact ⟨by decide, by decide⟩
  | _ => cases h

end ControlPlane

namespace Kubeconfig

/-- The references of a context to entries that have other names by now. -/
def leftBehindIn (old new : EntryNames) (name : String) (c : Context) : List DanglingReference :=
  (if c.cluster = old.cluster ∧ new.cluster ≠ old.cluster then [.cluster name old.cluster]
    else []) ++
    if c.user = old.user ∧ new.user ≠ old.user then [.user name old.user] else []

/-- The references that are left behind in all contexts but the one that gets
another name and the one that has this name already, in the order of their
names. -/
def leftBehind (k : Kubeconfig) (old new : EntryNames) : List DanglingReference :=
  ((k.contexts.erase old.context).erase new.context).toList.flatMap
    (fun e => leftBehindIn old new e.1 e.2)

/-! ## One reference -/

theorem dangles_of_some {α : Type} {m : NameMap α} {name : String} {v : α}
    (h : m.get? name = some v) : dangles m name = false :=
  dangles_eq_false_iff.mpr fun _ => ⟨v, h⟩

/-- Of the names that led somewhere only the one that was moved leads nowhere
afterwards. -/
theorem dangles_of_moves {α : Type} {m m' : NameMap α} {old new name : String} {v : α}
    (h : m.Moves m' old new) (hold : m.get? old = some v) (hne : old ≠ "")
    (hname : dangles m name = false) : dangles m' name = true ↔ name = old ∧ new ≠ old := by
  cases h with
  | absent hnone _ => cases hold.symm.trans hnone
  | moved _ hget =>
    rw [dangles_iff, hget]
    constructor
    · -- any other name still has the value that it had
      rintro ⟨hempty, hnone⟩
      by_cases hnew : new = name
      · rw [if_pos hnew] at hnone
        cases hnone
      by_cases heq : old = name
      · exact ⟨heq.symm, fun h => hnew (h.trans heq)⟩
      · rw [if_neg hnew, if_neg heq] at hnone
        rw [dangles_iff.mpr ⟨hempty, hnone⟩] at hname
        cases hname
    · rintro ⟨rfl, hnew⟩
      exact ⟨hne, by rw [if_neg hnew, if_pos rfl]⟩

theorem not_dangles_of_nil {k : Kubeconfig} {name : String} {x : Context}
    (hk : k.danglingReferences = []) (hx : k.contexts.get? name = some x) :
    dangles k.clusters x.cluster = false ∧ dangles k.users x.user = false := by
  have hresolved := danglingReferences_eq_nil_iff.mp hk
  constructor
  · exact dangles_eq_false_iff.mpr (hresolved.clusters name x hx)
  · exact dangles_eq_false_iff.mpr (hresolved.users name x hx)

/-! ## All references -/

section

variable {k m : Kubeconfig} {old new : EntryNames} {c : Cluster} {u : User}

/-- The contexts beside the new one are those that were neither there nor at the
old name. -/
theorem Renamed.erase_contexts (h : k.Renamed m old new) :
    m.contexts.erase new.context = (k.contexts.erase old.context).erase new.context := by
  refine NameMap.ext_get? fun name => ?_
  simp only [NameMap.get?_erase, h.contexts]
  by_cases hnew : new.context = name
  · rw [if_pos hnew, if_pos hnew]
  · rw [if_neg hnew, if_neg hnew, if_neg hnew]

/-- A context whose references led somewhere keeps them, and they lead nowhere
if they were to what has been moved. -/
theorem Renamed.danglingIn (h : k.Renamed m old new) (hc : k.clusters.get? old.cluster = some c)
    (hu : k.users.get? old.user = some u) (hnames : old.cluster ≠ "" ∧ old.user ≠ "")
    {x : Context} (hx : dangles k.clusters x.cluster = false ∧ dangles k.users x.user = false)
    (name : String) : m.danglingIn name x = leftBehindIn old new name x := by
  have hcluster := dangles_of_moves h.clusters hc hnames.1 hx.1
  have huser := dangles_of_moves h.users hu hnames.2 hx.2
  simp only [Kubeconfig.danglingIn, leftBehindIn, hcluster, huser]
  congr 1
  · split
    · rename_i hcond
      rw [hcond.1]
    · rfl
  · split
    · rename_i hcond
      rw [hcond.1]
    · rfl

theorem Renamed.danglingReferences (h : k.Renamed m old new)
    (hc : k.clusters.get? old.cluster = some c) (hu : k.users.get? old.user = some u)
    (hnames : old.cluster ≠ "" ∧ old.user ≠ "") (hk : k.danglingReferences = []) :
    m.danglingReferences = k.leftBehind old new := by
  have hcurrent : dangles m.contexts m.currentContext = false := by
    rw [h.currentContext]
    exact dangles_of_some h.get?_context
  -- nothing is reported of the new context, so only the others count
  have hnew : ∀ x, m.contexts.get? new.context = some x → m.danglingIn new.context x = [] := by
    intro x hx
    obtain rfl := Option.some.inj (h.get?_context.symm.trans hx)
    rw [Kubeconfig.danglingIn, dangles_of_some (h.clusters.get?_new hc),
      dangles_of_some (h.users.get?_new hu)]
    rfl
  -- each of these was there before, with the same two names
  have hothers : ∀ e ∈ (m.contexts.erase new.context).toList,
      m.danglingIn e.1 e.2 = leftBehindIn old new e.1 e.2 := by
    intro e he
    rw [h.erase_contexts] at he
    have hget := NameMap.mem_toList.mp he
    rw [NameMap.get?_erase, NameMap.get?_erase] at hget
    have hthere : k.contexts.get? e.1 = some e.2 := by
      split at hget
      · cases hget
      · split at hget
        · cases hget
        · exact hget
    exact h.danglingIn hc hu hnames (not_dangles_of_nil hk hthere) e.1
  rw [Kubeconfig.danglingReferences, hcurrent, leftBehind, ← h.erase_contexts,
    ← NameMap.flatMap_erase hnew]
  exact List.flatMap_congr hothers

end

/-- A kubeconfig in which all references lead somewhere has the cluster and the
user of a control plane under the placeholders. When it has been remapped, the
context of the control plane is current and leads to these two. Each other
context that referred to one of them under a placeholder that is not its name
any more is reported for that, and nothing else is. -/
theorem danglingReferences_remap {k : Kubeconfig} {i : Identity} {old : EntryNames} {c : Cluster}
    {u : User} (n : Naming) (hkind : i.kind.placeholders = some old)
    (hk : k.danglingReferences = []) (hc : k.clusters.get? old.cluster = some c)
    (hu : k.users.get? old.user = some u) :
    let new := n.entries i.name.text
    let m := k.remap i n
    m.currentContext = new.context ∧ m.current = some (.of new.cluster new.user) ∧
      m.resolve new.context = some (c, u) ∧ m.danglingReferences = k.leftBehind old new := by
  intro new m
  have hm : k.Renamed m old new := k.renamed_remap n hkind
  have hcurrent : m.current = some (.of new.cluster new.user) := by
    rw [current, hm.currentContext]
    exact hm.get?_context
  exact ⟨hm.currentContext, hcurrent, hm.hasOwnNames.resolve hc hu,
    hm.danglingReferences hc hu (Kind.placeholders_ne_empty hkind) hk⟩

/-- The context `a` refers to the cluster under the placeholder and `b` to both.
The context under the placeholder is gone, and that of the control plane was
there already. -/
theorem danglingReferences_remap_shared :
    let k := { ofContexts
        [("a", .of "my-vcluster" ""), ("b", .of "my-vcluster" "my-vcluster"),
          ("dev", .of "my-vcluster" "other"), ("my-vcluster", .of "my-vcluster" "my-vcluster")]
        [("my-vcluster", .empty)] "a" with
      users := .ofList [("my-vcluster", .empty), ("other", .empty)] }
    let i : Identity := ⟨⟨"dev", by decide +kernel⟩, .vcluster⟩
    k.danglingReferences = [] ∧ (k.remap i .standard).danglingReferences =
      [.cluster "a" "my-vcluster", .cluster "b" "my-vcluster", .user "b" "my-vcluster"] := by
  intro k i
  have hk : k.danglingReferences = [] := by decide +kernel
  have hu : k.users.get? "my-vcluster" = some .empty := rfl
  exact ⟨hk, (danglingReferences_remap .standard rfl hk rfl hu).2.2.2.trans (by decide +kernel)⟩

end Kubeconfig

end PlaneAccess
