import PlaneAccess.Proofs.Kubeconfig.Merging

/-!
# Control planes side by side

The credentials of two control planes can be merged into a kubeconfig in
either order (`Kubeconfig.merge_remap_comm`). What a scheme puts around the
names of two control planes keeps them apart, whatever the placeholders are,
since these are gone before anything is merged.
-/

namespace PlaneAccess

open PlaneAccess.ControlPlane

/-! ## Names of one's own -/

namespace ControlPlane

/-- What is put around a name does not make it that of another one. -/
theorem Affix.apply_inj (a : Affix) {m n : String} : a.apply m = a.apply n ↔ m = n := by
  rw [apply, apply, String.append_left_inj, String.append_right_inj]

/-- Three names with none of which another three coincide. -/
structure EntryNames.Apart (a b : EntryNames) : Prop where
  cluster : a.cluster ≠ b.cluster
  user : a.user ≠ b.user
  context : a.context ≠ b.context

theorem EntryNames.Apart.symm {a b : EntryNames} (h : a.Apart b) : b.Apart a :=
  ⟨h.cluster.symm, h.user.symm, h.context.symm⟩

/-- A scheme that puts something around each name tells control planes
apart. -/
theorem Naming.apart_entries (space cluster user context : Affix) {m n : Name} (h : m ≠ n) :
    ((ofAffixes space cluster user context).entries m.text).Apart
      ((ofAffixes space cluster user context).entries n.text) := by
  have htext : m.text ≠ n.text := by
    intro heq
    cases m
    cases n
    cases heq
    exact h rfl
  exact ⟨fun heq => htext (cluster.apply_inj.mp heq), fun heq => htext (user.apply_inj.mp heq),
    fun heq => htext (context.apply_inj.mp heq)⟩

end ControlPlane

namespace Kubeconfig

structure UsesOnly (k : Kubeconfig) (names : EntryNames) : Prop where
  clusters : ∀ n ∈ k.clusters.keys, n = names.cluster
  users : ∀ n ∈ k.users.keys, n = names.user
  contexts : ∀ n ∈ k.contexts.keys, n = names.context

section

variable {α : Type} {m : NameMap α}

theorem keys_iff {a : String} :
    (∀ n ∈ m.keys, n = a) ↔ ∀ n, n ≠ a → m.get? n = none := by
  constructor
  · intro h n hne
    cases hget : m.get? n with
    | none => rfl
    | some x =>
      refine absurd (h n (NameMap.mem_keys.mpr ?_)) hne
      rw [NameMap.contains, hget]
      rfl
  · intro h n hn
    refine Decidable.byContradiction fun hne => ?_
    rw [NameMap.mem_keys, NameMap.contains, h n hne] at hn
    cases hn

theorem keys_insert {k : String} (a : α) (h : ∀ n ∈ m.keys, n = k) :
    ∀ n ∈ (m.insert k a).keys, n = k := by
  refine keys_iff.mpr fun n hne => ?_
  rw [NameMap.get?_insert, if_neg (Ne.symm hne)]
  exact keys_iff.mp h n hne

theorem keys_rename {old : String} (h : ∀ n ∈ m.keys, n = old) (new : String) :
    ∀ n ∈ (m.rename old new).keys, n = new := by
  refine keys_iff.mpr fun n hne => ?_
  rw [NameMap.get?_rename]
  split
  · rw [if_neg (Ne.symm hne)]
    split
    · rfl
    · rename_i hold
      exact keys_iff.mp h n (Ne.symm hold)
  · -- where there is nothing to be renamed there is nothing at all
    rename_i hnone
    by_cases hold : n = old
    · rw [hold]
      exact Option.not_isSome_iff_eq_none.mp hnone
    · exact keys_iff.mp h n hold

theorem disjoint_of_keys {m' : NameMap α} {a b : String} (h : ∀ n ∈ m.keys, n = a)
    (h' : ∀ n ∈ m'.keys, n = b) (hne : a ≠ b) (n : String) :
    m.get? n = none ∨ m'.get? n = none := by
  by_cases hn : n = a
  · exact Or.inr (keys_iff.mp h' n (hn ▸ hne))
  · exact Or.inl (keys_iff.mp h n hn)

theorem get?_union_of_keys {m' : NameMap α} {a n : String} (h : ∀ n ∈ m'.keys, n = a)
    (hne : n ≠ a) : (m.union m').get? n = m.get? n := by
  rw [NameMap.get?_union, keys_iff.mp h n hne, Option.none_or]

end

theorem UsesOnly.renameEntries {k : Kubeconfig} {old : EntryNames} (h : k.UsesOnly old)
    (new : EntryNames) : (k.renameEntries old new).UsesOnly new where
  clusters := keys_rename h.clusters new.cluster
  users := keys_rename h.users new.user
  contexts := keys_insert _ (keys_rename h.contexts new.context)

/-! ## Merging two control planes -/

/-- Kubeconfigs with names apart can be merged into another one in either
order. Only the current context is that of the last one. -/
theorem merge_right_comm (k : Kubeconfig) {s t : Kubeconfig} {a b : EntryNames}
    (hs : s.UsesOnly a) (ht : t.UsesOnly b) (h : a.Apart b) :
    (k.merge s).merge t = { (k.merge t).merge s with currentContext := t.currentContext } := by
  have hclusters : (k.clusters.union s.clusters).union t.clusters = _ :=
    NameMap.union_right_comm (disjoint_of_keys hs.clusters ht.clusters h.cluster)
  have husers : (k.users.union s.users).union t.users = _ :=
    NameMap.union_right_comm (disjoint_of_keys hs.users ht.users h.user)
  have hcontexts : (k.contexts.union s.contexts).union t.contexts = _ :=
    NameMap.union_right_comm (disjoint_of_keys hs.contexts ht.contexts h.context)
  simp only [merge, hclusters, husers, hcontexts]

def resolve (k : Kubeconfig) (context : String) : Option (Cluster × User) := do
  let c ← k.contexts.get? context
  let cluster ← k.clusters.get? c.cluster
  let user ← k.users.get? c.user
  return (cluster, user)

theorem resolve_eq_some {k : Kubeconfig} {context : String} {e : Context} {c : Cluster} {u : User}
    (he : k.contexts.get? context = some e) (hc : k.clusters.get? e.cluster = some c)
    (hu : k.users.get? e.user = some u) : k.resolve context = some (c, u) := by
  simp only [resolve, he, hc, hu, Option.bind_eq_bind, Option.bind_some]
  rfl

section

variable {k source : Kubeconfig} {old new : EntryNames} {c : Cluster} {u : User}

/-- The context of a control plane leads to the records that it was given. -/
theorem HasOwnNames.resolve (h : k.HasOwnNames source old new)
    (hc : source.clusters.get? old.cluster = some c) (hu : source.users.get? old.user = some u) :
    k.resolve new.context = some (c, u) :=
  resolve_eq_some h.context (h.cluster c hc) (h.user u hu)

theorem HasOwnNames.resolve_merge (h : k.HasOwnNames source old new) {t : Kubeconfig}
    {other : EntryNames} (ht : t.UsesOnly other) (hapart : new.Apart other)
    (hc : source.clusters.get? old.cluster = some c) (hu : source.users.get? old.user = some u) :
    (k.merge t).resolve new.context = some (c, u) :=
  resolve_eq_some ((get?_union_of_keys ht.contexts hapart.context).trans h.context)
    ((get?_union_of_keys ht.clusters hapart.cluster).trans (h.cluster c hc))
    ((get?_union_of_keys ht.users hapart.user).trans (h.user u hu))

end

section

variable {i : Identity} {old : EntryNames} {d : Kubeconfig}

theorem UsesOnly.remap (h : d.UsesOnly old) (hkind : i.kind.placeholders = some old) (n : Naming) :
    (d.remap i n).UsesOnly (n.entries i.name.text) := by
  rw [Kubeconfig.remap, hkind]
  exact h.renameEntries _

theorem hasOwnNames_merge_remap (k : Kubeconfig) (hkind : i.kind.placeholders = some old)
    (n : Naming) :
    (k.merge (d.remap i n)).HasOwnNames d old (n.entries i.name.text) :=
  HasOwnNames.of_combines (combines_merge k _) (d.renamed_remap n hkind).hasOwnNames

end

/-- The kubeconfigs of two control planes whose kinds have placeholders can be
merged in either order. The results differ only in the current context, which
is that of the control plane merged last, and in both of them the context of
each control plane leads to the records that its own kubeconfig had. -/
theorem merge_remap_comm (k : Kubeconfig) {i j : Identity} {a b : EntryNames} {d e : Kubeconfig}
    (space cluster user context : Affix) (hi : i.kind.placeholders = some a)
    (hj : j.kind.placeholders = some b) (hname : i.name ≠ j.name) (hd : d.UsesOnly a)
    (he : e.UsesOnly b) :
    let n := Naming.ofAffixes space cluster user context
    let ij := (k.merge (d.remap i n)).merge (e.remap j n)
    let ji := (k.merge (e.remap j n)).merge (d.remap i n)
    ij = { ji with currentContext := n.context j.name.text } ∧
      ji = { ij with currentContext := n.context i.name.text } ∧
      (∀ c u, d.clusters.get? a.cluster = some c → d.users.get? a.user = some u →
        ij.resolve (n.context i.name.text) = some (c, u) ∧
          ji.resolve (n.context i.name.text) = some (c, u)) ∧
      (∀ c u, e.clusters.get? b.cluster = some c → e.users.get? b.user = some u →
        ij.resolve (n.context j.name.text) = some (c, u) ∧
          ji.resolve (n.context j.name.text) = some (c, u)) := by
  intro n ij ji
  have hapart : (n.entries i.name.text).Apart (n.entries j.name.text) :=
    Naming.apart_entries space cluster user context hname
  have hd' := hd.remap hi n
  have he' := he.remap hj n
  have hcurrent : ∀ {i : Identity} {a : EntryNames} {d : Kubeconfig},
      i.kind.placeholders = some a → (d.remap i n).currentContext = n.context i.name.text := by
    intro i a d hi
    rw [remap, hi]
    rfl
  refine ⟨?_, ?_, fun c u hc hu => ⟨?_, ?_⟩, fun c u hc hu => ⟨?_, ?_⟩⟩
  · rw [← hcurrent (d := e) hj]
    exact merge_right_comm k hd' he' hapart
  · rw [← hcurrent (d := d) hi]
    exact merge_right_comm k he' hd' hapart.symm
  · exact (hasOwnNames_merge_remap k hi n).resolve_merge he' hapart hc hu
  · exact (hasOwnNames_merge_remap _ hi n).resolve hc hu
  · exact (hasOwnNames_merge_remap _ hj n).resolve hc hu
  · exact (hasOwnNames_merge_remap k hj n).resolve_merge hd' hapart.symm hc hu

/-- Two control planes that are named like the placeholders of their kinds, and
a kubeconfig that has a context of one of these names already. -/
theorem merge_remap_comm_placeholder :
    let c := { Cluster.empty with server := some "a" }
    let u := { User.empty with token := some "t" }
    let d := { empty with
      clusters := .ofList [("my-vcluster", c)], users := .ofList [("my-vcluster", u)] }
    let i : Identity := ⟨⟨"my-vcluster", by decide +kernel⟩, .vcluster⟩
    let j : Identity := ⟨⟨"multicluster-controlplane", by decide +kernel⟩, .ocm⟩
    let n := Naming.ofAffixes ⟨"", ""⟩ ⟨"", ""⟩ ⟨"", ""⟩ ⟨"", ""⟩
    let k := { empty with contexts := .ofList [("my-vcluster", .of "x" "y")] }
    i.name ≠ j.name ∧ d.UsesOnly ⟨"my-vcluster", "my-vcluster", "my-vcluster"⟩ ∧
      ((k.merge (d.remap i n)).merge (empty.remap j n)).resolve "my-vcluster" = some (c, u) ∧
      ((k.merge (empty.remap j n)).merge (d.remap i n)).resolve "my-vcluster" = some (c, u) := by
  intro c u d i j n k
  have hname : i.name ≠ j.name := by decide
  have hd : d.UsesOnly ⟨"my-vcluster", "my-vcluster", "my-vcluster"⟩ :=
    ⟨by decide, by decide, by decide⟩
  have he : empty.UsesOnly
      ⟨"multicluster-controlplane", "user", "multicluster-controlplane"⟩ :=
    ⟨by decide, by decide, by decide⟩
  have hcomm := merge_remap_comm k (i := i) (j := j) ⟨"", ""⟩ ⟨"", ""⟩ ⟨"", ""⟩ ⟨"", ""⟩ rfl rfl
    hname hd he
  exact ⟨hname, hd, hcomm.2.2.1 c u rfl rfl⟩

end Kubeconfig

end PlaneAccess
