import PlaneAccess.Kubeconfig.Dangling
import PlaneAccess.Proofs.Kubeconfig.Merging

/-!
# References that lead nowhere, and merging

Merging makes no reference lead nowhere that did not do so before: one that is
reported afterwards is reported of the kubeconfig that it comes from. So where
all references lead somewhere they go on to do so, however many kubeconfigs are
merged (`Kubeconfig.danglingReferences_merge`).
-/

namespace PlaneAccess

namespace DanglingReference

/-- Of two kubeconfigs that are merged, the one that a reference comes from:
the second one, unless the reference stands in a context that only the first
one has. -/
def origin (k s : Kubeconfig) : DanglingReference → Kubeconfig
  | currentContext _ => s
  | cluster context _ | user context _ => if s.contexts.contains context then s else k

theorem origin_of_both {k s : Kubeconfig} (P : Kubeconfig → Prop) (hk : P k) (hs : P s)
    (r : DanglingReference) : P (r.origin k s) := by
  have hif : ∀ context, P (if s.contexts.contains context then s else k) := by
    intro context
    split
    · exact hs
    · exact hk
  cases r with
  | currentContext name => exact hs
  | cluster context name => exact hif context
  | user context name => exact hif context

end DanglingReference

namespace Kubeconfig

/-! ## What is reported -/

theorem dangles_iff {α : Type} {m : NameMap α} {name : String} :
    dangles m name = true ↔ name ≠ "" ∧ m.get? name = none := by
  simp [dangles, NameMap.contains]

def Dangles (k : Kubeconfig) : DanglingReference → Prop
  | .currentContext name => k.currentContext = name ∧ dangles k.contexts name = true
  | .cluster context name =>
    ∃ c, k.contexts.get? context = some c ∧ c.cluster = name ∧ dangles k.clusters name = true
  | .user context name =>
    ∃ c, k.contexts.get? context = some c ∧ c.user = name ∧ dangles k.users name = true

theorem mem_danglingIn {k : Kubeconfig} {context : String} {c : Context}
    {r : DanglingReference} :
    r ∈ k.danglingIn context c ↔
      r = .cluster context c.cluster ∧ dangles k.clusters c.cluster = true ∨
        r = .user context c.user ∧ dangles k.users c.user = true := by
  rw [danglingIn, List.mem_append, List.mem_ite_nil_right, List.mem_ite_nil_right,
    List.mem_singleton, List.mem_singleton, and_comm, and_comm (b := r = .user _ _)]

/-- The references that are reported are those that lead nowhere. -/
theorem mem_danglingReferences {k : Kubeconfig} {r : DanglingReference} :
    r ∈ k.danglingReferences ↔ k.Dangles r := by
  have hcontexts : r ∈ k.contexts.toList.flatMap (fun e => k.danglingIn e.1 e.2) ↔
      ∃ context c, k.contexts.get? context = some c ∧ r ∈ k.danglingIn context c := by
    rw [List.mem_flatMap]
    constructor
    · rintro ⟨⟨context, c⟩, he, hr⟩
      exact ⟨context, c, NameMap.mem_toList.mp he, hr⟩
    · rintro ⟨context, c, hc, hr⟩
      exact ⟨(context, c), NameMap.mem_toList.mpr hc, hr⟩
  rw [danglingReferences, List.mem_append, List.mem_ite_nil_right, List.mem_singleton, hcontexts]
  simp only [mem_danglingIn]
  cases r with
  | currentContext name =>
    constructor
    · rintro (⟨hdangles, heq⟩ | ⟨context, c, -, ⟨heq, -⟩ | ⟨heq, -⟩⟩)
      · obtain rfl := DanglingReference.currentContext.inj heq
        exact ⟨rfl, hdangles⟩
      · cases heq
      · cases heq
    · rintro ⟨rfl, hdangles⟩
      exact Or.inl ⟨hdangles, rfl⟩
  | cluster context name =>
    constructor
    · rintro (⟨-, heq⟩ | ⟨context', c, hc, ⟨heq, hdangles⟩ | ⟨heq, -⟩⟩)
      · cases heq
      · obtain ⟨rfl, rfl⟩ := DanglingReference.cluster.inj heq
        exact ⟨c, hc, rfl, hdangles⟩
      · cases heq
    · rintro ⟨c, hc, rfl, hdangles⟩
      exact Or.inr ⟨context, c, hc, Or.inl ⟨rfl, hdangles⟩⟩
  | user context name =>
    constructor
    · rintro (⟨-, heq⟩ | ⟨context', c, hc, ⟨heq, -⟩ | ⟨heq, hdangles⟩⟩)
      · cases heq
      · cases heq
      · obtain ⟨rfl, rfl⟩ := DanglingReference.user.inj heq
        exact ⟨c, hc, rfl, hdangles⟩
    · rintro ⟨c, hc, rfl, hdangles⟩
      exact Or.inr ⟨context, c, hc, Or.inr ⟨rfl, hdangles⟩⟩

/-! ## Merging -/

/-- A name that leads nowhere in two maps together does so in either of them. -/
theorem dangles_of_union {α : Type} {m n : NameMap α} {name : String}
    (h : dangles (m.union n) name = true) :
    dangles m name = true ∧ dangles n name = true := by
  obtain ⟨hname, hget⟩ := dangles_iff.mp h
  rw [NameMap.get?_union, Option.or_eq_none_iff] at hget
  exact ⟨dangles_iff.mpr ⟨hname, hget.2⟩, dangles_iff.mpr ⟨hname, hget.1⟩⟩

theorem get?_contexts_of_merge {k s : Kubeconfig} {context : String} {c : Context}
    (h : (k.merge s).contexts.get? context = some c) :
    (if s.contexts.contains context then s else k).contexts.get? context = some c := by
  rw [(combines_merge k s).contexts] at h
  cases hs : s.contexts.get? context with
  | none =>
    rw [hs, Option.none_or] at h
    simpa [NameMap.contains, hs] using h
  | some c' =>
    rw [hs, Option.some_or] at h
    simpa [NameMap.contains, hs] using h

/-- What leads nowhere after merging did so where it comes from. -/
theorem Dangles.of_merge {k s : Kubeconfig} {r : DanglingReference} (h : (k.merge s).Dangles r) :
    (r.origin k s).Dangles r := by
  cases r with
  | currentContext name =>
    obtain ⟨hname, hdangles⟩ := h
    exact ⟨hname, (dangles_of_union hdangles).2⟩
  | cluster context name =>
    obtain ⟨c, hc, hname, hdangles⟩ := h
    obtain ⟨hk, hs⟩ := dangles_of_union hdangles
    exact ⟨c, get?_contexts_of_merge hc, hname,
      DanglingReference.origin_of_both (fun m => dangles m.clusters name = true) hk hs _⟩
  | user context name =>
    obtain ⟨c, hc, hname, hdangles⟩ := h
    obtain ⟨hk, hs⟩ := dangles_of_union hdangles
    exact ⟨c, get?_contexts_of_merge hc, hname,
      DanglingReference.origin_of_both (fun m => dangles m.users name = true) hk hs _⟩

theorem mem_origin_of_merge {k s : Kubeconfig} {r : DanglingReference}
    (h : r ∈ (k.merge s).danglingReferences) : r ∈ (r.origin k s).danglingReferences :=
  mem_danglingReferences.mpr (mem_danglingReferences.mp h).of_merge

theorem danglingReferences_merge_eq_nil {k s : Kubeconfig} (hk : k.danglingReferences = [])
    (hs : s.danglingReferences = []) : (k.merge s).danglingReferences = [] := by
  refine List.eq_nil_iff_forall_not_mem.mpr fun r hr => ?_
  have horigin := mem_origin_of_merge hr
  rw [DanglingReference.origin_of_both (fun m => m.danglingReferences = []) hk hs r] at horigin
  exact List.not_mem_nil horigin

theorem danglingReferences_foldl_merge_eq_nil {k : Kubeconfig} {ss : List Kubeconfig}
    (hk : k.danglingReferences = []) (hss : ∀ s ∈ ss, s.danglingReferences = []) :
    (ss.foldl merge k).danglingReferences = [] := by
  induction ss generalizing k with
  | nil => exact hk
  | cons s ss ih =>
    rw [List.foldl_cons]
    refine ih (danglingReferences_merge_eq_nil hk (hss s List.mem_cons_self)) fun t ht => ?_
    exact hss t (List.mem_cons_of_mem s ht)

/-- A reference that leads nowhere after merging is reported of the kubeconfig
that it comes from. So kubeconfigs without such references can be merged one
after the other into one without them, and at no moment there is one. -/
theorem danglingReferences_merge (k : Kubeconfig) :
    (∀ s, ∀ r ∈ (k.merge s).danglingReferences, r ∈ (r.origin k s).danglingReferences) ∧
      ∀ ss : List Kubeconfig, k.danglingReferences = [] →
        (∀ s ∈ ss, s.danglingReferences = []) →
        ∀ i, ((ss.take i).foldl merge k).danglingReferences = [] := by
  constructor
  · intro s r hr
    exact mem_origin_of_merge hr
  · intro ss hk hss i
    exact danglingReferences_foldl_merge_eq_nil hk fun s hs => hss s (List.mem_of_mem_take hs)

def ofContexts (contexts : List (String × Context)) (clusters : List (String × Cluster))
    (current : String) : Kubeconfig :=
  { empty with
    clusters := .ofList clusters
    contexts := .ofList contexts
    currentContext := current }

/-- The context `a` of the second kubeconfig takes the place of the first
one's, whose cluster it does not name, and the cluster of the context `b` is
replaced. The third kubeconfig has a user that is nowhere. -/
theorem danglingReferences_merge_replaced :
    let k := ofContexts [("a", .of "one" ""), ("b", .of "two" "")]
      [("one", .empty), ("two", .empty)] "b"
    let s := ofContexts [("a", .of "two" "")] [("two", { Cluster.empty with server := "x" })] "a"
    let t := ofContexts [("b", .of "one" "nobody")] [] "b"
    (∀ i, (([s, s].take i).foldl merge k).danglingReferences = []) ∧
      .user "b" "nobody" ∈ (k.merge t).danglingReferences ∧
      .user "b" "nobody" ∈ t.danglingReferences := by
  intro k s t
  have hk : k.danglingReferences = [] := by decide +kernel
  have hs : s.danglingReferences = [] := by decide +kernel
  have ht : .user "b" "nobody" ∈ (k.merge t).danglingReferences := by decide +kernel
  refine ⟨(danglingReferences_merge k).2 [s, s] hk (fun u hu => ?_), ht,
    (danglingReferences_merge k).1 t _ ht⟩
  simp only [List.mem_cons, List.not_mem_nil, or_false, or_self] at hu
  rw [hu, hs]

end Kubeconfig

end PlaneAccess
