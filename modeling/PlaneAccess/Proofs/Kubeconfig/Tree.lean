import PlaneAccess.Kubeconfig.Codec
import PlaneAccess.Proofs.Yaml.Record

/-!
# Trees of kubeconfigs

The tree of a kubeconfig holds that kubeconfig without its nulls
(`Kubeconfig.Carried.ofTree_toTree`), as long as what is kept without being
looked at comes back: `Keeps` says so of the other keys of a record, `Carried`
of a whole kubeconfig, and `Faithful` that there are no nulls besides.
-/

namespace PlaneAccess

open PlaneAccess.Yaml

/-! ## Records -/

/-- The other keys of a record come back: none of them is a field, their
values have no tags, and no mapping among them repeats a key. -/
def Yaml.Schema.Keeps {α : Type} (s : Schema α) (m : NameMap Value) : Prop :=
  ∀ key v, m.get? key = some v →
    s.field? key = none ∧ v.isUntagged = true ∧ v.repeatedKey? = none

theorem Cluster.read_write (path : Path) {c : Cluster} (h : Cluster.schema.Keeps c.extra) :
    Cluster.schema.read path (Cluster.schema.write c) = .ok c := by
  rw [Schema.read_write path c (by decide +kernel)
    (fun x hx => by obtain rfl := Option.some.inj hx; exact h)]
  simp only [Cluster.schema, List.foldlM_cons, List.foldlM_nil]
  rw [Schema.transfer_optionalText path _ rfl, ok_bind,
    Schema.transfer_optionalText path _ rfl, ok_bind,
    Schema.transfer_optionalText path _ rfl, ok_bind,
    Schema.transfer_optionalFlag path _ rfl, ok_bind,
    Schema.transfer_optionalText path _ rfl, ok_bind]
  rfl

theorem User.read_write (path : Path) {u : User} (h : User.schema.Keeps u.extra) :
    User.schema.read path (User.schema.write u) = .ok u := by
  rw [Schema.read_write path u (by decide +kernel)
    (fun x hx => by obtain rfl := Option.some.inj hx; exact h)]
  simp only [User.schema, List.foldlM_cons, List.foldlM_nil]
  rw [Schema.transfer_optionalText path _ rfl, ok_bind,
    Schema.transfer_optionalText path _ rfl, ok_bind,
    Schema.transfer_optionalText path _ rfl, ok_bind,
    Schema.transfer_optionalText path _ rfl, ok_bind,
    Schema.transfer_optionalText path _ rfl, ok_bind,
    Schema.transfer_optionalText path _ rfl, ok_bind,
    Schema.transfer_optionalText path _ rfl, ok_bind]
  rfl

theorem Context.read_write (path : Path) {c : Context} (h : Context.schema.Keeps c.extra) :
    Context.schema.read path (Context.schema.write c) = .ok c := by
  rw [Schema.read_write path c (by decide +kernel)
    (fun x hx => by obtain rfl := Option.some.inj hx; exact h)]
  simp only [Context.schema, List.foldlM_cons, List.foldlM_nil]
  rw [Schema.transfer_text, ok_bind, Schema.transfer_text, ok_bind,
    Schema.transfer_optionalText path _ rfl, ok_bind]
  rfl

/-! ## Lists of entries -/

section

variable {α : Type}

theorem Named.read_write (name key : String) (hne : "name" ≠ key) {s : Schema α} {e : Named α}
    (h : ∀ x, e.body = some x → ∀ path, s.read path (s.write x) = .ok x) (path : Path) :
    Named.read (Named.schema name key s) path (Named.write (Named.schema name key s) e) =
      .ok e := by
  have hentry : (Named.schema name key s).read path
      ((Named.schema name key s).write ⟨some e.name, e.body⟩) = .ok ⟨some e.name, e.body⟩ := by
    rw [Schema.read_write_of_no_extra path _ (by simp [Named.schema, RecordField.text,
      RecordField.optionalRecord, hne]) rfl]
    simp only [Named.schema, List.foldlM_cons, List.foldlM_nil]
    rw [Schema.transfer_text, ok_bind,
      Schema.transfer_optionalRecord path key (by rfl) (by exact h), ok_bind]
    rfl
  rw [Named.read, Named.write, hentry]
  rfl

theorem Listing.collect_entriesOf (list : Section) (default : α) (m : NameMap α) :
    collect list default (entriesOf m) = .ok m := by
  have hinto : ∀ (es : List (String × α)) (m : NameMap α), Increasing es →
      (∀ e ∈ es, m.contains e.1 = false) →
      collectInto list default m (es.map (fun e => ⟨e.1, some e.2⟩)) =
        .ok (es.foldl (fun m e => m.insert e.1 e.2) m) := by
    intro es
    induction es with
    | nil => intro m _ _; rfl
    | cons e es ih =>
      intro m hs hm
      obtain ⟨hhead, htail⟩ := List.pairwise_cons.mp hs
      rw [List.map_cons, collectInto, hm e List.mem_cons_self, if_neg (by simp), List.foldl_cons]
      refine ih _ htail fun f hf => ?_
      rw [NameMap.contains, NameMap.get?_insert,
        if_neg (NameMap.ne_of_lt_name (hhead f hf))]
      exact hm f (List.mem_cons_of_mem _ hf)
  rw [collect, entriesOf, hinto m.toList .empty m.increasing (fun _ _ => rfl)]
  exact congrArg Except.ok (NameMap.ofList_toList m)

end

/-! ## Kubeconfigs -/

namespace Kubeconfig

/-- All that is kept without being looked at comes back, but for nulls. -/
structure Carried (k : Kubeconfig) : Prop where
  clusters : ∀ n c, k.clusters.get? n = some c → Cluster.schema.Keeps c.extra
  users : ∀ n u, k.users.get? n = some u → User.schema.Keeps u.extra
  contexts : ∀ n c, k.contexts.get? n = some c → Context.schema.Keeps c.extra
  preferences : ∀ v, k.preferences = some v → Readable .alone false v
  extensions : ∀ v, k.extensions = some v → Readable .alone false v

/-- The kubeconfig in which preferences and extensions that are null are
absent. -/
def withoutNulls (k : Kubeconfig) : Kubeconfig :=
  { k with preferences := withoutNull k.preferences, extensions := withoutNull k.extensions }

def HasNoNulls (k : Kubeconfig) : Prop := k.preferences ≠ some .null ∧ k.extensions ≠ some .null

theorem HasNoNulls.withoutNulls_eq {k : Kubeconfig} (h : k.HasNoNulls) : k.withoutNulls = k := by
  rw [withoutNulls, withoutNull_eq h.1, withoutNull_eq h.2]

structure Faithful (k : Kubeconfig) : Prop extends Carried k where
  nulls : k.HasNoNulls

theorem read_entries {α : Type} (name key : String) (hne : "name" ≠ key) {s : Schema α}
    {m : NameMap α} {P : α → Prop} (hP : ∀ n x, m.get? n = some x → P x)
    (h : ∀ x path, P x → s.read path (s.write x) = .ok x) :
    ∀ e ∈ Listing.entriesOf m, ∀ here,
      Named.read (Named.schema name key s) here (Named.write (Named.schema name key s) e) =
        .ok e := by
  intro e he here
  obtain ⟨⟨n, x⟩, hmem, rfl⟩ := List.mem_map.mp he
  refine Named.read_write name key hne (fun y hy path => ?_) here
  obtain rfl := Option.some.inj hy
  exact h x path (hP n x (NameMap.mem_toList.mp hmem))

theorem Carried.read_listing {k : Kubeconfig} (h : k.Carried) (path : Path) :
    Listing.schema.read path k.toTree = .ok (Listing.ofKubeconfig k.withoutNulls) := by
  rw [toTree, Schema.read_write_of_no_extra path _ (by decide +kernel) rfl]
  have hclusters := read_entries "struct NamedCluster" "cluster" (by decide) h.clusters
    (fun _ path hx => Cluster.read_write path hx)
  have husers := read_entries "struct NamedAuthInfo" "user" (by decide) h.users
    (fun _ path hx => User.read_write path hx)
  have hcontexts := read_entries "struct NamedContext" "context" (by decide) h.contexts
    (fun _ path hx => Context.read_write path hx)
  have hcurrent : ∀ l : Listing, Schema.transfer path (Listing.ofKubeconfig k) l
      RecordField.currentContext = .ok { l with currentContext := some k.currentContext } := by
    intro l
    show (readOptional path (Tree.ofString k.currentContext) _).map _ = _
    rw [readOptional_ofString]
    rfl
  simp only [Listing.schema, List.foldlM_cons, List.foldlM_nil, RecordField.entries]
  rw [Schema.transfer_constant, ok_bind, Schema.transfer_constant, ok_bind,
    Schema.transfer_optionalValue path _ (by rfl) (by exact h.preferences), ok_bind,
    Schema.transfer_list path _ _ (by exact hclusters), ok_bind,
    Schema.transfer_list path _ _ (by exact husers), ok_bind,
    Schema.transfer_list path _ _ (by exact hcontexts), ok_bind, hcurrent, ok_bind,
    Schema.transfer_optionalValue path _ (by rfl) (by exact h.extensions), ok_bind]
  rfl

/-- The tree of a kubeconfig holds that kubeconfig, without nulls. -/
theorem Carried.ofTree_toTree {k : Kubeconfig} (h : k.Carried) :
    ofTree k.toTree = .ok k.withoutNulls := by
  have hlisting : (Listing.ofKubeconfig k.withoutNulls).toKubeconfig = .ok k.withoutNulls := by
    rw [Listing.toKubeconfig]
    simp only [Listing.ofKubeconfig, Listing.collect_entriesOf, ok_bind]
    rfl
  rw [ofTree, h.read_listing]
  simp only [hlisting]

/-! ## What a reader of kubeconfigs looks at -/

theorem covers_entries {α : Type} (name key : String) (hne : "name" ≠ key) (s : Schema α)
    (hs : s.extra.isSome = true) (es : List (Named α)) :
    (Interest.items (Named.schema name key s).interest).Covers
      (.sequence none (es.map (Named.write (Named.schema name key s)))) := by
  refine .items fun t ht => ?_
  obtain ⟨e, -, rfl⟩ := List.mem_map.mp ht
  refine Schema.covers_write _ (by simp [Named.schema, RecordField.text,
    RecordField.optionalRecord, hne]) fun f hf t _ => ?_
  simp only [Named.schema, List.mem_cons, List.not_mem_nil, or_false] at hf
  rcases hf with rfl | rfl
  · exact .everything t
  · have hinterest : s.interest = .everything := by
      rw [Schema.interest, if_pos hs]
    show s.interest.Covers t
    rw [hinterest]
    exact .everything t

/-- A reader of kubeconfigs looks at the whole of a written one. -/
theorem covers_toTree (k : Kubeconfig) : Listing.schema.interest.Covers k.toTree := by
  refine Schema.covers_write _ (by decide +kernel) fun f hf t ht => ?_
  simp only [Listing.schema, List.mem_cons, List.not_mem_nil, or_false] at hf
  rcases hf with rfl | rfl | rfl | rfl | rfl | rfl | rfl | rfl
  · exact .everything t
  · exact .everything t
  · exact .everything t
  · obtain rfl := Option.some.inj ht
    exact covers_entries _ _ (by decide) Cluster.schema rfl _
  · obtain rfl := Option.some.inj ht
    exact covers_entries _ _ (by decide) User.schema rfl _
  · obtain rfl := Option.some.inj ht
    exact covers_entries _ _ (by decide) Context.schema rfl _
  · exact .everything t
  · exact .everything t

end Kubeconfig

end PlaneAccess
