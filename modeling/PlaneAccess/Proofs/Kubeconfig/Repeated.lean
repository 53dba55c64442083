import PlaneAccess.Proofs.Kubeconfig.Rewrite
import PlaneAccess.Proofs.Yaml.Repeated

/-!
# Keys that are there twice in a kubeconfig

A file is refused if it has a field twice, or if a mapping in a value that is kept
has a key twice (`Kubeconfig.decode_of_repeatsKey`). This does not hold of the
other keys of a cluster, a user or a context: of two entries with one key the
last one is kept and the other one is lost (`Kubeconfig.loses_exec`).
-/

namespace PlaneAccess

open PlaneAccess.Yaml

/-! ## Entries -/

section

variable {α : Type} {list name key : String} {s : Schema α} {x : Extra α}
  {flags always : List String} {get : Listing → List (Named α)}
  {set : Listing → List (Named α) → Listing} {t u : Tree} {l : Listing} {path here : Path}

def Yaml.Tree.itemsOf (list : String) (t : Tree) : List Tree :=
  ((t.field? list).getD .unread).items

/-- An entry of a list has a field twice, or its body does, or a mapping in a
value of its body has a key twice. -/
def Named.Repeats (name key : String) (s : Schema α) (u : Tree) : Prop :=
  (Named.schema name key s).RepeatsField u ∨ s.Repeats (u.entry key).2

instance (name key : String) (s : Schema α) (u : Tree) : Decidable (Named.Repeats name key s u) :=
  inferInstanceAs (Decidable (_ ∨ _))

theorem Named.not_repeats_of_read (hs : s.Lawful x flags always) (hne : "name" ≠ key)
    (hempty : s.read [] (.mapping none []) = .ok s.empty) {e : Named α}
    (h : Named.read (Named.schema name key s) here u = .ok e) : ¬ Named.Repeats name key s u := by
  obtain ⟨-, body, path, hfields, hbody⟩ := Named.entry_of_read hne hempty h
  obtain ⟨r, hr, -⟩ := bind_eq_ok.mp h
  rintro (hfield | hrepeats)
  · exact Schema.not_repeatsField_of_read hr hfield
  · exact Schema.not_repeats_of_read hbody hs.extra hs.get
      ((Schema.repeats_congr hfields).mpr hrepeats)

namespace Kubeconfig

theorem IsList.not_repeats (hf : IsList list name key s get set) (hs : s.Lawful x flags always)
    (hempty : s.read [] (.mapping none []) = .ok s.empty)
    (h : Listing.schema.read path t = .ok l) :
    ∀ u ∈ t.itemsOf list, ¬ Named.Repeats name key s u := by
  obtain ⟨pairs, hitems, -, hread⟩ := hf.readsList h
  intro u hu
  rw [Tree.itemsOf, ← hitems] at hu
  obtain ⟨e, he, rfl⟩ := List.mem_map.mp hu
  obtain ⟨here, he⟩ := hread e he
  exact Named.not_repeats_of_read hs hf.apart hempty he

theorem IsList.keepsLast (hf : IsList list name key s get set) (hs : s.Lawful x flags always)
    (hempty : s.read [] (.mapping none []) = .ok s.empty)
    (h : Listing.schema.read path t = .ok l) {part : Section} {m : NameMap α}
    (hm : Listing.collect part s.empty (get l) = .ok m) :
    ∀ e ∈ t.named list key, ∃ a, m.get? e.1 = some a ∧ s.KeepsLast e.2 (x.get a) := by
  refine hf.forall_named hempty h hm (fun u a => s.KeepsLast u (x.get a))
    fun u body path a hfields hbody => ?_
  exact (Schema.keepsLast_congr hfields).mp (Schema.keepsLast_of_read hbody hs.extra hs.get)

end Kubeconfig

end

/-! ## Kubeconfigs -/

namespace Kubeconfig

theorem IsValue.repeatsKey {key : String} {get : Listing → Option Value}
    {set : Listing → Option Value → Listing} (hf : IsValue key get set) {t : Tree} {l : Listing}
    {path : Path} (h : Listing.schema.read path t = .ok l) :
    (t.field? key).any Tree.repeatsKey = false := by
  rcases Schema.view_of_read (.optionalValue key get set) get h
      (Schema.field?_of_mem keys_listing hf.mem) hf.leaves (fun _ h => by cases h) with
    ⟨hnone, -⟩ | ⟨u, here, b, c, hu, hread, -⟩
  · replace hnone : t.field? key = none := hnone
    rw [hnone]
    rfl
  · obtain ⟨r, hr, -⟩ := map_eq_ok.mp hread
    replace hu : t.field? key = some u := hu
    rw [hu]
    cases r with
    | none => exact Tree.repeatsKey_of_isNull (isNull_of_readOptional hr)
    | some v => exact repeatsKey_of_readValue u _ v (eq_some_of_readOptional hr rfl)

/-- Somewhere in the tree of a kubeconfig a field is there twice, or in a value
that is kept a mapping has a key twice. -/
def RepeatsKey (t : Tree) : Prop :=
  Listing.schema.RepeatsField t ∨
    (∃ u ∈ t.itemsOf "clusters", Named.Repeats "struct NamedCluster" "cluster" Cluster.schema u) ∨
    (∃ u ∈ t.itemsOf "users", Named.Repeats "struct NamedAuthInfo" "user" User.schema u) ∨
    (∃ u ∈ t.itemsOf "contexts", Named.Repeats "struct NamedContext" "context" Context.schema u) ∨
    ∃ key ∈ ["preferences", "extensions"], (t.field? key).any Tree.repeatsKey = true

instance (t : Tree) : Decidable (RepeatsKey t) :=
  inferInstanceAs (Decidable (_ ∨ _))

/-- The clusters, users and contexts of a kubeconfig keep, of the keys that are no
fields in their bodies, the values that come last. -/
structure KeepsLast (k : Kubeconfig) (t : Tree) : Prop where
  clusters : ∀ e ∈ t.named "clusters" "cluster",
    ∃ c, k.clusters.get? e.1 = some c ∧ Cluster.schema.KeepsLast e.2 c.extra
  users : ∀ e ∈ t.named "users" "user",
    ∃ u, k.users.get? e.1 = some u ∧ User.schema.KeepsLast e.2 u.extra
  contexts : ∀ e ∈ t.named "contexts" "context",
    ∃ c, k.contexts.get? e.1 = some c ∧ Context.schema.KeepsLast e.2 c.extra

theorem not_repeatsKey_of_ofTree {t : Tree} {k : Kubeconfig} (h : ofTree t = .ok k) :
    ¬ RepeatsKey t := by
  obtain ⟨l, hl, -⟩ := of_ofTree h
  rintro (hfield | ⟨u, hu, h⟩ | ⟨u, hu, h⟩ | ⟨u, hu, h⟩ | ⟨key, hkey, hvalue⟩)
  · exact Schema.not_repeatsField_of_read hl hfield
  · exact isList_clusters.not_repeats Cluster.lawful rfl hl u hu h
  · exact isList_users.not_repeats User.lawful rfl hl u hu h
  · exact isList_contexts.not_repeats Context.lawful rfl hl u hu h
  · rcases List.mem_cons.mp hkey with rfl | hkey
    · rw [isValue_preferences.repeatsKey hl] at hvalue
      cases hvalue
    · obtain rfl := List.mem_singleton.mp hkey
      rw [isValue_extensions.repeatsKey hl] at hvalue
      cases hvalue

theorem keepsLast_of_ofTree {t : Tree} {k : Kubeconfig} (h : ofTree t = .ok k) :
    k.KeepsLast t := by
  obtain ⟨l, hl, hclusters, husers, hcontexts, -⟩ := of_ofTree h
  exact {
    clusters := isList_clusters.keepsLast Cluster.lawful rfl hl hclusters
    users := isList_users.keepsLast User.lawful rfl hl husers
    contexts := isList_contexts.keepsLast Context.lawful rfl hl hcontexts }

/-- A file is refused if a field is there twice, in the kubeconfig itself, in an
entry or in the body of one, or if a mapping in a value that is kept has a key
twice. Only of the other keys of a body the last one counts. -/
theorem decode_of_repeatsKey (bytes : ByteArray) :
    (RepeatsKey (documentOf bytes) → ∃ e, decode bytes = .error e) ∧
      ∀ k, decode bytes = .ok k → k.KeepsLast (documentOf bytes) := by
  constructor
  · intro hrepeats
    cases hdecode : decode bytes with
    | error e => exact ⟨e, rfl⟩
    | ok k => exact absurd hrepeats (not_repeatsKey_of_ofTree (ofTree_documentOf hdecode))
  · intro k h
    exact keepsLast_of_ofTree (ofTree_documentOf h)

/-- Two spellings of one number are keys that say the same, also in a record that is
used again through a reference. -/
theorem decode_of_repeatsKey_number :
    let bytes := ("users:\n- name: u\n  user: &a\n    exec: [{1: a, 0x1: b}]\n" ++
      "- name: v\n  user: *a\n").toUTF8
    RepeatsKey (documentOf bytes) ∧ ∃ e, decode bytes = .error e := by
  intro bytes
  have hrepeats : RepeatsKey (documentOf bytes) := by decide +kernel
  exact ⟨hrepeats, (decode_of_repeatsKey bytes).1 hrepeats⟩

def hasExec (text : String) (k : Kubeconfig) : Bool :=
  (k.users.get? "u").any (fun u => (u.extra.get? "exec").any (fun v => v.same (.string text)))

/-- A file that has a key twice in the body of a user is not refused, and one of
its two values is lost. -/
theorem loses_exec :
    let bytes := "users:\n- name: u\n  user:\n    exec: a\n    exec: b\n".toUTF8
    (∃ e ∈ (documentOf bytes).named "users" "user", ¬ (e.2.fields.map Prod.fst).Nodup) ∧
      ∃ k, decode bytes = .ok k ∧ k.hasExec "b" = true ∧ k.hasExec "a" = false := by
  intro bytes
  refine ⟨by decide +kernel, ?_⟩
  obtain ⟨k, hk, h⟩ := exists_of_toOption_any (r := decode bytes)
    (fun k => k.hasExec "b" && !k.hasExec "a") (by decide +kernel)
  rw [Bool.and_eq_true, Bool.not_eq_true'] at h
  exact ⟨k, hk, h⟩

end Kubeconfig

end PlaneAccess
