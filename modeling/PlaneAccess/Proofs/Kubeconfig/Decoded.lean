import PlaneAccess.Kubeconfig.Merge
import PlaneAccess.Kubeconfig.Remap
import PlaneAccess.Proofs.Kubeconfig.RoundTrip
import PlaneAccess.Proofs.Yaml.Fields

/-!
# Kubeconfigs that have been read

What reading makes sure of in a kubeconfig (`Kubeconfig.Decoded`) is kept
when placeholders get names of their own and when one kubeconfig is merged
into another. Such a kubeconfig is never nested too deep to be read again
(`Decoded.depth_toTree`).
-/

namespace PlaneAccess

open PlaneAccess.Yaml

/-- What is kept in a kubeconfig that has been read, by how deep it can be:
the values of other keys are within four collections, and those of a field
within one. -/
structure Kubeconfig.Decoded (k : Kubeconfig) : Prop where
  clusters : ∀ n c, k.clusters.get? n = some c → Cluster.schema.KeepsWithin 124 c.extra
  users : ∀ n u, k.users.get? n = some u → User.schema.KeepsWithin 124 u.extra
  contexts : ∀ n c, k.contexts.get? n = some c → Context.schema.KeepsWithin 124 c.extra
  preferences : ∀ v, k.preferences = some v → Sound .alone 127 v
  extensions : ∀ v, k.extensions = some v → Sound .alone 127 v

/-! ## Reading -/

section

variable {α : Type}

/-- What holds of every body that can be read holds of the body of an entry
that has been read. -/
theorem Named.body_of_read {name key : String} {s : Schema α} {path : Path} {t : Tree}
    {e : Named α} {d : Nat} {P : α → Prop}
    (h : Named.read (Named.schema name key s) path t = .ok e) (ht : t.depth ≤ d + 1)
    (hread : ∀ here u x, u.depth ≤ d → s.read here u = .ok x → P x) :
    ∀ x, e.body = some x → P x := by
  obtain ⟨u, hu, h⟩ := bind_eq_ok.mp h
  have hbody : ∀ x, u.body = some x → P x := by
    refine Schema.holds_of_read (P := fun u => ∀ x, u.body = some x → P x) hu ht rfl
      (fun _ h => by cases h) fun f hf => ?_
    simp only [Named.schema, List.mem_cons, List.not_mem_nil, or_false] at hf
    rcases hf with rfl | rfl
    · intro around here t a b _ hb ha
      obtain ⟨text, -, rfl⟩ := map_eq_ok.mp hb
      exact ha
    · intro around here t a b ht hb ha x hx
      obtain ⟨r, hr, rfl⟩ := map_eq_ok.mp hb
      exact hread here t x ht (eq_some_of_readOptional hr hx)
  split at h
  · obtain rfl := Except.ok.inj h
    exact hbody
  · cases h

/-- The entries of a list with the default in the stead of missing bodies. -/
def Listing.bodies (default : α) (es : List (Named α)) : List (String × α) :=
  es.map (fun e => (e.name, e.body.getD default))

/-- The map of a list is made of its entries, and no two of them have one
name. -/
theorem Listing.collect_eq_ok {list : Section} {default : α} {es : List (Named α)}
    {m : NameMap α} (h : collect list default es = .ok m) :
    ((bodies default es).map Prod.fst).Nodup ∧ m = .ofList (bodies default es) := by
  have hinto : ∀ (es : List (Named α)) (m m' : NameMap α),
      collectInto list default m es = .ok m' →
      (∀ e ∈ es, m.get? e.name = none) ∧ ((bodies default es).map Prod.fst).Nodup ∧
        m' = (bodies default es).foldl (fun m e => m.insert e.1 e.2) m := by
    intro es
    induction es with
    | nil =>
      intro m m' h
      obtain rfl := Except.ok.inj h
      exact ⟨fun _ h => absurd h List.not_mem_nil, List.nodup_nil, rfl⟩
    | cons e es ih =>
      intro m m' h
      rw [collectInto] at h
      split at h
      · cases h
      rename_i hnew
      obtain ⟨hfresh, hnodup, hm'⟩ := ih _ m' h
      -- the names behind the first one are new beside it
      have hapart : ∀ f ∈ es, e.name ≠ f.name ∧ m.get? f.name = none := by
        intro f hf
        have hget := hfresh f hf
        rw [NameMap.get?_insert] at hget
        split at hget
        · cases hget
        · rename_i hne
          exact ⟨hne, hget⟩
      refine ⟨?_, ?_, hm'⟩
      · intro f hf
        rcases List.mem_cons.mp hf with rfl | hf
        · simpa [NameMap.contains] using hnew
        · exact (hapart f hf).2
      · refine List.nodup_cons.mpr ⟨fun hmem => ?_, hnodup⟩
        obtain ⟨_, hmem, heq⟩ := List.mem_map.mp hmem
        obtain ⟨f, hf, rfl⟩ := List.mem_map.mp hmem
        exact (hapart f hf).1 heq.symm
  obtain ⟨-, hnodup, hm⟩ := hinto es .empty m h
  exact ⟨hnodup, hm⟩

theorem Listing.forall_of_collect {list : Section} {default : α} {es : List (Named α)}
    {m : NameMap α} {P : α → Prop} (h : collect list default es = .ok m) (hdefault : P default)
    (hes : ∀ e ∈ es, ∀ x, e.body = some x → P x) : ∀ n x, m.get? n = some x → P x := by
  intro n x hx
  obtain ⟨-, rfl⟩ := collect_eq_ok h
  obtain ⟨e, he, heq⟩ := List.mem_map.mp (NameMap.mem_of_get?_ofList hx)
  obtain ⟨-, rfl⟩ := Prod.mk.inj heq
  cases hbody : e.body with
  | none => exact hdefault
  | some y => exact hes e he y hbody

end

structure Listing.Decoded (l : Listing) : Prop where
  clusters : ∀ e ∈ l.clusters, ∀ c, e.body = some c → Cluster.schema.KeepsWithin 124 c.extra
  users : ∀ e ∈ l.users, ∀ u, e.body = some u → User.schema.KeepsWithin 124 u.extra
  contexts : ∀ e ∈ l.contexts, ∀ c, e.body = some c → Context.schema.KeepsWithin 124 c.extra
  preferences : ∀ v, l.preferences = some v → Sound .alone 127 v
  extensions : ∀ v, l.extensions = some v → Sound .alone 127 v

theorem Listing.entries_of_read {α : Type} {name key : String} {s : Schema α} {x : Extra α}
    {around : Path} {here : Path} {t : Tree} {r : Option (List (Named α))}
    (h : readOptional around t (readList here (Named.read (Named.schema name key s))) = .ok r)
    (ht : t.depth ≤ 127) (hx : s.extra = some x) (hget : ∀ b m, x.get (x.set b m) = m) :
    ∀ e ∈ r.getD [], ∀ a, e.body = some a → s.KeepsWithin 124 (x.get a) := by
  cases r with
  | none => exact fun _ h => absurd h List.not_mem_nil
  | some l =>
    refine forall_of_readList (d := 126) (eq_some_of_readOptional h rfl) ht fun path u e hu he => ?_
    refine Named.body_of_read (d := 125) he hu fun path w a hw ha => ?_
    exact Schema.keepsWithin_of_read (d := 124) ha hw hx hget

theorem Listing.Decoded.empty : (empty : Listing).Decoded where
  clusters _ h := absurd h List.not_mem_nil
  users _ h := absurd h List.not_mem_nil
  contexts _ h := absurd h List.not_mem_nil
  preferences _ h := by cases h
  extensions _ h := by cases h

theorem Listing.decoded_of_read {path : Path} {t : Tree} {l : Listing}
    (h : Listing.schema.read path t = .ok l) (ht : t.depth ≤ Tree.depthLimit) : l.Decoded := by
  refine Schema.holds_of_read (d := 127) h ht rfl .empty fun f hf => ?_
  intro around here t a b ht hb ha
  simp only [Listing.schema, List.mem_cons, List.not_mem_nil, or_false] at hf
  rcases hf with rfl | rfl | rfl | rfl | rfl | rfl | rfl | rfl
  · obtain ⟨text, -, rfl⟩ := map_eq_ok.mp hb
    exact ha
  · obtain ⟨text, -, rfl⟩ := map_eq_ok.mp hb
    exact ha
  · obtain ⟨r, hr, rfl⟩ := map_eq_ok.mp hb
    refine { ha with preferences := fun v hv => ?_ }
    exact (sound_readValue .alone t here v (eq_some_of_readOptional hr hv)).mono ht
  · obtain ⟨r, hr, rfl⟩ := map_eq_ok.mp hb
    exact { ha with clusters := entries_of_read hr ht rfl (fun _ _ => rfl) }
  · obtain ⟨r, hr, rfl⟩ := map_eq_ok.mp hb
    exact { ha with users := entries_of_read hr ht rfl (fun _ _ => rfl) }
  · obtain ⟨r, hr, rfl⟩ := map_eq_ok.mp hb
    exact { ha with contexts := entries_of_read hr ht rfl (fun _ _ => rfl) }
  · obtain ⟨r, -, rfl⟩ := map_eq_ok.mp hb
    exact ⟨ha.clusters, ha.users, ha.contexts, ha.preferences, ha.extensions⟩
  · obtain ⟨r, hr, rfl⟩ := map_eq_ok.mp hb
    refine { ha with extensions := fun v hv => ?_ }
    exact (sound_readValue .alone t here v (eq_some_of_readOptional hr hv)).mono ht

namespace Kubeconfig

theorem keepsWithin_empty {α : Type} (s : Schema α) (d : Nat) : s.KeepsWithin d .empty :=
  fun _ _ h => by cases h

theorem Decoded.empty : (empty : Kubeconfig).Decoded where
  clusters _ _ h := by cases h
  users _ _ h := by cases h
  contexts _ _ h := by cases h
  preferences _ h := by cases h
  extensions _ h := by cases h

theorem of_ofTree {t : Tree} {k : Kubeconfig} (h : ofTree t = .ok k) :
    ∃ l, Listing.schema.read [] t = .ok l ∧
      Listing.collect .cluster .empty l.clusters = .ok k.clusters ∧
      Listing.collect .user .empty l.users = .ok k.users ∧
      Listing.collect .context .empty l.contexts = .ok k.contexts ∧
      k.preferences = l.preferences ∧ k.extensions = l.extensions := by
  unfold ofTree at h
  split at h
  · cases h
  · rename_i l hl
    split at h
    · cases h
    · rename_i k' hk
      obtain rfl := Except.ok.inj h
      obtain ⟨clusters, hclusters, hk⟩ := bind_eq_ok.mp hk
      obtain ⟨users, husers, hk⟩ := bind_eq_ok.mp hk
      obtain ⟨contexts, hcontexts, hk⟩ := bind_eq_ok.mp hk
      obtain rfl := Except.ok.inj hk
      exact ⟨l, hl, hclusters, husers, hcontexts, rfl, rfl⟩

theorem decoded_of_ofTree {t : Tree} {k : Kubeconfig} (h : ofTree t = .ok k)
    (ht : t.depth ≤ Tree.depthLimit) : k.Decoded := by
  obtain ⟨l, hl, hclusters, husers, hcontexts, hpreferences, hextensions⟩ := of_ofTree h
  have hdecoded := Listing.decoded_of_read hl ht
  exact {
    clusters := Listing.forall_of_collect hclusters (keepsWithin_empty _ _) hdecoded.clusters
    users := Listing.forall_of_collect husers (keepsWithin_empty _ _) hdecoded.users
    contexts := Listing.forall_of_collect hcontexts (keepsWithin_empty _ _) hdecoded.contexts
    preferences := fun v hv => hdecoded.preferences v (hpreferences ▸ hv)
    extensions := fun v hv => hdecoded.extensions v (hextensions ▸ hv) }

/-- The tree of a stream, as far as a reader of kubeconfigs looks at it. Where
there is no document there are no entries. -/
def treeOf (s : Stream) : Tree :=
  (s.content.map (fun c => Tree.ofContentOf c Listing.schema.interest)).getD (.mapping none [])

def documentOf (bytes : ByteArray) : Tree :=
  if bytes.toList.all isBlankOctet then .mapping none [] else treeOf (Stream.ofBytes bytes)

theorem ofTree_treeOf {s : Stream} {k : Kubeconfig} (h : ofStream s = .ok k) :
    ofTree (treeOf s) = .ok k := by
  unfold ofStream at h
  extract_lets finish at h
  -- the end of a stream decides only whether its content counts
  have hfinish : ∀ {k' : Kubeconfig}, finish k' = .ok k → k' = k := by
    intro k' h
    unfold finish at h
    split at h
    · exact Except.ok.inj h
    · cases h
    · cases h
  split at h
  · rename_i hcontent
    obtain ⟨k', hk', h⟩ := bind_eq_ok.mp h
    obtain rfl := hfinish h
    obtain rfl := Except.ok.inj hk'
    rw [treeOf, hcontent]
    rfl
  · rename_i c hcontent
    obtain ⟨k', hk', h⟩ := bind_eq_ok.mp h
    obtain rfl := hfinish h
    rw [treeOf, hcontent]
    exact hk'

theorem ofTree_documentOf {bytes : ByteArray} {k : Kubeconfig} (h : decode bytes = .ok k) :
    ofTree (documentOf bytes) = .ok k := by
  unfold decode at h
  unfold documentOf
  split at h
  · rename_i hblank
    obtain rfl := Except.ok.inj h
    rw [if_pos hblank]
    rfl
  · rename_i hblank
    rw [if_neg hblank]
    exact ofTree_treeOf h

theorem depth_documentOf (bytes : ByteArray) : (documentOf bytes).depth ≤ Tree.depthLimit := by
  have hnothing : (Tree.mapping none []).depth ≤ Tree.depthLimit := by decide
  unfold documentOf
  split
  · exact hnothing
  · unfold treeOf
    cases (Stream.ofBytes bytes).content with
    | none => exact hnothing
    | some c => exact Tree.depth_ofContentOf c _

/-- What holds of every kubeconfig that has been read from a file. -/
theorem decoded_of_decode {bytes : ByteArray} {k : Kubeconfig} (h : decode bytes = .ok k) :
    k.Decoded :=
  decoded_of_ofTree (ofTree_documentOf h) (depth_documentOf bytes)

end Kubeconfig

/-! ## Renaming and merging -/

namespace NameMap

variable {α : Type} {P : α → Prop}

theorem forall_insert {m : NameMap α} {key : String} {a : α}
    (hm : ∀ n x, m.get? n = some x → P x) (ha : P a) :
    ∀ n x, (m.insert key a).get? n = some x → P x := by
  intro n x hx
  rw [get?_insert] at hx
  split at hx
  · obtain rfl := Option.some.inj hx
    exact ha
  · exact hm n x hx

theorem forall_rename {m : NameMap α} {old new : String}
    (hm : ∀ n x, m.get? n = some x → P x) :
    ∀ n x, (m.rename old new).get? n = some x → P x := by
  intro n x hx
  rw [get?_rename] at hx
  split at hx
  · split at hx
    · exact hm old x hx
    · split at hx
      · cases hx
      · exact hm n x hx
  · exact hm n x hx

theorem forall_union {m m' : NameMap α} (hm : ∀ n x, m.get? n = some x → P x)
    (hm' : ∀ n x, m'.get? n = some x → P x) :
    ∀ n x, (m.union m').get? n = some x → P x := by
  intro n x hx
  rw [get?_union] at hx
  rcases Option.or_eq_some_iff.mp hx with h | ⟨-, h⟩
  · exact hm' n x h
  · exact hm n x h

end NameMap

namespace Kubeconfig

open PlaneAccess.ControlPlane

theorem Decoded.renameEntries {k : Kubeconfig} (h : k.Decoded) (old new : EntryNames) :
    (k.renameEntries old new).Decoded where
  clusters := NameMap.forall_rename h.clusters
  users := NameMap.forall_rename h.users
  contexts := NameMap.forall_insert (NameMap.forall_rename h.contexts) (keepsWithin_empty _ _)
  preferences := h.preferences
  extensions := h.extensions

theorem Decoded.remap {k : Kubeconfig} (h : k.Decoded) (i : Identity) (n : Naming) :
    (k.remap i n).Decoded := by
  unfold Kubeconfig.remap
  split
  · exact h
  · exact h.renameEntries _ _

theorem Decoded.merge {k source : Kubeconfig} (h : k.Decoded) (hs : source.Decoded) :
    (k.merge source).Decoded where
  clusters := NameMap.forall_union h.clusters hs.clusters
  users := NameMap.forall_union h.users hs.users
  contexts := NameMap.forall_union h.contexts hs.contexts
  preferences := h.preferences
  extensions := h.extensions

/-! ## Reading again -/

theorem keeps_of_keepsWithin {α : Type} {s : Schema α} {d : Nat} {m : NameMap Value}
    (h : s.KeepsWithin d m) : s.Keeps m := by
  intro key v hv
  obtain ⟨hfield, hsound, hkeys⟩ := h key v hv
  exact ⟨hfield, hsound.untagged rfl, hkeys⟩

/-- What has been read comes back but for nulls, if the tags in its preferences
and extensions come back. -/
theorem Decoded.carried {k : Kubeconfig} (h : k.Decoded)
    (hpreferences : ∀ v, k.preferences = some v → v.keepsTags false = true)
    (hextensions : ∀ v, k.extensions = some v → v.keepsTags false = true) : k.Carried where
  clusters n c hc := keeps_of_keepsWithin (h.clusters n c hc)
  users n u hu := keeps_of_keepsWithin (h.users n u hu)
  contexts n c hc := keeps_of_keepsWithin (h.contexts n c hc)
  preferences v hv :=
    ⟨hpreferences v hv, (fun hp => by cases hp), fun hp => (h.preferences v hv).keys hp⟩
  extensions v hv :=
    ⟨hextensions v hv, (fun hp => by cases hp), fun hp => (h.extensions v hv).keys hp⟩

theorem Decoded.faithful {k : Kubeconfig} (h : k.Decoded)
    (hpreferences : ∀ v, k.preferences = some v → v ≠ .null ∧ v.keepsTags false = true)
    (hextensions : ∀ v, k.extensions = some v → v ≠ .null ∧ v.keepsTags false = true) :
    k.Faithful where
  toCarried := h.carried (fun v hv => (hpreferences v hv).2) (fun v hv => (hextensions v hv).2)
  nulls := ⟨fun hv => (hpreferences .null hv).1 rfl, fun hv => (hextensions .null hv).1 rfl⟩

theorem depth_write_record {α : Type} {s : Schema α} {x : Extra α} {a : α} {d : Nat}
    (hx : s.extra = some x) (hfields : ∀ f ∈ s.fields, ∀ t, f.write a = some t → t.depth = 0)
    (h : s.KeepsWithin d (x.get a)) : (s.write a).depth ≤ d + 1 := by
  refine Schema.depth_write (fun f hf t ht => ?_) (fun y hy key v hv => ?_)
  · rw [hfields f hf t ht]
    exact Nat.zero_le d
  · rw [hx] at hy
    obtain rfl := Option.some.inj hy
    exact (h key v hv).2.1.depth

theorem depth_write_cluster {c : Cluster} (h : Cluster.schema.KeepsWithin 124 c.extra) :
    (Cluster.schema.write c).depth ≤ 125 := by
  refine depth_write_record rfl (fun f hf t ht => ?_) h
  simp only [Cluster.schema, List.mem_cons, List.not_mem_nil, or_false] at hf
  rcases hf with rfl | rfl | rfl | rfl | rfl <;>
    obtain ⟨v, -, rfl⟩ := Option.map_eq_some_iff.mp ht <;> rfl

theorem depth_write_user {u : User} (h : User.schema.KeepsWithin 124 u.extra) :
    (User.schema.write u).depth ≤ 125 := by
  refine depth_write_record rfl (fun f hf t ht => ?_) h
  simp only [User.schema, List.mem_cons, List.not_mem_nil, or_false] at hf
  rcases hf with rfl | rfl | rfl | rfl | rfl | rfl | rfl <;>
    obtain ⟨v, -, rfl⟩ := Option.map_eq_some_iff.mp ht <;> rfl

theorem depth_write_context {c : Context} (h : Context.schema.KeepsWithin 124 c.extra) :
    (Context.schema.write c).depth ≤ 125 := by
  refine depth_write_record rfl (fun f hf t ht => ?_) h
  simp only [Context.schema, List.mem_cons, List.not_mem_nil, or_false] at hf
  rcases hf with rfl | rfl | rfl
  · obtain rfl := Option.some.inj ht
    rfl
  · obtain rfl := Option.some.inj ht
    rfl
  · obtain ⟨v, -, rfl⟩ := Option.map_eq_some_iff.mp ht
    rfl

theorem depth_write_entries {α : Type} {name key : String} {s : Schema α} {m : NameMap α} {d : Nat}
    (h : ∀ n x, m.get? n = some x → (s.write x).depth ≤ d) :
    (Tree.sequence none ((Listing.entriesOf m).map
      (Named.write (Named.schema name key s)))).depth ≤ d + 2 := by
  rw [Tree.depth, Nat.add_le_add_iff_right, Tree.depthOfItems_le]
  intro t ht
  obtain ⟨e, he, rfl⟩ := List.mem_map.mp ht
  obtain ⟨⟨n, x⟩, hx, rfl⟩ := List.mem_map.mp he
  refine Schema.depth_write (fun f hf t ht => ?_) (fun _ h => by cases h)
  simp only [Named.schema, List.mem_cons, List.not_mem_nil, or_false] at hf
  rcases hf with rfl | rfl
  · obtain rfl := Option.some.inj ht
    exact Nat.zero_le d
  · obtain rfl : s.write x = t := Option.some.inj ht
    exact h n x (NameMap.mem_toList.mp hx)

/-- A kubeconfig that has been read is not nested too deep to be read again. -/
theorem Decoded.depth_toTree {k : Kubeconfig} (h : k.Decoded) :
    k.toTree.depth ≤ Tree.depthLimit := by
  refine Schema.depth_write (d := 127) (fun f hf t ht => ?_) (fun _ h => by cases h)
  simp only [Listing.schema, List.mem_cons, List.not_mem_nil, or_false] at hf
  rcases hf with rfl | rfl | rfl | rfl | rfl | rfl | rfl | rfl
  · obtain rfl := Option.some.inj ht
    exact Nat.zero_le 127
  · obtain rfl := Option.some.inj ht
    exact Nat.zero_le 127
  · obtain ⟨v, hv, rfl⟩ := Option.map_eq_some_iff.mp ht
    exact (h.preferences v hv).depth
  · obtain rfl := Option.some.inj ht
    exact depth_write_entries (fun n c hc => depth_write_cluster (h.clusters n c hc))
  · obtain rfl := Option.some.inj ht
    exact depth_write_entries (fun n u hu => depth_write_user (h.users n u hu))
  · obtain rfl := Option.some.inj ht
    exact depth_write_entries (fun n c hc => depth_write_context (h.contexts n c hc))
  · obtain rfl := Option.some.inj ht
    exact Nat.zero_le 127
  · obtain ⟨v, hv, rfl⟩ := Option.map_eq_some_iff.mp ht
    exact (h.extensions v hv).depth

end Kubeconfig

end PlaneAccess
