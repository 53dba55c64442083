import PlaneAccess.Proofs.Kubeconfig.Listing
import PlaneAccess.Proofs.Kubeconfig.Rewrite
import PlaneAccess.Proofs.Yaml.Omitted

/-!
# Nulls in a kubeconfig

A file says the same without the fields that are null, in the kubeconfig itself,
in its entries and in their bodies (`Kubeconfig.decode_of_omits`). This does not
hold of the cluster and the user of a context, which are read as the text of the
null, and so name an entry (`Kubeconfig.names_null`).
-/

namespace PlaneAccess

open PlaneAccess.Yaml

/-! ## Bodies -/

namespace Yaml.Schema

variable {α : Type} {s : Schema α} {x : Extra α} {flags always : List String}

/-- A field that is null. Where a text is always written, a null is read as the
text it has, so there must be none. -/
def IsNullField (s : Schema α) (always : List String) (key : String) (u : Tree) : Prop :=
  (s.field? key).isSome = true ∧ u.isNull = true ∧ (key ∈ always → u.text? = some "")

def OmitsNulls (s : Schema α) (always : List String) (t u : Tree) : Prop :=
  t.ThinnedTo (s.IsNullField always) Tree.noChange u

def SkipsNulls (s : Schema α) (always : List String) : Prop :=
  s.Skips (fun a a' => a = a') (s.IsNullField always) Tree.noChange

theorem Lawful.skipsNulls (hs : s.Lawful x flags always)
    (hnull : ∀ f ∈ s.fields, f.SkipsNull s.empty always) : s.SkipsNulls always where
  keys := hs.keys
  leaves := hs.leaves
  empty := rfl
  same f _ u := f.agrees_self u
  changed _ _ _ h := h.elim
  dropped key u h := by
    obtain ⟨hfield, hu, htext⟩ := h
    obtain ⟨f, hfield⟩ := Option.isSome_iff_exists.mp hfield
    obtain rfl := key_of_field? hfield
    have hf := mem_of_field? hfield
    refine ⟨f, hf, rfl, ?_⟩
    rintro around here a _ b ha hb rfl
    exact hnull f hf around here u a b ha hu htext hb
  extra _ _ _ _ _ h := by rw [h]

end Yaml.Schema

theorem Cluster.skipsNull : ∀ f ∈ Cluster.schema.fields, f.SkipsNull .empty [] := by
  intro f hf
  simp only [Cluster.schema, List.mem_cons, List.not_mem_nil, or_false] at hf
  rcases hf with rfl | rfl | rfl | rfl | rfl <;>
    exact RecordField.skipsNull_optional (fun _ => rfl) (fun _ _ _ _ => rfl) rfl
      fun a h => by rw [← h]

theorem User.skipsNull : ∀ f ∈ User.schema.fields, f.SkipsNull .empty [] := by
  intro f hf
  simp only [User.schema, List.mem_cons, List.not_mem_nil, or_false] at hf
  rcases hf with rfl | rfl | rfl | rfl | rfl | rfl | rfl <;>
    exact RecordField.skipsNull_optional (fun _ => rfl) (fun _ _ _ _ => rfl) rfl
      fun a h => by rw [← h]

theorem Context.skipsNull :
    ∀ f ∈ Context.schema.fields, f.SkipsNull .empty ["cluster", "user"] := by
  intro f hf
  simp only [Context.schema, List.mem_cons, List.not_mem_nil, or_false] at hf
  rcases hf with rfl | rfl | rfl
  · exact RecordField.skipsNull_text (by decide) rfl fun a h => by rw [← h]
  · exact RecordField.skipsNull_text (by decide) rfl fun a h => by rw [← h]
  · exact RecordField.skipsNull_optional (fun _ => rfl) (fun _ _ _ _ => rfl) rfl
      fun a h => by rw [← h]

/-! ## Entries -/

namespace Named

variable {α : Type} {name key : String} {s : Schema α} {always : List String} {path : Path}
  {t u : Tree}

/-- An entry of which the body is left out if it is null, and otherwise fields of
the body that are null. -/
def Omits (key : String) (s : Schema α) (always : List String) (t u : Tree) : Prop :=
  t.ThinnedTo (fun k v => k = key ∧ v.isNull = true)
    (fun k v w => k = key ∧ s.OmitsNulls always v w) u

def Agree (default : α) (e e' : Unnamed α) : Prop :=
  e.name = e'.name ∧ e.body.getD default = e'.body.getD default

/-- A body that is left empty may also be nothing, which is an empty record. -/
theorem agrees_body (hs : s.SkipsNulls always)
    (hempty : ∀ path, s.readEntries path [] = .ok s.empty) (h : s.OmitsNulls always t u) :
    (bodyField key s).Agrees (Agree s.empty) t u := by
  rintro around here a a' b hb ⟨hname, -⟩
  obtain ⟨r, hr, rfl⟩ := map_eq_ok.mp hb
  obtain ⟨es, fs, hes, hfs, -⟩ := id h
  obtain ⟨_, hu, rfl⟩ := Schema.Skips.read hs (Schema.read_of_readOptional hempty hes hr) h
  obtain ⟨r', hr', hbody⟩ := Schema.readOptional_of_read hempty hfs around hu
  exact ⟨_, map_eq_ok.mpr ⟨r', hr', rfl⟩, hname, hbody.symm⟩

theorem skips (hs : s.SkipsNulls always)
    (hempty : ∀ path, s.readEntries path [] = .ok s.empty) (hne : "name" ≠ key) :
    (Named.schema name key s).Skips (Agree s.empty) (fun k v => k = key ∧ v.isNull = true)
      (fun k v w => k = key ∧ s.OmitsNulls always v w) where
  keys := keys_schema hne
  leaves := Schema.leaves_of_pairwise (by simp [Named.schema, RecordField.Apart])
  empty := ⟨rfl, rfl⟩
  same f hf u := by
    rintro around here a a' b h ⟨hname, hbody⟩
    rw [fields_schema, List.mem_cons, List.mem_singleton] at hf
    rcases hf with rfl | rfl
    · obtain ⟨v, hv, rfl⟩ := map_eq_ok.mp h
      exact ⟨_, map_eq_ok.mpr ⟨v, hv, rfl⟩, rfl, hbody⟩
    · obtain ⟨v, hv, rfl⟩ := map_eq_ok.mp h
      exact ⟨_, map_eq_ok.mpr ⟨v, hv, rfl⟩, hname, rfl⟩
  changed := by
    rintro _ u v ⟨rfl, h⟩
    exact ⟨bodyField _ s, bodyField_mem, rfl, agrees_body hs hempty h⟩
  dropped := by
    rintro _ u ⟨rfl, hu⟩
    refine ⟨bodyField _ s, bodyField_mem, rfl, ?_⟩
    rintro around here a a' b ha hb ⟨hname, hbody⟩
    obtain ⟨r, hr, rfl⟩ := map_eq_ok.mp hb
    obtain rfl := Except.ok.inj ((readOptional_of_isNull hu).symm.trans hr)
    obtain hnone : a.body = none := Option.map_eq_none_iff.mp ha
    rw [hnone] at hbody
    exact ⟨hname, hbody⟩
  extra _ h := by cases h

theorem read_of_omits (hs : s.SkipsNulls always)
    (hempty : ∀ path, s.readEntries path [] = .ok s.empty) (hne : "name" ≠ key) {e : Named α}
    (h : Named.read (Named.schema name key s) path t = .ok e) (hu : Omits key s always t u) :
    ∃ e', Named.read (Named.schema name key s) path u = .ok e' ∧
      (e.name, e.body.getD s.empty) = (e'.name, e'.body.getD s.empty) := by
  obtain ⟨r, hr, h⟩ := bind_eq_ok.mp h
  obtain ⟨r', hr', hname, hbody⟩ := (skips hs hempty hne).read hr hu
  rw [Named.read, hr', ok_bind, ← hname]
  split at h
  · obtain rfl := Except.ok.inj h
    exact ⟨_, rfl, Prod.ext rfl hbody⟩
  · cases h

end Named

/-! ## Lists -/

namespace Kubeconfig

def OmitsItems {α : Type} (key : String) (s : Schema α) (always : List String)
    (t u : Tree) : Prop :=
  ∃ tag tag' ts us, t.target = .sequence tag ts ∧ u.target = .sequence tag' us ∧
    List.Forall₂ (Named.Omits key s always) ts us

/-- What changes in a kubeconfig where nulls are left out in the entries of a list.
The fields `texts` of a context are left out only where the null has no text. -/
inductive OmitsIn (texts : List String) : String → Tree → Tree → Prop
  | clusters {t u : Tree} (h : OmitsItems "cluster" Cluster.schema [] t u) :
    OmitsIn texts "clusters" t u
  | users {t u : Tree} (h : OmitsItems "user" User.schema [] t u) : OmitsIn texts "users" t u
  | contexts {t u : Tree} (h : OmitsItems "context" Context.schema texts t u) :
    OmitsIn texts "contexts" t u

def Omits (texts : List String) (t u : Tree) : Prop :=
  t.ThinnedTo (Listing.schema.IsNullField []) (OmitsIn texts) u

/-- Two listings say the same, an entry without a body being an empty record. -/
structure Agree (l l' : Listing) : Prop where
  clusters : Listing.bodies .empty l.clusters = Listing.bodies .empty l'.clusters
  users : Listing.bodies .empty l.users = Listing.bodies .empty l'.users
  contexts : Listing.bodies .empty l.contexts = Listing.bodies .empty l'.contexts
  currentContext : l.currentContext.getD "" = l'.currentContext.getD ""
  preferences : l.preferences = l'.preferences
  extensions : l.extensions = l'.extensions

theorem Agree.isHeldBy {l l' : Listing} {k : Kubeconfig} (h : Agree l l') (hk : l.IsHeldBy k) :
    l'.IsHeldBy k where
  clusters := h.clusters ▸ hk.clusters
  users := h.users ▸ hk.users
  contexts := h.contexts ▸ hk.contexts
  currentContext := h.currentContext ▸ hk.currentContext
  preferences := h.preferences ▸ hk.preferences
  extensions := h.extensions ▸ hk.extensions

section

variable {α : Type} {list name key : String} {s : Schema α} {always : List String}
  {get : Listing → List (Named α)} {set : Listing → List (Named α) → Listing} {t u : Tree}

theorem IsList.agrees (hf : IsList list name key s get set)
    (hs : s.SkipsNulls always)
    (hempty : ∀ path, s.readEntries path [] = .ok s.empty)
    (hset : ∀ l l' es es', Agree l l' → Listing.bodies s.empty es = Listing.bodies s.empty es' →
      Agree (set l es) (set l' es')) (h : OmitsItems key s always t u) :
    (RecordField.entries list (Named.schema name key s) get set).Agrees Agree t u := by
  obtain ⟨tag, tag', ts, us, ht, hu, hitems⟩ := h
  intro around here l l' b hb hl
  obtain ⟨r, hr, rfl⟩ := map_eq_ok.mp hb
  rw [readOptional, ht] at hr
  obtain ⟨es, hes, rfl⟩ := map_eq_ok.mp hr
  rw [readList, readSequence, ht, ok_bind] at hes
  have hread : ∀ path v w e, Named.read (Named.schema name key s) path v = .ok e →
      Named.Omits key s always v w → ∃ e', Named.read (Named.schema name key s) path w = .ok e' ∧
        (e.name, e.body.getD s.empty) = (e'.name, e'.body.getD s.empty) :=
    fun _ _ _ _ he hw => Named.read_of_omits hs hempty hf.apart he hw
  obtain ⟨es', hes', hall⟩ := readListFrom_of_forall₂ hread hitems 0 es hes
  have hbodies : Listing.bodies s.empty es = Listing.bodies s.empty es' := by
    rw [Listing.bodies, Listing.bodies, ← List.forall₂_eq_eq_eq, List.forall₂_map_left_iff,
      List.forall₂_map_right_iff]
    exact hall
  refine ⟨set l' es', map_eq_ok.mpr ⟨some es', ?_, rfl⟩, hset l l' es es' hl hbodies⟩
  rw [readOptional, hu]
  refine map_eq_ok.mpr ⟨es', ?_, rfl⟩
  rw [readList, readSequence, hu, ok_bind]
  exact hes'

end

/-! ## Kubeconfigs -/

theorem agrees_self (f : RecordField Listing) (hf : f ∈ Listing.schema.fields) (u : Tree) :
    f.Agrees Agree u u := by
  intro around here l l' b h hl
  simp only [Listing.schema, List.mem_cons, List.not_mem_nil, or_false] at hf
  rcases hf with rfl | rfl | rfl | rfl | rfl | rfl | rfl | rfl <;>
    obtain ⟨r, hr, rfl⟩ := map_eq_ok.mp h <;>
    refine ⟨_, map_eq_ok.mpr ⟨r, hr, rfl⟩, ?_⟩
  · exact hl
  · exact hl
  · exact { hl with preferences := rfl }
  · exact { hl with clusters := rfl }
  · exact { hl with users := rfl }
  · exact { hl with contexts := rfl }
  · exact { hl with currentContext := rfl }
  · exact { hl with extensions := rfl }

theorem skipsNull (f : RecordField Listing) (hf : f ∈ Listing.schema.fields) :
    f = RecordField.currentContext ∨ f.SkipsNull .empty [] := by
  simp only [Listing.schema, List.mem_cons, List.not_mem_nil, or_false] at hf
  rcases hf with rfl | rfl | rfl | rfl | rfl | rfl | rfl | rfl
  · refine Or.inr fun around here u l b _ _ _ h => ?_
    obtain ⟨_, -, rfl⟩ := map_eq_ok.mp h
    rfl
  · refine Or.inr fun around here u l b _ _ _ h => ?_
    obtain ⟨_, -, rfl⟩ := map_eq_ok.mp h
    rfl
  · exact Or.inr (RecordField.skipsNull_optional (fun _ => rfl) (fun _ _ _ _ => rfl) rfl
      fun l h => by rw [← h])
  · exact Or.inr (RecordField.skipsNull_list rfl fun l h => by rw [← h])
  · exact Or.inr (RecordField.skipsNull_list rfl fun l h => by rw [← h])
  · exact Or.inr (RecordField.skipsNull_list rfl fun l h => by rw [← h])
  · exact Or.inl rfl
  · exact Or.inr (RecordField.skipsNull_optional (fun _ => rfl) (fun _ _ _ _ => rfl) rfl
      fun l h => by rw [← h])

/-- A field that is null says nothing. For the current context this is the same as
no text. -/
theorem agree_of_null {f : RecordField Listing} (hf : f ∈ Listing.schema.fields)
    {around here : Path} {u : Tree} {l l' b : Listing} (hl : f.write l = f.write .empty)
    (hu : u.isNull = true) (hb : f.read around here u l = .ok b) (h : Agree l l') :
    Agree b l' := by
  rcases skipsNull f hf with rfl | hskips
  · obtain ⟨r, hr, rfl⟩ := map_eq_ok.mp hb
    obtain rfl := Except.ok.inj ((readOptional_of_isNull hu).symm.trans hr)
    exact { h with currentContext := (Tree.ofString_inj hl).symm.trans h.currentContext }
  · rw [hskips _ _ _ _ _ hl hu (fun hmem => absurd hmem List.not_mem_nil) hb]
    exact h

theorem skips_listing :
    Listing.schema.Skips Agree (Listing.schema.IsNullField [])
      (OmitsIn ["cluster", "user"]) where
  keys := keys_listing
  leaves := Schema.leaves_of_pairwise
    (by simp [Listing.schema, RecordField.entries, RecordField.Apart])
  empty := ⟨rfl, rfl, rfl, rfl, rfl, rfl⟩
  same := agrees_self
  changed := by
    rintro _ t u (h | h | h)
    · exact ⟨_, isList_clusters.mem, rfl, isList_clusters.agrees
        (Cluster.lawful.skipsNulls Cluster.skipsNull) (fun _ => rfl)
        (fun _ _ _ _ hl hes => { hl with clusters := hes }) h⟩
    · exact ⟨_, isList_users.mem, rfl, isList_users.agrees
        (User.lawful.skipsNulls User.skipsNull) (fun _ => rfl)
        (fun _ _ _ _ hl hes => { hl with users := hes }) h⟩
    · exact ⟨_, isList_contexts.mem, rfl, isList_contexts.agrees
        (Context.lawful.skipsNulls Context.skipsNull) (fun _ => rfl)
        (fun _ _ _ _ hl hes => { hl with contexts := hes }) h⟩
  dropped := by
    rintro key u ⟨hfield, hu, hkey⟩
    obtain ⟨f, hfield⟩ := Option.isSome_iff_exists.mp hfield
    obtain rfl := Schema.key_of_field? hfield
    refine ⟨f, Schema.mem_of_field? hfield, rfl, ?_⟩
    exact fun around here l l' b ha hb hl => agree_of_null (Schema.mem_of_field? hfield) ha hu hb hl
  extra _ h := by cases h

theorem ofTree_of_omits {t u : Tree} {k : Kubeconfig} (h : ofTree t = .ok k)
    (hu : Omits ["cluster", "user"] t u) : ofTree u = .ok k := by
  unfold ofTree at h
  split at h
  · cases h
  rename_i l hl
  split at h
  · cases h
  rename_i hk
  obtain rfl := Except.ok.inj h
  obtain ⟨l', hl', hagree⟩ := skips_listing.read hl hu
  have hk' := Listing.toKubeconfig_eq_ok_iff.mpr
    (hagree.isHeldBy (Listing.toKubeconfig_eq_ok_iff.mp hk))
  simp only [ofTree, hl', hk']

/-- Nothing is wrong with a file behind its first document. -/
def EndsProperly (bytes : ByteArray) : Prop :=
  bytes.toList.all isBlankOctet = true ∨ (Stream.ofBytes bytes).ending = .proper

instance (bytes : ByteArray) : Decidable (EndsProperly bytes) :=
  inferInstanceAs (Decidable (_ ∨ _))

/-- A file is read as what its tree holds, unless something is wrong behind it. -/
theorem decode_of_ofTree {bytes : ByteArray} {k : Kubeconfig} (hend : EndsProperly bytes)
    (h : ofTree (documentOf bytes) = .ok k) : decode bytes = .ok k := by
  unfold documentOf at h
  unfold decode
  split
  · rename_i hblank
    rw [if_pos hblank] at h
    exact h
  · rename_i hblank
    rw [if_neg hblank, treeOf] at h
    have hproper := hend.resolve_left hblank
    unfold ofStream
    extract_lets finish
    have hfinish : finish k = .ok k := by
      unfold finish
      rw [hproper]
      rfl
    split
    · rename_i hcontent
      rw [hcontent] at h
      obtain rfl : empty = k := Except.ok.inj h
      exact hfinish
    · rename_i c hcontent
      rw [hcontent] at h
      rw [show ofTree (Tree.ofContentOf c Listing.schema.interest) = .ok k from h]
      exact hfinish

/-- The contexts of a kubeconfig have the clusters and users that are written, a
null being a text there. -/
def NamesAsWritten (k : Kubeconfig) (t : Tree) : Prop :=
  ∀ e ∈ t.named "contexts" "context", ∃ c, k.contexts.get? e.1 = some c ∧
    c.cluster = e.2.textOf "cluster" ∧ c.user = e.2.textOf "user"

theorem namesAsWritten_of_ofTree {t : Tree} {k : Kubeconfig} (h : ofTree t = .ok k) :
    k.NamesAsWritten t := by
  obtain ⟨l, hl, -, -, hcontexts, -⟩ := of_ofTree h
  refine isList_contexts.forall_named rfl hl hcontexts
    (fun u c => c.cluster = u.textOf "cluster" ∧ c.user = u.textOf "user")
    fun u body path c hfields hbody => ?_
  have htext : ∀ key, u.textOf key = body.textOf key := by
    intro key
    rw [Tree.textOf, Tree.textOf, Tree.field?, Tree.field?, hfields]
  rw [htext, htext]
  exact ⟨Context.lawful.text_of_read hbody List.mem_cons_self (fun _ _ => rfl) rfl,
    Context.lawful.text_of_read hbody (List.mem_cons_of_mem _ List.mem_cons_self)
      (fun _ _ => rfl) rfl⟩

/-- A file with fields left out that were null is read as the same kubeconfig.
What is written as the cluster or the user of a context is the text that it is
read as, so only a null without a text may be left out there. -/
theorem decode_of_omits {bytes : ByteArray} {k : Kubeconfig} (h : decode bytes = .ok k) :
    (∀ bytes', EndsProperly bytes' →
      Omits ["cluster", "user"] (documentOf bytes) (documentOf bytes') → decode bytes' = .ok k) ∧
      k.NamesAsWritten (documentOf bytes) :=
  ⟨fun _ hend homits => decode_of_ofTree hend (ofTree_of_omits (ofTree_documentOf h) homits),
    namesAsWritten_of_ofTree (ofTree_documentOf h)⟩

/-- A null in a record that is used again through a reference, and in the stead of
a list. -/
theorem decode_of_omits_alias :
    let bytes := ("clusters:\n- name: c\n  cluster: &a\n    server: ~\n" ++
      "- name: d\n  cluster: *a\nusers: null\n").toUTF8
    let bytes' := "clusters:\n- name: c\n  cluster: &a {}\n- name: d\n  cluster: *a\n".toUTF8
    ∃ k, decode bytes = .ok k ∧ EndsProperly bytes' ∧
      Omits ["cluster", "user"] (documentOf bytes) (documentOf bytes') ∧ decode bytes' = .ok k := by
  intro bytes bytes'
  obtain ⟨k, hk, -⟩ := exists_of_toOption_any (r := decode bytes) (fun _ => true)
    (by decide +kernel)
  have hbytes : documentOf bytes = .mapping none
      [(.plain "clusters", .sequence none
        [.mapping none [(.plain "name", .plain "c"),
          (.plain "cluster", .mapping none [(.plain "server", .plain "~")])],
        .mapping none [(.plain "name", .plain "d"),
          (.plain "cluster", .reference (.mapping none [(.plain "server", .plain "~")]))]]),
      (.plain "users", .plain "null")] :=
    Tree.eq_of_same _ _ (by decide +kernel)
  have hbytes' : documentOf bytes' = .mapping none
      [(.plain "clusters", .sequence none
        [.mapping none [(.plain "name", .plain "c"), (.plain "cluster", .mapping none [])],
        .mapping none [(.plain "name", .plain "d"),
          (.plain "cluster", .reference (.mapping none []))]])] :=
    Tree.eq_of_same _ _ (by decide +kernel)
  have hserver : Cluster.schema.IsNullField [] "server" (.plain "~") :=
    ⟨rfl, rfl, fun h => absurd h List.not_mem_nil⟩
  have hbody : Tree.Thinned (Cluster.schema.IsNullField []) Tree.noChange
      [(.plain "server", .plain "~")] [] := .drop rfl hserver .nil
  have homits : Omits ["cluster", "user"] (documentOf bytes) (documentOf bytes') := by
    rw [hbytes, hbytes']
    refine ⟨_, _, rfl, rfl, .change rfl (.clusters ⟨_, _, _, _, rfl, rfl, ?_⟩)
      (.drop rfl ⟨rfl, rfl, fun h => absurd h List.not_mem_nil⟩ .nil)⟩
    exact .cons ⟨_, _, rfl, rfl, .keep _ (.change rfl ⟨rfl, _, _, rfl, rfl, hbody⟩ .nil)⟩
      (.cons ⟨_, _, rfl, rfl, .keep _ (.change rfl ⟨rfl, _, _, rfl, rfl, hbody⟩ .nil)⟩ .nil)
  have hend : EndsProperly bytes' := by decide +kernel
  exact ⟨k, hk, hend, homits, (decode_of_omits hk).1 bytes' hend homits⟩

/-- The cluster of a context that is null is read as the text `null`, and so names a
cluster that is not there. Without the field no cluster is named. -/
theorem names_null :
    let bytes := "contexts:\n- name: n\n  context:\n    cluster: null\n".toUTF8
    let bytes' := "contexts:\n- name: n\n  context: {}\n".toUTF8
    EndsProperly bytes' ∧ Omits [] (documentOf bytes) (documentOf bytes') ∧
      ∃ k, decode bytes = .ok k ∧ decode bytes' ≠ .ok k := by
  intro bytes bytes'
  have hbytes : documentOf bytes = .mapping none [(.plain "contexts", .sequence none
      [.mapping none [(.plain "name", .plain "n"),
        (.plain "context", .mapping none [(.plain "cluster", .plain "null")])]])] :=
    Tree.eq_of_same _ _ (by decide +kernel)
  have hbytes' : documentOf bytes' = .mapping none [(.plain "contexts", .sequence none
      [.mapping none [(.plain "name", .plain "n"), (.plain "context", .mapping none [])]])] :=
    Tree.eq_of_same _ _ (by decide +kernel)
  have hbody : Tree.Thinned (Context.schema.IsNullField []) Tree.noChange
      [(.plain "cluster", .plain "null")] [] :=
    .drop rfl ⟨rfl, rfl, fun h => absurd h List.not_mem_nil⟩ .nil
  refine ⟨by decide +kernel, ?_, ?_⟩
  · rw [hbytes, hbytes']
    refine ⟨_, _, rfl, rfl, .change rfl (.contexts ⟨_, _, _, _, rfl, rfl, ?_⟩) .nil⟩
    exact .cons ⟨_, _, rfl, rfl, .keep _ (.change rfl ⟨rfl, _, _, rfl, rfl, hbody⟩ .nil)⟩ .nil
  · obtain ⟨k, hk, hname⟩ := exists_of_toOption_any (r := decode bytes)
      (fun k => (k.contexts.get? "n").any (fun c => c.cluster == "null")) (by decide +kernel)
    have hall : (decode bytes').toOption.all
        (fun k => !(k.contexts.get? "n").any (fun c => c.cluster == "null")) = true := by
      decide +kernel
    exact ⟨k, hk, ne_ok_of_toOption_all hall (by rw [hname]; rfl)⟩

end Kubeconfig

end PlaneAccess
