import PlaneAccess.Proofs.Kubeconfig.Decoded
import PlaneAccess.Proofs.Yaml.Rewrite

/-!
# Kubeconfigs read and written

A kubeconfig that is written after it has been read loses nothing that was in
the file (`Kubeconfig.rewrite_decoded`): the lists have the same names, each
record is written again (`Schema.Rewrites`), and preferences and extensions are
the same unless they were null.
-/

namespace PlaneAccess

open PlaneAccess.Yaml

/-! ## Records -/

theorem Cluster.lawful : Cluster.schema.Lawful ⟨(·.extra), fun c x => { c with extra := x }⟩
    ["insecure-skip-tls-verify"] [] where
  extra := rfl
  keys := by decide +kernel
  leaves := Schema.leaves_of_pairwise (by simp [Cluster.schema, RecordField.Apart])
  set f hf b m := by
    simp only [Cluster.schema, List.mem_cons, List.not_mem_nil, or_false] at hf
    rcases hf with rfl | rfl | rfl | rfl | rfl <;> rfl
  get _ _ := rfl
  keeps f hf := by
    simp only [Cluster.schema, List.mem_cons, List.not_mem_nil, or_false] at hf
    rcases hf with rfl | rfl | rfl | rfl | rfl
    · exact RecordField.keeps_optionalText (fun _ _ => rfl) rfl (by decide)
    · exact RecordField.keeps_optionalText (fun _ _ => rfl) rfl (by decide)
    · exact RecordField.keeps_optionalText (fun _ _ => rfl) rfl (by decide)
    · exact RecordField.keeps_optionalFlag (fun _ _ => rfl) rfl List.mem_cons_self
    · exact RecordField.keeps_optionalText (fun _ _ => rfl) rfl (by decide)

theorem User.lawful :
    User.schema.Lawful ⟨(·.extra), fun u x => { u with extra := x }⟩ [] [] where
  extra := rfl
  keys := by decide +kernel
  leaves := Schema.leaves_of_pairwise (by simp [User.schema, RecordField.Apart])
  set f hf b m := by
    simp only [User.schema, List.mem_cons, List.not_mem_nil, or_false] at hf
    rcases hf with rfl | rfl | rfl | rfl | rfl | rfl | rfl <;> rfl
  get _ _ := rfl
  keeps f hf := by
    simp only [User.schema, List.mem_cons, List.not_mem_nil, or_false] at hf
    rcases hf with rfl | rfl | rfl | rfl | rfl | rfl | rfl <;>
      exact RecordField.keeps_optionalText (fun _ _ => rfl) rfl List.not_mem_nil

theorem Context.lawful : Context.schema.Lawful ⟨(·.extra), fun c x => { c with extra := x }⟩
    [] ["cluster", "user"] where
  extra := rfl
  keys := by decide +kernel
  leaves := Schema.leaves_of_pairwise (by simp [Context.schema, RecordField.Apart])
  set f hf b m := by
    simp only [Context.schema, List.mem_cons, List.not_mem_nil, or_false] at hf
    rcases hf with rfl | rfl | rfl <;> rfl
  get _ _ := rfl
  keeps f hf := by
    simp only [Context.schema, List.mem_cons, List.not_mem_nil, or_false] at hf
    rcases hf with rfl | rfl | rfl
    · exact RecordField.keeps_text (fun _ _ => rfl) List.not_mem_nil (by decide)
    · exact RecordField.keeps_text (fun _ _ => rfl) List.not_mem_nil (by decide)
    · exact RecordField.keeps_optionalText (fun _ _ => rfl) rfl List.not_mem_nil

/-! ## Entries -/

namespace Yaml.Tree

/-- The name of an entry, and the value of the key for its body. -/
def entry (key : String) (t : Tree) : String × Tree :=
  (((t.field? "name").bind text?).getD "", (t.field? key).getD unread)

def named (list key : String) (t : Tree) : List (String × Tree) :=
  ((t.field? list).getD unread).items.map (entry key)

end Yaml.Tree

namespace Named

variable {α : Type} {name key : String} {s : Schema α}

def nameField : RecordField (Unnamed α) :=
  .text "name" (fun e => e.name.getD "") (fun e v => { e with name := v })

def bodyField (key : String) (s : Schema α) : RecordField (Unnamed α) :=
  .optionalRecord key s (·.body) (fun e v => { e with body := v })

theorem fields_schema : (Named.schema name key s).fields = [nameField, bodyField key s] := rfl

theorem keys_schema (hne : "name" ≠ key) :
    ((Named.schema name key s).fields.map RecordField.key).Nodup := by
  simp [Named.schema, hne]

theorem nameField_mem : nameField ∈ (Named.schema name key s).fields := List.mem_cons_self

theorem bodyField_mem : bodyField key s ∈ (Named.schema name key s).fields :=
  List.mem_cons_of_mem _ List.mem_cons_self

theorem leaves_name : (Named.schema name key s).Leaves "name" Unnamed.name := by
  simp [Schema.Leaves, Named.schema]

theorem leaves_body : (Named.schema name key s).Leaves key Unnamed.body := by
  simp [Schema.Leaves, Named.schema]

theorem text?_of_read (hne : "name" ≠ key) {here : Path} {u : Tree} {r : Unnamed α} {n : String}
    (h : (Named.schema name key s).read here u = .ok r) (hn : r.name = some n) :
    (u.field? "name").bind Tree.text? = some n := by
  rcases Schema.view_of_read nameField Unnamed.name h
      (Schema.field?_of_mem (keys_schema hne) nameField_mem) leaves_name
      (fun _ h => by cases h) with ⟨-, hnone⟩ | ⟨w, here', b, c, hw, hread, hc⟩
  · rw [hn] at hnone
    cases hnone
  · obtain ⟨text, htext, rfl⟩ := map_eq_ok.mp hread
    obtain rfl := Option.some.inj (hn.symm.trans hc)
    replace hw : u.field? "name" = some w := hw
    rw [hw]
    exact text?_of_readText htext

/-- The body that has been read of an entry is the one of its field, or it is
empty as if it were read from nothing. -/
theorem body_of_schema_read (hne : "name" ≠ key)
    (hempty : s.read [] (.mapping none []) = .ok s.empty) {here : Path} {u : Tree}
    {r : Unnamed α} (h : (Named.schema name key s).read here u = .ok r) :
    ∃ body path, body.fields = ((u.field? key).getD .unread).fields ∧
      s.read path body = .ok (r.body.getD s.empty) := by
  rcases Schema.view_of_read (bodyField key s) Unnamed.body h
      (Schema.field?_of_mem (keys_schema hne) bodyField_mem) leaves_body
      (fun _ h => by cases h) with ⟨hnone, hbody⟩ | ⟨w, here', b, c, hw, hread, hc⟩
  · replace hnone : u.field? key = none := hnone
    rw [hnone, hbody]
    exact ⟨.mapping none [], [], rfl, hempty⟩
  · obtain ⟨v, hv, rfl⟩ := map_eq_ok.mp hread
    replace hw : u.field? key = some w := hw
    replace hc : r.body = v := hc
    rw [hw, hc]
    cases v with
    | none =>
      have hfields := Tree.fields_of_isNull (isNull_of_readOptional hv)
      exact ⟨.mapping none [], [], hfields.symm, hempty⟩
    | some a => exact ⟨w, here', rfl, eq_some_of_readOptional hv rfl⟩

theorem entry_of_read (hne : "name" ≠ key)
    (hempty : s.read [] (.mapping none []) = .ok s.empty) {here : Path} {u : Tree} {e : Named α}
    (h : Named.read (Named.schema name key s) here u = .ok e) :
    (u.entry key).1 = e.name ∧ ∃ body path, body.fields = (u.entry key).2.fields ∧
      s.read path body = .ok (e.body.getD s.empty) := by
  obtain ⟨r, hr, h⟩ := bind_eq_ok.mp h
  split at h
  · rename_i n hn
    obtain rfl := Except.ok.inj h
    refine ⟨?_, body_of_schema_read hne hempty hr⟩
    show ((u.field? "name").bind Tree.text?).getD "" = n
    rw [text?_of_read hne hr hn]
    rfl
  · cases h

theorem entry_write (hne : "name" ≠ key) (n : String) (a : α) :
    (Named.write (Named.schema name key s) ⟨n, some a⟩).entry key = (n, s.write a) := by
  have hname : ((Named.schema name key s).write ⟨some n, some a⟩).field? "name" =
      some (.ofString n) :=
    Schema.field?_write_of_mem (keys_schema hne) (fun _ h => by cases h) nameField_mem
  have hbody : ((Named.schema name key s).write ⟨some n, some a⟩).field? key =
      some (s.write a) :=
    Schema.field?_write_of_mem (keys_schema hne) (fun _ h => by cases h) bodyField_mem
  rw [Named.write, Tree.entry, hname, hbody]
  rfl

end Named

/-! ## Lists -/

/-- How a list is written again: it has the same names, and the body of each
entry is written again. -/
structure Yaml.Schema.RewritesList {α : Type} (s : Schema α) (flags always : List String)
    (old new : List (String × Tree)) : Prop where
  names : (new.map Prod.fst).Perm (old.map Prod.fst)
  bodies : ∀ n u u', (n, u) ∈ old → (n, u') ∈ new → s.Rewrites flags always u u'

section

variable {α : Type} {name key : String} {s : Schema α} {x : Extra α} {flags always : List String}

def ReadsList (name key : String) (s : Schema α) (old : Option Tree) (es : List (Named α)) :
    Prop :=
  ∃ pairs : List (Tree × Named α), pairs.map Prod.fst = (old.getD .unread).items ∧
    pairs.map Prod.snd = es ∧
    ∀ e ∈ pairs, ∃ here, Named.read (Named.schema name key s) here e.1 = .ok e.2

theorem rewritesList_of_collect (hs : s.Lawful x flags always) (hne : "name" ≠ key)
    (hempty : s.read [] (.mapping none []) = .ok s.empty) {old : Option Tree}
    {es : List (Named α)} (hread : ReadsList name key s old es) {list : Section} {m : NameMap α}
    (hm : Listing.collect list s.empty es = .ok m)
    (hkeys : ∀ e ∈ (old.getD .unread).items.map (Tree.entry key),
      (e.2.fields.map Prod.fst).Nodup) :
    s.RewritesList flags always ((old.getD .unread).items.map (Tree.entry key))
      (m.toList.map (fun e => (e.1, s.write e.2))) := by
  obtain ⟨pairs, hitems, rfl, hpairs⟩ := hread
  obtain ⟨hnodup, rfl⟩ := Listing.collect_eq_ok hm
  have hperm := NameMap.perm_toList_ofList hnodup
  have hentry : ∀ e ∈ pairs, (e.1.entry key).1 = e.2.name ∧
      ∃ body path, body.fields = (e.1.entry key).2.fields ∧
        s.read path body = .ok (e.2.body.getD s.empty) := by
    intro e he
    obtain ⟨here, hread⟩ := hpairs e he
    exact Named.entry_of_read hne hempty hread
  rw [← hitems, List.map_map] at hkeys ⊢
  constructor
  · have hnames : (pairs.map (Tree.entry key ∘ Prod.fst)).map Prod.fst =
        (Listing.bodies s.empty (pairs.map Prod.snd)).map Prod.fst := by
      rw [Listing.bodies, List.map_map, List.map_map, List.map_map]
      exact List.map_congr_left fun e he => (hentry e he).1
    rw [hnames, List.map_map]
    exact hperm.map Prod.fst
  · intro n u u' hu hu'
    obtain ⟨e, he, heq⟩ := List.mem_map.mp hu
    obtain ⟨⟨n', a⟩, ha, heq'⟩ := List.mem_map.mp hu'
    obtain ⟨rfl, rfl⟩ := Prod.mk.inj heq'
    obtain ⟨hname, body, path, hfields, hbody⟩ := hentry e he
    replace heq : e.1.entry key = (n', u) := heq
    rw [heq] at hname hfields
    -- there is only one entry of that name, so it is the one that was read
    have hmem : (n', e.2.body.getD s.empty) ∈
        Listing.bodies s.empty (pairs.map Prod.snd) :=
      List.mem_map.mpr ⟨e.2, List.mem_map_of_mem he, Prod.ext hname.symm rfl⟩
    have hget := NameMap.mem_toList.mp (hperm.mem_iff.mpr hmem)
    obtain rfl := Option.some.inj ((NameMap.mem_toList.mp ha).symm.trans hget)
    have hkeys' := hkeys (n', u) (List.mem_map.mpr ⟨e, he, heq⟩)
    rw [← hfields] at hkeys'
    exact (hs.rewrites_write hbody hkeys').of_fields hfields.symm

end

/-! ## Kubeconfigs -/

/-- How a value is written again that may be absent: it is left out if it was
absent or null, and otherwise the same. -/
def RewritesValue (old new : Option Tree) : Prop :=
  new = none ∧ (∀ u, old = some u → u.isNull = true) ∨
    ∃ u u' v, old = some u ∧ new = some u' ∧ u.isNull = false ∧ u.value? = some v ∧
      u'.value? = some v

namespace Kubeconfig

structure Rewrites (old new : Tree) : Prop where
  clusters : Cluster.schema.RewritesList ["insecure-skip-tls-verify"] []
    (old.named "clusters" "cluster") (new.named "clusters" "cluster")
  users : User.schema.RewritesList [] []
    (old.named "users" "user") (new.named "users" "user")
  contexts : Context.schema.RewritesList [] ["cluster", "user"]
    (old.named "contexts" "context") (new.named "contexts" "context")
  preferences : RewritesValue (old.field? "preferences") (new.field? "preferences")
  extensions : RewritesValue (old.field? "extensions") (new.field? "extensions")

/-- No key is there twice in the body of an entry. -/
def HasDistinctKeys (t : Tree) : Prop :=
  ∀ e ∈ t.named "clusters" "cluster" ++ t.named "users" "user" ++ t.named "contexts" "context",
    (e.2.fields.map Prod.fst).Nodup

instance (t : Tree) : Decidable (HasDistinctKeys t) :=
  inferInstanceAs (Decidable (∀ e ∈ _, _))

/-! ## The fields of a kubeconfig -/

/-- A field of a kubeconfig that holds a list of entries, and nothing of what
the other fields hold. -/
structure IsList {α : Type} (list name key : String) (s : Schema α)
    (get : Listing → List (Named α)) (set : Listing → List (Named α) → Listing) : Prop where
  mem : RecordField.entries list (Named.schema name key s) get set ∈ Listing.schema.fields
  leaves : Listing.schema.Leaves list get
  get_set : ∀ l es, get (set l es) = es
  empty : get .empty = []
  apart : "name" ≠ key

/-- A field of a kubeconfig that holds a value, and nothing of what the other
fields hold. -/
structure IsValue (key : String) (get : Listing → Option Value)
    (set : Listing → Option Value → Listing) : Prop where
  mem : .optionalValue key get set ∈ Listing.schema.fields
  leaves : Listing.schema.Leaves key get
  get_set : ∀ l v, get (set l v) = v
  empty : get .empty = none

@[simp] theorem key_currentContext : RecordField.currentContext.key = "current-context" := rfl

@[simp] theorem spares_currentContext {β : Type} {view : Listing → β}
    (h : ∀ l v, view { l with currentContext := v } = view l) :
    RecordField.currentContext.Spares view :=
  .of_set (fun _ _ _ _ => rfl) h

@[simp] theorem spares_write_currentContext {f : RecordField Listing}
    (h : f.Spares Listing.currentContext) : f.Spares RecordField.currentContext.write :=
  h.map fun v => some (Tree.ofString (v.getD ""))

theorem keys_listing : (Listing.schema.fields.map RecordField.key).Nodup := by decide +kernel

theorem isList_clusters : IsList "clusters" "struct NamedCluster" "cluster" Cluster.schema
    (·.clusters) (fun l v => { l with clusters := v }) :=
  ⟨by simp [Listing.schema, Cluster.entrySchema],
    by simp [Schema.Leaves, Listing.schema, RecordField.entries], fun _ _ => rfl, rfl, by decide⟩

theorem isList_users : IsList "users" "struct NamedAuthInfo" "user" User.schema
    (·.users) (fun l v => { l with users := v }) :=
  ⟨by simp [Listing.schema, User.entrySchema],
    by simp [Schema.Leaves, Listing.schema, RecordField.entries], fun _ _ => rfl, rfl, by decide⟩

theorem isList_contexts : IsList "contexts" "struct NamedContext" "context" Context.schema
    (·.contexts) (fun l v => { l with contexts := v }) :=
  ⟨by simp [Listing.schema, Context.entrySchema],
    by simp [Schema.Leaves, Listing.schema, RecordField.entries], fun _ _ => rfl, rfl, by decide⟩

theorem isValue_preferences :
    IsValue "preferences" (·.preferences) (fun l v => { l with preferences := v }) :=
  ⟨by simp [Listing.schema], by simp [Schema.Leaves, Listing.schema, RecordField.entries],
    fun _ _ => rfl, rfl⟩

theorem isValue_extensions :
    IsValue "extensions" (·.extensions) (fun l v => { l with extensions := v }) :=
  ⟨by simp [Listing.schema], by simp [Schema.Leaves, Listing.schema, RecordField.entries],
    fun _ _ => rfl, rfl⟩

/-! ## Fields read and written -/

section

variable {α : Type} {list name key : String} {s : Schema α} {get : Listing → List (Named α)}
  {set : Listing → List (Named α) → Listing} {t : Tree} {l : Listing} {path : Path}

theorem IsList.readsList (hf : IsList list name key s get set)
    (h : Listing.schema.read path t = .ok l) :
    ReadsList name key s (t.field? list) (get l) := by
  rcases Schema.view_of_read (RecordField.entries list (Named.schema name key s) get set) get h
      (Schema.field?_of_mem keys_listing hf.mem) hf.leaves (fun _ h => by cases h) with
    ⟨hnone, hl⟩ | ⟨u, here, b, c, hu, hread, hc⟩
  · replace hnone : t.field? list = none := hnone
    rw [hnone, hl]
    exact ⟨[], rfl, hf.empty.symm, fun _ h => absurd h List.not_mem_nil⟩
  · obtain ⟨r, hr, rfl⟩ := map_eq_ok.mp hread
    replace hu : t.field? list = some u := hu
    rw [hu, hc, hf.get_set]
    exact Schema.pairs_of_readOptional hr

/-- Each entry of a list that has been read is in its map, with what was read from
its body. -/
theorem IsList.forall_named (hf : IsList list name key s get set)
    (hempty : s.read [] (.mapping none []) = .ok s.empty)
    (h : Listing.schema.read path t = .ok l) {part : Section} {m : NameMap α}
    (hm : Listing.collect part s.empty (get l) = .ok m) (P : Tree → α → Prop)
    (hP : ∀ u body path a, body.fields = u.fields → s.read path body = .ok a → P u a) :
    ∀ e ∈ t.named list key, ∃ a, m.get? e.1 = some a ∧ P e.2 a := by
  obtain ⟨pairs, hitems, hpairs, hread⟩ := hf.readsList h
  obtain ⟨hnodup, rfl⟩ := Listing.collect_eq_ok hm
  intro e he
  rw [Tree.named, ← hitems, List.map_map] at he
  obtain ⟨e', he', rfl⟩ := List.mem_map.mp he
  obtain ⟨here, hentry⟩ := hread e' he'
  obtain ⟨hname, body, path, hfields, hbody⟩ := Named.entry_of_read hf.apart hempty hentry
  refine ⟨e'.2.body.getD s.empty, ?_, hP _ body path _ hfields hbody⟩
  have hmem : ((e'.1.entry key).1, e'.2.body.getD s.empty) ∈ Listing.bodies s.empty (get l) := by
    rw [← hpairs]
    exact List.mem_map.mpr ⟨e'.2, List.mem_map_of_mem he', Prod.ext hname.symm rfl⟩
  exact NameMap.mem_toList.mp ((NameMap.perm_toList_ofList hnodup).mem_iff.mpr hmem)

theorem IsList.named_toTree (hf : IsList list name key s get set) {k : Kubeconfig}
    {m : NameMap α} (hm : get (Listing.ofKubeconfig k) = Listing.entriesOf m) :
    k.toTree.named list key = m.toList.map (fun e => (e.1, s.write e.2)) := by
  have hfield : k.toTree.field? list = some (.sequence none ((Listing.entriesOf m).map
      (Named.write (Named.schema name key s)))) := by
    rw [← hm]
    exact Schema.field?_write_of_mem keys_listing (fun _ h => by cases h) hf.mem
  rw [Tree.named, hfield]
  show ((Listing.entriesOf m).map (Named.write (Named.schema name key s))).map (Tree.entry key) = _
  rw [Listing.entriesOf, List.map_map, List.map_map]
  exact List.map_congr_left fun e _ => Named.entry_write hf.apart e.1 e.2

theorem IsList.rewrites (hf : IsList list name key s get set) {x : Extra α}
    {flags always : List String} (hs : s.Lawful x flags always)
    (hempty : s.read [] (.mapping none []) = .ok s.empty)
    (h : Listing.schema.read path t = .ok l) {part : Section} {m : NameMap α}
    (hm : Listing.collect part s.empty (get l) = .ok m) {k : Kubeconfig}
    (hk : get (Listing.ofKubeconfig k) = Listing.entriesOf m)
    (hkeys : ∀ e ∈ t.named list key, (e.2.fields.map Prod.fst).Nodup) :
    s.RewritesList flags always (t.named list key) (k.toTree.named list key) := by
  rw [hf.named_toTree hk]
  exact rewritesList_of_collect hs hf.apart hempty (hf.readsList h) hm hkeys

end

section

variable {key : String} {get : Listing → Option Value} {set : Listing → Option Value → Listing}
  {t : Tree} {l : Listing} {path : Path}

theorem IsValue.field?_toTree (hf : IsValue key get set) (k : Kubeconfig) :
    k.toTree.field? key = (get (Listing.ofKubeconfig k)).map Value.toTree :=
  Schema.field?_write_of_mem keys_listing (fun _ h => by cases h) hf.mem

/-- A value of a kubeconfig that has been read is written again. -/
theorem IsValue.rewrites (hf : IsValue key get set) (h : Listing.schema.read path t = .ok l)
    {k : Kubeconfig} (hk : get (Listing.ofKubeconfig k) = get l)
    (huntagged : ∀ v, get l = some v → v.isUntagged = true) :
    RewritesValue (t.field? key) (k.toTree.field? key) := by
  rw [hf.field?_toTree, hk]
  rcases Schema.view_of_read (.optionalValue key get set) get h
      (Schema.field?_of_mem keys_listing hf.mem) hf.leaves (fun _ h => by cases h) with
    ⟨hnone, hl⟩ | ⟨u, here, b, c, hu, hread, hc⟩
  · replace hnone : t.field? key = none := hnone
    rw [hl, hnone]
    exact Or.inl ⟨congrArg (Option.map Value.toTree) hf.empty, fun _ h => by cases h⟩
  · obtain ⟨r, hr, rfl⟩ := map_eq_ok.mp hread
    replace hu : t.field? key = some u := hu
    rw [hf.get_set] at hc
    rw [hc, hu]
    cases r with
    | none =>
      refine Or.inl ⟨rfl, fun u' hu' => ?_⟩
      obtain rfl := Option.some.inj hu'
      exact isNull_of_readOptional hr
    | some v =>
      have hv := eq_some_of_readOptional hr rfl
      have hkeys := (sound_readValue .alone u here v hv).keys rfl
      refine Or.inr ⟨u, v.toTree, v, rfl, rfl, Bool.eq_false_iff.mpr fun hnull => ?_,
        value?_of_readValue hv hkeys, value?_toTree (huntagged v hc) hkeys⟩
      rw [readOptional_of_isNull hnull] at hr
      cases hr

end

/-! ## Whole kubeconfigs -/

theorem rewrites_toTree {t : Tree} {k : Kubeconfig} (h : ofTree t = .ok k)
    (hkeys : HasDistinctKeys t)
    (hpreferences : ∀ v, k.preferences = some v → v.isUntagged = true)
    (hextensions : ∀ v, k.extensions = some v → v.isUntagged = true) :
    Rewrites t k.toTree := by
  obtain ⟨l, hl, hclusters, husers, hcontexts, hpref, hext⟩ := of_ofTree h
  simp only [HasDistinctKeys, List.mem_append] at hkeys
  exact {
    clusters := isList_clusters.rewrites Cluster.lawful rfl hl hclusters rfl
      fun e he => hkeys e (Or.inl (Or.inl he))
    users := isList_users.rewrites User.lawful rfl hl husers rfl
      fun e he => hkeys e (Or.inl (Or.inr he))
    contexts := isList_contexts.rewrites Context.lawful rfl hl hcontexts rfl
      fun e he => hkeys e (Or.inr he)
    preferences := isValue_preferences.rewrites hl hpref
      fun v hv => hpreferences v (hpref.trans hv)
    extensions := isValue_extensions.rewrites hl hext
      fun v hv => hextensions v (hext.trans hv) }

/-- The text of a kubeconfig has the tree of that kubeconfig. -/
theorem documentOf_render {k : Kubeconfig} (hdepth : k.toTree.depth ≤ Tree.depthLimit)
    (hread : k.toTree.readsBack = true) :
    documentOf (String.ofList k.toTree.render).toUTF8 = k.toTree := by
  obtain ⟨c, hbytes, htree⟩ := stream_render hdepth hread
  rw [documentOf, k.all_isBlankOctet_render, if_neg (by decide), hbytes, treeOf]
  exact htree

theorem of_mem_extras {α : Type} {get : α → NameMap Value} {m : NameMap α} {v : Value}
    (h : v ∈ extras get m) : ∃ n a key, m.get? n = some a ∧ (get a).get? key = some v := by
  obtain ⟨⟨n, a⟩, ha, hv⟩ := List.mem_flatMap.mp h
  obtain ⟨⟨key, v'⟩, hkey, rfl⟩ := List.mem_map.mp hv
  exact ⟨n, a, key, NameMap.mem_toList.mp ha, NameMap.mem_toList.mp hkey⟩

/-- Only preferences and extensions that have been read can have tags. -/
theorem Decoded.isUntagged {k : Kubeconfig} (h : k.Decoded)
    (hpreferences : ∀ v, k.preferences = some v → v.isUntagged = true)
    (hextensions : ∀ v, k.extensions = some v → v.isUntagged = true) :
    ∀ v ∈ k.values, v.isUntagged = true := by
  intro v hv
  simp only [values, List.mem_append, Option.mem_toList] at hv
  rcases hv with (((hv | hv) | hv) | hv) | hv
  · exact hpreferences v hv
  · exact hextensions v hv
  · obtain ⟨n, c, key, hc, hget⟩ := of_mem_extras hv
    exact (h.clusters n c hc key v hget).2.1.untagged rfl
  · obtain ⟨n, u, key, hu, hget⟩ := of_mem_extras hv
    exact (h.users n u hu key v hget).2.1.untagged rfl
  · obtain ⟨n, c, key, hc, hget⟩ := of_mem_extras hv
    exact (h.contexts n c hc key v hget).2.1.untagged rfl

def LeavesOutNulls (t : Tree) : Prop :=
  (t.field? "preferences").bind Tree.value? ≠ some .null ∧
    (t.field? "extensions").bind Tree.value? ≠ some .null

theorem HasNoNulls.leavesOutNulls {k : Kubeconfig} (h : k.HasNoNulls) (hk : k.Decoded)
    (hpreferences : ∀ v, k.preferences = some v → v.isUntagged = true)
    (hextensions : ∀ v, k.extensions = some v → v.isUntagged = true) :
    LeavesOutNulls k.toTree := by
  have hvalue : ∀ {o : Option Value}, o ≠ some .null →
      (∀ v, o = some v → v.isUntagged = true ∧ v.repeatedKey? = none) →
      (o.map Value.toTree).bind Tree.value? ≠ some .null := by
    intro o hnull ho heq
    cases o with
    | none => cases heq
    | some v =>
      obtain ⟨huntagged, hkeys⟩ := ho v rfl
      rw [Option.map_some, Option.bind_some, value?_toTree huntagged hkeys] at heq
      exact hnull heq
  constructor
  · rw [isValue_preferences.field?_toTree]
    exact hvalue h.1 fun v hv => ⟨hpreferences v hv, (hk.preferences v hv).keys rfl⟩
  · rw [isValue_extensions.field?_toTree]
    exact hvalue h.2 fun v hv => ⟨hextensions v hv, (hk.extensions v hv).keys rfl⟩

/-- A kubeconfig that has been read from a file, with no key twice in a body and
no tags in its preferences and extensions, is written so that nothing of the
file gets lost, and is read again without its nulls. Only where the only key of
a mapping is a mapping of one entry there is no text. -/
theorem rewrite_decoded {bytes : ByteArray} {k : Kubeconfig} (h : decode bytes = .ok k)
    (hkeys : HasDistinctKeys (documentOf bytes))
    (hpreferences : ∀ v, k.preferences = some v → v.isUntagged = true)
    (hextensions : ∀ v, k.extensions = some v → v.isUntagged = true)
    (hread : k.toTree.readsBack = true) :
    ((∀ v ∈ k.values, v.hasPairKey = false) →
      ∃ text, k.encode = some text ∧
        Rewrites (documentOf bytes) (documentOf text.toUTF8) ∧
        decode text.toUTF8 = .ok k.withoutNulls ∧
        (k.HasNoNulls → k.withoutNulls = k ∧ LeavesOutNulls (documentOf text.toUTF8))) ∧
    ((∃ v ∈ k.values, v.hasPairKey = true) → k.encode = none) := by
  have hdecoded := decoded_of_decode h
  have hencode := encode_of_isUntagged (hdecoded.isUntagged hpreferences hextensions)
  constructor
  · intro hpairs
    have hnone : k.values.any Value.hasPairKey = false :=
      List.any_eq_false.mpr fun v hv => Bool.eq_false_iff.mp (hpairs v hv)
    rw [hnone, if_neg (by decide)] at hencode
    have hcarried := hdecoded.carried
      (fun v hv => Value.keepsTags_of_isUntagged false v (hpreferences v hv))
      (fun v hv => Value.keepsTags_of_isUntagged false v (hextensions v hv))
    refine ⟨_, hencode, ?_, hcarried.decode_render hdecoded.depth_toTree hread, ?_⟩
    · rw [documentOf_render hdecoded.depth_toTree hread]
      exact rewrites_toTree (ofTree_documentOf h) hkeys hpreferences hextensions
    · intro hnulls
      rw [documentOf_render hdecoded.depth_toTree hread]
      exact ⟨hnulls.withoutNulls_eq,
        hnulls.leavesOutNulls hdecoded hpreferences hextensions⟩
  · intro hpair
    rw [hencode, if_pos (List.any_eq_true.mpr hpair)]

/-- Whether a kubeconfig has no tags in its preferences and extensions and a
text that holds its tree. -/
def isPlain (k : Kubeconfig) : Bool :=
  k.preferences.all Value.isUntagged && k.extensions.all Value.isUntagged && k.toTree.readsBack

theorem of_isPlain {k : Kubeconfig} (h : k.isPlain = true) :
    (∀ v, k.preferences = some v → v.isUntagged = true) ∧
      (∀ v, k.extensions = some v → v.isUntagged = true) ∧ k.toTree.readsBack = true := by
  rw [isPlain, Bool.and_eq_true, Bool.and_eq_true, Option.all_eq_true, Option.all_eq_true] at h
  exact ⟨h.1.1, h.1.2, h.2⟩

/-- A record that is used again through a reference, with a number as a text, a
flag in capitals and a key that nobody knows, and a null body. -/
theorem rewrite_decoded_aliases :
    let bytes := ("clusters:\n- name: c\n  cluster: &a\n    server: 1\n" ++
      "    insecure-skip-tls-verify: True\n    x: [~, 0x10]\n- cluster: *a\n  name: d\n" ++
      "users:\n- name: u\n  user: ~\npreferences: [p]\n").toUTF8
    ∃ k text, decode bytes = .ok k ∧ HasDistinctKeys (documentOf bytes) ∧
      k.encode = some text ∧ Rewrites (documentOf bytes) (documentOf text.toUTF8) ∧
      decode text.toUTF8 = .ok k := by
  intro bytes
  obtain ⟨k, hk, h⟩ := exists_of_toOption_any (r := decode bytes)
    (fun k => k.isPlain && k.values.all (fun v => !v.hasPairKey) &&
      k.preferences.all (fun v => !v.same .null) && k.extensions.isNone) (by decide +kernel)
  simp only [Bool.and_eq_true, List.all_eq_true, Option.all_eq_true, Option.isNone_iff_eq_none,
    Bool.not_eq_true'] at h
  obtain ⟨⟨⟨hplain, hpairs⟩, hsame⟩, hnone⟩ := h
  have hkeys : HasDistinctKeys (documentOf bytes) := by decide +kernel
  have hnulls : k.HasNoNulls :=
    ⟨fun hnull => absurd (hsame .null hnull) (by decide), by simp [hnone]⟩
  obtain ⟨hpreferences, hextensions, hread⟩ := of_isPlain hplain
  obtain ⟨text, hencode, hrewrites, hdecode, heq⟩ :=
    (rewrite_decoded hk hkeys hpreferences hextensions hread).1 hpairs
  rw [(heq hnulls).1] at hdecode
  exact ⟨k, text, hk, hkeys, hencode, hrewrites, hdecode⟩

/-! ## Kubeconfigs that are not read again -/

/-- A kubeconfig has been read, with no key twice in a body and no tags in its
preferences and extensions, but there is no text that gives it again. -/
def NotReadAgain (bytes : ByteArray) : Prop :=
  ∃ k, decode bytes = .ok k ∧ HasDistinctKeys (documentOf bytes) ∧
    (∀ v, k.preferences = some v → v.isUntagged = true) ∧
    (∀ v, k.extensions = some v → v.isUntagged = true) ∧ k.toTree.readsBack = true ∧
    ¬ ∃ text, k.encode = some text ∧ decode text.toUTF8 = .ok k

/-- Whether a kubeconfig is not written or what is read again says something
else. -/
def isLost (k : Kubeconfig) : Bool :=
  k.isPlain && k.same k &&
    k.encode.all (fun text => (decode text.toUTF8).toOption.all (fun k' => !k'.same k))

theorem notReadAgain_of_isLost {bytes : ByteArray}
    (hkeys : HasDistinctKeys (documentOf bytes))
    (h : (decode bytes).toOption.any isLost = true) : NotReadAgain bytes := by
  obtain ⟨k, hk, hlost⟩ := exists_of_toOption_any isLost h
  rw [isLost, Bool.and_eq_true, Bool.and_eq_true, Option.all_eq_true] at hlost
  obtain ⟨⟨hplain, hsame⟩, hall⟩ := hlost
  obtain ⟨hpreferences, hextensions, hread⟩ := of_isPlain hplain
  refine ⟨k, hk, hkeys, hpreferences, hextensions, hread, ?_⟩
  rintro ⟨text, htext, hdecode⟩
  exact ne_ok_of_toOption_all (hall text htext) (by rw [hsame]; rfl) hdecode

/-- There is no text where the only key of a mapping is a mapping of one entry, and
preferences that are null by their tag are lost. -/
theorem not_read_again :
    NotReadAgain "users:\n- name: u\n  user:\n    exec:\n      ? {a: b}\n      : c\n".toUTF8 ∧
      NotReadAgain "preferences: !!null 'null'\n".toUTF8 := by
  constructor
  · exact notReadAgain_of_isLost (by decide +kernel) (by decide +kernel)
  · exact notReadAgain_of_isLost (by decide +kernel) (by decide +kernel)

end Kubeconfig

end PlaneAccess
