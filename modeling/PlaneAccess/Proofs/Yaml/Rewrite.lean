import PlaneAccess.Proofs.Yaml.Apart
import PlaneAccess.Proofs.Yaml.Contents
import PlaneAccess.Proofs.Yaml.Fields
import PlaneAccess.Proofs.Yaml.Record

/-!
# Records written again

A record that is written after it has been read says what was read
(`Schema.rewrites_write`): its other keys have the values that they had, its
fields the same texts and booleans, and there is nothing new but fields that
are always written (`Schema.Rewrites`).
-/

namespace PlaneAccess.Yaml

namespace Schema

variable {α β : Type} {s : Schema α} {path : Path} {t : Tree} {a : α}

/-! ## Where a field comes from -/

theorem fields_of_readMapping {expected : String} {es : List (Tree × Tree)}
    (h : readMapping path t expected = .ok es) : t.fields = Tree.keyed es := by
  unfold readMapping at h
  split at h
  · rename_i htarget
    obtain rfl := Except.ok.inj h
    rw [Tree.fields, htarget]
  · rename_i htarget
    split at h
    · obtain rfl := Except.ok.inj h
      rw [Tree.fields, htarget]
      rfl
    · cases h
  · cases h

theorem items_of_readSequence {ts : List Tree} (h : readSequence path t = .ok ts) :
    t.items = ts := by
  unfold readSequence at h
  split at h
  · rename_i htarget
    obtain rfl := Except.ok.inj h
    rw [Tree.items, htarget]
  · rename_i htarget
    split at h
    · obtain rfl := Except.ok.inj h
      rw [Tree.items, htarget]
    · cases h
  · cases h

/-- What is seen of a record changes with one field only, the first time that
its key is there. -/
theorem view_of_foldlM {f : RecordField α} {view : α → β} (hf : s.field? f.key = some f)
    (hview : s.Leaves f.key view) :
    ∀ (es : List (Tree × Tree)) (p q : Partial α), es.foldlM (s.readEntry path) p = .ok q →
      (NameMap.lookup f.key (Tree.keyed es) = none ∧ view q.value = view p.value) ∨
        f.key ∉ p.seen ∧ ∃ u here b c, NameMap.lookup f.key (Tree.keyed es) = some u ∧
          f.read path here u b = .ok c ∧ view q.value = view c := by
  intro es
  induction es with
  | nil =>
    intro p q h
    obtain rfl := Except.ok.inj h
    exact Or.inl ⟨rfl, rfl⟩
  | cons e es ih =>
    intro p q h
    obtain ⟨r, hr, h⟩ := bind_eq_ok.mp h
    obtain ⟨key, hkey, hcases⟩ := readEntry_cases hr
    rw [Tree.keyed_cons_of_text (text?_of_readKey hkey), NameMap.lookup]
    by_cases hk : key = f.key
    · -- the field is read here, and its key is not there again
      subst hk
      rw [if_pos rfl]
      rcases hcases with ⟨g, b, hg, hseen, hb, rfl⟩ | ⟨_, _, hnone, -⟩ | ⟨hnone, -⟩
      · obtain rfl := Option.some.inj (hf.symm.trans hg)
        refine Or.inr ⟨hseen, e.2, _, _, b, rfl, hb, ?_⟩
        rcases ih _ q h with ⟨-, hq⟩ | ⟨hnew, -⟩
        · exact hq
        · exact absurd List.mem_cons_self hnew
      · rw [hf] at hnone
        cases hnone
      · rw [hf] at hnone
        cases hnone
    · rw [if_neg hk]
      have hr : view r.value = view p.value ∧ (f.key ∉ r.seen → f.key ∉ p.seen) := by
        rcases hcases with ⟨g, b, hg, -, hb, rfl⟩ | ⟨_, _, -, -, -, rfl⟩ | ⟨-, -, rfl⟩
        · have hne : g.key ≠ f.key := by
            rw [key_of_field? hg]
            exact hk
          exact ⟨hview g (mem_of_field? hg) hne _ _ _ _ _ hb,
            fun hseen hmem => hseen (List.mem_cons_of_mem _ hmem)⟩
        · exact ⟨rfl, id⟩
        · exact ⟨rfl, id⟩
      rcases ih r q h with ⟨hnone, hq⟩ | ⟨hseen, u, here, b, c, hu, hc, hq⟩
      · exact Or.inl ⟨hnone, hq.trans hr.1⟩
      · exact Or.inr ⟨hr.2 hseen, u, here, b, c, hu, hc, hq⟩

/-- What is seen of a record that has been read is what its field was read as,
or what is seen of the empty record. -/
theorem view_of_read (f : RecordField α) (view : α → β) (h : s.read path t = .ok a)
    (hf : s.field? f.key = some f) (hview : s.Leaves f.key view)
    (hset : ∀ x, s.extra = some x → ∀ b m, view (x.set b m) = view b) :
    (t.field? f.key = none ∧ view a = view s.empty) ∨
      ∃ u here b c, t.field? f.key = some u ∧ f.read path here u b = .ok c ∧
        view a = view c := by
  obtain ⟨es, p, hes, hp, hcases⟩ := read_cases h
  have ha : view a = view p.value := by
    rcases hcases with ⟨-, rfl⟩ | ⟨x, hx, -, rfl⟩
    · rfl
    · exact hset x hx _ _
  rw [Tree.field?, fields_of_readMapping hes, ha]
  rcases view_of_foldlM hf hview es _ p hp with hnone | ⟨-, hsome⟩
  · exact Or.inl hnone
  · exact Or.inr hsome

theorem pairs_of_readListFrom {read : Path → Tree → Except ReadError β} :
    ∀ (ts : List Tree) (i : Nat) (l : List β), readListFrom path read i ts = .ok l →
      ∃ pairs : List (Tree × β), pairs.map Prod.fst = ts ∧ pairs.map Prod.snd = l ∧
        ∀ e ∈ pairs, ∃ here, read here e.1 = .ok e.2 := by
  intro ts
  induction ts with
  | nil =>
    intro i l h
    obtain rfl := Except.ok.inj h
    exact ⟨[], rfl, rfl, fun _ h => absurd h List.not_mem_nil⟩
  | cons t ts ih =>
    intro i l h
    obtain ⟨b, hb, h⟩ := bind_eq_ok.mp h
    obtain ⟨bs, hbs, h⟩ := bind_eq_ok.mp h
    obtain rfl := Except.ok.inj h
    obtain ⟨pairs, rfl, rfl, hread⟩ := ih (i + 1) bs hbs
    exact ⟨(t, b) :: pairs, rfl, rfl, List.forall_mem_cons.mpr ⟨⟨_, hb⟩, hread⟩⟩

/-- A list that has been read, or left out as null, has one entry for each item
of its tree. -/
theorem pairs_of_readOptional {read : Path → Tree → Except ReadError β} {around here : Path}
    {u : Tree} {r : Option (List β)} (h : readOptional around u (readList here read) = .ok r) :
    ∃ pairs : List (Tree × β), pairs.map Prod.fst = u.items ∧ pairs.map Prod.snd = r.getD [] ∧
      ∀ e ∈ pairs, ∃ here, read here e.1 = .ok e.2 := by
  cases r with
  | none =>
    have hitems := Tree.items_of_isNull (isNull_of_readOptional h)
    exact ⟨[], hitems.symm, rfl, fun _ h => absurd h List.not_mem_nil⟩
  | some l =>
    obtain ⟨ts, hts, hl⟩ := bind_eq_ok.mp (eq_some_of_readOptional h rfl)
    rw [items_of_readSequence hts]
    exact pairs_of_readListFrom ts 0 l hl

/-! ## Where another key comes from -/

def unknown (s : Schema α) (es : List (String × Tree)) : List (String × Tree) :=
  es.filter (fun e => (s.field? e.1).isNone)

theorem unknown_cons_of_some {key : String} {f : RecordField α} (h : s.field? key = some f)
    (u : Tree) (es : List (String × Tree)) : s.unknown ((key, u) :: es) = s.unknown es :=
  List.filter_cons_of_neg (by simp [h])

theorem unknown_cons_of_none {key : String} (h : s.field? key = none) (u : Tree)
    (es : List (String × Tree)) : s.unknown ((key, u) :: es) = (key, u) :: s.unknown es :=
  List.filter_cons_of_pos (by rw [h]; rfl)

theorem pairs_of_foldlM {x : Extra α} (hx : s.extra = some x) :
    ∀ (es : List (Tree × Tree)) (p q : Partial α), es.foldlM (s.readEntry path) p = .ok q →
      ∃ pairs : List ((String × Tree) × Value), pairs.map Prod.fst = s.unknown (Tree.keyed es) ∧
        q.extra = p.extra ++ pairs.map (fun e => (e.1.1, e.2)) ∧
        ∀ e ∈ pairs, ∃ here, readValue .inRecord here e.1.2 = .ok e.2 := by
  intro es
  induction es with
  | nil =>
    intro p q h
    obtain rfl := Except.ok.inj h
    exact ⟨[], rfl, (List.append_nil _).symm, fun _ h => absurd h List.not_mem_nil⟩
  | cons e es ih =>
    intro p q h
    obtain ⟨r, hr, h⟩ := bind_eq_ok.mp h
    obtain ⟨key, hkey, hcases⟩ := readEntry_cases hr
    obtain ⟨pairs, hpairs, hextra, hread⟩ := ih r q h
    rw [Tree.keyed_cons_of_text (text?_of_readKey hkey)]
    rcases hcases with ⟨f, b, hf, -, -, rfl⟩ | ⟨_, v, hnone, -, hv, rfl⟩ | ⟨-, hextra', -⟩
    · rw [unknown_cons_of_some hf]
      exact ⟨pairs, hpairs, hextra, hread⟩
    · rw [unknown_cons_of_none hnone, ← hpairs]
      refine ⟨((key, e.2), v) :: pairs, rfl, ?_, List.forall_mem_cons.mpr ⟨⟨_, hv⟩, hread⟩⟩
      rw [hextra, List.append_assoc]
      rfl
    · rw [hx] at hextra'
      cases hextra'

/-- What a record that has been read keeps are the values of the keys that are no
fields, in the order of the entries. -/
theorem pairs_of_read {x : Extra α} (h : s.read path t = .ok a) (hx : s.extra = some x)
    (hget : ∀ b m, x.get (x.set b m) = m) :
    ∃ pairs : List ((String × Tree) × Value), pairs.map Prod.fst = s.unknown t.fields ∧
      x.get a = .ofList (pairs.map (fun e => (e.1.1, e.2))) ∧
      ∀ e ∈ pairs, (∃ here, readValue .inRecord here e.1.2 = .ok e.2) ∧
        e.2.repeatedKey? = none := by
  obtain ⟨es, p, hes, hp, hcases⟩ := read_cases h
  obtain ⟨pairs, hpairs, hextra, hread⟩ := pairs_of_foldlM hx es _ p hp
  rcases hcases with ⟨hnone, -⟩ | ⟨x', hx', hcheck, rfl⟩
  · rw [hx] at hnone
    cases hnone
  obtain rfl := Option.some.inj (hx.symm.trans hx')
  rw [List.nil_append] at hextra
  refine ⟨pairs, ?_, ?_, fun e he => ⟨hread e he, ?_⟩⟩
  · rw [hpairs, fields_of_readMapping hes]
  · rw [hget, hextra]
  · have hmem : (e.1.1, e.2) ∈ p.extra := by
      rw [hextra]
      exact List.mem_map_of_mem he
    exact repeatedKey?_of_checkKeys hcheck (e.1.1, e.2) hmem

theorem lookup_unknown {key : String} (hkey : s.field? key = none) (es : List (String × Tree)) :
    NameMap.lookup key (s.unknown es) = NameMap.lookup key es := by
  induction es with
  | nil => rfl
  | cons e es ih =>
    obtain ⟨key', u⟩ := e
    cases hfield : s.field? key' with
    | none => rw [unknown_cons_of_none hfield, NameMap.lookup, NameMap.lookup, ih]
    | some f =>
      have hne : key' ≠ key := by
        rintro rfl
        rw [hkey] at hfield
        cases hfield
      rw [unknown_cons_of_some hfield, NameMap.lookup, if_neg hne, ih]

theorem lookup_pairs (key : String) {pairs : List ((String × Tree) × Value)}
    (h : ∀ e ∈ pairs, e.1.2.value? = some e.2) :
    NameMap.lookup key (pairs.map (fun e => (e.1.1, e.2))) =
      (NameMap.lookup key (pairs.map Prod.fst)).bind Tree.value? := by
  induction pairs with
  | nil => rfl
  | cons e pairs ih =>
    rw [List.forall_mem_cons] at h
    rw [List.map_cons, List.map_cons, NameMap.lookup, NameMap.lookup]
    split
    · exact h.1.symm
    · exact ih h.2

/-- What a record that has been read keeps under another key is the value that
the key had. -/
theorem kept_of_read {x : Extra α} (h : s.read path t = .ok a) (hx : s.extra = some x)
    (hget : ∀ b m, x.get (x.set b m) = m) (hkeys : (t.fields.map Prod.fst).Nodup)
    {key : String} (hkey : s.field? key = none) :
    (t.field? key = none ∧ (x.get a).get? key = none) ∨
      ∃ u v, t.field? key = some u ∧ u.value? = some v ∧ (x.get a).get? key = some v := by
  obtain ⟨pairs, hpairs, hkept, hread⟩ := pairs_of_read h hx hget
  have hvalues : ∀ e ∈ pairs, e.1.2.value? = some e.2 := by
    intro e he
    obtain ⟨⟨here, hv⟩, hrepeated⟩ := hread e he
    exact value?_of_readValue hv hrepeated
  have hnames : ((pairs.map (fun e => (e.1.1, e.2))).map Prod.fst).Nodup := by
    have hmap : (pairs.map (fun e => (e.1.1, e.2))).map Prod.fst =
        (s.unknown t.fields).map Prod.fst := by
      rw [← hpairs, List.map_map, List.map_map]
      rfl
    rw [hmap]
    exact hkeys.sublist (List.filter_sublist.map Prod.fst)
  have hlookup : (x.get a).get? key = (t.field? key).bind Tree.value? := by
    rw [hkept, NameMap.get?_ofList hnames, lookup_pairs key hvalues, hpairs, lookup_unknown hkey]
    rfl
  cases hu : t.field? key with
  | none => exact Or.inl ⟨rfl, by rw [hlookup, hu]; rfl⟩
  | some u =>
    have hmem : (key, u) ∈ pairs.map Prod.fst := by
      rw [hpairs]
      exact NameMap.mem_of_lookup ((lookup_unknown hkey _).trans hu)
    obtain ⟨e, he, heq⟩ := List.mem_map.mp hmem
    have hv : u.value? = some e.2 := by
      rw [← hvalues e he, heq]
    exact Or.inr ⟨u, e.2, rfl, hv, by rw [hlookup, hu]; exact hv⟩

/-! ## Where what is written comes from -/

def written (a : α) (fs : List (RecordField α)) : List (String × Tree) :=
  fs.filterMap (fun f => (f.write a).map (fun t => (f.key, t)))

theorem written_cons (a : α) (f : RecordField α) (fs : List (RecordField α)) :
    written a (f :: fs) = ((f.write a).map (fun t => (f.key, t))).toList ++ written a fs := by
  rw [written, List.filterMap_cons]
  cases f.write a with
  | none => rfl
  | some t => rfl

theorem keyed_fieldEntries (a : α) (fs : List (RecordField α)) :
    Tree.keyed (fieldEntries a fs) = written a fs := by
  induction fs with
  | nil => rfl
  | cons f fs ih =>
    rw [written_cons, ← ih, fieldEntries, List.filterMap_cons]
    cases f.write a with
    | none => rfl
    | some t => rfl

theorem keyed_extraEntries (es : List (String × Value)) :
    Tree.keyed (es.map (fun e => (Tree.ofString e.1, e.2.toTree))) =
      es.map (fun e => (e.1, e.2.toTree)) := by
  induction es with
  | nil => rfl
  | cons e es ih =>
    rw [List.map_cons, List.map_cons, ← ih]
    rfl

def writtenExtra (s : Schema α) (a : α) : List (String × Tree) :=
  (s.extra.map (fun x => (x.get a).toList.map (fun e => (e.1, e.2.toTree)))).getD []

theorem fields_write (s : Schema α) (a : α) :
    (s.write a).fields = written a s.fields ++ s.writtenExtra a := by
  show Tree.keyed (s.toEntries a) = _
  rw [toEntries, Tree.keyed, List.filterMap_append]
  show Tree.keyed (fieldEntries a s.fields) ++ Tree.keyed _ = _
  rw [keyed_fieldEntries, writtenExtra]
  cases hx : s.extra with
  | none => rfl
  | some x =>
    show _ ++ Tree.keyed ((x.get a).toList.map _) = _
    rw [keyed_extraEntries]
    rfl

theorem fst_mem_written {fs : List (RecordField α)} {e : String × Tree} (h : e ∈ written a fs) :
    ∃ f ∈ fs, f.key = e.1 ∧ f.write a = some e.2 := by
  obtain ⟨f, hf, he⟩ := List.mem_filterMap.mp h
  obtain ⟨t, ht, rfl⟩ := Option.map_eq_some_iff.mp he
  exact ⟨f, hf, rfl, ht⟩

theorem sublist_written (a : α) (fs : List (RecordField α)) :
    ((written a fs).map Prod.fst).Sublist (fs.map RecordField.key) := by
  induction fs with
  | nil => exact .slnil
  | cons f fs ih =>
    rw [written_cons, List.map_append, List.map_cons]
    cases f.write a with
    | none => exact ih.cons f.key
    | some t => exact ih.cons_cons f.key

theorem lookup_written {fs : List (RecordField α)} (hkeys : (fs.map RecordField.key).Nodup)
    {f : RecordField α} (hf : f ∈ fs) : NameMap.lookup f.key (written a fs) = f.write a := by
  induction fs with
  | nil => exact absurd hf List.not_mem_nil
  | cons g fs ih =>
    rw [List.map_cons, List.nodup_cons] at hkeys
    rw [written_cons, NameMap.lookup_append]
    rcases List.mem_cons.mp hf with rfl | hf
    · have hrest : NameMap.lookup f.key (written a fs) = none := by
        refine NameMap.lookup_eq_none_iff.mpr fun e he heq => hkeys.1 ?_
        obtain ⟨g, hg, hgkey, -⟩ := fst_mem_written he
        rw [← heq, ← hgkey]
        exact List.mem_map_of_mem hg
      rw [hrest, Option.or_none]
      cases f.write a with
      | none => rfl
      | some t => exact if_pos rfl
    · have hne : g.key ≠ f.key := fun heq => hkeys.1 (heq ▸ List.mem_map_of_mem hf)
      have hfirst : NameMap.lookup f.key ((g.write a).map (fun t => (g.key, t))).toList = none := by
        cases g.write a with
        | none => rfl
        | some t => exact if_neg hne
      rw [hfirst, Option.none_or]
      exact ih hkeys.2 hf

theorem lookup_writtenExtra {x : Extra α} (hx : s.extra = some x) (a : α) (key : String) :
    NameMap.lookup key (s.writtenExtra a) = ((x.get a).get? key).map Value.toTree := by
  rw [writtenExtra, hx]
  exact NameMap.lookup_map Value.toTree key (x.get a).toList

theorem field?_write_of_mem (hkeys : (s.fields.map RecordField.key).Nodup)
    (hextra : ∀ x, s.extra = some x → ∀ f ∈ s.fields, (x.get a).get? f.key = none)
    {f : RecordField α} (hf : f ∈ s.fields) : (s.write a).field? f.key = f.write a := by
  have hrest : NameMap.lookup f.key (s.writtenExtra a) = none := by
    cases hx : s.extra with
    | none =>
      rw [writtenExtra, hx]
      rfl
    | some x =>
      rw [lookup_writtenExtra hx, hextra x hx f hf]
      rfl
  rw [Tree.field?, fields_write, NameMap.lookup_append, lookup_written hkeys hf, hrest,
    Option.or_none]

theorem field?_write_of_none {x : Extra α} (hx : s.extra = some x) (a : α) {key : String}
    (hkey : s.field? key = none) :
    (s.write a).field? key = ((x.get a).get? key).map Value.toTree := by
  have hfirst : NameMap.lookup key (written a s.fields) = none := by
    refine NameMap.lookup_eq_none_iff.mpr fun e he heq => ?_
    obtain ⟨f, hf, hfkey, -⟩ := fst_mem_written he
    have hne := List.find?_eq_none.mp hkey f hf
    exact hne (beq_iff_eq.mpr (hfkey.trans heq))
  rw [Tree.field?, fields_write, NameMap.lookup_append, hfirst, Option.none_or,
    lookup_writtenExtra hx]

end Schema

/-! ## Scalars of fields -/

namespace RecordField

variable {α : Type}

/-- A field that is no null is written as the text that was read. -/
def KeepsText (f : RecordField α) : Prop :=
  ∀ around here t a b, f.read around here t a = .ok b → t.isNull = false →
    ∃ text, t.text? = some text ∧ f.write b = some (.ofString text)

/-- A field that is no null is written as the boolean that was read. -/
def KeepsFlag (f : RecordField α) : Prop :=
  ∀ around here t a b, f.read around here t a = .ok b → t.isNull = false →
    ∃ flag, t.flag? = some flag ∧ f.write b = some (.ofBool flag)

def OmitsNull (f : RecordField α) : Prop :=
  ∀ around here t a b, f.read around here t a = .ok b → t.isNull = true → f.write b = none

/-- What a field does with a text or a boolean, with a null and with nothing:
flags are kept as booleans and other fields as texts, and only the fields that
are always written stand where there was nothing. -/
structure Keeps (f : RecordField α) (empty : α) (flags always : List String) : Prop where
  text : f.key ∉ flags → f.KeepsText
  flag : f.key ∈ flags → f.KeepsFlag
  null : f.key ∉ always → f.OmitsNull
  empty : f.key ∉ always → f.write empty = none

section

variable {key : String} {empty : α} {flags always : List String}

theorem keeps_text {get : α → String} {set : α → String → α} (hget : ∀ a v, get (set a v) = v)
    (hflags : key ∉ flags) (halways : key ∈ always) :
    (text key get set).Keeps empty flags always where
  text _ around here t a b h _ := by
    obtain ⟨v, hv, rfl⟩ := map_eq_ok.mp h
    refine ⟨v, text?_of_readText hv, ?_⟩
    show some (Tree.ofString (get (set a v))) = _
    rw [hget]
  flag h := absurd h hflags
  null h := absurd halways h
  empty h := absurd halways h

theorem keeps_optionalText {get : α → Option String} {set : α → Option String → α}
    (hget : ∀ a v, get (set a v) = v) (hempty : get empty = none) (hflags : key ∉ flags) :
    (optionalText key get set).Keeps empty flags always where
  text _ around here t a b h hnull := by
    obtain ⟨r, hr, rfl⟩ := map_eq_ok.mp h
    cases r with
    | none =>
      rw [isNull_of_readOptional hr] at hnull
      cases hnull
    | some v =>
      refine ⟨v, text?_of_readText (eq_some_of_readOptional hr rfl), ?_⟩
      show (get (set a (some v))).map Tree.ofString = _
      rw [hget]
      rfl
  flag h := absurd h hflags
  null _ around here t a b h hnull := by
    obtain ⟨r, hr, rfl⟩ := map_eq_ok.mp h
    obtain rfl := Except.ok.inj ((readOptional_of_isNull hnull).symm.trans hr)
    show (get (set a none)).map Tree.ofString = none
    rw [hget]
    rfl
  empty _ := congrArg (Option.map Tree.ofString) hempty

theorem keeps_optionalFlag {get : α → Option Bool} {set : α → Option Bool → α}
    (hget : ∀ a v, get (set a v) = v) (hempty : get empty = none) (hflags : key ∈ flags) :
    (optionalFlag key get set).Keeps empty flags always where
  text h := absurd hflags h
  flag _ around here t a b h hnull := by
    obtain ⟨r, hr, rfl⟩ := map_eq_ok.mp h
    cases r with
    | none =>
      rw [isNull_of_readOptional hr] at hnull
      cases hnull
    | some v =>
      refine ⟨v, flag?_of_readFlag (eq_some_of_readOptional hr rfl), ?_⟩
      show (get (set a (some v))).map Tree.ofBool = _
      rw [hget]
      rfl
  null _ around here t a b h hnull := by
    obtain ⟨r, hr, rfl⟩ := map_eq_ok.mp h
    obtain rfl := Except.ok.inj ((readOptional_of_isNull hnull).symm.trans hr)
    show (get (set a none)).map Tree.ofBool = none
    rw [hget]
    rfl
  empty _ := congrArg (Option.map Tree.ofBool) hempty

end

end RecordField

theorem flag?_ofBool (b : Bool) : (Tree.ofBool b).flag? = some b := by
  cases b with
  | true => rfl
  | false => rfl

/-- The tree of a value without tags and repeated keys has that value. -/
theorem value?_toTree {v : Value} (huntagged : v.isUntagged = true)
    (hkeys : v.repeatedKey? = none) : v.toTree.value? = some v := by
  rw [Tree.value?, readValue_toTree .alone false v []
    ⟨Value.keepsTags_of_isUntagged false v huntagged, (fun h => by cases h), fun _ => hkeys⟩]
  rfl

/-! ## Whole records -/

namespace Schema

variable {α : Type} {s : Schema α}

/-- How a record is written again. Its other keys have the values that they
had, and its fields, unless they were null, the same booleans if they are
flags and otherwise the same texts. Nothing else is there, fields that were null
included, but fields that are always written, and no key is there twice. -/
structure Rewrites (s : Schema α) (flags always : List String) (old new : Tree) : Prop where
  unknown : ∀ key u, old.field? key = some u → s.field? key = none →
    ∃ u' v, new.field? key = some u' ∧ u.value? = some v ∧ u'.value? = some v
  texts : ∀ f ∈ s.fields, f.key ∉ flags → ∀ u, old.field? f.key = some u →
    u.isNull = false →
    ∃ u' text, new.field? f.key = some u' ∧ u.text? = some text ∧ u'.text? = some text
  flags : ∀ f ∈ s.fields, f.key ∈ flags → ∀ u, old.field? f.key = some u →
    u.isNull = false →
    ∃ u' b, new.field? f.key = some u' ∧ u.flag? = some b ∧ u'.flag? = some b
  others : ∀ key u', new.field? key = some u' → key ∉ always →
    ∃ u, old.field? key = some u ∧ (s.field? key = none ∨ u.isNull = false)
  distinct : (new.fields.map Prod.fst).Nodup

/-- What makes a schema say again what it has read: the parts of its records
are independent of each other, and each field says its text or its boolean. -/
structure Lawful (s : Schema α) (x : Extra α) (flags always : List String) : Prop where
  extra : s.extra = some x
  keys : (s.fields.map RecordField.key).Nodup
  leaves : ∀ f ∈ s.fields, s.Leaves f.key f.write
  set : ∀ f ∈ s.fields, ∀ b m, f.write (x.set b m) = f.write b
  get : ∀ b m, x.get (x.set b m) = m
  keeps : ∀ f ∈ s.fields, f.Keeps s.empty flags always

variable {x : Extra α} {flags always : List String} {path : Path} {t : Tree} {a : α}

theorem Lawful.write_of_read (hs : s.Lawful x flags always) (h : s.read path t = .ok a)
    {f : RecordField α} (hf : f ∈ s.fields) :
    (t.field? f.key = none ∧ f.write a = f.write s.empty) ∨
      ∃ u here b c, t.field? f.key = some u ∧ f.read path here u b = .ok c ∧
        f.write a = f.write c := by
  refine view_of_read f f.write h (field?_of_mem hs.keys hf) (hs.leaves f hf) fun x' hx' => ?_
  obtain rfl := Option.some.inj (hs.extra.symm.trans hx')
  exact hs.set f hf

theorem Lawful.keepsWithin (hs : s.Lawful x flags always) (h : s.read path t = .ok a) :
    s.KeepsWithin t.depth (x.get a) :=
  keepsWithin_of_read h (Nat.le_succ _) hs.extra hs.get

theorem Lawful.field?_write (hs : s.Lawful x flags always) (h : s.read path t = .ok a)
    {f : RecordField α} (hf : f ∈ s.fields) : (s.write a).field? f.key = f.write a := by
  refine field?_write_of_mem hs.keys (fun x' hx' g hg => ?_) hf
  obtain rfl := Option.some.inj (hs.extra.symm.trans hx')
  cases hget : (x.get a).get? g.key with
  | none => rfl
  | some v =>
    have hnone := (hs.keepsWithin h g.key v hget).1
    rw [field?_of_mem hs.keys hg] at hnone
    cases hnone

theorem Lawful.distinct (hs : s.Lawful x flags always) (h : s.read path t = .ok a) :
    ((s.write a).fields.map Prod.fst).Nodup := by
  have hextra : s.writtenExtra a = (x.get a).toList.map (fun e => (e.1, e.2.toTree)) := by
    rw [writtenExtra, hs.extra]
    rfl
  have hnames : (s.writtenExtra a).map Prod.fst = (x.get a).toList.map Prod.fst := by
    rw [hextra, List.map_map]
    rfl
  rw [fields_write, List.map_append, List.nodup_append, hnames]
  refine ⟨?_, NameMap.nodup_of_increasing (x.get a).increasing, ?_⟩
  · exact hs.keys.sublist (sublist_written a s.fields)
  · intro key hkey key' hkey' heq
    subst heq
    obtain ⟨e, he, rfl⟩ := List.mem_map.mp hkey
    obtain ⟨e', he', heq⟩ := List.mem_map.mp hkey'
    obtain ⟨f, hf, hfkey, -⟩ := fst_mem_written he
    have hnone := (hs.keepsWithin h e'.1 e'.2 (NameMap.mem_toList.mp he')).1
    rw [heq, ← hfkey, field?_of_mem hs.keys hf] at hnone
    cases hnone

/-- A record that has been read, with no key there twice, is written again. -/
theorem Lawful.rewrites_write (hs : s.Lawful x flags always) (h : s.read path t = .ok a)
    (hkeys : (t.fields.map Prod.fst).Nodup) : s.Rewrites flags always t (s.write a) where
  unknown key u hu hkey := by
    rcases kept_of_read h hs.extra hs.get hkeys hkey with ⟨hnone, -⟩ | ⟨u', v, hu', hv, hget⟩
    · rw [hnone] at hu
      cases hu
    · obtain rfl := Option.some.inj (hu.symm.trans hu')
      obtain ⟨-, hsound, hrepeated⟩ := hs.keepsWithin h key v hget
      refine ⟨v.toTree, v, ?_, hv, value?_toTree (hsound.untagged rfl) hrepeated⟩
      rw [field?_write_of_none hs.extra a hkey, hget]
      rfl
  texts f hf hflags u hu hnull := by
    rcases hs.write_of_read h hf with ⟨hnone, -⟩ | ⟨u', here, b, c, hu', hread, hwrite⟩
    · rw [hnone] at hu
      cases hu
    · obtain rfl := Option.some.inj (hu.symm.trans hu')
      obtain ⟨text, htext, hc⟩ := (hs.keeps f hf).text hflags _ _ _ _ _ hread hnull
      exact ⟨.ofString text, text, (hs.field?_write h hf).trans (hwrite.trans hc), htext, rfl⟩
  flags f hf hflags u hu hnull := by
    rcases hs.write_of_read h hf with ⟨hnone, -⟩ | ⟨u', here, b, c, hu', hread, hwrite⟩
    · rw [hnone] at hu
      cases hu
    · obtain rfl := Option.some.inj (hu.symm.trans hu')
      obtain ⟨flag, hflag, hc⟩ := (hs.keeps f hf).flag hflags _ _ _ _ _ hread hnull
      exact ⟨.ofBool flag, flag, (hs.field?_write h hf).trans (hwrite.trans hc), hflag,
        flag?_ofBool flag⟩
  others key u' hu' hkey' := by
    cases hkey : s.field? key with
    | some f =>
      have hf := mem_of_field? hkey
      obtain rfl := key_of_field? hkey
      rw [hs.field?_write h hf] at hu'
      rcases hs.write_of_read h hf with ⟨-, hwrite⟩ | ⟨u, here, b, c, hu, hread, hwrite⟩
      · rw [hwrite, (hs.keeps f hf).empty hkey'] at hu'
        cases hu'
      · refine ⟨u, hu, Or.inr (Bool.eq_false_iff.mpr fun hnull => ?_)⟩
        rw [hwrite, (hs.keeps f hf).null hkey' _ _ _ _ _ hread hnull] at hu'
        cases hu'
    | none =>
      rw [field?_write_of_none hs.extra a hkey] at hu'
      rcases kept_of_read h hs.extra hs.get hkeys hkey with ⟨-, hget⟩ | ⟨u, v, hu, -⟩
      · rw [hget] at hu'
        cases hu'
      · exact ⟨u, hu, Or.inl rfl⟩
  distinct := hs.distinct h

theorem Rewrites.of_fields {old old' new : Tree} (h : s.Rewrites flags always old new)
    (hfields : old'.fields = old.fields) : s.Rewrites flags always old' new := by
  have hfield : ∀ key, old'.field? key = old.field? key := by
    intro key
    rw [Tree.field?, Tree.field?, hfields]
  exact {
    unknown := fun key u hu => h.unknown key u (hfield key ▸ hu)
    texts := fun f hf hflags u hu => h.texts f hf hflags u (hfield f.key ▸ hu)
    flags := fun f hf hflags u hu => h.flags f hf hflags u (hfield f.key ▸ hu)
    others := fun key u' hu' => hfield key ▸ h.others key u' hu'
    distinct := h.distinct }

end Schema

end PlaneAccess.Yaml
