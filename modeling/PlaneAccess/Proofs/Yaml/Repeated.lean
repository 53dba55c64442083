import PlaneAccess.Proofs.Yaml.Rewrite

/-!
# Keys that are there twice

A value that is kept is not read if a mapping in it has a key twice
(`repeatsKey_of_readValue`), and neither is a record that has a field twice
(`Schema.not_repeats_of_read`). Of a key that is no field a record keeps the
last value (`Schema.keepsLast_of_read`).
-/

namespace PlaneAccess.Yaml

/-! ## Values -/

namespace Value

/-- Whether a value in a list says the same as a later one. -/
def anySame : List Value → Bool
  | [] => false
  | v :: vs => vs.any (fun w => v.same w) || anySame vs

end Value

namespace Tree

def keyValues (es : List (Tree × Tree)) : List Value := es.filterMap (fun e => e.1.value?)

mutual

/-- Whether a mapping within a tree has two keys that say the same. -/
def repeatsKey : Tree → Bool
  | sequence _ items => anyRepeatsKey items
  | mapping _ entries => Value.anySame (keyValues entries) || anyEntryRepeatsKey entries
  | reference t => t.repeatsKey
  | scalar _ _ _ => false
  | fault _ => false

def anyRepeatsKey : List Tree → Bool
  | [] => false
  | t :: ts => t.repeatsKey || anyRepeatsKey ts

def anyEntryRepeatsKey : List (Tree × Tree) → Bool
  | [] => false
  | (k, v) :: es => k.repeatsKey || v.repeatsKey || anyEntryRepeatsKey es

end

theorem repeatsKey_target (t : Tree) : t.target.repeatsKey = t.repeatsKey := by
  fun_induction target t with
  | case1 t ih => rw [ih, repeatsKey]
  | case2 t _ => rfl

theorem repeatsKey_of_isNull {t : Tree} (h : t.isNull = true) : t.repeatsKey = false := by
  obtain ⟨tag, form, text, htarget⟩ := target_of_isNull h
  rw [← repeatsKey_target, htarget, repeatsKey]

end Tree

mutual

/-- In a value that has been read on its own no mapping has a key twice. -/
theorem repeatsKey_of_readValue :
    ∀ (t : Tree) (path : Path) (v : Value), readValue .alone path t = .ok v →
      t.repeatsKey = false
  | .scalar tag form text, path, v, h => by rw [Tree.repeatsKey]
  | .sequence tag items, path, v, h => by
    rw [readValue] at h
    obtain ⟨own, -, h⟩ := bind_eq_ok.mp h
    obtain ⟨vs, hvs, -⟩ := bind_eq_ok.mp h
    rw [Tree.repeatsKey]
    exact anyRepeatsKey_of_readItems items path 0 vs hvs
  | .mapping tag entries, path, v, h => by
    rw [readValue] at h
    obtain ⟨own, -, h⟩ := bind_eq_ok.mp h
    obtain ⟨es, hes, -⟩ := bind_eq_ok.mp h
    obtain ⟨hkeys, -, hentries⟩ := anyEntryRepeatsKey_of_readEntries entries path [] es hes
    rw [Tree.repeatsKey, hkeys, hentries]
    rfl
  | .reference t, path, v, h => by
    rw [readValue] at h
    rw [Tree.repeatsKey]
    exact repeatsKey_of_readValue t path v h
  | .fault f, path, v, h => by rw [Tree.repeatsKey]

theorem anyRepeatsKey_of_readItems :
    ∀ (ts : List Tree) (path : Path) (i : Nat) (vs : List Value),
      readItems .alone path i ts = .ok vs → Tree.anyRepeatsKey ts = false
  | [], path, i, vs, h => by rw [Tree.anyRepeatsKey]
  | t :: ts, path, i, vs, h => by
    rw [readItems] at h
    obtain ⟨v, hv, h⟩ := bind_eq_ok.mp h
    obtain ⟨ws, hws, -⟩ := bind_eq_ok.mp h
    rw [Tree.anyRepeatsKey, repeatsKey_of_readValue t _ v hv,
      anyRepeatsKey_of_readItems ts path (i + 1) ws hws]
    rfl

theorem anyEntryRepeatsKey_of_readEntries :
    ∀ (ts : List (Tree × Tree)) (path : Path) (before all : List (Value × Value)),
      readEntries .alone path before ts = .ok all →
      Value.anySame (Tree.keyValues ts) = false ∧
        (∀ key ∈ Tree.keyValues ts, Value.hasKey key before = false) ∧
        Tree.anyEntryRepeatsKey ts = false
  | [], path, before, all, h => by
    rw [Tree.anyEntryRepeatsKey]
    exact ⟨rfl, fun _ h => absurd h List.not_mem_nil, rfl⟩
  | (k, v) :: ts, path, before, all, h => by
    rw [readEntries] at h
    obtain ⟨key, hkey, h⟩ := bind_eq_ok.mp h
    dsimp only at h
    split at h
    · cases h
    rename_i hnew
    obtain ⟨value, hvalue, h⟩ := bind_eq_ok.mp h
    obtain ⟨hkeys, hbefore, hentries⟩ := anyEntryRepeatsKey_of_readEntries ts path _ all h
    have hvalues : Tree.keyValues ((k, v) :: ts) = key :: Tree.keyValues ts := by
      rw [Tree.keyValues, List.filterMap_cons,
        value?_of_readValue hkey ((sound_readValue .alone k path key hkey).keys rfl)]
      rfl
    -- a later key is compared with this one and with those before it
    have hlater : ∀ key' ∈ Tree.keyValues ts,
        Value.hasKey key' before = false ∧ key.same key' = false := by
      intro key' hkey'
      have hnone := hbefore key' hkey'
      rw [Value.hasKey, List.any_append, Bool.or_eq_false_iff] at hnone
      refine ⟨hnone.1, ?_⟩
      simpa using hnone.2
    refine ⟨?_, ?_, ?_⟩
    · rw [hvalues, Value.anySame, hkeys, Bool.or_false, List.any_eq_false]
      intro key' hkey'
      rw [(hlater key' hkey').2]
      decide
    · rw [hvalues]
      intro key' hkey'
      rcases List.mem_cons.mp hkey' with rfl | hkey'
      · simpa using hnew
      · exact (hlater key' hkey').1
    · rw [Tree.anyEntryRepeatsKey, repeatsKey_of_readValue k path key hkey,
        repeatsKey_of_readValue v _ value hvalue, hentries]
      rfl

end

/-- Among the fields of a record the keys are compared later, with the same
result. -/
theorem repeatsKey_of_repeatedKey? {place : ValuePlace} {path : Path} {t : Tree} {v : Value}
    (h : readValue place path t = .ok v) (hkeys : v.repeatedKey? = none) :
    t.repeatsKey = false :=
  repeatsKey_of_readValue t [] v (readValue_alone place t path [] v h hkeys)

/-! ## Records -/

namespace Schema

variable {α : Type} {s : Schema α} {x : Extra α} {path : Path} {t : Tree} {a : α}

def known (s : Schema α) (keys : List String) : List String :=
  keys.filter (fun key => (s.field? key).isSome)

def RepeatsField (s : Schema α) (t : Tree) : Prop := ¬ (s.known (t.fields.map Prod.fst)).Nodup

/-- A record has a field twice, or in the value of another key a mapping has a
key twice. -/
def Repeats (s : Schema α) (t : Tree) : Prop :=
  s.RepeatsField t ∨ ∃ e ∈ s.unknown t.fields, e.2.repeatsKey = true

instance (s : Schema α) (t : Tree) : Decidable (s.RepeatsField t) :=
  inferInstanceAs (Decidable (¬ _))

instance (s : Schema α) (t : Tree) : Decidable (s.Repeats t) :=
  inferInstanceAs (Decidable (_ ∨ _))

/-- Of keys that are no fields the value that comes last is kept. -/
def KeepsLast (s : Schema α) (t : Tree) (kept : NameMap Value) : Prop :=
  ∀ key, s.field? key = none →
    kept.get? key = (NameMap.lookup key t.fields.reverse).bind Tree.value?

theorem repeats_congr {u : Tree} (h : t.fields = u.fields) : s.Repeats t ↔ s.Repeats u := by
  rw [Repeats, Repeats, RepeatsField, RepeatsField, h]

theorem keepsLast_congr {u : Tree} (h : t.fields = u.fields) {kept : NameMap Value} :
    s.KeepsLast t kept ↔ s.KeepsLast u kept := by
  rw [KeepsLast, KeepsLast, h]

theorem known_cons_of_some {key : String} {f : RecordField α} (h : s.field? key = some f)
    (keys : List String) : s.known (key :: keys) = key :: s.known keys :=
  List.filter_cons_of_pos (by rw [h]; rfl)

theorem known_cons_of_none {key : String} (h : s.field? key = none) (keys : List String) :
    s.known (key :: keys) = s.known keys :=
  List.filter_cons_of_neg (by simp [h])

/-- A field is read once at most. -/
theorem nodup_known_of_foldlM :
    ∀ (es : List (Tree × Tree)) (p q : Partial α), es.foldlM (s.readEntry path) p = .ok q →
      (s.known ((Tree.keyed es).map Prod.fst)).Nodup ∧
        ∀ key ∈ s.known ((Tree.keyed es).map Prod.fst), key ∉ p.seen := by
  intro es
  induction es with
  | nil => exact fun p q _ => ⟨List.nodup_nil, fun _ h => absurd h List.not_mem_nil⟩
  | cons e es ih =>
    intro p q h
    obtain ⟨r, hr, h⟩ := bind_eq_ok.mp h
    obtain ⟨key, hkey, hcases⟩ := readEntry_cases hr
    obtain ⟨hnodup, hseen⟩ := ih r q h
    rw [Tree.keyed_cons_of_text (text?_of_readKey hkey), List.map_cons]
    rcases hcases with ⟨f, b, hf, hnew, -, rfl⟩ | ⟨_, v, hnone, -, -, rfl⟩ | ⟨hnone, -, rfl⟩
    · rw [known_cons_of_some hf]
      refine ⟨List.nodup_cons.mpr ⟨fun hmem => ?_, hnodup⟩, ?_⟩
      · exact hseen key hmem List.mem_cons_self
      · intro key' hkey' hmem
        rcases List.mem_cons.mp hkey' with rfl | hkey'
        · exact hnew hmem
        · exact hseen key' hkey' (List.mem_cons_of_mem _ hmem)
    · rw [known_cons_of_none hnone]
      exact ⟨hnodup, hseen⟩
    · rw [known_cons_of_none hnone]
      exact ⟨hnodup, hseen⟩

theorem not_repeatsField_of_read (h : s.read path t = .ok a) : ¬ s.RepeatsField t := by
  obtain ⟨es, p, hes, hp, -⟩ := read_cases h
  rw [RepeatsField, fields_of_readMapping hes, not_not]
  exact (nodup_known_of_foldlM es _ p hp).1

/-- A record that has been read has no field twice, and in the values of its
other keys no mapping has a key twice. -/
theorem not_repeats_of_read (h : s.read path t = .ok a) (hx : s.extra = some x)
    (hget : ∀ b m, x.get (x.set b m) = m) : ¬ s.Repeats t := by
  rintro (hfield | ⟨e, he, hrepeats⟩)
  · exact not_repeatsField_of_read h hfield
  · obtain ⟨pairs, hpairs, -, hread⟩ := pairs_of_read h hx hget
    rw [← hpairs] at he
    obtain ⟨e', he', rfl⟩ := List.mem_map.mp he
    obtain ⟨⟨here, hv⟩, hkeys⟩ := hread e' he'
    rw [repeatsKey_of_repeatedKey? hv hkeys] at hrepeats
    cases hrepeats

theorem keepsLast_of_read (h : s.read path t = .ok a) (hx : s.extra = some x)
    (hget : ∀ b m, x.get (x.set b m) = m) : s.KeepsLast t (x.get a) := by
  intro key hkey
  obtain ⟨pairs, hpairs, hkept, hread⟩ := pairs_of_read h hx hget
  have hvalues : ∀ e ∈ pairs.reverse, e.1.2.value? = some e.2 := by
    intro e he
    obtain ⟨⟨here, hv⟩, hkeys⟩ := hread e (List.mem_reverse.mp he)
    exact value?_of_readValue hv hkeys
  have hreverse : s.unknown t.fields.reverse = (s.unknown t.fields).reverse :=
    List.filter_reverse
  calc (x.get a).get? key
      = NameMap.lookup key (pairs.map (fun e => (e.1.1, e.2))).reverse := by
        rw [hkept, NameMap.get?_ofList_last]
    _ = (NameMap.lookup key (pairs.reverse.map Prod.fst)).bind Tree.value? := by
        rw [← List.map_reverse]
        exact lookup_pairs key hvalues
    _ = (NameMap.lookup key t.fields.reverse).bind Tree.value? := by
        rw [List.map_reverse, hpairs, ← hreverse, lookup_unknown hkey]

end Schema

end PlaneAccess.Yaml
