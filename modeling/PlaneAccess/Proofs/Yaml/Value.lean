import PlaneAccess.Proofs.Except
import PlaneAccess.Proofs.Yaml.Meaning
import PlaneAccess.Yaml.Read.Value
import PlaneAccess.Yaml.Write

/-!
# Written values read back

Reading the tree of a value gives the value (`readValue_toTree`). It takes
that the place allows for its tags, that each tag comes back as it is, and
where keys are compared, that no mapping repeats one.
-/

namespace PlaneAccess.Yaml

/-! ## Scalars -/

namespace Meaning

/-- A string means a string in the form in which it is written. -/
theorem ofUntagged_formOf (s : String) : ofUntagged (Style.formOf s) s = string := by
  unfold ofUntagged
  split
  · rename_i hplain
    have hreads : Style.readsAsString s = true := by
      simp only [Style.formOf, beq_iff_eq] at hplain
      split at hplain
      · split at hplain
        · cases hplain
        · cases hplain
      · split at hplain
        · rename_i h
          exact (Bool.and_eq_true_iff.mp h).1
        · cases hplain
    unfold Style.readsAsString at hreads
    split at hreads
    · assumption
    · cases hreads
  · rfl

end Meaning

theorem readValue_scalar (place : ValuePlace) (path : Path) (form : Form) (text : String) :
    readValue place path (.scalar none form text) =
      valueOf place path (Meaning.ofUntagged form text) text := by
  rfl

/-! ## Tags -/

namespace Value

/-- Whether a tag is the same after it has been written and read. -/
def isKeptTag (tag : String) : Bool := bareTag (bareTag (markedTag tag)) == tag

mutual

def isUntagged : Value → Bool
  | tagged _ _ => false
  | sequence items => areUntagged items
  | mapping entries => areUntaggedEntries entries
  | _ => true

def areUntagged : List Value → Bool
  | [] => true
  | v :: vs => isUntagged v && areUntagged vs

def areUntaggedEntries : List (Value × Value) → Bool
  | [] => true
  | (k, v) :: es => isUntagged k && isUntagged v && areUntaggedEntries es

end

mutual

/-- Whether all tags in a value come back as they are, and none of them is
under another one. -/
def keepsTags (underTag : Bool) : Value → Bool
  | tagged tag v => !underTag && isKeptTag tag && keepsTags true v
  | sequence items => keepTags items
  | mapping entries => keepTagsEntries entries
  | _ => true

def keepTags : List Value → Bool
  | [] => true
  | v :: vs => keepsTags false v && keepTags vs

def keepTagsEntries : List (Value × Value) → Bool
  | [] => true
  | (k, v) :: es => keepsTags false k && keepsTags false v && keepTagsEntries es

end

mutual

theorem keepsTags_of_isUntagged (underTag : Bool) :
    ∀ v : Value, v.isUntagged = true → keepsTags underTag v = true
  | .tagged _ _, h => absurd h Bool.false_ne_true
  | .sequence items, h => by
    rw [keepsTags]
    rw [isUntagged] at h
    exact keepTags_of_areUntagged items h
  | .mapping entries, h => by
    rw [keepsTags]
    rw [isUntagged] at h
    exact keepTagsEntries_of_areUntaggedEntries entries h
  | .null, _ => rfl
  | .bool _, _ => rfl
  | .int _, _ => rfl
  | .float _, _ => rfl
  | .string _, _ => rfl

theorem keepTags_of_areUntagged :
    ∀ vs : List Value, areUntagged vs = true → keepTags vs = true
  | [], _ => rfl
  | v :: vs, h => by
    rw [areUntagged, Bool.and_eq_true] at h
    rw [keepTags, keepsTags_of_isUntagged false v h.1, keepTags_of_areUntagged vs h.2]
    rfl

theorem keepTagsEntries_of_areUntaggedEntries :
    ∀ es : List (Value × Value), areUntaggedEntries es = true → keepTagsEntries es = true
  | [], _ => rfl
  | (k, v) :: es, h => by
    rw [areUntaggedEntries, Bool.and_eq_true, Bool.and_eq_true] at h
    rw [keepTagsEntries, keepsTags_of_isUntagged false k h.1.1,
      keepsTags_of_isUntagged false v h.1.2, keepTagsEntries_of_areUntaggedEntries es h.2]
    rfl

end

theorem head?_markedTag (tag : String) : (markedTag tag).toList.head? = some '!' := by
  unfold markedTag
  split
  · rename_i h
    simpa using h
  · rw [String.toList_append]
    rfl

end Value

theorem readTag_markedTag (path : Path) {tag : String} (h : Value.isKeptTag tag = true) :
    readTag .alone path (some (Value.markedTag tag)) = .ok (some tag) := by
  have hown : ownTag (some (Value.markedTag tag)) = some tag := by
    rw [ownTag, Value.head?_markedTag, if_pos (by decide)]
    exact congrArg some (beq_iff_eq.mp h)
  unfold readTag
  rw [hown]

theorem readValue_sequence (place : ValuePlace) (path : Path) {tag own : Option String}
    (h : readTag place path tag = .ok own) (items : List Tree) :
    readValue place path (.sequence tag items) =
      (readItems place path 0 items).map (fun vs => withTag own (.sequence vs)) := by
  rw [readValue, h]
  cases readItems place path 0 items with
  | error e => rfl
  | ok vs => rfl

theorem readValue_mapping (place : ValuePlace) (path : Path) {tag own : Option String}
    (h : readTag place path tag = .ok own) (entries : List (Tree × Tree)) :
    readValue place path (.mapping tag entries) =
      (readEntries place path [] entries).map (fun es => withTag own (.mapping es)) := by
  rw [readValue, h]
  cases readEntries place path [] entries with
  | error e => rfl
  | ok es => rfl

def Tree.isBare : Tree → Bool
  | .scalar none _ _ => true
  | .sequence none _ => true
  | .mapping none _ => true
  | _ => false

theorem Value.isBare_toTree {v : Value} (h : v.keepsTags true = true) :
    v.toTree.isBare = true := by
  cases v with
  | tagged tag v => cases h
  | _ => rfl

theorem readValue_withTag {path : Path} {t : Tree} {v : Value} {tag : String}
    (ht : t.isBare = true) (hv : readValue .alone path t = .ok v)
    (htag : Value.isKeptTag tag = true) :
    readValue .alone path (t.withTag (Value.markedTag tag)) = .ok (.tagged tag v) := by
  have hread := readTag_markedTag path htag
  cases t with
  | scalar tag' form text =>
    cases tag' with
    | some _ => cases ht
    | none =>
      rw [readValue_scalar] at hv
      rw [Tree.withTag, readValue, hread]
      show (valueOf .alone path (Meaning.ofUntagged form text) text).bind _ = _
      rw [hv]
      rfl
  | sequence tag' items =>
    cases tag' with
    | some _ => cases ht
    | none =>
      rw [readValue_sequence .alone path rfl] at hv
      rw [Tree.withTag, readValue_sequence .alone path hread]
      cases hi : readItems .alone path 0 items with
      | error e =>
        rw [hi] at hv
        cases hv
      | ok vs =>
        rw [hi] at hv
        obtain rfl := Except.ok.inj hv
        rfl
  | mapping tag' entries =>
    cases tag' with
    | some _ => cases ht
    | none =>
      rw [readValue_mapping .alone path rfl] at hv
      rw [Tree.withTag, readValue_mapping .alone path hread]
      cases he : readEntries .alone path [] entries with
      | error e =>
        rw [he] at hv
        cases hv
      | ok es =>
        rw [he] at hv
        obtain rfl := Except.ok.inj hv
        rfl
  | reference t => cases ht
  | fault f => cases ht

/-! ## Whole values -/

/-- What reading asks of a value, by the place that it is read at. -/
structure Readable (place : ValuePlace) (underTag : Bool) (v : Value) : Prop where
  tags : v.keepsTags underTag = true
  untagged : place = .inRecord → v.isUntagged = true
  keys : place = .alone → v.repeatedKey? = none

mutual

/-- A written value is read as itself. -/
theorem readValue_toTree (place : ValuePlace) (underTag : Bool) :
    ∀ (v : Value) (path : Path), Readable place underTag v →
      readValue place path v.toTree = .ok v
  | .null, path, _ => rfl
  | .bool b, path, _ => by
    cases b with
    | true => rfl
    | false => rfl
  | .int i, path, _ => by
    rw [Value.toTree, Tree.ofWord, readValue_scalar, Meaning.ofUntagged, if_pos (by decide),
      Meaning.ofPlain_integer]
    rfl
  | .float x, path, _ => by
    rw [Value.toTree, Tree.ofWord, readValue_scalar, Meaning.ofUntagged, if_pos (by decide),
      Meaning.ofPlain_float]
    rfl
  | .string s, path, _ => by
    rw [Value.toTree, Tree.ofString, readValue_scalar, Meaning.ofUntagged_formOf]
    rfl
  | .sequence items, path, h => by
    rw [Value.toTree, readValue_sequence place path rfl,
      readItems_toTrees place items path 0 h.tags h.untagged h.keys]
    rfl
  | .mapping entries, path, h => by
    rw [Value.toTree, readValue_mapping place path rfl,
      readEntries_toTreeEntries place entries path [] h.tags h.untagged h.keys]
    rfl
  | .tagged tag v, path, h => by
    cases place with
    | inRecord => cases (h.untagged rfl)
    | alone =>
      have htags := h.tags
      rw [Value.keepsTags, Bool.and_eq_true, Bool.and_eq_true] at htags
      have hv := readValue_toTree .alone true v path ⟨htags.2, (fun hp => by cases hp), h.keys⟩
      exact readValue_withTag (Value.isBare_toTree htags.2) hv htags.1.2

theorem readItems_toTrees (place : ValuePlace) :
    ∀ (vs : List Value) (path : Path) (i : Nat), Value.keepTags vs = true →
      (place = .inRecord → Value.areUntagged vs = true) →
      (place = .alone → Value.repeatedInItems vs = none) →
      readItems place path i (Value.toTrees vs) = .ok vs
  | [], path, i, _, _, _ => rfl
  | v :: vs, path, i, htags, huntagged, hkeys => by
    rw [Value.keepTags, Bool.and_eq_true] at htags
    have hu : place = .inRecord → v.isUntagged = true ∧ Value.areUntagged vs = true := by
      intro hp
      have := huntagged hp
      rwa [Value.areUntagged, Bool.and_eq_true] at this
    have hk : place = .alone → v.repeatedKey? = none ∧ Value.repeatedInItems vs = none := by
      intro hp
      have := hkeys hp
      rwa [Value.repeatedInItems, Option.or_eq_none_iff] at this
    rw [Value.toTrees, readItems, readValue_toTree place false v (.index i :: path)
        ⟨htags.1, fun hp => (hu hp).1, fun hp => (hk hp).1⟩,
      ok_bind, readItems_toTrees place vs path (i + 1) htags.2 (fun hp => (hu hp).2)
        (fun hp => (hk hp).2)]
    rfl

/-- Written entries are read as themselves, behind those before them. -/
theorem readEntries_toTreeEntries (place : ValuePlace) :
    ∀ (es : List (Value × Value)) (path : Path) (before : List (Value × Value)),
      Value.keepTagsEntries es = true →
      (place = .inRecord → Value.areUntaggedEntries es = true) →
      (place = .alone → Value.repeatedInEntries before.reverse es = none) →
      readEntries place path before (Value.toTreeEntries es) = .ok (before ++ es)
  | [], path, before, _, _, _ => by rw [List.append_nil]; rfl
  | (k, v) :: es, path, before, htags, huntagged, hkeys => by
    rw [Value.keepTagsEntries, Bool.and_eq_true, Bool.and_eq_true] at htags
    have hu : place = .inRecord →
        (k.isUntagged = true ∧ v.isUntagged = true) ∧ Value.areUntaggedEntries es = true := by
      intro hp
      have := huntagged hp
      rwa [Value.areUntaggedEntries, Bool.and_eq_true, Bool.and_eq_true] at this
    -- the keys before are looked through in the other order
    have hk : place = .alone → k.repeatedKey? = none ∧ Value.hasKey k before = false ∧
        v.repeatedKey? = none ∧
        Value.repeatedInEntries (before ++ [(k, v)]).reverse es = none := by
      intro hp
      have := hkeys hp
      rw [Value.repeatedInEntries, Option.or_eq_none_iff] at this
      obtain ⟨hkey, hrest⟩ := this
      have hhas : Value.hasKey k before.reverse = Value.hasKey k before := List.any_reverse
      rw [hhas] at hrest
      cases hb : Value.hasKey k before with
      | true =>
        rw [hb] at hrest
        cases hrest
      | false =>
        rw [hb, if_neg (by decide), Option.or_eq_none_iff] at hrest
        rw [List.reverse_append]
        exact ⟨hkey, rfl, hrest.1, hrest.2⟩
    have hnew : (place == .alone && Value.hasKey k before) = false := by
      cases place with
      | inRecord => rfl
      | alone => rw [(hk rfl).2.1]; rfl
    rw [Value.toTreeEntries, readEntries, readValue_toTree place false k path
        ⟨htags.1.1, fun hp => (hu hp).1.1, fun hp => (hk hp).1⟩, ok_bind, hnew,
      if_neg (by decide)]
    rw [readValue_toTree place false v _
        ⟨htags.1.2, fun hp => (hu hp).1.2, fun hp => (hk hp).2.2.1⟩]
    have hes := readEntries_toTreeEntries place es path (before ++ [(k, v)]) htags.2
      (fun hp => (hu hp).2) (fun hp => (hk hp).2.2.2)
    rw [List.append_assoc] at hes
    exact hes

end

end PlaneAccess.Yaml
