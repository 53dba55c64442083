import PlaneAccess.NameMap.Lemmas
import PlaneAccess.Proofs.Yaml.Read

/-!
# What a tree holds

The items, the fields and the value of a tree, with references followed. A
value that can be read at all is the same wherever it is read
(`readValue_alone`), so it is the one of its tree.
-/

namespace PlaneAccess.Yaml

namespace Tree

def items (t : Tree) : List Tree :=
  match t.target with
  | .sequence _ ts => ts
  | _ => []

/-- Values by the texts of their keys, without those of other keys. -/
def keyed (es : List (Tree × Tree)) : List (String × Tree) :=
  es.filterMap (fun e => e.1.text?.map (fun key => (key, e.2)))

def fields (t : Tree) : List (String × Tree) :=
  match t.target with
  | .mapping _ es => keyed es
  | _ => []

def field? (t : Tree) (key : String) : Option Tree := NameMap.lookup key t.fields

def value? (t : Tree) : Option Value := (readValue .alone [] t).toOption

/-- Whether a tree is a null that is left out: a plain scalar with no tag but
that of null. -/
def isNull (t : Tree) : Bool :=
  match t.target with
  | .scalar none .plain text => text.isEmpty || Meaning.isNullWord text
  | .scalar (some tag) .plain text => tag == nullTag && Meaning.isNullWord text
  | _ => false

def flag? (t : Tree) : Option Bool := (readFlag [] t).toOption

theorem keyed_cons_of_text {k v : Tree} {key : String} (h : k.text? = some key)
    (es : List (Tree × Tree)) : keyed ((k, v) :: es) = (key, v) :: keyed es := by
  rw [keyed, List.filterMap_cons, h]
  rfl

end Tree

/-! ## Readers of scalars -/

theorem text?_of_readKey {path : Path} {t : Tree} {key : String} (h : readKey path t = .ok key) :
    t.text? = some key := by
  unfold readKey at h
  split at h
  · rename_i htarget
    obtain rfl := Except.ok.inj h
    rw [Tree.text?, htarget]
  · cases h

theorem text?_of_readText {path : Path} {t : Tree} {text : String}
    (h : readText path t = .ok text) : t.text? = some text := by
  unfold readText at h
  split at h
  · rename_i htarget
    obtain rfl := Except.ok.inj h
    rw [Tree.text?, htarget]
  · cases h

/-- Where a boolean is read makes a difference for errors only. -/
theorem flag?_of_readFlag {path : Path} {t : Tree} {b : Bool} (h : readFlag path t = .ok b) :
    t.flag? = some b := by
  unfold readFlag at h
  dsimp only at h
  split at h
  · rename_i htarget
    split at h
    · rename_i hform
      split at h
      · rename_i hword
        obtain rfl := Except.ok.inj h
        rw [Tree.flag?, readFlag, htarget]
        simp only [hform, hword]
        rfl
      · cases h
    · cases h
  · cases h

/-! ## Values -/

theorem readTag_alone {place : ValuePlace} {path : Path} {tag own : Option String}
    (h : readTag place path tag = .ok own) (path' : Path) :
    readTag .alone path' tag = .ok own := by
  unfold readTag at h ⊢
  split at h
  · rename_i hown
    rw [hown]
    exact h
  · rename_i hown
    rw [hown]
    exact h
  · cases h

theorem valueOf_alone {place : ValuePlace} {path : Path} {m : Meaning} {text : String} {v : Value}
    (h : valueOf place path m text = .ok v) (path' : Path) :
    valueOf .alone path' m text = .ok v := by
  cases m with
  | wideInt i => cases h
  | _ => exact h

theorem repeatedKey?_withTag (own : Option String) (v : Value) :
    (withTag own v).repeatedKey? = v.repeatedKey? := by
  cases own with
  | none => rfl
  | some tag => rfl

mutual

/-- A value that has been read is read on its own as well, as long as no
mapping in it repeats a key. -/
theorem readValue_alone (place : ValuePlace) :
    ∀ (t : Tree) (path path' : Path) (v : Value), readValue place path t = .ok v →
      v.repeatedKey? = none → readValue .alone path' t = .ok v
  | .scalar tag form text, path, path', v, h, _ => by
    rw [readValue] at h ⊢
    obtain ⟨own, hown, h⟩ := bind_eq_ok.mp h
    rw [readTag_alone hown path', ok_bind]
    cases own with
    | some own =>
      obtain ⟨w, hw, h⟩ := bind_eq_ok.mp h
      obtain rfl := Except.ok.inj h
      dsimp only
      rw [valueOf_alone hw path']
      rfl
    | none =>
      dsimp only at h ⊢
      split at h
      · exact valueOf_alone h path'
      · cases h
  | .sequence tag items, path, path', v, h, hkeys => by
    rw [readValue] at h ⊢
    obtain ⟨own, hown, h⟩ := bind_eq_ok.mp h
    obtain ⟨vs, hvs, h⟩ := bind_eq_ok.mp h
    obtain rfl := Except.ok.inj h
    rw [repeatedKey?_withTag] at hkeys
    rw [readTag_alone hown path', ok_bind,
      readItems_alone place items path path' 0 0 vs hvs hkeys]
    rfl
  | .mapping tag entries, path, path', v, h, hkeys => by
    rw [readValue] at h ⊢
    obtain ⟨own, hown, h⟩ := bind_eq_ok.mp h
    obtain ⟨es, hes, h⟩ := bind_eq_ok.mp h
    obtain rfl := Except.ok.inj h
    rw [repeatedKey?_withTag] at hkeys
    have hentries := readEntries_alone place entries path path' [] es hes (by
      rintro new rfl
      exact hkeys)
    rw [readTag_alone hown path', ok_bind, hentries]
    rfl
  | .reference t, path, path', v, h, hkeys => by
    rw [readValue] at h ⊢
    exact readValue_alone place t path path' v h hkeys
  | .fault f, path, path', v, h, _ => by
    rw [readValue] at h
    cases h

theorem readItems_alone (place : ValuePlace) :
    ∀ (ts : List Tree) (path path' : Path) (i j : Nat) (vs : List Value),
      readItems place path i ts = .ok vs → Value.repeatedInItems vs = none →
      readItems .alone path' j ts = .ok vs
  | [], path, path', i, j, vs, h, _ => by
    rw [readItems] at h ⊢
    exact h
  | t :: ts, path, path', i, j, vs, h, hkeys => by
    rw [readItems] at h ⊢
    obtain ⟨v, hv, h⟩ := bind_eq_ok.mp h
    obtain ⟨ws, hws, h⟩ := bind_eq_ok.mp h
    obtain rfl := Except.ok.inj h
    rw [Value.repeatedInItems, Option.or_eq_none_iff] at hkeys
    rw [readValue_alone place t _ _ v hv hkeys.1, ok_bind,
      readItems_alone place ts path path' (i + 1) (j + 1) ws hws hkeys.2]
    rfl

theorem readEntries_alone (place : ValuePlace) :
    ∀ (ts : List (Tree × Tree)) (path path' : Path) (before all : List (Value × Value)),
      readEntries place path before ts = .ok all →
      (∀ new, all = before ++ new → Value.repeatedInEntries before.reverse new = none) →
      readEntries .alone path' before ts = .ok all
  | [], path, path', before, all, h, _ => by
    rw [readEntries] at h ⊢
    exact h
  | (k, v) :: ts, path, path', before, all, h, hkeys => by
    rw [readEntries] at h ⊢
    obtain ⟨key, hkey, h⟩ := bind_eq_ok.mp h
    dsimp only at h
    split at h
    · cases h
    obtain ⟨value, hvalue, h⟩ := bind_eq_ok.mp h
    obtain ⟨new, rfl, -, -⟩ := sound_readEntries place ts path _ all h
    -- the key is compared with those before it, which stand in the other order
    have hfirst := hkeys ((key, value) :: new) (List.append_assoc _ _ _)
    have hhas : Value.hasKey key before.reverse = Value.hasKey key before := List.any_reverse
    rw [Value.repeatedInEntries, Option.or_eq_none_iff, hhas] at hfirst
    obtain ⟨hkey', hrest⟩ := hfirst
    have hnew : Value.hasKey key before = false := by
      cases hb : Value.hasKey key before with
      | false => rfl
      | true =>
        rw [hb] at hrest
        cases hrest
    rw [hnew, if_neg (by decide), Option.or_eq_none_iff] at hrest
    rw [readValue_alone place k _ _ key hkey hkey', ok_bind, hnew]
    simp only [Bool.and_false, Bool.false_eq_true, if_false]
    rw [readValue_alone place v _ _ value hvalue hrest.1]
    refine readEntries_alone place ts path path' _ _ h fun new' hnew' => ?_
    obtain rfl := List.append_cancel_left hnew'
    rw [List.reverse_append]
    exact hrest.2

end

theorem value?_of_readValue {place : ValuePlace} {path : Path} {t : Tree} {v : Value}
    (h : readValue place path t = .ok v) (hkeys : v.repeatedKey? = none) : t.value? = some v := by
  rw [Tree.value?, readValue_alone place t path [] v h hkeys]
  rfl

/-! ## Values that are left out -/

section

variable {α : Type} {around : Path} {t : Tree} {read : Tree → Except ReadError α}

theorem isNull_of_readOptional (h : readOptional around t read = .ok none) :
    t.isNull = true := by
  have hread : (read t).map some ≠ .ok none := by
    intro h
    obtain ⟨a, -, ha⟩ := map_eq_ok.mp h
    cases ha
  unfold readOptional at h
  split at h
  · rename_i text htarget
    split at h
    · rename_i hnull
      rw [Tree.isNull, htarget]
      exact hnull
    · exact absurd h hread
  · rename_i tag text htarget
    split at h
    · rename_i htag
      split at h
      · rename_i hnull
        rw [Tree.isNull, htarget]
        exact Bool.and_eq_true_iff.mpr ⟨htag, hnull⟩
      · cases h
    · exact absurd h hread
  · exact absurd h hread

theorem readOptional_of_isNull (h : t.isNull = true) :
    readOptional around t read = .ok none := by
  unfold Tree.isNull at h
  split at h
  · rename_i text htarget
    rw [readOptional, htarget]
    exact if_pos h
  · rename_i tag text htarget
    rw [Bool.and_eq_true] at h
    rw [readOptional, htarget]
    exact (if_pos h.1).trans (if_pos h.2)
  · cases h

theorem Tree.target_of_isNull (h : t.isNull = true) :
    ∃ tag form text, t.target = .scalar tag form text := by
  unfold Tree.isNull at h
  split at h
  · rename_i text htarget
    exact ⟨none, .plain, text, htarget⟩
  · rename_i tag text htarget
    exact ⟨some tag, .plain, text, htarget⟩
  · cases h

theorem Tree.fields_of_isNull (h : t.isNull = true) : t.fields = [] := by
  obtain ⟨tag, form, text, htarget⟩ := target_of_isNull h
  rw [fields, htarget]

theorem Tree.items_of_isNull (h : t.isNull = true) : t.items = [] := by
  obtain ⟨tag, form, text, htarget⟩ := target_of_isNull h
  rw [items, htarget]

end

end PlaneAccess.Yaml
