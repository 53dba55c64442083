import Mathlib.Data.List.Forall2
import PlaneAccess.Proofs.Yaml.Rewrite

/-!
# Records with entries left out

A record is read from a mapping with some entries left out as it is from the
whole mapping, if each field among those gives what its absence gives
(`Schema.Skips.read`). A null in a field that may be absent is such an entry.
-/

namespace PlaneAccess.Yaml

namespace Tree

/-! ## Trees that are the same -/

def plain (text : String) : Tree := scalar none .plain text

mutual

def same : Tree → Tree → Bool
  | scalar tag form text, scalar tag' form' text' =>
    tag == tag' && form == form' && text == text'
  | sequence tag items, sequence tag' items' => tag == tag' && sameItems items items'
  | mapping tag entries, mapping tag' entries' => tag == tag' && sameEntries entries entries'
  | reference t, reference u => t.same u
  | fault cause, fault cause' => cause == cause'
  | _, _ => false

def sameItems : List Tree → List Tree → Bool
  | [], [] => true
  | t :: ts, u :: us => t.same u && sameItems ts us
  | _, _ => false

def sameEntries : List (Tree × Tree) → List (Tree × Tree) → Bool
  | [], [] => true
  | (k, v) :: es, (k', v') :: fs => k.same k' && v.same v' && sameEntries es fs
  | _, _ => false

end

mutual

theorem eq_of_same (t u : Tree) (h : t.same u = true) : t = u := by
  cases t <;> cases u <;> simp only [same, Bool.and_eq_true, beq_iff_eq, Bool.false_eq_true] at h
  case scalar.scalar =>
    obtain ⟨⟨rfl, rfl⟩, rfl⟩ := h
    rfl
  case sequence.sequence =>
    obtain ⟨rfl, h⟩ := h
    rw [eq_of_sameItems _ _ h]
  case mapping.mapping =>
    obtain ⟨rfl, h⟩ := h
    rw [eq_of_sameEntries _ _ h]
  case reference.reference =>
    rw [eq_of_same _ _ h]
  case fault.fault =>
    rw [h]

theorem eq_of_sameItems (ts us : List Tree) (h : sameItems ts us = true) : ts = us := by
  cases ts <;> cases us <;> simp only [sameItems, Bool.and_eq_true, Bool.false_eq_true] at h
  case nil.nil => rfl
  case cons.cons => rw [eq_of_same _ _ h.1, eq_of_sameItems _ _ h.2]

theorem eq_of_sameEntries (es fs : List (Tree × Tree)) (h : sameEntries es fs = true) :
    es = fs := by
  cases es <;> cases fs <;> simp only [sameEntries, Bool.and_eq_true, Bool.false_eq_true] at h
  case nil.nil => rfl
  case cons.cons e _ f _ =>
    rw [eq_of_sameEntries _ _ h.2, Prod.ext (eq_of_same _ _ h.1.1) (eq_of_same _ _ h.1.2)]

end

/-! ## Mappings with entries left out -/

/-- The entries of a mapping. There are none where nothing is written. -/
def entries? (t : Tree) : Option (List (Tree × Tree)) :=
  match t.target with
  | mapping _ es => some es
  | scalar none .plain "" => some []
  | _ => none

/-- Entries of which some are left out and some have another value. -/
inductive Thinned (drops : String → Tree → Prop) (changes : String → Tree → Tree → Prop) :
    List (Tree × Tree) → List (Tree × Tree) → Prop
  | nil : Thinned drops changes [] []
  | keep {es fs : List (Tree × Tree)} (e : Tree × Tree) (h : Thinned drops changes es fs) :
    Thinned drops changes (e :: es) (e :: fs)
  | change {es fs : List (Tree × Tree)} {k u v : Tree} {key : String} (hk : k.text? = some key)
    (hv : changes key u v) (h : Thinned drops changes es fs) :
    Thinned drops changes ((k, u) :: es) ((k, v) :: fs)
  | drop {es fs : List (Tree × Tree)} {k u : Tree} {key : String} (hk : k.text? = some key)
    (hu : drops key u) (h : Thinned drops changes es fs) : Thinned drops changes ((k, u) :: es) fs

def ThinnedTo (drops : String → Tree → Prop) (changes : String → Tree → Tree → Prop)
    (t u : Tree) : Prop :=
  ∃ es fs, t.entries? = some es ∧ u.entries? = some fs ∧ Thinned drops changes es fs

def textOf (key : String) (t : Tree) : String := ((t.field? key).bind text?).getD ""

def noChange (_ : String) (_ _ : Tree) : Prop := False

theorem entries?_cases {t : Tree} {es : List (Tree × Tree)} (h : t.entries? = some es) :
    (∃ tag, t.target = .mapping tag es) ∨ t.target = .scalar none .plain "" ∧ es = [] := by
  unfold entries? at h
  split at h
  · rename_i tag es' htarget
    obtain rfl := Option.some.inj h
    exact Or.inl ⟨tag, htarget⟩
  · rename_i htarget
    obtain rfl := Option.some.inj h
    exact Or.inr ⟨htarget, rfl⟩
  · cases h

theorem ofString_inj {a b : String} (h : some (ofString a) = some (ofString b)) : a = b :=
  Option.some.inj (congrArg (Option.bind · text?) h)

end Tree

/-! ## Readers -/

section

variable {α : Type} {s : Schema α} {path around here : Path} {t : Tree}
  {es : List (Tree × Tree)}

theorem readMapping_of_entries? (h : t.entries? = some es) (expected : String) :
    readMapping path t expected = .ok es := by
  rcases Tree.entries?_cases h with ⟨tag, htarget⟩ | ⟨htarget, rfl⟩
  · rw [readMapping, htarget]
  · rw [readMapping, htarget]
    rfl

theorem Schema.read_of_entries? (h : t.entries? = some es) :
    s.read path t = s.readEntries path es := by
  rw [Schema.read, readMapping_of_entries? h, ok_bind]

/-- Where nothing is written an optional record is absent, which is an empty
record. -/
theorem Schema.read_of_readOptional (hempty : ∀ path, s.readEntries path [] = .ok s.empty)
    (ht : t.entries? = some es) {r : Option α} (h : readOptional around t (s.read here) = .ok r) :
    s.read here t = .ok (r.getD s.empty) := by
  cases r with
  | some a => exact eq_some_of_readOptional h rfl
  | none =>
    obtain ⟨tag, form, text, htarget⟩ := Tree.target_of_isNull (isNull_of_readOptional h)
    rcases Tree.entries?_cases ht with ⟨tag', htarget'⟩ | ⟨-, rfl⟩
    · rw [htarget] at htarget'
      cases htarget'
    · rw [Schema.read_of_entries? ht, hempty]
      rfl

theorem Schema.readOptional_of_read (hempty : ∀ path, s.readEntries path [] = .ok s.empty)
    (ht : t.entries? = some es) (around : Path) {a : α} (h : s.read here t = .ok a) :
    ∃ r, readOptional around t (s.read here) = .ok r ∧ r.getD s.empty = a := by
  rcases Tree.entries?_cases ht with ⟨tag, htarget⟩ | ⟨htarget, rfl⟩
  · refine ⟨some a, ?_, rfl⟩
    rw [readOptional, htarget]
    show (s.read here t).map some = _
    rw [h]
    rfl
  · refine ⟨none, ?_, ?_⟩
    · rw [readOptional, htarget]
      rfl
    · rw [Schema.read_of_entries? ht, hempty] at h
      exact Except.ok.inj h

end

theorem readListFrom_of_forall₂ {β : Type} {read : Path → Tree → Except ReadError β}
    {changes : Tree → Tree → Prop} {E : β → β → Prop} {path : Path}
    (hread : ∀ here t u b, read here t = .ok b → changes t u →
      ∃ b', read here u = .ok b' ∧ E b b') {ts us : List Tree}
    (h : List.Forall₂ changes ts us) :
    ∀ i bs, readListFrom path read i ts = .ok bs →
      ∃ bs', readListFrom path read i us = .ok bs' ∧ List.Forall₂ E bs bs' := by
  induction h with
  | nil =>
    intro i bs hbs
    obtain rfl := Except.ok.inj hbs
    exact ⟨[], rfl, .nil⟩
  | cons hhead _ ih =>
    intro i bs hbs
    obtain ⟨b, hb, hbs⟩ := bind_eq_ok.mp hbs
    obtain ⟨bs, htail, hbs⟩ := bind_eq_ok.mp hbs
    obtain rfl := Except.ok.inj hbs
    obtain ⟨b', hb', hE⟩ := hread _ _ _ b hb hhead
    obtain ⟨bs', hbs', hall⟩ := ih (i + 1) bs htail
    refine ⟨b' :: bs', ?_, .cons hE hall⟩
    rw [readListFrom, hb', ok_bind, hbs', ok_bind]
    rfl

/-! ## Fields -/

namespace RecordField

variable {α β : Type}

/-- A field is read from either of two values with results that agree, whatever
records that agree it is read into. -/
def Agrees (f : RecordField α) (E : α → α → Prop) (u v : Tree) : Prop :=
  ∀ around here a a' b, f.read around here u a = .ok b → E a a' →
    ∃ b', f.read around here v a' = .ok b' ∧ E b b'

theorem agrees_self (f : RecordField α) (u : Tree) : f.Agrees (fun a a' => a = a') u u := by
  rintro around here a _ b h rfl
  exact ⟨b, h, rfl⟩

/-- A field of a record that has not been read yet is read from a null as if it
were absent. One that is always written holds a text, and is so only if the null
is written as nothing. -/
def SkipsNull (f : RecordField α) (empty : α) (always : List String) : Prop :=
  ∀ around here u a b, f.write a = f.write empty → u.isNull = true →
    (f.key ∈ always → u.text? = some "") → f.read around here u a = .ok b → b = a

theorem skipsNull_optional {f : RecordField α} {empty : α} {always : List String}
    {get : α → Option β} {set : α → Option β → α} {w : β → Tree}
    {r : Path → Tree → Except ReadError β} (hwrite : ∀ a, f.write a = (get a).map w)
    (hread : ∀ around here t a, f.read around here t a =
      (readOptional around t (r here)).map (set a))
    (hempty : get empty = none) (hset : ∀ a, get a = none → set a none = a) :
    f.SkipsNull empty always := by
  intro around here u a b ha hu _ h
  rw [hread, readOptional_of_isNull hu] at h
  obtain rfl := Except.ok.inj h
  rw [hwrite, hwrite, hempty] at ha
  exact hset a (Option.map_eq_none_iff.mp ha)

theorem skipsNull_text {key : String} {empty : α} {always : List String} {get : α → String}
    {set : α → String → α} (halways : key ∈ always) (hempty : get empty = "")
    (hset : ∀ a, get a = "" → set a "" = a) : (text key get set).SkipsNull empty always := by
  intro around here u a b ha _ htext h
  obtain ⟨v, hv, rfl⟩ := map_eq_ok.mp h
  obtain rfl : v = "" := Option.some.inj ((text?_of_readText hv).symm.trans (htext halways))
  exact hset a ((Tree.ofString_inj ha).trans hempty)

theorem skipsNull_list {key : String} {interest : Interest} {empty : α} {always : List String}
    {read : Path → Tree → Except ReadError β} {write : β → Tree} {get : α → List β}
    {set : α → List β → α} (hempty : get empty = []) (hset : ∀ a, get a = [] → set a [] = a) :
    (list key interest read write get set).SkipsNull empty always := by
  intro around here u a b ha hu _ h
  obtain ⟨r, hr, rfl⟩ := map_eq_ok.mp h
  obtain rfl := Except.ok.inj ((readOptional_of_isNull hu).symm.trans hr)
  replace ha : some (Tree.sequence none ((get a).map write)) =
    some (Tree.sequence none ((get empty).map write)) := ha
  rw [hempty] at ha
  injection ha with ha
  injection ha with _ ha
  exact hset a (List.map_eq_nil_iff.mp ha)

end RecordField

/-! ## Records -/

namespace Schema

variable {α : Type}

/-- Which entries may be left out of a mapping, and which may have another value,
so that the records read from it agree. The fields are independent of each
other. -/
structure Skips (s : Schema α) (E : α → α → Prop) (drops : String → Tree → Prop)
    (changes : String → Tree → Tree → Prop) : Prop where
  keys : (s.fields.map RecordField.key).Nodup
  leaves : ∀ f ∈ s.fields, s.Leaves f.key f.write
  empty : E s.empty s.empty
  same : ∀ f ∈ s.fields, ∀ u, f.Agrees E u u
  changed : ∀ key u v, changes key u v → ∃ f ∈ s.fields, f.key = key ∧ f.Agrees E u v
  dropped : ∀ key u, drops key u → ∃ f ∈ s.fields, f.key = key ∧
    ∀ around here a a' b, f.write a = f.write s.empty → f.read around here u a = .ok b →
      E a a' → E b a'
  extra : ∀ x, s.extra = some x → ∀ a a' m, E a a' → E (x.set a m) (x.set a' m)

/-- Two records of which entries have been read agree, and what the second one
has not seen is as it was. -/
structure Simulates (s : Schema α) (E : α → α → Prop) (p p' : Partial α) : Prop where
  value : E p.value p'.value
  seen : ∀ key ∈ p'.seen, key ∈ p.seen
  extra : p'.extra = p.extra
  fresh : ∀ f ∈ s.fields, f.key ∉ p.seen → f.write p.value = f.write s.empty

variable {s : Schema α} {E : α → α → Prop} {drops : String → Tree → Prop}
  {changes : String → Tree → Tree → Prop} {path : Path} {p p' q : Partial α}

theorem readEntry_of_unknown {e : Tree × Tree} {key : String} (hkey : readKey path e.1 = .ok key)
    (hnone : s.field? key = none) (h : s.readEntry path p e = .ok q) (p' : Partial α) :
    ∃ new, q = ⟨p.value, p.seen, p.extra ++ new⟩ ∧
      s.readEntry path p' e = .ok ⟨p'.value, p'.seen, p'.extra ++ new⟩ := by
  rw [readEntry, hkey, ok_bind] at h ⊢
  simp only [hnone] at h ⊢
  cases hx : s.extra with
  | some x =>
    simp only [hx] at h ⊢
    obtain ⟨v, hv, h⟩ := bind_eq_ok.mp h
    obtain rfl := Except.ok.inj h
    refine ⟨[(key, v)], rfl, ?_⟩
    rw [hv]
    rfl
  | none =>
    simp only [hx] at h ⊢
    split at h
    · cases h
    · obtain rfl := Except.ok.inj h
      exact ⟨[], by rw [List.append_nil], by rw [List.append_nil]; rfl⟩

theorem Skips.field? (hs : s.Skips E drops changes) {f : RecordField α} (hf : f ∈ s.fields) :
    s.field? f.key = some f :=
  field?_of_mem hs.keys hf

theorem Skips.fresh (hs : s.Skips E drops changes) (hp : s.Simulates E p p') {g : RecordField α}
    (hg : g ∈ s.fields) {here : Path} {u : Tree} {b : α}
    (hb : g.read path here u p.value = .ok b) {f : RecordField α} (hf : f ∈ s.fields)
    (hseen : f.key ∉ g.key :: p.seen) : f.write b = f.write s.empty := by
  have hne : g.key ≠ f.key := by
    intro heq
    exact hseen (heq ▸ List.mem_cons_self)
  rw [hs.leaves f hf g hg hne _ _ _ _ _ hb]
  exact hp.fresh f hf fun hmem => hseen (List.mem_cons_of_mem _ hmem)

theorem Skips.readEntry_of_agrees (hs : s.Skips E drops changes) (hp : s.Simulates E p p')
    {k u v : Tree} {f : RecordField α} (hf : f ∈ s.fields) (hkey : readKey path k = .ok f.key)
    (huv : f.Agrees E u v) {b : α} (hseen : f.key ∉ p.seen)
    (hb : f.read path (stepOf k :: path) u p.value = .ok b) :
    ∃ q', s.readEntry path p' (k, v) = .ok q' ∧
      s.Simulates E ⟨b, f.key :: p.seen, p.extra⟩ q' := by
  obtain ⟨b', hb', hE⟩ := huv _ _ _ _ _ hb hp.value
  have hseen' : f.key ∉ p'.seen := fun hmem => hseen (hp.seen _ hmem)
  have hread := (readEntry_field path hkey (hs.field? hf) hseen').trans
    (map_eq_ok.mpr ⟨b', hb', rfl⟩)
  refine ⟨_, hread, hE, ?_, hp.extra, ?_⟩
  · intro key hmem
    rcases List.mem_cons.mp hmem with rfl | hmem
    · exact List.mem_cons_self
    · exact List.mem_cons_of_mem _ (hp.seen key hmem)
  · intro g hg hnew
    exact hs.fresh hp hf hb hg hnew

/-- An entry that is not left out is read into both records. -/
theorem Skips.readEntry_same (hs : s.Skips E drops changes) (hp : s.Simulates E p p')
    {e : Tree × Tree} (h : s.readEntry path p e = .ok q) :
    ∃ q', s.readEntry path p' e = .ok q' ∧ s.Simulates E q q' := by
  obtain ⟨key, hkey, hcases⟩ := readEntry_cases h
  cases hfield : s.field? key with
  | some f =>
    rcases hcases with ⟨g, b, hg, hseen, hb, rfl⟩ | ⟨_, _, hnone, -⟩ | ⟨hnone, -⟩
    · obtain rfl := Option.some.inj (hfield.symm.trans hg)
      obtain rfl := key_of_field? hfield
      have hf := mem_of_field? hfield
      exact hs.readEntry_of_agrees hp hf hkey (hs.same f hf e.2) hseen hb
    · rw [hfield] at hnone
      cases hnone
    · rw [hfield] at hnone
      cases hnone
  | none =>
    obtain ⟨new, rfl, hq'⟩ := readEntry_of_unknown hkey hfield h p'
    refine ⟨_, hq', hp.value, hp.seen, ?_, hp.fresh⟩
    rw [hp.extra]

theorem Skips.foldlM (hs : s.Skips E drops changes) {es fs : List (Tree × Tree)}
    (h : Tree.Thinned drops changes es fs) :
    ∀ {p p' q : Partial α}, s.Simulates E p p' → es.foldlM (s.readEntry path) p = .ok q →
      ∃ q', fs.foldlM (s.readEntry path) p' = .ok q' ∧ s.Simulates E q q' := by
  induction h with
  | nil =>
    intro p p' q hp hq
    obtain rfl := Except.ok.inj hq
    exact ⟨p', rfl, hp⟩
  | keep e _ ih =>
    intro p p' q hp hq
    obtain ⟨r, hr, hq⟩ := bind_eq_ok.mp hq
    obtain ⟨r', hr', hp⟩ := hs.readEntry_same hp hr
    rw [List.foldlM_cons, hr', ok_bind]
    exact ih hp hq
  | @change es fs k u v key hk hv _ ih =>
    intro p p' q hp hq
    obtain ⟨r, hr, hq⟩ := bind_eq_ok.mp hq
    obtain ⟨f, hf, rfl, huv⟩ := hs.changed key u v hv
    obtain ⟨key, hkey, hcases⟩ := readEntry_cases hr
    obtain rfl := Option.some.inj (hk.symm.trans (text?_of_readKey hkey))
    rw [hs.field? hf] at hcases
    rcases hcases with ⟨g, b, hg, hseen, hb, rfl⟩ | ⟨_, _, hnone, -⟩ | ⟨hnone, -⟩
    · obtain rfl := Option.some.inj hg
      obtain ⟨r', hr', hp⟩ := hs.readEntry_of_agrees hp hf hkey huv hseen hb
      rw [List.foldlM_cons, hr', ok_bind]
      exact ih hp hq
    · cases hnone
    · cases hnone
  | @drop es fs k u key hk hu _ ih =>
    intro p p' q hp hq
    obtain ⟨r, hr, hq⟩ := bind_eq_ok.mp hq
    obtain ⟨f, hf, rfl, hdropped⟩ := hs.dropped key u hu
    obtain ⟨key, hkey, hcases⟩ := readEntry_cases hr
    obtain rfl := Option.some.inj (hk.symm.trans (text?_of_readKey hkey))
    rw [hs.field? hf] at hcases
    rcases hcases with ⟨g, b, hg, hseen, hb, rfl⟩ | ⟨_, _, hnone, -⟩ | ⟨hnone, -⟩
    · -- the field has not been read before, so it is as in the empty record
      obtain rfl := Option.some.inj hg
      have hE : E b p'.value :=
        hdropped _ _ p.value p'.value b (hp.fresh f hf hseen) hb hp.value
      have hsim : s.Simulates E ⟨b, f.key :: p.seen, p.extra⟩ p' :=
        ⟨hE, fun key hmem => List.mem_cons_of_mem _ (hp.seen key hmem), hp.extra,
          fun g hg hnew => hs.fresh hp hf hb hg hnew⟩
      exact ih hsim hq
    · cases hnone
    · cases hnone

/-- A record that can be read from a mapping is read from the one with entries left
out, and the results agree. -/
theorem Skips.read (hs : s.Skips E drops changes) {t u : Tree} {a : α}
    (h : s.read path t = .ok a) (ht : t.ThinnedTo drops changes u) :
    ∃ a', s.read path u = .ok a' ∧ E a a' := by
  obtain ⟨es, fs, hes, hfs, hthinned⟩ := ht
  rw [read_of_entries? hes] at h
  rw [read_of_entries? hfs]
  obtain ⟨p, hp, h⟩ := bind_eq_ok.mp h
  have hstart : s.Simulates E ⟨s.empty, [], []⟩ ⟨s.empty, [], []⟩ :=
    ⟨hs.empty, fun _ h => h, rfl, fun _ _ _ => rfl⟩
  obtain ⟨p', hp', hsim⟩ := hs.foldlM hthinned hstart hp
  rw [readEntries, hp', ok_bind]
  cases hx : s.extra with
  | none =>
    simp only [hx] at h ⊢
    obtain rfl := Except.ok.inj h
    exact ⟨p'.value, rfl, hsim.value⟩
  | some x =>
    simp only [hx, hsim.extra] at h ⊢
    obtain ⟨⟨⟩, hcheck, h⟩ := bind_eq_ok.mp h
    obtain rfl := Except.ok.inj h
    rw [hcheck]
    exact ⟨_, rfl, hs.extra x hx _ _ _ hsim.value⟩

theorem Lawful.text_of_read {x : Extra α} {flags always : List String} {t : Tree} {a : α}
    (hs : s.Lawful x flags always) (h : s.read path t = .ok a) {key : String} {get : α → String}
    {set : α → String → α} (hf : .text key get set ∈ s.fields) (hget : ∀ a v, get (set a v) = v)
    (hempty : get s.empty = "") : get a = t.textOf key := by
  rcases hs.write_of_read h hf with ⟨hnone, hwrite⟩ | ⟨u, here, b, c, hu, hread, hwrite⟩
  · replace hnone : t.field? key = none := hnone
    rw [Tree.textOf, hnone]
    exact (Tree.ofString_inj hwrite).trans hempty
  · obtain ⟨v, hv, rfl⟩ := map_eq_ok.mp hread
    replace hu : t.field? key = some u := hu
    rw [Tree.textOf, hu, Option.bind_some, text?_of_readText hv]
    exact (Tree.ofString_inj hwrite).trans (hget b v)

end Schema

end PlaneAccess.Yaml
