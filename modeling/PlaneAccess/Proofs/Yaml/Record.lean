import PlaneAccess.NameMap.Lemmas
import PlaneAccess.Proofs.Yaml.Tree
import PlaneAccess.Proofs.Yaml.Value
import PlaneAccess.Yaml.Record

/-!
# Written records read back

Reading a written record comes down to its fields one by one: each is read
from what it was written as, and one that was left out is skipped
(`Schema.transfer`). The other keys come back as they are (`Schema.read_write`).
-/

namespace PlaneAccess.Yaml

/-! ## Scalars of fields -/

theorem not_null_of_formOf {s : String} (h : Style.formOf s = .plain) :
    (s.isEmpty || Meaning.isNullWord s) = false := by
  have hmeaning := Meaning.ofUntagged_formOf s
  rw [h, Meaning.ofUntagged, if_pos (by decide), Meaning.ofPlain] at hmeaning
  split at hmeaning
  · cases hmeaning
  · rename_i hnull
    exact Bool.eq_false_iff.mpr hnull

theorem readOptional_ofString {α : Type} (around : Path) (s : String)
    (read : Tree → Except ReadError α) :
    readOptional around (Tree.ofString s) read = (read (Tree.ofString s)).map some := by
  cases hform : Style.formOf s with
  | plain =>
    have hnull := not_null_of_formOf hform
    unfold readOptional
    rw [Tree.ofString, hform]
    simp only [Tree.target, hnull]
    rfl
  | literal =>
    unfold readOptional
    rw [Tree.ofString, hform]
    rfl
  | quoted =>
    unfold readOptional
    rw [Tree.ofString, hform]
    rfl

theorem readOptional_ofBool (around path : Path) (b : Bool) :
    readOptional around (Tree.ofBool b) (readFlag path) = .ok (some b) := by
  cases b with
  | true => rfl
  | false => rfl

theorem not_null_of_ofPlain {text : String} (h : Meaning.ofPlain text ≠ .null) :
    (text.isEmpty || Meaning.isNullWord text) = false := by
  refine Bool.eq_false_iff.mpr fun hnull => h ?_
  rw [Meaning.ofPlain, if_pos hnull]

theorem readOptional_plain {α : Type} (around : Path) {text : String}
    (h : Meaning.ofPlain text ≠ .null) (read : Tree → Except ReadError α) :
    readOptional around (.scalar none .plain text) read =
      (read (.scalar none .plain text)).map some := by
  have hnull := not_null_of_ofPlain h
  unfold readOptional
  simp only [Tree.target, hnull]
  rfl

/-- A tag of one's own is not the tag of null. -/
theorem readOptional_withTag {α : Type} (around : Path) {t : Tree} (tag : String)
    (ht : t.isBare = true) (read : Tree → Except ReadError α) :
    readOptional around (t.withTag (Value.markedTag tag)) read =
      (read (t.withTag (Value.markedTag tag))).map some := by
  have htag : (Value.markedTag tag == nullTag) = false := by
    refine beq_eq_false_iff_ne.mpr fun heq => ?_
    have hhead := Value.head?_markedTag tag
    rw [heq] at hhead
    exact absurd hhead (by decide)
  cases t with
  | scalar tag' form text =>
    unfold readOptional
    cases form with
    | plain => simp only [Tree.withTag, Tree.target, htag]; rfl
    | literal => rfl
    | quoted => rfl
  | sequence tag' items => rfl
  | mapping tag' entries => rfl
  | reference t => cases ht
  | fault f => cases ht

theorem readOptional_toTree {α : Type} (around : Path) {v : Value} (hv : v ≠ .null)
    (htags : v.keepsTags false = true) (read : Tree → Except ReadError α) :
    readOptional around v.toTree read = (read v.toTree).map some := by
  cases v with
  | null => exact absurd rfl hv
  | bool b =>
    cases b with
    | true => rfl
    | false => rfl
  | int i =>
    refine readOptional_plain around ?_ read
    rw [Meaning.ofPlain_integer]
    intro h
    cases h
  | float x =>
    refine readOptional_plain around ?_ read
    rw [Meaning.ofPlain_float]
    intro h
    cases h
  | string s => exact readOptional_ofString around s read
  | sequence items => rfl
  | mapping entries => rfl
  | tagged tag v =>
    rw [Value.keepsTags, Bool.and_eq_true] at htags
    exact readOptional_withTag around tag (Value.isBare_toTree htags.2) read

/-- A field that holds null is read as one that is absent. -/
def withoutNull : Option Value → Option Value
  | some .null => none
  | v => v

theorem withoutNull_eq {v : Option Value} (h : v ≠ some .null) : withoutNull v = v := by
  unfold withoutNull
  split
  · exact absurd rfl h
  · rfl

/-! ## Fields -/

namespace Schema

variable {α : Type}

def transfer (path : Path) (a : α) (b : α) (f : RecordField α) : Except ReadError α :=
  match f.write a with
  | none => .ok b
  | some t => f.read path (stepOf (Tree.ofString f.key) :: path) t b

theorem transfer_of_none (path : Path) {a : α} (b : α) {f : RecordField α}
    (h : f.write a = none) : transfer path a b f = .ok b := by
  rw [transfer, h]

theorem transfer_of_some (path : Path) {a : α} (b : α) {f : RecordField α} {t : Tree}
    (h : f.write a = some t) :
    transfer path a b f = f.read path (stepOf (Tree.ofString f.key) :: path) t b := by
  rw [transfer, h]

def writtenKeys (a : α) (fs : List (RecordField α)) : List String :=
  (fs.filter (fun f => (f.write a).isSome)).map RecordField.key

def fieldEntries (a : α) (fs : List (RecordField α)) : List (Tree × Tree) :=
  fs.filterMap (fun f => (f.write a).map (fun t => (Tree.ofString f.key, t)))

theorem readEntry_field {s : Schema α} (path : Path) {p : Partial α} {f : RecordField α}
    {k t : Tree} (hkey : readKey path k = .ok f.key) (hf : s.field? f.key = some f)
    (hp : f.key ∉ p.seen) :
    s.readEntry path p (k, t) =
      (f.read path (stepOf k :: path) t p.value).map
        (fun b => ⟨b, f.key :: p.seen, p.extra⟩) := by
  have hseen : p.seen.contains f.key = false := by simpa using hp
  rw [readEntry, hkey, ok_bind]
  simp only [hf, hseen]
  cases f.read path (stepOf k :: path) t p.value with
  | error e => rfl
  | ok b => rfl

theorem foldlM_fieldEntries {s : Schema α} (path : Path) (a : α) :
    ∀ (fs : List (RecordField α)) (p : Partial α), (∀ f ∈ fs, s.field? f.key = some f) →
      (fs.map RecordField.key).Nodup → (∀ f ∈ fs, f.key ∉ p.seen) →
      (fieldEntries a fs).foldlM (s.readEntry path) p =
        (fs.foldlM (transfer path a) p.value).map
          (fun b => ⟨b, (writtenKeys a fs).reverse ++ p.seen, p.extra⟩)
  | [], p, _, _, _ => rfl
  | f :: fs, p, hfind, hnodup, hseen => by
    rw [List.map_cons, List.nodup_cons] at hnodup
    have hf := hfind f List.mem_cons_self
    have hfind' : ∀ g ∈ fs, s.field? g.key = some g :=
      fun g hg => hfind g (List.mem_cons_of_mem _ hg)
    cases hw : f.write a with
    | none =>
      -- a field that is left out has no entry, and reading skips it
      have ih := foldlM_fieldEntries path a fs p hfind' hnodup.2
        (fun g hg => hseen g (List.mem_cons_of_mem _ hg))
      have hentries : fieldEntries a (f :: fs) = fieldEntries a fs := by
        simp [fieldEntries, hw]
      have hkeys : writtenKeys a (f :: fs) = writtenKeys a fs := by
        simp [writtenKeys, hw]
      rw [hentries, hkeys, ih, List.foldlM_cons, transfer_of_none path _ hw]
      rfl
    | some t =>
      have hentries : fieldEntries a (f :: fs) = (Tree.ofString f.key, t) :: fieldEntries a fs := by
        simp [fieldEntries, hw]
      have hkeys : writtenKeys a (f :: fs) = f.key :: writtenKeys a fs := by
        simp [writtenKeys, hw]
      rw [hentries, hkeys, List.foldlM_cons, List.foldlM_cons,
        readEntry_field path rfl hf (hseen f List.mem_cons_self), transfer_of_some path _ hw]
      cases hr : f.read path (stepOf (Tree.ofString f.key) :: path) t p.value with
      | error e => rfl
      | ok b =>
        have ih := foldlM_fieldEntries path a fs ⟨b, f.key :: p.seen, p.extra⟩ hfind' hnodup.2 (by
          intro g hg hmem
          rcases List.mem_cons.mp hmem with heq | hmem
          · exact hnodup.1 (heq ▸ List.mem_map_of_mem hg)
          · exact hseen g (List.mem_cons_of_mem _ hg) hmem)
        show (fieldEntries a fs).foldlM (s.readEntry path) ⟨b, f.key :: p.seen, p.extra⟩ = _
        rw [ih, List.reverse_cons, List.append_assoc]
        rfl

theorem foldlM_extraEntries {s : Schema α} {x : Extra α} (path : Path) (hx : s.extra = some x) :
    ∀ (es : List (String × Value)) (p : Partial α),
      (∀ e ∈ es, s.field? e.1 = none ∧ e.2.isUntagged = true) →
      (es.map (fun e => (Tree.ofString e.1, e.2.toTree))).foldlM (s.readEntry path) p =
        .ok ⟨p.value, p.seen, p.extra ++ es⟩
  | [], p, _ => by rw [List.append_nil]; rfl
  | (key, v) :: es, p, h => by
    obtain ⟨hfield, huntagged⟩ := h (key, v) List.mem_cons_self
    have hkey : readKey path (Tree.ofString key) = .ok key := rfl
    have hvalue := readValue_toTree .inRecord false v (stepOf (Tree.ofString key) :: path)
      ⟨Value.keepsTags_of_isUntagged false v huntagged, fun _ => huntagged, fun h => by cases h⟩
    have hentry : s.readEntry path p (Tree.ofString key, v.toTree) =
        .ok ⟨p.value, p.seen, p.extra ++ [(key, v)]⟩ := by
      rw [readEntry, hkey, ok_bind]
      simp only [hfield, hx, hvalue]
      rfl
    rw [List.map_cons, List.foldlM_cons, hentry, ok_bind,
      foldlM_extraEntries path hx es _ (fun e he => h e (List.mem_cons_of_mem _ he)),
      List.append_assoc]
    rfl

theorem checkKeys_eq_ok (path : Path) {es : List (String × Value)}
    (h : ∀ e ∈ es, e.2.repeatedKey? = none) : checkKeys path es = .ok () := by
  induction es with
  | nil => rfl
  | cons e es ih =>
    obtain ⟨key, v⟩ := e
    have hv : v.repeatedKey? = none := h (key, v) List.mem_cons_self
    simp only [checkKeys, hv]
    exact ih (fun e he => h e (List.mem_cons_of_mem _ he))

theorem field?_of_mem {s : Schema α} (hkeys : (s.fields.map RecordField.key).Nodup)
    {f : RecordField α} (hf : f ∈ s.fields) : s.field? f.key = some f := by
  unfold field?
  revert hkeys hf
  generalize s.fields = fs
  intro hkeys hf
  induction fs with
  | nil => exact absurd hf List.not_mem_nil
  | cons g fs ih =>
    rw [List.map_cons, List.nodup_cons] at hkeys
    rw [List.find?_cons]
    rcases List.mem_cons.mp hf with rfl | hf
    · simp
    · have hne : (g.key == f.key) = false := by
        refine beq_eq_false_iff_ne.mpr fun heq => hkeys.1 ?_
        rw [heq]
        exact List.mem_map_of_mem hf
      rw [hne]
      exact ih hkeys.2 hf

/-- Reading a written record: the fields one by one, and then the other keys
all at once. -/
theorem read_write {s : Schema α} (path : Path) (a : α)
    (hkeys : (s.fields.map RecordField.key).Nodup)
    (hextra : ∀ x, s.extra = some x → ∀ k v, (x.get a).get? k = some v →
      s.field? k = none ∧ v.isUntagged = true ∧ v.repeatedKey? = none) :
    s.read path (s.write a) =
      (s.fields.foldlM (transfer path a) s.empty).map
        (fun b => match s.extra with
          | none => b
          | some x => x.set b (x.get a)) := by
  have hfields := foldlM_fieldEntries path a s.fields ⟨s.empty, [], []⟩
    (fun f hf => field?_of_mem hkeys hf) hkeys (fun _ _ => List.not_mem_nil)
  have hread : s.read path (s.write a) = s.readEntries path (s.toEntries a) := rfl
  rw [hread, readEntries, toEntries, List.foldlM_append]
  show ((fieldEntries a s.fields).foldlM (s.readEntry path) ⟨s.empty, [], []⟩ >>= _) >>= _ = _
  rw [hfields]
  cases hb : s.fields.foldlM (transfer path a) s.empty with
  | error e => rfl
  | ok b =>
    cases hx : s.extra with
    | none => rfl
    | some x =>
      -- the other keys come behind all fields
      have hvalues : ∀ e ∈ (x.get a).toList,
          s.field? e.1 = none ∧ e.2.isUntagged = true ∧ e.2.repeatedKey? = none :=
        fun e he => hextra x hx e.1 e.2 (NameMap.mem_toList.mp he)
      have hextras := foldlM_extraEntries path hx (x.get a).toList
        ⟨b, (writtenKeys a s.fields).reverse ++ [], []⟩
        (fun e he => ⟨(hvalues e he).1, (hvalues e he).2.1⟩)
      have hcheck := checkKeys_eq_ok path (fun e he => (hvalues e he).2.2)
      show (((x.get a).toList.map _).foldlM (s.readEntry path)
        ⟨b, (writtenKeys a s.fields).reverse ++ [], []⟩ >>= _) = _
      rw [hextras, ok_bind]
      simp only [List.nil_append, hcheck, ok_bind, NameMap.ofList_toList]
      rfl

theorem read_write_of_no_extra {s : Schema α} (path : Path) (a : α)
    (hkeys : (s.fields.map RecordField.key).Nodup) (hx : s.extra = none) :
    s.read path (s.write a) = s.fields.foldlM (transfer path a) s.empty := by
  have hextra : ∀ x, s.extra = some x → ∀ k v, (x.get a).get? k = some v →
      s.field? k = none ∧ v.isUntagged = true ∧ v.repeatedKey? = none := by
    intro x h
    rw [hx] at h
    cases h
  rw [read_write path a hkeys hextra, hx]
  cases s.fields.foldlM (transfer path a) s.empty with
  | error e => rfl
  | ok b => rfl

/-! ## Kinds of fields -/

variable {β : Type}

theorem transfer_text (path : Path) (a b : α) (key : String) (get : α → String)
    (set : α → String → α) : transfer path a b (.text key get set) = .ok (set b (get a)) := rfl

theorem transfer_constant (path : Path) (a b : α) (key value : String) :
    transfer path a b (.constant key value) = .ok b := rfl

theorem transfer_optional (path : Path) {a b : α} {f : RecordField α} {g : α → Option β}
    {u : α → Option β → α} {w : β → Tree} {r : Path → Tree → Except ReadError β}
    (hwrite : f.write a = (g a).map w)
    (hread : ∀ around here t, f.read around here t b = (readOptional around t (r here)).map (u b))
    (hb : u b none = b)
    (h : ∀ x, g a = some x → ∀ here, readOptional path (w x) (r here) = .ok (some x)) :
    transfer path a b f = .ok (u b (g a)) := by
  cases hg : g a with
  | none =>
    rw [hg] at hwrite
    rw [transfer_of_none path b hwrite, hb]
  | some x =>
    rw [hg] at hwrite
    rw [transfer_of_some path b hwrite, hread, h x hg]
    rfl

theorem transfer_optionalText (path : Path) {a b : α} (key : String) {get : α → Option String}
    {set : α → Option String → α} (hb : set b none = b) :
    transfer path a b (.optionalText key get set) = .ok (set b (get a)) := by
  refine transfer_optional path (w := .ofString) (r := readText) rfl (fun _ _ _ => rfl) hb ?_
  intro text _ here
  rw [readOptional_ofString]
  rfl

theorem transfer_optionalFlag (path : Path) {a b : α} (key : String) {get : α → Option Bool}
    {set : α → Option Bool → α} (hb : set b none = b) :
    transfer path a b (.optionalFlag key get set) = .ok (set b (get a)) := by
  refine transfer_optional path (w := .ofBool) (r := readFlag) rfl (fun _ _ _ => rfl) hb ?_
  intro flag _ here
  exact readOptional_ofBool path here flag

theorem transfer_optionalValue (path : Path) {a b : α} (key : String) {get : α → Option Value}
    {set : α → Option Value → α} (hb : set b none = b)
    (hv : ∀ v, get a = some v → Readable .alone false v) :
    transfer path a b (.optionalValue key get set) = .ok (set b (withoutNull (get a))) := by
  by_cases hnull : get a = some .null
  · have hwrite : (RecordField.optionalValue key get set).write a = some Value.null.toTree := by
      show (get a).map Value.toTree = _
      rw [hnull]
      rfl
    rw [transfer_of_some path b hwrite, hnull]
    rfl
  · have hwithout : withoutNull (get a) = get a := withoutNull_eq hnull
    rw [hwithout]
    refine transfer_optional path (w := Value.toTree) (r := readValue .alone) rfl
      (fun _ _ _ => rfl) hb ?_
    intro v hget here
    have hreadable := hv v hget
    have hne : v ≠ .null := by
      rintro rfl
      exact hnull hget
    rw [readOptional_toTree path hne hreadable.tags, readValue_toTree .alone false v _ hreadable]
    rfl

theorem transfer_optionalRecord (path : Path) {a b : α} (key : String) {s : Schema β}
    {get : α → Option β} {set : α → Option β → α} (hb : set b none = b)
    (h : ∀ x, get a = some x → ∀ here, s.read here (s.write x) = .ok x) :
    transfer path a b (.optionalRecord key s get set) = .ok (set b (get a)) := by
  refine transfer_optional path (w := s.write) (r := s.read) rfl (fun _ _ _ => rfl) hb ?_
  intro x hget here
  show (s.read here (s.write x)).map some = _
  rw [h x hget]
  rfl

theorem readListFrom_map {read : Path → Tree → Except ReadError β} {write : β → Tree}
    (path : Path) {l : List β} (h : ∀ x ∈ l, ∀ here, read here (write x) = .ok x) (i : Nat) :
    readListFrom path read i (l.map write) = .ok l := by
  induction l generalizing i with
  | nil => rfl
  | cons x l ih =>
    rw [List.map_cons, readListFrom, h x List.mem_cons_self, ok_bind,
      ih (fun y hy => h y (List.mem_cons_of_mem _ hy))]
    rfl

theorem transfer_list (path : Path) {a b : α} (key : String) (interest : Interest)
    {read : Path → Tree → Except ReadError β} {write : β → Tree} {get : α → List β}
    {set : α → List β → α} (h : ∀ x ∈ get a, ∀ here, read here (write x) = .ok x) :
    transfer path a b (.list key interest read write get set) = .ok (set b (get a)) := by
  have hlist : ∀ here, readList here read (.sequence none ((get a).map write)) = .ok (get a) :=
    fun here => readListFrom_map here h 0
  rw [transfer_of_some path b (t := .sequence none ((get a).map write)) rfl]
  show ((readList _ read (.sequence none ((get a).map write))).map some).map
    (fun l => set b (l.getD [])) = _
  rw [hlist]
  rfl

/-! ## What readers of records look at -/

theorem lookup_interest {fs : List (RecordField α)} (hkeys : (fs.map RecordField.key).Nodup)
    {f : RecordField α} (hf : f ∈ fs) :
    (fs.map (fun g => (g.key, g.interest))).lookup f.key = some f.interest := by
  induction fs with
  | nil => exact absurd hf List.not_mem_nil
  | cons g fs ih =>
    rw [List.map_cons, List.nodup_cons] at hkeys
    rw [List.map_cons, List.lookup_cons]
    rcases List.mem_cons.mp hf with rfl | hf
    · simp
    · have hne : (f.key == g.key) = false := by
        refine beq_eq_false_iff_ne.mpr fun heq => hkeys.1 ?_
        rw [← heq]
        exact List.mem_map_of_mem hf
      rw [hne]
      exact ih hkeys.2 hf

theorem covers_write {s : Schema α} (a : α) (hkeys : (s.fields.map RecordField.key).Nodup)
    (hfields : ∀ f ∈ s.fields, ∀ t, f.write a = some t → f.interest.Covers t) :
    s.interest.Covers (s.write a) := by
  unfold interest
  cases hx : s.extra with
  | some x => exact .everything _
  | none =>
    rw [if_neg (by simp), write, toEntries, hx, List.append_nil]
    refine .fields fun e he => ?_
    obtain ⟨f, hf, heq⟩ := List.mem_filterMap.mp he
    obtain ⟨t, ht, rfl⟩ := Option.map_eq_some_iff.mp heq
    have hkey : (Interest.fields (s.fields.map (fun g => (g.key, g.interest)))).ofKey
        (Tree.ofString f.key).text? = f.interest := by
      show ((s.fields.map (fun g => (g.key, g.interest))).lookup f.key).getD .nothing = _
      rw [lookup_interest hkeys hf]
      rfl
    rw [hkey]
    exact hfields f hf t ht

end Schema

end PlaneAccess.Yaml
