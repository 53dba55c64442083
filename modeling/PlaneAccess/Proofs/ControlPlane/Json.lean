import PlaneAccess.ControlPlane.Json
import PlaneAccess.Proofs.ControlPlane.Label
import PlaneAccess.Proofs.Json.Quoted
import PlaneAccess.Proofs.Json.Reader

/-!
# Names and control planes in JSON

No way of coming by a name takes anything but the DNS labels, and each takes all
of them as they are (`labels_by_every_way`). However a JSON text spells the name,
it counts as the text that it stands for.
-/

namespace PlaneAccess.ControlPlane

open PlaneAccess.Json

variable {α β : Type}

/-! ## Names -/

namespace Name

theorem text_injective : Name.text.Injective := by
  rintro ⟨s, hs⟩ ⟨s', hs'⟩ h
  obtain rfl : s = s' := h
  rfl

theorem isLabel (n : Name) : IsLabel n.text := nameFault?_eq_none_iff.mp n.sound

theorem exists_text_iff {s : String} : (∃ n : Name, n.text = s) ↔ IsLabel s := by
  constructor
  · rintro ⟨n, rfl⟩
    exact n.isLabel
  · intro h
    exact ⟨⟨s, nameFault?_eq_none_iff.mpr h⟩, rfl⟩

theorem parse_eq_ok {s : String} {n : Name} : Name.parse s = .ok n ↔ s = n.text := by
  unfold Name.parse
  split
  · constructor
    · intro h
      cases h
      rfl
    · rintro rfl
      rfl
  · rename_i f hf
    constructor
    · intro h
      cases h
    · rintro rfl
      rw [n.sound] at hf
      cases hf

end Name

theorem parseName_eq_ok {s : String} {n : Name} : parseName s = .ok n ↔ s = n.text := by
  rw [← Name.parse_eq_ok, parseName]
  cases Name.parse s with
  | error f =>
    constructor
    · intro h
      cases h
    · intro h
      cases h
  | ok n' =>
    constructor
    · intro h
      cases h
      rfl
    · intro h
      cases h
      rfl

theorem Name.mirrors_ofJson : Mirrors Name.text Name.ofJson (string "a string") := by
  intro cs n rest
  rw [Name.ofJson, reads_bind]
  constructor
  · rintro ⟨s, mid, hs, h⟩
    cases hn : parseName s with
    | error e =>
      rw [hn] at h
      cases h
    | ok n' =>
      rw [hn] at h
      cases h
      rw [← parseName_eq_ok.mp hn]
      exact hs
  · intro hs
    refine ⟨n.text, rest, hs, ?_⟩
    rw [parseName_eq_ok.mpr rfl]
    rfl

/-! ## Control planes -/

namespace Identity

def readMemberWith (name : Reader α) (key : String) (s : Option α × Option Kind) :
    Reader (Option α × Option Kind) := do
  if key == "name" then
    if s.1.isSome then wrong (.repeatedField key)
    return (some (← memberValue name), s.2)
  else if key == "type" then
    if s.2.isSome then wrong (.repeatedField key)
    return (s.1, some (← memberValue Kind.ofJson))
  else
    skipMember
    return s

/-- Reads a control plane as a pair of its fields, whatever a name is. -/
def fieldsWith (name : Reader α) : Reader (α × Kind) :=
  let fields := recordName ++ " with 2 elements"
  record recordName
    (do
      let name ← element 0 fields name
      let kind ← element 1 fields Kind.ofJson
      return ⟨name, kind⟩)
    (do
      match ← object (none, none) (readMemberWith name) with
      | (none, _) => wrong (.missingField "name")
      | (some _, none) => wrong (.missingField "type")
      | (some name, some kind) => return ⟨name, kind⟩)

def fields (i : Identity) : Name × Kind := (i.name, i.kind)

theorem fields_injective : fields.Injective := by
  rintro ⟨n, k⟩ ⟨n', k'⟩ h
  cases h
  rfl

theorem mirrors_ofJson : Mirrors fields Identity.ofJson (fieldsWith Name.ofJson) := by
  refine Mirrors.record fields_injective ?_ ?_ recordName
  · refine mirrors_bind_left _ fun name => mirrors_bind_left _ fun kind => ?_
    exact mirrors_pure fields_injective ⟨name, kind⟩
  · refine mirrors_bind_left _ fun s => ?_
    obtain ⟨_ | name, _ | kind⟩ := s
    · exact mirrors_wrong _ _
    · exact mirrors_wrong _ _
    · exact mirrors_wrong _ _
    · exact mirrors_pure fields_injective ⟨name, kind⟩

section

variable {f : α → β} {r : Reader α} {q : Reader β}

theorem fieldsSoFar_injective (hf : f.Injective) :
    (Prod.map (Option.map f) (id : Option Kind → Option Kind)).Injective :=
  (Option.map_injective hf).prodMap Function.injective_id

theorem reflects_readMemberWith (key : String) :
    Reflects (Prod.map (Option.map f) id) (Prod.map (Option.map f) id) (readMemberWith q key) := by
  intro t cs s rest h
  obtain ⟨name, kind⟩ := t
  unfold readMemberWith at h
  split at h
  · -- the name has not been read before
    cases name with
    | none => exact ⟨(none, kind), rfl⟩
    | some b => cases h
  split at h
  · cases kind with
    | none =>
      obtain ⟨k, mid, -, h⟩ := reads_bind.mp h
      obtain ⟨hname, -⟩ := Prod.mk.inj (Prod.mk.inj (Except.ok.inj h)).1
      exact ⟨(s.1, none), Prod.ext hname.symm rfl⟩
    | some k => cases h
  · obtain ⟨_, mid, -, h⟩ := reads_bind.mp h
    cases h
    exact ⟨s, rfl⟩

theorem mirrors_readMemberWith (hf : f.Injective) (h : Mirrors f r q) (key : String)
    (s : Option α × Option Kind) :
    Mirrors (Prod.map (Option.map f) id) (readMemberWith r key s)
      (readMemberWith q key (Prod.map (Option.map f) id s)) := by
  have hinj := fieldsSoFar_injective hf
  obtain ⟨name, kind⟩ := s
  refine Mirrors.ite ?_ (Mirrors.ite ?_ ?_)
  · cases name with
    | none =>
      refine h.memberValue.bind (fun a => mirrors_pure hinj (some a, kind)) ?_
      intro b cs s rest hb
      obtain ⟨hname, -⟩ := Prod.mk.inj (Prod.mk.inj (Except.ok.inj hb)).1
      obtain ⟨a, -, ha⟩ := Option.map_eq_some_iff.mp hname.symm
      exact ⟨a, ha⟩
    | some a => exact mirrors_of_fails ((fails_wrong _).bind _) ((fails_wrong _).bind _)
  · cases kind with
    | none => exact mirrors_bind_left _ fun k => mirrors_pure hinj (name, some k)
    | some k => exact mirrors_of_fails ((fails_wrong _).bind _) ((fails_wrong _).bind _)
  · exact mirrors_bind_left _ fun _ => mirrors_pure hinj (name, kind)

theorem mirrors_fieldsWith (hf : f.Injective) (h : Mirrors f r q) :
    Mirrors (Prod.map f id) (fieldsWith r) (fieldsWith q) := by
  have hinj : (Prod.map f (id : Kind → Kind)).Injective := hf.prodMap Function.injective_id
  refine Mirrors.record hinj ?_ ?_ recordName
  · refine (h.element 0 _).bind
      (fun name => mirrors_bind_left _ fun kind => mirrors_pure hinj (name, kind)) ?_
    intro b cs p rest hb
    obtain ⟨kind, mid, -, hb⟩ := reads_bind.mp hb
    obtain ⟨hname, -⟩ := Prod.mk.inj (Prod.mk.inj (Except.ok.inj hb)).1
    exact ⟨p.1, hname.symm⟩
  · refine (mirrors_object (fieldsSoFar_injective hf) (mirrors_readMemberWith hf h)
      reflects_readMemberWith (none, none)).bind ?_ ?_
    · rintro ⟨_ | name, _ | kind⟩
      · exact mirrors_wrong _ _
      · exact mirrors_wrong _ _
      · exact mirrors_wrong _ _
      · exact mirrors_pure hinj (name, kind)
    · rintro ⟨_ | name, _ | kind⟩ cs p rest hb
      · cases hb
      · cases hb
      · cases hb
      · cases hb
        exact ⟨(some p.1, some p.2), rfl⟩

end

end Identity

/-! ## What is written -/

/-- The JSON object for a control plane with any text as its name. -/
def objectForm (name : String) (k : Kind) : String :=
  objectText [("name", quoted name), ("type", k.toJson)]

def arrayForm (name : String) (k : Kind) : String :=
  "[" ++ quoted name ++ "," ++ k.toJson ++ "]"

theorem Kind.ofJson_toJson (k : Kind) (rest : List Char) :
    Kind.ofJson (k.toJson.toList ++ rest) = .ok (k, rest) := by
  have hpeek : peekSome (k.toJson.toList ++ rest) = .ok ('"', k.toJson.toList ++ rest) := by
    rw [Kind.toJson, toList_quoted]
    rfl
  rw [Kind.ofJson, variant, bind_of_ok hpeek]
  change (string "variant identifier" >>= _) ((quoted k.word).toList ++ rest) = _
  rw [bind_of_ok (string_quoted "variant identifier" k.word rest)]
  cases k <;> rfl

theorem toList_objectForm (s : String) (k : Kind) :
    (objectForm s k).toList =
      '\x7b' :: ((quoted "name").toList ++ ':' :: ((quoted s).toList ++
        ',' :: ((quoted "type").toList ++ ':' :: (k.toJson.toList ++ ['\x7d'])))) := by
  change ("\x7b" ++ (quoted "name" ++ ":" ++ quoted s ++ "," ++
    (quoted "type" ++ ":" ++ k.toJson)) ++ "\x7d").toList = _
  simp

theorem toList_arrayForm (s : String) (k : Kind) :
    (arrayForm s k).toList =
      '[' :: ((quoted s).toList ++ ',' :: (k.toJson.toList ++ [']'])) := by
  simp [arrayForm]

namespace Identity

theorem readMemberWith_name (s : String) (kind : Option Kind) (rest : List Char) :
    readMemberWith (string "a string") "name" (none, kind) (':' :: ((quoted s).toList ++ rest)) =
      .ok ((some s, kind), rest) := by
  have hmember : readMemberWith (string "a string") "name" (none, kind) =
      memberValue (string "a string") >>= fun s => pure (some s, kind) := rfl
  rw [hmember, bind_of_ok ((memberValue_mark _ _).trans (string_quoted "a string" s rest))]
  rfl

theorem readMemberWith_type (name : Reader α) (a : Option α) (k : Kind) (rest : List Char) :
    readMemberWith name "type" (a, none) (':' :: (k.toJson.toList ++ rest)) =
      .ok ((a, some k), rest) := by
  have hmember : readMemberWith name "type" (a, none) =
      memberValue Kind.ofJson >>= fun k => pure (a, some k) := rfl
  rw [hmember, bind_of_ok ((memberValue_mark _ _).trans (Kind.ofJson_toJson k rest))]
  rfl

theorem read_objectForm (s : String) (k : Kind) :
    read (fieldsWith (string "a string")) (objectForm s k) = .ok (s, k) := by
  have hmembers : object (none, none) (readMemberWith (string "a string"))
      (objectForm s k).toList = .ok ((some s, some k), ['\x7d']) := by
    rw [toList_objectForm]
    have hlength : 3 ≤ ((quoted "name").toList ++ ':' :: ((quoted s).toList ++
        ',' :: ((quoted "type").toList ++ ':' :: (k.toJson.toList ++ ['\x7d'])))).length + 1 := by
      simp only [List.length_append, List.length_cons]
      omega
    refine object_of_members hlength fun fuel => ?_
    rw [members_of_next (nextMember_first "name" _) (readMemberWith_name s none _),
      members_of_next (nextMember_comma "type" _) (readMemberWith_type _ (some s) k _)]
    rfl
  refine read_eq_ok.mpr ⟨[], ?_, rfl⟩
  rw [toList_objectForm] at hmembers ⊢
  refine record_object ?_ recordName
  rw [bind_of_ok hmembers]
  rfl

theorem read_arrayForm (s : String) (k : Kind) :
    read (fieldsWith (string "a string")) (arrayForm s k) = .ok (s, k) := by
  have hname : element 0 (recordName ++ " with 2 elements") (string "a string")
      ((quoted s).toList ++ ',' :: (k.toJson.toList ++ [']'])) =
      .ok (s, ',' :: (k.toJson.toList ++ [']'])) :=
    (element_first _ _ s _).trans (string_quoted "a string" s _)
  have hkind : element 1 (recordName ++ " with 2 elements") Kind.ofJson
      (',' :: (k.toJson.toList ++ [']'])) = .ok (k, [']']) :=
    (element_comma 0 _ _ k.word [']']).trans (Kind.ofJson_toJson k [']'])
  refine read_eq_ok.mpr ⟨[], ?_, rfl⟩
  rw [toList_arrayForm]
  refine record_array ?_ recordName
  rw [bind_of_ok hname, bind_of_ok hkind]
  rfl

end Identity

theorem Identity.parse_eq_ok {s w : String} {i : Identity} :
    Identity.parse s w = .ok i ↔ s = i.name.text ∧ Kind.parse? w = some i.kind := by
  rw [Identity.parse, bind_eq_ok]
  constructor
  · rintro ⟨n, hn, h⟩
    obtain ⟨k, hk, h⟩ := bind_eq_ok.mp h
    cases h
    refine ⟨parseName_eq_ok.mp hn, ?_⟩
    unfold parseKind at hk
    split at hk
    · rename_i k' hk'
      cases hk
      exact hk'
    · cases hk
  · rintro ⟨rfl, hk⟩
    refine ⟨i.name, parseName_eq_ok.mpr rfl, ?_⟩
    rw [parseKind, hk]
    rfl

/-! ## Ways to come by a name -/

/-- A way of taking things takes those that give a label as the name and no others,
and keeps the label as it is. -/
structure TakesLabels {ε ι : Type} (gives : ι → String → Prop) (take : ι → Except ε α)
    (text : α → String) : Prop where
  accepts : ∀ x, (∃ a, take x = .ok a) ↔ ∃ s, gives x s ∧ IsLabel s
  keeps : ∀ x a, take x = .ok a → gives x (text a)

theorem takesLabels_of {ε ι : Type} {gives : ι → String → Prop} {take : ι → Except ε α}
    {text : α → String} (hlabel : ∀ a, IsLabel (text a))
    (hkeeps : ∀ x a, take x = .ok a → gives x (text a))
    (htakes : ∀ x (n : Name), gives x n.text → ∃ a, take x = .ok a) :
    TakesLabels gives take text := by
  refine ⟨fun x => ?_, hkeeps⟩
  constructor
  · rintro ⟨a, ha⟩
    exact ⟨text a, hkeeps x a ha, hlabel a⟩
  · rintro ⟨s, hs, h⟩
    obtain ⟨n, rfl⟩ := Name.exists_text_iff.mpr h
    exact htakes x n hs

theorem takesLabels_name {ε ι : Type} {gives : ι → String → Prop} {take : ι → Except ε Name}
    (h : ∀ x n, take x = .ok n ↔ gives x n.text) : TakesLabels gives take Name.text :=
  takesLabels_of Name.isLabel (fun x n => (h x n).mp) fun x n hn => ⟨n, (h x n).mpr hn⟩

/-- A text in JSON stands for another text. -/
def Spells (t s : String) : Prop := read (string "a string") t = .ok s

/-- A text in JSON has the fields of a control plane, with any text as its name. -/
def SpellsFields (t s : String) (k : Kind) : Prop :=
  read (Identity.fieldsWith (string "a string")) t = .ok (s, k)

theorem read_name_iff {t : String} {n : Name} : read Name.ofJson t = .ok n ↔ Spells t n.text :=
  Name.mirrors_ofJson.read t n

theorem read_identity_iff {t : String} {i : Identity} :
    read Identity.ofJson t = .ok i ↔ SpellsFields t i.name.text i.kind :=
  (Identity.mirrors_ofJson.read t i).trans
    ((Identity.mirrors_fieldsWith Name.text_injective Name.mirrors_ofJson).read t i.fields)

theorem spells_quoted {s s' : String} : Spells (quoted s) s' ↔ s = s' := by
  have hread : read (string "a string") (quoted s) = .ok s := by
    refine read_eq_ok.mpr ⟨[], ?_, rfl⟩
    rw [← List.append_nil (quoted s).toList]
    exact string_quoted "a string" s []
  rw [Spells, hread, Except.ok.injEq]

theorem takesLabels_form {form : String → Kind → String}
    (hform : ∀ s k, read (Identity.fieldsWith (string "a string")) (form s k) = .ok (s, k))
    (k : Kind) :
    TakesLabels Eq (fun s => read Identity.ofJson (form s k)) (fun i => i.name.text) := by
  refine takesLabels_of (fun i => i.name.isLabel) ?_ ?_
  · intro s i hi
    have hfields := read_identity_iff.mp hi
    rw [SpellsFields, hform] at hfields
    cases hfields
    rfl
  · rintro s n rfl
    exact ⟨⟨n, k⟩, read_identity_iff.mpr (hform n.text k)⟩

/-- Names come about in no way but from labels: from a text, from a pair of words, and
from JSON that stands for a text or for the fields of a control plane, however it
spells them. Each way takes all labels, and what has been written comes back. -/
theorem labels_by_every_way :
    TakesLabels Eq Name.parse Name.text ∧
      TakesLabels Eq parseName Name.text ∧
      TakesLabels (fun (p : String × String) s => p.1 = s ∧ ∃ k, Kind.parse? p.2 = some k)
        (fun p => Identity.parse p.1 p.2) (fun i => i.name.text) ∧
      TakesLabels Spells (read Name.ofJson) Name.text ∧
      TakesLabels Eq (fun s => read Name.ofJson (quoted s)) Name.text ∧
      TakesLabels (fun t s => ∃ k, SpellsFields t s k) (read Identity.ofJson)
        (fun i => i.name.text) ∧
      (∀ k, TakesLabels Eq (fun s => read Identity.ofJson (objectForm s k))
        (fun i => i.name.text)) ∧
      (∀ k, TakesLabels Eq (fun s => read Identity.ofJson (arrayForm s k))
        (fun i => i.name.text)) ∧
      (∀ n : Name, IsLabel n.text ∧ read Name.ofJson n.toJson = .ok n) ∧
      ∀ i : Identity, IsLabel i.name.text ∧ read Identity.ofJson i.toJson = .ok i := by
  refine ⟨?_, ?_, ?_, ?_, ?_, ?_, ?_, ?_, ?_, ?_⟩
  · exact takesLabels_name fun s n => Name.parse_eq_ok
  · exact takesLabels_name fun s n => parseName_eq_ok
  · refine takesLabels_of (fun i => i.name.isLabel) ?_ ?_
    · intro p i hi
      obtain ⟨hname, hkind⟩ := Identity.parse_eq_ok.mp hi
      exact ⟨hname, i.kind, hkind⟩
    · rintro p n ⟨hname, k, hkind⟩
      exact ⟨⟨n, k⟩, Identity.parse_eq_ok.mpr ⟨hname, hkind⟩⟩
  · exact takesLabels_name fun t n => read_name_iff
  · exact takesLabels_name fun s n => read_name_iff.trans spells_quoted
  · refine takesLabels_of (fun i => i.name.isLabel) ?_ ?_
    · intro t i hi
      exact ⟨i.kind, read_identity_iff.mp hi⟩
    · rintro t n ⟨k, hk⟩
      exact ⟨⟨n, k⟩, read_identity_iff.mpr hk⟩
  · exact takesLabels_form Identity.read_objectForm
  · exact takesLabels_form Identity.read_arrayForm
  · intro n
    exact ⟨n.isLabel, read_name_iff.mpr (spells_quoted.mpr rfl)⟩
  · intro i
    exact ⟨i.name.isLabel, read_identity_iff.mpr (Identity.read_objectForm i.name.text i.kind)⟩

/-- A name whose first letter is written as an escape. -/
example : (read Name.ofJson "\"\\u0063p1\"").toOption.map Name.text = some "cp1" := by
  decide +kernel

end PlaneAccess.ControlPlane
