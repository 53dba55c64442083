import PlaneAccess.NameMap.Lemmas
import PlaneAccess.Proofs.Yaml.Read
import PlaneAccess.Yaml.Record

/-!
# What can be read of a record

A property that every field keeps when it is read holds of the whole record
(`Schema.holds_of_read`), and the other keys of a record that has been read
are no fields and have sound values (`Schema.KeepsWithin`).
-/

namespace PlaneAccess

namespace Yaml

/-! ## Parts of a tree -/

theorem depth_of_readMapping {path : Path} {t : Tree} {expected : String}
    {es : List (Tree × Tree)} {d : Nat} (h : readMapping path t expected = .ok es)
    (ht : t.depth ≤ d + 1) : ∀ e ∈ es, e.2.depth ≤ d := by
  rw [← Tree.depth_target] at ht
  unfold readMapping at h
  split at h
  · rename_i tag entries htarget
    obtain rfl := Except.ok.inj h
    rw [htarget, Tree.depth, Nat.add_le_add_iff_right, Tree.depthOfEntries_le] at ht
    exact fun e he => (ht e he).2
  · split at h
    · obtain rfl := Except.ok.inj h
      exact fun _ h => absurd h List.not_mem_nil
    · cases h
  · cases h

theorem depth_of_readSequence {path : Path} {t : Tree} {ts : List Tree} {d : Nat}
    (h : readSequence path t = .ok ts) (ht : t.depth ≤ d + 1) : ∀ u ∈ ts, u.depth ≤ d := by
  rw [← Tree.depth_target] at ht
  unfold readSequence at h
  split at h
  · rename_i tag items htarget
    obtain rfl := Except.ok.inj h
    rw [htarget, Tree.depth, Nat.add_le_add_iff_right, Tree.depthOfItems_le] at ht
    exact ht
  · split at h
    · obtain rfl := Except.ok.inj h
      exact fun _ h => absurd h List.not_mem_nil
    · cases h
  · cases h

/-- What has been read of an optional value is the value, if there is one. -/
theorem eq_some_of_readOptional {α : Type} {around : Path} {t : Tree}
    {read : Tree → Except ReadError α} {r : Option α} {a : α}
    (h : readOptional around t read = .ok r) (hr : r = some a) : read t = .ok a := by
  subst hr
  have hread : (read t).map some = .ok (some a) → read t = .ok a := by
    intro h
    obtain ⟨b, hb, heq⟩ := map_eq_ok.mp h
    obtain rfl := Option.some.inj heq
    exact hb
  unfold readOptional at h
  split at h
  · split at h
    · cases h
    · exact hread h
  · split at h
    · split at h
      · cases h
      · cases h
    · exact hread h
  · exact hread h

theorem forall_of_readList {α : Type} {read : Path → Tree → Except ReadError α} {path : Path}
    {t : Tree} {l : List α} {d : Nat} {P : α → Prop} (h : readList path read t = .ok l)
    (ht : t.depth ≤ d + 1) (hread : ∀ here u a, u.depth ≤ d → read here u = .ok a → P a) :
    ∀ a ∈ l, P a := by
  have hfrom : ∀ (ts : List Tree) (i : Nat) (l : List α), (∀ u ∈ ts, u.depth ≤ d) →
      readListFrom path read i ts = .ok l → ∀ a ∈ l, P a := by
    intro ts
    induction ts with
    | nil =>
      intro i l _ h
      obtain rfl := Except.ok.inj h
      exact fun _ h => absurd h List.not_mem_nil
    | cons u ts ih =>
      intro i l hdepth h
      obtain ⟨a, ha, h⟩ := bind_eq_ok.mp h
      obtain ⟨as, has, h⟩ := bind_eq_ok.mp h
      obtain rfl := Except.ok.inj h
      intro b hb
      rcases List.mem_cons.mp hb with rfl | hb
      · exact hread _ u b (hdepth u List.mem_cons_self) ha
      · exact ih (i + 1) as (fun w hw => hdepth w (List.mem_cons_of_mem _ hw)) has b hb
  obtain ⟨ts, hts, h⟩ := bind_eq_ok.mp h
  exact hfrom ts 0 l (depth_of_readSequence hts ht) h

/-! ## Records -/

namespace Schema

variable {α : Type}

/-- The other keys of a record are no fields, and their values are sound and
repeat no keys. -/
def KeepsWithin (s : Schema α) (d : Nat) (m : NameMap Value) : Prop :=
  ∀ key v, m.get? key = some v →
    s.field? key = none ∧ Sound .inRecord d v ∧ v.repeatedKey? = none

def FieldKeeps (P : α → Prop) (d : Nat) (f : RecordField α) : Prop :=
  ∀ around here t a b, t.depth ≤ d → f.read around here t a = .ok b → P a → P b

structure PartlyRead (s : Schema α) (P : α → Prop) (d : Nat) (p : Partial α) : Prop where
  value : P p.value
  extra : ∀ e ∈ p.extra, s.field? e.1 = none ∧ Sound .inRecord d e.2

theorem mem_of_field? {s : Schema α} {key : String} {f : RecordField α}
    (h : s.field? key = some f) : f ∈ s.fields :=
  List.mem_of_find?_eq_some h

theorem key_of_field? {s : Schema α} {key : String} {f : RecordField α}
    (h : s.field? key = some f) : f.key = key := by
  have hkey := List.find?_some h
  exact beq_iff_eq.mp hkey

/-- What reading one entry does: its value is that of a field that has not been
there before, or one that is kept under another key, or one that nobody looks
at. -/
theorem readEntry_cases {s : Schema α} {path : Path} {p q : Partial α} {e : Tree × Tree}
    (h : s.readEntry path p e = .ok q) :
    ∃ key, readKey path e.1 = .ok key ∧
      ((∃ f b, s.field? key = some f ∧ key ∉ p.seen ∧
          f.read path (stepOf e.1 :: path) e.2 p.value = .ok b ∧
          q = ⟨b, key :: p.seen, p.extra⟩) ∨
        (∃ x v, s.field? key = none ∧ s.extra = some x ∧
          readValue .inRecord (stepOf e.1 :: path) e.2 = .ok v ∧
          q = ⟨p.value, p.seen, p.extra ++ [(key, v)]⟩) ∨
        s.field? key = none ∧ s.extra = none ∧ q = p) := by
  obtain ⟨key, hkey, h⟩ := bind_eq_ok.mp h
  refine ⟨key, hkey, ?_⟩
  dsimp only at h
  split at h
  · rename_i f hf
    split at h
    · cases h
    · rename_i hseen
      obtain ⟨b, hb, h⟩ := bind_eq_ok.mp h
      obtain rfl := Except.ok.inj h
      exact Or.inl ⟨f, b, hf, by simpa using hseen, hb, rfl⟩
  · rename_i hf
    split at h
    · rename_i x hx
      obtain ⟨v, hv, h⟩ := bind_eq_ok.mp h
      obtain rfl := Except.ok.inj h
      exact Or.inr (Or.inl ⟨x, v, hf, hx, hv, rfl⟩)
    · rename_i hx
      split at h
      · cases h
      · obtain rfl := Except.ok.inj h
        exact Or.inr (Or.inr ⟨hf, hx, rfl⟩)

/-- Reading one more entry keeps what holds. -/
theorem PartlyRead.readEntry {s : Schema α} {P : α → Prop} {d : Nat} {path : Path}
    {p q : Partial α} {e : Tree × Tree} (hfields : ∀ f ∈ s.fields, FieldKeeps P d f)
    (he : e.2.depth ≤ d) (hp : PartlyRead s P d p) (h : s.readEntry path p e = .ok q) :
    PartlyRead s P d q := by
  obtain ⟨key, -, hcases⟩ := readEntry_cases h
  rcases hcases with ⟨f, b, hf, -, hb, rfl⟩ | ⟨x, v, hf, -, hv, rfl⟩ | ⟨-, -, rfl⟩
  · exact ⟨hfields f (mem_of_field? hf) _ _ _ _ _ he hb hp.value, hp.extra⟩
  · refine ⟨hp.value, fun e' he' => ?_⟩
    rcases List.mem_append.mp he' with hmem | hmem
    · exact hp.extra e' hmem
    · obtain rfl := List.mem_singleton.mp hmem
      exact ⟨hf, (sound_readValue .inRecord _ _ v hv).mono he⟩
  · exact hp

theorem PartlyRead.foldlM {s : Schema α} {P : α → Prop} {d : Nat} {path : Path}
    (hfields : ∀ f ∈ s.fields, FieldKeeps P d f) :
    ∀ (es : List (Tree × Tree)) (p q : Partial α), (∀ e ∈ es, e.2.depth ≤ d) →
      PartlyRead s P d p → es.foldlM (s.readEntry path) p = .ok q → PartlyRead s P d q
  | [], p, q, _, hp, h => by
    obtain rfl := Except.ok.inj h
    exact hp
  | e :: es, p, q, hdepth, hp, h => by
    obtain ⟨r, hr, h⟩ := bind_eq_ok.mp h
    exact foldlM hfields es r q (fun e he => hdepth e (List.mem_cons_of_mem _ he))
      (hp.readEntry hfields (hdepth e List.mem_cons_self) hr) h

theorem repeatedKey?_of_checkKeys {path : Path} :
    ∀ {es : List (String × Value)}, checkKeys path es = .ok () →
      ∀ e ∈ es, e.2.repeatedKey? = none
  | [], _ => fun _ h => absurd h List.not_mem_nil
  | (key, v) :: es, h => by
    rw [checkKeys] at h
    split at h
    · cases h
    · rename_i hv
      exact List.forall_mem_cons.mpr ⟨hv, repeatedKey?_of_checkKeys h⟩

/-- What reading a record does: its entries are read one by one, and then the
other keys are put in. -/
theorem read_cases {s : Schema α} {path : Path} {t : Tree} {a : α} (h : s.read path t = .ok a) :
    ∃ es p, readMapping path t s.name = .ok es ∧
      es.foldlM (s.readEntry path) ⟨s.empty, [], []⟩ = .ok p ∧
      (s.extra = none ∧ a = p.value ∨
        ∃ x, s.extra = some x ∧ checkKeys path p.extra = .ok () ∧
          a = x.set p.value (NameMap.ofList p.extra)) := by
  obtain ⟨es, hes, h⟩ := bind_eq_ok.mp h
  obtain ⟨p, hp, h⟩ := bind_eq_ok.mp h
  refine ⟨es, p, hes, hp, ?_⟩
  cases hx : s.extra with
  | none =>
    simp only [hx] at h
    exact Or.inl ⟨rfl, (Except.ok.inj h).symm⟩
  | some x =>
    simp only [hx] at h
    obtain ⟨⟨⟩, hcheck, h⟩ := bind_eq_ok.mp h
    exact Or.inr ⟨x, rfl, hcheck, (Except.ok.inj h).symm⟩

theorem partlyRead_of_read {s : Schema α} {P : α → Prop} {d : Nat} {path : Path} {t : Tree}
    {a : α} (h : s.read path t = .ok a) (ht : t.depth ≤ d + 1) (hempty : P s.empty)
    (hfields : ∀ f ∈ s.fields, FieldKeeps P d f) :
    ∃ b, P b ∧ match s.extra with
      | none => a = b
      | some x => ∃ m, a = x.set b m ∧ s.KeepsWithin d m := by
  obtain ⟨es, p, hes, hp, hcases⟩ := read_cases h
  have hread := PartlyRead.foldlM hfields es ⟨s.empty, [], []⟩ p (depth_of_readMapping hes ht)
    ⟨hempty, fun _ h => absurd h List.not_mem_nil⟩ hp
  refine ⟨p.value, hread.value, ?_⟩
  rcases hcases with ⟨hx, rfl⟩ | ⟨x, hx, hcheck, rfl⟩
  · rw [hx]
  · rw [hx]
    refine ⟨_, rfl, fun key v hv => ?_⟩
    have hmem := NameMap.mem_of_get?_ofList hv
    exact ⟨(hread.extra _ hmem).1, (hread.extra _ hmem).2,
      repeatedKey?_of_checkKeys hcheck _ hmem⟩

/-- What every field keeps holds of a record that has been read. -/
theorem holds_of_read {s : Schema α} {P : α → Prop} {d : Nat} {path : Path} {t : Tree} {a : α}
    (h : s.read path t = .ok a) (ht : t.depth ≤ d + 1) (hx : s.extra = none) (hempty : P s.empty)
    (hfields : ∀ f ∈ s.fields, FieldKeeps P d f) : P a := by
  obtain ⟨b, hb, hab⟩ := partlyRead_of_read h ht hempty hfields
  simp only [hx] at hab
  exact hab ▸ hb

theorem keepsWithin_of_read {s : Schema α} {x : Extra α} {d : Nat} {path : Path} {t : Tree} {a : α}
    (h : s.read path t = .ok a) (ht : t.depth ≤ d + 1) (hx : s.extra = some x)
    (hget : ∀ b m, x.get (x.set b m) = m) : s.KeepsWithin d (x.get a) := by
  obtain ⟨b, -, hab⟩ := partlyRead_of_read (P := fun _ => True) h ht trivial
    (fun _ _ _ _ _ _ _ _ _ _ => trivial)
  simp only [hx] at hab
  obtain ⟨m, rfl, hm⟩ := hab
  rw [hget]
  exact hm

/-! ## How deep a record is -/

theorem depth_write {s : Schema α} {a : α} {d : Nat}
    (hfields : ∀ f ∈ s.fields, ∀ t, f.write a = some t → t.depth ≤ d)
    (hextra : ∀ x, s.extra = some x → ∀ key v, (x.get a).get? key = some v →
      v.toTree.depth ≤ d) : (s.write a).depth ≤ d + 1 := by
  rw [write, Tree.depth, Nat.add_le_add_iff_right, Tree.depthOfEntries_le]
  intro e he
  rcases List.mem_append.mp he with hmem | hmem
  · obtain ⟨f, hf, heq⟩ := List.mem_filterMap.mp hmem
    obtain ⟨t, ht, rfl⟩ := Option.map_eq_some_iff.mp heq
    exact ⟨Nat.zero_le d, hfields f hf t ht⟩
  · cases hx : s.extra with
    | none =>
      rw [hx] at hmem
      exact absurd hmem List.not_mem_nil
    | some x =>
      rw [hx] at hmem
      obtain ⟨⟨key, v⟩, hv, rfl⟩ := List.mem_map.mp hmem
      exact ⟨Nat.zero_le d, hextra x hx key v (NameMap.mem_toList.mp hv)⟩

end Schema

end Yaml

end PlaneAccess
