import Mathlib.Data.List.Pairwise
import PlaneAccess.Proofs.Except
import PlaneAccess.Yaml.Record

/-!
# Fields apart from each other

Each field of a record reads and writes a part of it. Where the parts are apart
(`RecordField.Apart`), reading one field never changes what is said of another
one (`Schema.leaves_of_pairwise`). For the fields of a schema this comes down to
the updates of the record, which `simp` goes through.
-/

namespace PlaneAccess.Yaml

namespace RecordField

variable {α β γ : Type} {key : String} {f g : RecordField α} {view : α → β}

/-- Reading the field leaves what is seen of a record as it is. -/
def Spares (f : RecordField α) (view : α → β) : Prop :=
  ∀ around here t a b, f.read around here t a = .ok b → view b = view a

/-- Neither of two fields changes what is written of the other one. -/
def Apart (f g : RecordField α) : Prop :=
  f.Spares g.write ∧ g.Spares f.write

instance : Std.Symm (@Apart α) := ⟨fun _ _ h => ⟨h.2, h.1⟩⟩

theorem Spares.map (h : f.Spares view) (w : β → γ) : f.Spares (fun a => w (view a)) :=
  fun around here t a b hb => congrArg w (h around here t a b hb)

/-- A field that is read into a part of the record spares what does not depend on
that part. -/
theorem Spares.of_set {read : Path → Path → Tree → Except ReadError γ} {set : α → γ → α}
    (hread : ∀ around here t a, f.read around here t a = (read around here t).map (set a))
    (h : ∀ a v, view (set a v) = view a) : f.Spares view := by
  intro around here t a b hb
  rw [hread] at hb
  obtain ⟨v, -, rfl⟩ := map_eq_ok.mp hb
  exact h a v

section

variable {get : α → String} {set : α → String → α}

@[simp] theorem key_text : (text key get set).key = key := rfl

@[simp] theorem spares_text (h : ∀ a v, view (set a v) = view a) :
    (text key get set).Spares view :=
  .of_set (fun _ _ _ _ => rfl) h

@[simp] theorem spares_write_text (h : f.Spares get) : f.Spares (text key get set).write :=
  h.map fun v => some (Tree.ofString v)

end

section

variable {value : String}

@[simp] theorem key_constant : (constant key value : RecordField α).key = key := rfl

@[simp] theorem spares_constant : (constant key value).Spares view :=
  .of_set (fun _ _ _ _ => rfl) (fun _ _ => rfl)

@[simp] theorem spares_write_constant : f.Spares (constant key value).write :=
  fun _ _ _ _ _ _ => rfl

end

section

variable {get : α → Option String} {set : α → Option String → α}

@[simp] theorem key_optionalText : (optionalText key get set).key = key := rfl

@[simp] theorem spares_optionalText (h : ∀ a v, view (set a v) = view a) :
    (optionalText key get set).Spares view :=
  .of_set (fun _ _ _ _ => rfl) h

@[simp] theorem spares_write_optionalText (h : f.Spares get) :
    f.Spares (optionalText key get set).write :=
  h.map (Option.map Tree.ofString)

end

section

variable {get : α → Option Bool} {set : α → Option Bool → α}

@[simp] theorem key_optionalFlag : (optionalFlag key get set).key = key := rfl

@[simp] theorem spares_optionalFlag (h : ∀ a v, view (set a v) = view a) :
    (optionalFlag key get set).Spares view :=
  .of_set (fun _ _ _ _ => rfl) h

@[simp] theorem spares_write_optionalFlag (h : f.Spares get) :
    f.Spares (optionalFlag key get set).write :=
  h.map (Option.map Tree.ofBool)

end

section

variable {get : α → Option Value} {set : α → Option Value → α}

@[simp] theorem key_optionalValue : (optionalValue key get set).key = key := rfl

@[simp] theorem spares_optionalValue (h : ∀ a v, view (set a v) = view a) :
    (optionalValue key get set).Spares view :=
  .of_set (fun _ _ _ _ => rfl) h

@[simp] theorem spares_write_optionalValue (h : f.Spares get) :
    f.Spares (optionalValue key get set).write :=
  h.map (Option.map Value.toTree)

end

section

variable {interest : Interest} {read : Path → Tree → Except ReadError γ} {write : γ → Tree}
  {get : α → List γ} {set : α → List γ → α}

@[simp] theorem key_list : (list key interest read write get set).key = key := rfl

@[simp] theorem spares_list (h : ∀ a v, view (set a v) = view a) :
    (list key interest read write get set).Spares view :=
  .of_set (fun _ _ _ _ => rfl) fun a v => h a (v.getD [])

@[simp] theorem spares_write_list (h : f.Spares get) :
    f.Spares (list key interest read write get set).write :=
  h.map fun l => some (Tree.sequence none (l.map write))

end

section

variable {s : Schema γ} {get : α → Option γ} {set : α → Option γ → α}

@[simp] theorem key_optionalRecord : (optionalRecord key s get set).key = key := rfl

@[simp] theorem spares_optionalRecord (h : ∀ a v, view (set a v) = view a) :
    (optionalRecord key s get set).Spares view :=
  .of_set (fun _ _ _ _ => rfl) h

@[simp] theorem spares_write_optionalRecord (h : f.Spares get) :
    f.Spares (optionalRecord key s get set).write :=
  h.map (Option.map s.write)

end

end RecordField

namespace Schema

variable {α β : Type} {s : Schema α}

/-- Reading any other field leaves what is seen of a record as it is. -/
def Leaves (s : Schema α) (key : String) (view : α → β) : Prop :=
  ∀ g ∈ s.fields, g.key ≠ key → g.Spares view

/-- Where any two fields are apart, what is written of each field is left as it is
by the others. -/
theorem leaves_of_pairwise (h : s.fields.Pairwise RecordField.Apart) :
    ∀ f ∈ s.fields, s.Leaves f.key f.write := by
  intro f hf g hg hne
  have hdistinct : g ≠ f := fun heq => hne (congrArg RecordField.key heq)
  exact (h.forall hg hf hdistinct).1

end Schema

end PlaneAccess.Yaml
