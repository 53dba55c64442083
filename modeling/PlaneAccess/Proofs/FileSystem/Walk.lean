import PlaneAccess.FileSystem.Change

/-!
# Walks

`Walks` says step by step how a walk along some names comes to its end, and
`walkFrom_eq_ok` that the walks with a result are these. `Leads` says which
directory some names lead to, whatever number of links may be followed.
-/

namespace PlaneAccess.FileSystem

/-! ## Objects -/

theorem at?_put_self {l : Location} (fs : FileSystem) (o : Object) (h : l ≠ []) :
    (fs.put l o).at? l = some o := by
  rw [at?, put, if_neg (by simpa using h), List.lookup_cons_self]

theorem at?_put_of_ne {l k : Location} (fs : FileSystem) (o : Object) (h : k ≠ l) :
    (fs.put l o).at? k = fs.at? k := by
  have hlookup : ∀ es : List (Location × Object),
      (es.filter (fun e => e.1 ≠ l)).lookup k = es.lookup k := by
    intro es
    induction es with
    | nil => rfl
    | cons e es ih =>
      by_cases he : e.1 = l
      · rw [List.filter_cons_of_neg (by simpa using he), ih, List.lookup_cons]
        have hne : (k == e.1) = false := beq_eq_false_iff_ne.mpr (fun heq => h (heq.trans he))
        rw [hne]
      · rw [List.filter_cons_of_pos (by simpa using he), List.lookup_cons, List.lookup_cons, ih]
  have hne : (k == l) = false := beq_eq_false_iff_ne.mpr h
  rw [at?, at?, put, List.lookup_cons, hne]
  simp only [hlookup]

structure Extends (fs fs' : FileSystem) : Prop where
  working : fs'.working = fs.working
  object : ∀ l o, fs.at? l = some o → fs'.at? l = some o

theorem Extends.rfl {fs : FileSystem} : fs.Extends fs :=
  ⟨Eq.refl _, fun _ _ h => h⟩

theorem Extends.trans {fs fs' fs'' : FileSystem} (h : fs.Extends fs') (h' : fs'.Extends fs'') :
    fs.Extends fs'' :=
  ⟨h'.working.trans h.working, fun l o ho => h'.object l o (h.object l o ho)⟩

theorem extends_put {fs : FileSystem} {l : Location} (o : Object) (h : fs.at? l = none) :
    fs.Extends (fs.put l o) := by
  refine ⟨Eq.refl _, fun k o' hk => ?_⟩
  have hne : k ≠ l := by
    rintro rfl
    rw [h] at hk
    cases hk
  rw [at?_put_of_ne fs o hne]
  exact hk

/-! ## Steps of a walk -/

def IsEntryName (name : String) : Prop := name ≠ "." ∧ name ≠ ".."

instance (name : String) : Decidable (IsEntryName name) := inferInstanceAs (Decidable (_ ∧ _))

def linkBase (here : Location) (target : String) : Location :=
  if (Path.ofText target).isAbsolute then [] else here

variable {fs : FileSystem} {fl : Bool} {n : Nat} {here : Location} {name : String}
  {rest : List String}

theorem walkFrom_nil (n : Nat) (here : Location) :
    fs.walkFrom fl n here [] = .ok (.found here .directory) := by
  cases n <;> rfl

theorem walkFrom_dot (n : Nat) (here : Location) (rest : List String) :
    fs.walkFrom fl n here ("." :: rest) = fs.walkFrom fl n here rest := by
  cases n <;> rfl

theorem walkFrom_up (n : Nat) (here : Location) (rest : List String) :
    fs.walkFrom fl n here (".." :: rest) = fs.walkFrom fl n here.dropLast rest := by
  cases n <;> rfl

theorem walkFrom_free (hn : IsEntryName name) (h : fs.at? (here ++ [name]) = none) :
    fs.walkFrom fl n here (name :: rest) =
      if rest.isEmpty then .ok (.free (here ++ [name])) else .error .missing := by
  cases n <;>
  · rw [walkFrom, walkWith, if_neg hn.1, if_neg hn.2]
    simp only [h]

theorem walkFrom_directory (hn : IsEntryName name)
    (h : fs.at? (here ++ [name]) = some .directory) :
    fs.walkFrom fl n here (name :: rest) = fs.walkFrom fl n (here ++ [name]) rest := by
  cases n <;>
  · rw [walkFrom, walkWith, if_neg hn.1, if_neg hn.2]
    simp only [h]

theorem walkFrom_file {content : ByteArray} {mode : Nat} (hn : IsEntryName name)
    (h : fs.at? (here ++ [name]) = some (.file content mode)) :
    fs.walkFrom fl n here (name :: rest) =
      if rest.isEmpty then .ok (.found (here ++ [name]) (.file content mode))
      else .error .notDirectory := by
  cases n <;>
  · rw [walkFrom, walkWith, if_neg hn.1, if_neg hn.2]
    simp only [h]

theorem walkFrom_link {target : String} (hn : IsEntryName name)
    (h : fs.at? (here ++ [name]) = some (.link target)) :
    fs.walkFrom fl n here (name :: rest) =
      if rest.isEmpty && !fl then .ok (.found (here ++ [name]) (.link target))
      else
        match n with
        | 0 => .error .tooManyLinks
        | n + 1 =>
          fs.walkFrom fl n (linkBase here target) ((Path.ofText target).steps ++ rest) := by
  cases n with
  | zero =>
    rw [walkFrom, walkWith, if_neg hn.1, if_neg hn.2]
    simp only [h]
  | succ n =>
    rw [walkFrom, walkWith, if_neg hn.1, if_neg hn.2]
    simp only [h]
    rfl

/-- The names are gone through one by one. Only a link leads to others, and it
takes one from the number of links that may be followed. -/
theorem walk_induction {motive : Nat → Location → List String → Prop}
    (stop : ∀ n here, motive n here [])
    (dot : ∀ n here rest, motive n here rest → motive n here ("." :: rest))
    (up : ∀ n here rest, motive n here.dropLast rest → motive n here (".." :: rest))
    (entry : ∀ n here name rest, IsEntryName name → motive n (here ++ [name]) rest →
      (∀ m, n = m + 1 → ∀ target,
        motive m (linkBase here target) ((Path.ofText target).steps ++ rest)) →
      motive n here (name :: rest)) (n : Nat) (here : Location) (ps : List String) :
    motive n here ps := by
  have names : ∀ n, (∀ m, n = m + 1 → ∀ here ps, motive m here ps) →
      ∀ here ps, motive n here ps := by
    intro n hlink here ps
    induction ps generalizing here with
    | nil => exact stop n here
    | cons name rest ih =>
      by_cases hdot : name = "."
      · subst hdot
        exact dot n here rest (ih here)
      by_cases hup : name = ".."
      · subst hup
        exact up n here rest (ih here.dropLast)
      exact entry n here name rest ⟨hdot, hup⟩ (ih _) fun m hm target => hlink m hm _ _
  induction n generalizing here ps with
  | zero => exact names 0 (fun m hm => absurd hm (Nat.zero_ne_add_one m)) here ps
  | succ n ih =>
    refine names (n + 1) (fun m hm here ps => ?_) here ps
    obtain rfl := Nat.succ.inj hm
    exact ih here ps

/-! ## Walks with a result -/

/-- How a walk that may follow some number of links comes to a place. -/
inductive Walks (fs : FileSystem) (fl : Bool) : Nat → Location → List String → Place → Prop where
  | stop {n : Nat} {here : Location} : Walks fs fl n here [] (.found here .directory)
  | dot {n : Nat} {here : Location} {rest : List String} {p : Place} :
    Walks fs fl n here rest p → Walks fs fl n here ("." :: rest) p
  | up {n : Nat} {here : Location} {rest : List String} {p : Place} :
    Walks fs fl n here.dropLast rest p → Walks fs fl n here (".." :: rest) p
  | free {n : Nat} {here : Location} {name : String} : IsEntryName name →
    fs.at? (here ++ [name]) = none → Walks fs fl n here [name] (.free (here ++ [name]))
  | file {n : Nat} {here : Location} {name : String} {content : ByteArray} {mode : Nat} :
    IsEntryName name → fs.at? (here ++ [name]) = some (.file content mode) →
    Walks fs fl n here [name] (.found (here ++ [name]) (.file content mode))
  | directory {n : Nat} {here : Location} {name : String} {rest : List String} {p : Place} :
    IsEntryName name → fs.at? (here ++ [name]) = some .directory →
    Walks fs fl n (here ++ [name]) rest p → Walks fs fl n here (name :: rest) p
  | last {n : Nat} {here : Location} {name target : String} : IsEntryName name →
    fs.at? (here ++ [name]) = some (.link target) → fl = false →
    Walks fs fl n here [name] (.found (here ++ [name]) (.link target))
  | link {n : Nat} {here : Location} {name target : String} {rest : List String} {p : Place} :
    IsEntryName name → fs.at? (here ++ [name]) = some (.link target) →
    (rest.isEmpty && !fl) = false →
    Walks fs fl n (linkBase here target) ((Path.ofText target).steps ++ rest) p →
    Walks fs fl (n + 1) here (name :: rest) p

/-- The walks with a result are those that come to it step by step. -/
theorem walkFrom_eq_ok {ps : List String} {p : Place} :
    fs.walkFrom fl n here ps = .ok p ↔ Walks fs fl n here ps p := by
  constructor
  · induction n, here, ps using walk_induction generalizing p with
    | stop n here =>
      intro h
      rw [walkFrom_nil] at h
      obtain rfl := Except.ok.inj h
      exact .stop
    | dot n here rest ih =>
      intro h
      rw [walkFrom_dot] at h
      exact .dot (ih h)
    | up n here rest ih =>
      intro h
      rw [walkFrom_up] at h
      exact .up (ih h)
    | entry n here name rest hn ih ihlink =>
      intro h
      cases hobject : fs.at? (here ++ [name]) with
      | none =>
        rw [walkFrom_free hn hobject] at h
        split at h
        · rename_i hrest
          obtain rfl := List.isEmpty_iff.mp hrest
          obtain rfl := Except.ok.inj h
          exact .free hn hobject
        · cases h
      | some o =>
        cases o with
        | directory =>
          rw [walkFrom_directory hn hobject] at h
          exact .directory hn hobject (ih h)
        | file content mode =>
          rw [walkFrom_file hn hobject] at h
          split at h
          · rename_i hrest
            obtain rfl := List.isEmpty_iff.mp hrest
            obtain rfl := Except.ok.inj h
            exact .file hn hobject
          · cases h
        | link target =>
          rw [walkFrom_link hn hobject] at h
          split at h
          · rename_i hlast
            rw [Bool.and_eq_true, Bool.not_eq_true'] at hlast
            obtain rfl := List.isEmpty_iff.mp hlast.1
            obtain rfl := Except.ok.inj h
            exact .last hn hobject hlast.2
          · rename_i hfollow
            cases n with
            | zero => cases h
            | succ n =>
              exact .link hn hobject (Bool.eq_false_iff.mpr hfollow) (ihlink n rfl target h)
  · intro h
    induction h with
    | stop => exact walkFrom_nil _ _
    | dot _ ih => rw [walkFrom_dot, ih]
    | up _ ih => rw [walkFrom_up, ih]
    | free hn h =>
      rw [walkFrom_free hn h]
      rfl
    | file hn h =>
      rw [walkFrom_file hn h]
      rfl
    | directory hn h _ ih => rw [walkFrom_directory hn h, ih]
    | last hn h hfl =>
      rw [walkFrom_link hn h, hfl]
      rfl
    | link hn h hrest _ ih =>
      rw [walkFrom_link hn h, hrest, if_neg (by decide)]
      exact ih

/-! ## Directories that are reached -/

/-- Directories lead down to a location, and there is one at it. -/
inductive Reaches (fs : FileSystem) : Location → Prop where
  | root : Reaches fs []
  | into {l : Location} {name : String} : Reaches fs l → IsEntryName name →
    fs.at? (l ++ [name]) = some .directory → Reaches fs (l ++ [name])

theorem Reaches.dropLast {l : Location} (h : fs.Reaches l) : fs.Reaches l.dropLast := by
  cases h with
  | root => exact .root
  | into hl _ _ =>
    rw [List.dropLast_concat]
    exact hl

theorem Reaches.walkFrom_append {l : Location} (h : fs.Reaches l) (fl : Bool) (n : Nat)
    (rest : List String) :
    fs.walkFrom fl n [] (l ++ rest) = fs.walkFrom fl n l rest := by
  induction h generalizing rest with
  | root => rfl
  | into _ hn hobject ih =>
    rw [List.append_assoc, ih]
    exact walkFrom_directory hn hobject

theorem reaches_linkBase (h : fs.Reaches here) (target : String) :
    fs.Reaches (linkBase here target) := by
  unfold linkBase
  split
  · exact .root
  · exact h

/-- A walk that follows all links ends at a directory that is reached, at a
file in one, or at a name that one does not have. -/
theorem Walks.reaches {ps : List String} {p : Place} (hw : Walks fs true n here ps p)
    (h : fs.Reaches here) :
    (∃ l, p = .found l .directory ∧ fs.Reaches l) ∨
      ∃ l name, fs.Reaches l ∧ IsEntryName name ∧
        (p = .free (l ++ [name]) ∨ ∃ content mode, p = .found (l ++ [name]) (.file content mode) ∧
          fs.at? (l ++ [name]) = some (.file content mode)) := by
  induction hw with
  | stop => exact Or.inl ⟨_, rfl, h⟩
  | dot _ ih => exact ih h
  | up _ ih => exact ih h.dropLast
  | free hn _ => exact Or.inr ⟨_, _, h, hn, Or.inl rfl⟩
  | file hn hobject => exact Or.inr ⟨_, _, h, hn, Or.inr ⟨_, _, rfl, hobject⟩⟩
  | directory hn hobject _ ih => exact ih (h.into hn hobject)
  | last _ _ hfl => cases hfl
  | link _ _ _ _ ih => exact ih (reaches_linkBase h _)

/-! ## Walks along a path -/

def startOf (fs : FileSystem) (p : Path) : Location :=
  if p.isAbsolute then [] else fs.working

theorem Extends.startOf {fs fs' : FileSystem} (h : fs.Extends fs') (p : Path) :
    fs'.startOf p = fs.startOf p := by
  rw [FileSystem.startOf, FileSystem.startOf, h.working]

theorem walks_of_walk {fs : FileSystem} {fl : Bool} {p : Path} {place : Place}
    (h : fs.walk fl p = .ok place) : Walks fs fl linkLimit (fs.startOf p) p.steps place := by
  unfold walk at h
  split at h
  · cases h
  · exact walkFrom_eq_ok.mp h

theorem walk_of_steps {fs : FileSystem} {fl : Bool} {p : Path} (h : p.steps ≠ []) :
    fs.walk fl p = fs.walkFrom fl linkLimit (fs.startOf p) p.steps := by
  unfold walk
  split
  · rename_i hempty
    refine absurd ?_ h
    simp only [Path.isEmpty, Bool.and_eq_true, Bool.not_eq_true', List.isEmpty_iff] at hempty
    rw [Path.steps, hempty.2, if_neg (by decide), hempty.1.2]
  · rfl

theorem steps_of_parts {p : Path} (h : p.asDirectory = false) : p.steps = p.parts := by
  rw [Path.steps, h, if_neg (by decide)]

/-- The last step of a path that asks for a directory is no name. -/
theorem parts_of_steps {p : Path} {before : List String} {name : String}
    (h : p.steps = before ++ [name]) (hn : IsEntryName name) :
    p.asDirectory = false ∧ p.parts = before ++ [name] := by
  cases hd : p.asDirectory with
  | false => exact ⟨rfl, (steps_of_parts hd) ▸ h⟩
  | true =>
    rw [Path.steps, hd, if_pos rfl] at h
    obtain ⟨-, hlast⟩ := List.append_inj' h rfl
    exact absurd (List.singleton_inj.mp hlast).symm hn.1

theorem walk_pathTo {fs : FileSystem} {l : Location} (h : fs.Reaches l) (fl : Bool) :
    fs.walk fl (pathTo l) = .ok (.found l .directory) := by
  have hwalk := h.walkFrom_append fl linkLimit []
  rw [List.append_nil, walkFrom_nil] at hwalk
  exact hwalk

theorem walk_of_find {fs : FileSystem} {p : Path} {l : Location} {o : Object}
    (h : fs.find p = .ok (l, o)) : fs.walk true p = .ok (.found l o) := by
  unfold find at h
  split at h
  · cases h
  · cases h
  · rename_i hwalk
    obtain ⟨rfl, rfl⟩ := Prod.mk.inj (Except.ok.inj h)
    exact hwalk

theorem walk_of_findLast {fs : FileSystem} {p : Path} {l : Location} {o : Object}
    (h : fs.findLast p = .ok (l, o)) : fs.walk false p = .ok (.found l o) := by
  unfold findLast at h
  split at h
  · cases h
  · cases h
  · rename_i hwalk
    obtain ⟨rfl, rfl⟩ := Prod.mk.inj (Except.ok.inj h)
    exact hwalk

theorem Walks.at?_free {ps : List String} {p : Place} (h : Walks fs fl n here ps p) {l : Location}
    (hp : p = .free l) : fs.at? l = none := by
  induction h with
  | stop => cases hp
  | dot _ ih => exact ih hp
  | up _ ih => exact ih hp
  | free _ hobject =>
    obtain rfl := Place.free.inj hp
    exact hobject
  | file _ _ => cases hp
  | directory _ _ _ ih => exact ih hp
  | last _ _ _ => cases hp
  | link _ _ _ _ ih => exact ih hp

/-! ## Walks where there is more -/

variable {fs' : FileSystem}

/-- A walk comes to the same place when there is more, unless it ended at a
name that is taken by then. -/
theorem Walks.extend {ps : List String} {place : Place} (hext : fs.Extends fs')
    (h : Walks fs fl n here ps place) (hp : ∀ l, place = .free l → fs'.at? l = none) :
    Walks fs' fl n here ps place := by
  induction h with
  | stop => exact .stop
  | dot _ ih => exact .dot (ih hp)
  | up _ ih => exact .up (ih hp)
  | free hn _ => exact .free hn (hp _ rfl)
  | file hn hobject => exact .file hn (hext.object _ _ hobject)
  | directory hn hobject _ ih => exact .directory hn (hext.object _ _ hobject) (ih hp)
  | last hn hobject hfl => exact .last hn (hext.object _ _ hobject) hfl
  | link hn hobject hrest _ ih => exact .link hn (hext.object _ _ hobject) hrest (ih hp)

theorem walk_of_walks {fl' : Bool} {p : Path} {place place' : Place}
    (h : fs.walk fl p = .ok place)
    (hw : Walks fs' fl' linkLimit (fs'.startOf p) p.steps place') :
    fs'.walk fl' p = .ok place' := by
  unfold walk at h ⊢
  split at h
  · cases h
  · rename_i hpath
    rw [if_neg hpath]
    exact walkFrom_eq_ok.mpr hw

theorem walk_extend {p : Path} {l : Location} {o : Object} (hext : fs.Extends fs')
    (h : fs.walk fl p = .ok (.found l o)) : fs'.walk fl p = .ok (.found l o) := by
  refine walk_of_walks h ?_
  rw [hext.startOf]
  exact (walks_of_walk h).extend hext fun _ h => by cases h

theorem find_extend {p : Path} {l : Location} {o : Object} (hext : fs.Extends fs')
    (h : fs.find p = .ok (l, o)) : fs'.find p = .ok (l, o) := by
  rw [find, walk_extend hext (walk_of_find h)]

/-! ## Walks where there is the same -/

structure Agrees (fs fs' : FileSystem) : Prop where
  working : fs'.working = fs.working
  object : ∀ l, fs'.at? l = fs.at? l

theorem agrees_refusals (fs : FileSystem) (r : Refusals) :
    fs.Agrees { fs with refusals := r } :=
  ⟨rfl, fun _ => rfl⟩

theorem Agrees.reaches {fs fs' : FileSystem} (h : fs.Agrees fs') {l : Location}
    (hl : fs.Reaches l) : fs'.Reaches l := by
  induction hl with
  | root => exact .root
  | into _ hn hobject ih =>
    refine ih.into hn ?_
    rw [h.object]
    exact hobject

theorem Agrees.walkWith {fs fs' : FileSystem} (h : fs.Agrees fs') (fl : Bool)
    (jump : Location → List String → Except Fault Place) (here : Location) (ps : List String) :
    fs'.walkWith fl jump here ps = fs.walkWith fl jump here ps := by
  induction ps generalizing here with
  | nil => rfl
  | cons name rest ih => simp only [FileSystem.walkWith, h.object, ih]

theorem Agrees.walkFrom {fs fs' : FileSystem} (h : fs.Agrees fs') (fl : Bool) (n : Nat)
    (here : Location) (ps : List String) :
    fs'.walkFrom fl n here ps = fs.walkFrom fl n here ps := by
  induction n generalizing here ps with
  | zero => exact h.walkWith fl _ here ps
  | succ n ih =>
    rw [FileSystem.walkFrom, FileSystem.walkFrom, funext fun l => funext (ih l)]
    exact h.walkWith fl _ here ps

theorem Agrees.walk {fs fs' : FileSystem} (h : fs.Agrees fs') (fl : Bool) (p : Path) :
    fs'.walk fl p = fs.walk fl p := by
  rw [FileSystem.walk, FileSystem.walk, h.working, h.walkFrom]

theorem Agrees.find {fs fs' : FileSystem} (h : fs.Agrees fs') (p : Path) :
    fs'.find p = fs.find p := by
  rw [FileSystem.find, FileSystem.find, h.walk]

theorem Agrees.findLast {fs fs' : FileSystem} (h : fs.Agrees fs') (p : Path) :
    fs'.findLast p = fs.findLast p := by
  rw [FileSystem.findLast, FileSystem.findLast, h.walk]

theorem Agrees.read_freely {fs fs' : FileSystem} (h : fs.Agrees fs') (p : Path) :
    fs'.freely.read p = fs.freely.read p := by
  have hfree : ∀ fs : FileSystem, fs.freely.refusals.read = none := fun _ => rfl
  rw [FileSystem.read, FileSystem.read, hfree, hfree, freely, freely,
    (agrees_refusals fs' .none).find, (agrees_refusals fs .none).find, h.find]

theorem read_freely {fs : FileSystem} (hfree : fs.refusals.read = none) (p : Path) :
    fs.freely.read p = fs.read p := by
  rw [FileSystem.read, FileSystem.read, hfree, freely, (agrees_refusals fs .none).find]
  rfl

end PlaneAccess.FileSystem
