import PlaneAccess.Proofs.FileSystem.Directories
import PlaneAccess.Proofs.FileSystem.Install

/-!
# Writing a file and reading it

A file that has been written is found at the same path (`find_writeFile`),
and writing it again changes nothing (`writeFile_again`). Only where the path
led to nothing before, by way of links, the new file or the directories made
for it can get in the way.
-/

namespace PlaneAccess.FileSystem

/-! ## Where names lead -/

/-- Names lead from one directory to another, with all links followed. -/
inductive Leads (fs : FileSystem) : Location → List String → Location → Prop where
  | here {l : Location} : Leads fs l [] l
  | dot {l d : Location} {rest : List String} : Leads fs l rest d → Leads fs l ("." :: rest) d
  | up {l d : Location} {rest : List String} :
    Leads fs l.dropLast rest d → Leads fs l (".." :: rest) d
  | directory {l d : Location} {name : String} {rest : List String} : IsEntryName name →
    fs.at? (l ++ [name]) = some .directory → Leads fs (l ++ [name]) rest d →
    Leads fs l (name :: rest) d
  | link {l d : Location} {name target : String} {rest : List String} : IsEntryName name →
    fs.at? (l ++ [name]) = some (.link target) →
    Leads fs (linkBase l target) ((Path.ofText target).steps ++ rest) d →
    Leads fs l (name :: rest) d

theorem Leads.extend {fs fs' : FileSystem} (hext : fs.Extends fs') {l d : Location}
    {ps : List String} (h : fs.Leads l ps d) : fs'.Leads l ps d := by
  induction h with
  | here => exact .here
  | dot _ ih => exact .dot ih
  | up _ ih => exact .up ih
  | directory hn hobject _ ih => exact .directory hn (hext.object _ _ hobject) ih
  | link hn hobject _ ih => exact .link hn (hext.object _ _ hobject) ih

theorem Leads.of_dot {fs : FileSystem} {l d : Location} {rest : List String}
    (h : fs.Leads l ("." :: rest) d) : fs.Leads l rest d := by
  generalize hnames : "." :: rest = names at h
  cases h with
  | here => cases hnames
  | dot h =>
    obtain ⟨-, rfl⟩ := List.cons.inj hnames
    exact h
  | up _ => exact absurd (List.cons.inj hnames).1 (by decide)
  | directory hn _ _ => exact absurd (List.cons.inj hnames).1.symm hn.1
  | link hn _ _ => exact absurd (List.cons.inj hnames).1.symm hn.1

theorem Leads.of_up {fs : FileSystem} {l d : Location} {rest : List String}
    (h : fs.Leads l (".." :: rest) d) : fs.Leads l.dropLast rest d := by
  generalize hnames : ".." :: rest = names at h
  cases h with
  | here => cases hnames
  | dot _ => exact absurd (List.cons.inj hnames).1 (by decide)
  | up h =>
    obtain ⟨-, rfl⟩ := List.cons.inj hnames
    exact h
  | directory hn _ _ => exact absurd (List.cons.inj hnames).1.symm hn.2
  | link hn _ _ => exact absurd (List.cons.inj hnames).1.symm hn.2

theorem Leads.rest {fs : FileSystem} {l d e : Location} {ps qs : List String}
    (h : fs.Leads l ps d) (hall : fs.Leads l (ps ++ qs) e) : fs.Leads d qs e := by
  induction h with
  | here => exact hall
  | dot _ ih => exact ih hall.of_dot
  | up _ ih => exact ih hall.of_up
  | directory hn hobject _ ih =>
    cases hall with
    | dot _ => exact absurd rfl hn.1
    | up _ => exact absurd rfl hn.2
    | directory _ _ hall => exact ih hall
    | link _ hobject' _ =>
      rw [hobject] at hobject'
      cases (Option.some.inj hobject')
  | link hn hobject _ ih =>
    cases hall with
    | dot _ => exact absurd rfl hn.1
    | up _ => exact absurd rfl hn.2
    | directory _ hobject' _ =>
      rw [hobject] at hobject'
      cases (Option.some.inj hobject')
    | link _ hobject' hall =>
      rw [hobject] at hobject'
      obtain rfl := Object.link.inj (Option.some.inj hobject')
      exact ih ((List.append_assoc _ _ _).symm ▸ hall)

/-- A place is a directory, or at an entry of the directory to which the names
before the last one lead. -/
def EndsAt (fs : FileSystem) (here : Location) (ps : List String) (p : Place) : Prop :=
  (∃ l, p = .found l .directory) ∨
    ∃ before name d, ps = before ++ [name] ∧ IsEntryName name ∧ fs.Leads here before d ∧
      (p = .free (d ++ [name]) ∨
        ∃ o, p = .found (d ++ [name]) o ∧ fs.at? (d ++ [name]) = some o)

theorem EndsAt.cons {fs : FileSystem} {here next : Location} {first : String}
    {rest : List String} {p : Place} (h : fs.EndsAt next rest p)
    (hfirst : ∀ {names d}, fs.Leads next names d → fs.Leads here (first :: names) d) :
    fs.EndsAt here (first :: rest) p := by
  rcases h with hdirectory | ⟨before, name, d, rfl, hn, hleads, hp⟩
  · exact Or.inl hdirectory
  · exact Or.inr ⟨first :: before, name, d, rfl, hn, hfirst hleads, hp⟩

theorem Walks.endsAt {fs : FileSystem} {n : Nat} {here : Location} {ps : List String} {p : Place}
    (h : Walks fs false n here ps p) : fs.EndsAt here ps p := by
  induction h with
  | stop => exact Or.inl ⟨_, rfl⟩
  | dot _ ih => exact ih.cons fun hleads => .dot hleads
  | up _ ih => exact ih.cons fun hleads => .up hleads
  | free hn _ => exact Or.inr ⟨[], _, _, rfl, hn, .here, Or.inl rfl⟩
  | file hn hobject => exact Or.inr ⟨[], _, _, rfl, hn, .here, Or.inr ⟨_, rfl, hobject⟩⟩
  | directory hn hobject _ ih => exact ih.cons fun hleads => .directory hn hobject hleads
  | last hn hobject _ => exact Or.inr ⟨[], _, _, rfl, hn, .here, Or.inr ⟨_, rfl, hobject⟩⟩
  | @link n here first target rest p hfirst hobject hrest _ ih =>
    rcases ih with hdirectory | ⟨before, name, d, heq, hn, hleads, hp⟩
    · exact Or.inl hdirectory
    · -- the last name is not one of the link, since there are names after it
      rcases List.eq_nil_or_concat rest with rfl | ⟨more, last, rfl⟩
      · cases hrest
      · rw [List.concat_eq_append, ← List.append_assoc] at heq
        obtain ⟨rfl, hlast⟩ := List.append_inj' heq rfl
        obtain rfl := List.singleton_inj.mp hlast
        rw [List.concat_eq_append]
        exact Or.inr ⟨first :: more, _, d, rfl, hn, .link hfirst hobject hleads, hp⟩

/-! ## Ways to a new file -/

/-- How a walk can end that goes by the location of a file: at the file, or
because it would have to go on from a file or follow too many links. -/
def LandsAt (l : Location) (o : Object) (r : Except Fault Place) : Prop :=
  r = .ok (.found l o) ∨ r = .error .notDirectory ∨ r = .error .tooManyLinks

section

variable {fs : FileSystem} {l : Location} {content : ByteArray} {mode : Nat}

/-- If all walks from a directory land at a file, so do those that come to
that directory first. -/
theorem Leads.landsAt {here d : Location} {ps rest : List String} (hl : l ≠ [])
    (h : fs.Leads here ps d) (hrest : rest ≠ [])
    (hland : ∀ n, LandsAt l (.file content mode)
      ((fs.put l (.file content mode)).walkFrom true n d rest)) :
    ∀ n, LandsAt l (.file content mode)
      ((fs.put l (.file content mode)).walkFrom true n here (ps ++ rest)) := by
  -- where the file itself is on the way, the walk cannot go on
  have hstop : ∀ {here : Location} {name : String} {more : List String} (n : Nat),
      IsEntryName name → here ++ [name] = l → LandsAt l (.file content mode)
        ((fs.put l (.file content mode)).walkFrom true n here (name :: (more ++ rest))) := by
    intro here name more n hn heq
    have hobject : (fs.put l (.file content mode)).at? (here ++ [name]) =
        some (.file content mode) := by
      rw [heq]
      exact at?_put_self fs _ hl
    rw [walkFrom_file hn hobject, if_neg (by simp [hrest])]
    exact Or.inr (Or.inl rfl)
  induction h with
  | here => exact hland
  | dot _ ih =>
    intro n
    rw [List.cons_append, walkFrom_dot]
    exact ih hland n
  | up _ ih =>
    intro n
    rw [List.cons_append, walkFrom_up]
    exact ih hland n
  | @directory here d name ps hn hobject _ ih =>
    intro n
    rw [List.cons_append]
    by_cases heq : here ++ [name] = l
    · exact hstop n hn heq
    · rw [← at?_put_of_ne fs (.file content mode) heq] at hobject
      rw [walkFrom_directory hn hobject]
      exact ih hland n
  | @link here d name target ps hn hobject _ ih =>
    intro n
    rw [List.cons_append]
    by_cases heq : here ++ [name] = l
    · exact hstop n hn heq
    · rw [← at?_put_of_ne fs (.file content mode) heq] at hobject
      rw [walkFrom_link hn hobject, if_neg (by simp)]
      cases n with
      | zero => exact Or.inr (Or.inr rfl)
      | succ n =>
        rw [← List.append_assoc]
        exact ih hland n

theorem Leads.landsAt_entry {here d : Location} {ps more : List String} {name : String}
    (h : fs.Leads here ps d) (hn : IsEntryName name) :
    ∀ n, LandsAt (d ++ [name]) (.file content mode)
      ((fs.put (d ++ [name]) (.file content mode)).walkFrom true n here (ps ++ name :: more)) := by
  have hl : d ++ [name] ≠ [] := List.append_ne_nil_of_right_ne_nil d (List.cons_ne_nil _ _)
  refine h.landsAt hl (List.cons_ne_nil _ _) fun n => ?_
  rw [walkFrom_file hn (at?_put_self fs _ hl)]
  split
  · exact Or.inl rfl
  · exact Or.inr (Or.inl rfl)

theorem Leads.landsAt_link {here d : Location} {ps : List String} {name target : String}
    (hl : l ≠ []) (h : fs.Leads here ps d) (hn : IsEntryName name)
    (hobject : fs.at? (d ++ [name]) = some (.link target))
    (hland : ∀ n, LandsAt l (.file content mode)
      ((fs.put l (.file content mode)).walkFrom true n (linkBase d target)
        (Path.ofText target).steps)) :
    ∀ n, LandsAt l (.file content mode)
      ((fs.put l (.file content mode)).walkFrom true n here (ps ++ [name])) := by
  refine h.landsAt hl (List.cons_ne_nil _ _) fun n => ?_
  by_cases heq : d ++ [name] = l
  · have hfile : (fs.put l (.file content mode)).at? (d ++ [name]) =
        some (.file content mode) := by
      rw [heq]
      exact at?_put_self fs _ hl
    rw [walkFrom_file hn hfile, heq]
    exact Or.inl rfl
  · rw [← at?_put_of_ne fs (.file content mode) heq] at hobject
    rw [walkFrom_link hn hobject, if_neg (by simp)]
    cases n with
    | zero => exact Or.inr (Or.inr rfl)
    | succ n =>
      rw [List.append_nil]
      exact hland n

/-- A walk to a file comes to the same place when the file gets another
content. -/
theorem Walks.put_file {n : Nat} {here : Location} {ps : List String} {c : ByteArray} {m : Nat}
    {p : Place} (h : Walks fs true n here ps p) (content : ByteArray) (mode : Nat)
    (hobject : fs.at? l = some (.file c m)) (hp : p = .found l (.file c m)) :
    Walks (fs.put l (.file content mode)) true n here ps (.found l (.file content mode)) := by
  have hne : ∀ {k : Location} {o : Object}, fs.at? k = some o → (∀ c m, o ≠ .file c m) →
      (fs.put l (.file content mode)).at? k = some o := by
    intro k o hk ho
    have hkl : k ≠ l := by
      rintro rfl
      exact ho c m (Option.some.inj (hk.symm.trans hobject))
    rw [at?_put_of_ne fs _ hkl]
    exact hk
  induction h with
  | stop => cases (Place.found.inj hp).2
  | dot _ ih => exact .dot (ih hp)
  | up _ ih => exact .up (ih hp)
  | free _ _ => cases hp
  | file hn _ =>
    obtain ⟨rfl, -⟩ := Place.found.inj hp
    refine .file hn (at?_put_self fs _ ?_)
    exact List.append_ne_nil_of_right_ne_nil _ (List.cons_ne_nil _ _)
  | directory hn ho _ ih => exact .directory hn (hne ho (fun _ _ h => by cases h)) (ih hp)
  | last _ _ hfl => cases hfl
  | link hn ho hrest _ ih => exact .link hn (hne ho (fun _ _ h => by cases h)) hrest (ih hp)

end

/-! ## Writing -/

structure LetsWrite (fs : FileSystem) : Prop extends fs.LetsInstall where
  resolve : fs.refusals.resolve = none

theorem resolve_of_writeTarget {fs : FileSystem} {p target : Path}
    (h : fs.writeTarget p = .ok target) : fs.refusals.resolve = none := by
  unfold writeTarget at h
  split at h
  · cases h
  · assumption

theorem writeTarget_of_find {fs : FileSystem} {p : Path} {l : Location} {o : Object}
    (hresolve : fs.refusals.resolve = none) (hfind : fs.find p = .ok (l, o)) :
    fs.writeTarget p = .ok (pathTo l) := by
  rw [writeTarget, hresolve, hfind]

/-- A write to a path to nothing puts its file at that path, or where the link
at its end says. -/
theorem of_writeTarget_of_missing {fs : FileSystem} {p target : Path}
    (hfind : fs.find p = .error .missing) (h : fs.writeTarget p = .ok target) :
    target = p ∨ ∃ l text, fs.findLast p = .ok (l, .link text) ∧
      target = p.parent.join (Path.ofText text) := by
  rw [writeTarget, resolve_of_writeTarget h, hfind] at h
  dsimp only at h
  unfold missingTarget at h
  split at h
  · exact Or.inl (Except.ok.inj h).symm
  · split at h
    · rename_i l text hlast
      split at h
      · cases h
      · exact Or.inr ⟨l, text, hlast, (Except.ok.inj h).symm⟩
    · exact Or.inl (Except.ok.inj h).symm

theorem of_writeFile {fs fs' : FileSystem} {p : Path} {content : ByteArray}
    (h : fs.writeFile p content = (.ok (), fs')) :
    ∃ target fs₁, fs.writeTarget p = .ok target ∧
      fs.makeDirectories target.parent = (.ok (), fs₁) ∧ fs₁.LetsInstall ∧
      target.asDirectory = false ∧ fs₁.replace target content privateMode = .ok fs' := by
  unfold writeFile at h
  split at h
  · cases (Prod.mk.inj h).1
  · rename_i target htarget
    split at h
    · cases (Prod.mk.inj h).1
    · rename_i fs₁ hmake
      obtain ⟨hlets, hdirectory, hreplace⟩ := replace_of_install h
      exact ⟨target, fs₁, htarget, hmake, hlets, hdirectory, hreplace⟩

theorem place_of_replace {fs fs' : FileSystem} {p : Path} {content : ByteArray} {mode : Nat}
    (h : fs.replace p content mode = .ok fs') :
    ∃ before name d, p.steps = before ++ [name] ∧ IsEntryName name ∧
      fs.Leads (fs.startOf p) before d ∧
      (fs.at? (d ++ [name]) = none ∧ fs.findLast p = .error .missing ∨
        ∃ o, o ≠ .directory ∧ fs.at? (d ++ [name]) = some o ∧
          fs.findLast p = .ok (d ++ [name], o)) ∧
      fs' = fs.put (d ++ [name]) (.file content mode) := by
  unfold replace at h
  split at h
  · cases h
  · cases h
  · rename_i l o hne hwalk
    obtain rfl := Except.ok.inj h
    rcases (walks_of_walk hwalk).endsAt with
      ⟨l', hl'⟩ | ⟨before, name, d, hsteps, hn, hleads, hplace⟩
    · obtain ⟨rfl, rfl⟩ := Place.found.inj hl'
      exact absurd rfl hne
    · rcases hplace with hfree | ⟨o', hfound, hobject⟩
      · cases hfree
      · obtain ⟨rfl, rfl⟩ := Place.found.inj hfound
        have hlast : fs.findLast p = .ok (d ++ [name], o) := by
          rw [findLast, hwalk]
        exact ⟨before, name, d, hsteps, hn, hleads, Or.inr ⟨o, hne, hobject, hlast⟩, rfl⟩
  · rename_i l hwalk
    obtain rfl := Except.ok.inj h
    have hnone := (walks_of_walk hwalk).at?_free rfl
    have hlast : fs.findLast p = .error .missing := by
      rw [findLast, hwalk]
    rcases (walks_of_walk hwalk).endsAt with
      ⟨l', hl'⟩ | ⟨before, name, d, hsteps, hn, hleads, hplace⟩
    · cases hl'
    · rcases hplace with hfree | ⟨o', hfound, -⟩
      · obtain rfl := Place.free.inj hfree
        exact ⟨before, name, d, hsteps, hn, hleads, Or.inl ⟨hnone, hlast⟩, rfl⟩
      · cases hfound

theorem leads_of_replace {fs fs' : FileSystem} {p : Path} {content : ByteArray} {mode : Nat}
    (h : fs.replace p content mode = .ok fs') :
    ∃ before name d, p.steps = before ++ [name] ∧ IsEntryName name ∧
      fs.Leads (fs.startOf p) before d ∧ fs.at? (d ++ [name]) ≠ some .directory ∧
      fs' = fs.put (d ++ [name]) (.file content mode) := by
  obtain ⟨before, name, d, hsteps, hn, hleads, hplace, hput⟩ := place_of_replace h
  refine ⟨before, name, d, hsteps, hn, hleads, fun hdirectory => ?_, hput⟩
  rcases hplace with ⟨hnone, -⟩ | ⟨o, hne, hobject, -⟩
  · cases hnone.symm.trans hdirectory
  · exact hne (Option.some.inj (hobject.symm.trans hdirectory))

/-! ## Reading what was written -/

theorem LandsAt.find {fs : FileSystem} {p : Path} {l : Location} {o : Object}
    (h : LandsAt l o (fs.walk true p)) :
    fs.find p = .ok (l, o) ∨ fs.find p = .error .notDirectory ∨
      fs.find p = .error .tooManyLinks := by
  rcases h with h | h | h
  · exact Or.inl (by rw [FileSystem.find, h])
  · exact Or.inr (Or.inl (by rw [FileSystem.find, h]))
  · exact Or.inr (Or.inr (by rw [FileSystem.find, h]))

theorem find_put_file {fs : FileSystem} {p : Path} {l : Location} {c : ByteArray} {m : Nat}
    (h : fs.walk true p = .ok (.found l (.file c m))) (hobject : fs.at? l = some (.file c m))
    (content : ByteArray) (mode : Nat) :
    (fs.put l (.file content mode)).find p = .ok (l, .file content mode) := by
  have hput := (walks_of_walk h).put_file content mode hobject rfl
  rw [find, walk_of_walks h hput]

theorem read_of_find {fs : FileSystem} {p : Path} {l : Location} {c : ByteArray} {m : Nat}
    (hread : fs.refusals.read = none) (hfind : fs.find p = .ok (l, .file c m)) :
    fs.read p = .ok c := by
  rw [FileSystem.read, hread, hfind]

theorem read_of_find_error {fs : FileSystem} {p : Path} {e : Fault}
    (hread : fs.refusals.read = none) (hfind : fs.find p = .error e) : fs.read p = .error e := by
  rw [FileSystem.read, hread, hfind]

theorem find_of_read {fs : FileSystem} {p : Path} {c : ByteArray} (h : fs.read p = .ok c) :
    fs.refusals.read = none ∧ ∃ l m, fs.find p = .ok (l, .file c m) := by
  unfold FileSystem.read at h
  split at h
  · cases h
  · rename_i hread
    split at h
    · cases h
    · rename_i hfind
      obtain rfl := Except.ok.inj h
      exact ⟨hread, _, _, hfind⟩
    · cases h

theorem find_of_read_missing {fs : FileSystem} {p : Path} (h : fs.read p = .error .missing) :
    fs.refusals.read = none ∧ fs.find p = .error .missing := by
  unfold FileSystem.read at h
  split at h
  · cases h
  · rename_i hread
    split at h
    · rename_i hfind
      rw [hfind, Except.error.inj h]
      exact ⟨hread, rfl⟩
    · cases h
    · cases h

theorem parent_pathTo (d : Location) (name : String) :
    (pathTo (d ++ [name])).parent = pathTo d := by
  rw [Path.parent, pathTo, List.dropLast_concat]
  rfl

theorem reaches_startOf {fs : FileSystem} (hw : fs.Reaches fs.working) (p : Path) :
    fs.Reaches (fs.startOf p) := by
  unfold startOf
  split
  · exact .root
  · exact hw

/-- What a path leads to is a directory that is reached, or a file in one. -/
theorem reaches_of_find {fs : FileSystem} {p : Path} {l : Location} {o : Object}
    (hw : fs.Reaches fs.working) (h : fs.find p = .ok (l, o)) :
    o = .directory ∧ fs.Reaches l ∨
      ∃ d name c m, fs.Reaches d ∧ IsEntryName name ∧ l = d ++ [name] ∧ o = .file c m ∧
        fs.at? l = some (.file c m) := by
  rcases (walks_of_walk (walk_of_find h)).reaches (reaches_startOf hw p) with
    ⟨l', hl', hreaches⟩ | ⟨d, name, hreaches, hn, hplace⟩
  · obtain ⟨rfl, rfl⟩ := Place.found.inj hl'
    exact Or.inl ⟨rfl, hreaches⟩
  · rcases hplace with hfree | ⟨c, m, hfound, hobject⟩
    · cases hfree
    · obtain ⟨rfl, rfl⟩ := Place.found.inj hfound
      exact Or.inr ⟨d, name, c, m, hreaches, hn, rfl, rfl, hobject⟩

theorem Reaches.walk_pathTo_file {fs : FileSystem} {d : Location} {name : String} {c : ByteArray}
    {m : Nat} (h : fs.Reaches d) (hn : IsEntryName name)
    (hobject : fs.at? (d ++ [name]) = some (.file c m)) :
    fs.walk false (pathTo (d ++ [name])) = .ok (.found (d ++ [name]) (.file c m)) := by
  have hlast := h.walkFrom_append false linkLimit [name]
  rw [walkFrom_file hn hobject] at hlast
  exact hlast

/-- Where a path leads to a file a write needs no directories and puts its own
file there. -/
theorem target_of_find {fs : FileSystem} {p target : Path} {l : Location} {c : ByteArray} {m : Nat}
    (hw : fs.Reaches fs.working) (h : fs.find p = .ok (l, .file c m))
    (htarget : fs.writeTarget p = .ok target) :
    fs.makeDirectories target.parent = (.ok (), fs) ∧
      fs.findLast target = .ok (l, .file c m) := by
  obtain rfl := Except.ok.inj
    ((writeTarget_of_find (resolve_of_writeTarget htarget) h).symm.trans htarget)
  rcases reaches_of_find hw h with ⟨ho, -⟩ | ⟨d, name, c', m', hreaches, hn, rfl, ho, hobject⟩
  · cases ho
  obtain ⟨rfl, rfl⟩ := Object.file.inj ho
  refine ⟨?_, ?_⟩
  · rw [parent_pathTo, makeDirectories_pathTo hreaches]
  · rw [findLast, hreaches.walk_pathTo_file hn hobject]

theorem Reaches.find_directory {fs : FileSystem} {d : Location} (h : fs.Reaches d)
    (name : String) :
    fs.find (pathTo (d ++ [name])).directory = .ok (d, .directory) := by
  have hsteps : (pathTo (d ++ [name])).directory.steps = d ++ ["."] := by
    rw [Path.directory, pathTo, List.dropLast_concat]
    rfl
  have hstart : fs.startOf (pathTo (d ++ [name])).directory = [] := by
    simp [startOf, Path.directory, pathTo]
  have hwalk : fs.walk true (pathTo (d ++ [name])).directory = .ok (.found d .directory) := by
    rw [walk_of_steps (by simp [hsteps]), hsteps, hstart]
    have hdot := h.walkFrom_append true linkLimit ["."]
    rw [walkFrom_dot, walkFrom_nil] at hdot
    exact hdot
  rw [find, hwalk]

/-- Where a path leads to a file, a write that is not refused puts the content
in its stead. -/
theorem writeFile_of_find {fs : FileSystem} {p : Path} {l : Location} {c : ByteArray} {m : Nat}
    (hw : fs.Reaches fs.working) (hlets : fs.LetsWrite) (hfind : fs.find p = .ok (l, .file c m))
    (content : ByteArray) :
    fs.writeFile p content = (.ok (), fs.put l (.file content privateMode)) := by
  rcases reaches_of_find hw hfind with ⟨ho, -⟩ | ⟨d, name, c', m', hreaches, hn, rfl, -, hobject⟩
  · cases ho
  rw [writeFile, writeTarget_of_find hlets.resolve hfind]
  simp only [parent_pathTo, makeDirectories_pathTo hreaches]
  exact install_of_found hlets.toLetsInstall (hreaches.find_directory name) rfl rfl hn
    (hreaches.walk_pathTo_file hn hobject) (fun h => by cases h)

theorem not_directory_of_writeFile {fs fs' : FileSystem} {p : Path} {content : ByteArray}
    {l : Location} (hreaches : fs.Reaches l) (hfind : fs.find p = .ok (l, .directory)) :
    fs.writeFile p content ≠ (.ok (), fs') := by
  intro h
  obtain ⟨target, fs₁, htarget, hmake, -, -, hreplace⟩ := of_writeFile h
  obtain rfl : pathTo l = target :=
    Except.ok.inj ((writeTarget_of_find (resolve_of_writeTarget htarget) hfind).symm.trans htarget)
  rw [show (pathTo l).parent = pathTo l.dropLast from rfl,
    makeDirectories_pathTo hreaches.dropLast] at hmake
  obtain ⟨-, rfl⟩ := Prod.mk.inj hmake
  rw [replace, walk_pathTo hreaches] at hreplace
  cases hreplace

/-- A write without an error is to a path that led to a file or to nothing. -/
theorem find_of_writeFile {fs fs' : FileSystem} {p : Path} {content : ByteArray}
    (hw : fs.Reaches fs.working) (h : fs.writeFile p content = (.ok (), fs')) :
    (∃ l c m, fs.find p = .ok (l, .file c m) ∧ fs.at? l = some (.file c m)) ∨
      fs.find p = .error .missing := by
  cases hfind : fs.find p with
  | ok found =>
    obtain ⟨l, o⟩ := found
    rcases reaches_of_find hw hfind with ⟨rfl, hreaches⟩ | ⟨d, name, c, m, -, -, -, rfl, hobject⟩
    · exact absurd h (not_directory_of_writeFile hreaches hfind)
    · exact Or.inl ⟨l, c, m, rfl, hobject⟩
  | error e =>
    obtain ⟨target, -, htarget, -⟩ := of_writeFile h
    rw [writeTarget, resolve_of_writeTarget htarget, hfind] at htarget
    cases e with
    | missing => exact Or.inr rfl
    | _ => cases htarget

theorem Path.join_of_isAbsolute {dir p : Path} (h : p.isAbsolute = true) : dir.join p = p := by
  rw [join, if_pos h]

theorem Path.join_of_not_isAbsolute {dir p : Path} (h : p.isAbsolute = false) :
    dir.join p = ⟨dir.isAbsolute, dir.parts ++ p.parts, p.ending⟩ := by
  rw [join, h, if_neg (by decide)]

theorem landsAt_target {fs fs' : FileSystem} {p : Path} {before : List String} {name text : String}
    {d : Location} {content : ByteArray} {mode : Nat} (hparts : p.parts = before ++ [name])
    (hn : IsEntryName name) (hleads : fs.Leads (fs.startOf p) before d)
    (hobject : fs.at? (d ++ [name]) = some (.link text))
    (hdirectory : (p.parent.join (Path.ofText text)).asDirectory = false)
    (hreplace : fs.replace (p.parent.join (Path.ofText text)) content mode = .ok fs') :
    ∃ l, fs' = fs.put l (.file content mode) ∧ ∀ n, LandsAt l (.file content mode)
      (fs'.walkFrom true n (fs.startOf p) (before ++ [name])) := by
  have hne : ∀ (d : Location) (name : String), d ++ [name] ≠ [] :=
    fun d name => List.append_ne_nil_of_right_ne_nil d (List.cons_ne_nil _ _)
  cases habsolute : (Path.ofText text).isAbsolute with
  | true =>
    rw [Path.join_of_isAbsolute habsolute] at hdirectory hreplace
    obtain ⟨before', name', d', hsteps, hn', hleads', -, rfl⟩ := leads_of_replace hreplace
    have hbase : linkBase d text = fs.startOf (Path.ofText text) := by
      rw [linkBase, startOf, habsolute, if_pos rfl, if_pos rfl]
    refine ⟨d' ++ [name'], rfl, hleads.landsAt_link (hne d' name') hn hobject fun n => ?_⟩
    rw [hbase, hsteps]
    exact hleads'.landsAt_entry hn' n
  | false =>
    have hparent : p.parent.parts = before := by
      rw [Path.parent, hparts, List.dropLast_concat]
    rw [Path.join_of_not_isAbsolute habsolute, hparent] at hdirectory hreplace
    obtain ⟨before', name', d', hsteps, hn', hleads', -, rfl⟩ := leads_of_replace hreplace
    refine ⟨d' ++ [name'], rfl, ?_⟩
    rw [steps_of_parts hdirectory] at hsteps
    replace hsteps : before ++ (Path.ofText text).parts = before' ++ [name'] := hsteps
    replace hleads' : fs.Leads (fs.startOf p) before' d' := hleads'
    have hbase : linkBase d text = d := by
      rw [linkBase, habsolute, if_neg (by decide)]
    rcases List.eq_nil_or_concat (Path.ofText text).parts with hnil | ⟨more, last, hmore⟩
    · -- the link says nothing, so the file is put in the stead of the last name before it
      rw [hnil, List.append_nil] at hsteps
      rw [hsteps, List.append_assoc]
      exact hleads'.landsAt_entry hn'
    · rw [hmore, List.concat_eq_append, ← List.append_assoc] at hsteps
      obtain ⟨rfl, hlast⟩ := List.append_inj' hsteps rfl
      obtain rfl := List.singleton_inj.mp hlast
      refine hleads.landsAt_link (hne d' last) hn hobject fun n => ?_
      have hlink : (Path.ofText text).steps = (Path.ofText text).parts :=
        steps_of_parts hdirectory
      rw [hlink, hmore, List.concat_eq_append, hbase]
      exact (hleads.rest hleads').landsAt_entry hn' n

theorem find_writeFile_of_missing {fs fs' : FileSystem} {p : Path} {content : ByteArray}
    (hfind : fs.find p = .error .missing) (h : fs.writeFile p content = (.ok (), fs')) :
    ∃ (l : Location) (fs₁ : FileSystem), fs' = fs₁.put l (.file content privateMode) ∧
      (fs'.find p = .ok (l, .file content privateMode) ∨
        fs'.find p = .error .notDirectory ∨ fs'.find p = .error .tooManyLinks) := by
  obtain ⟨target, fs₁, htarget, hmake, -, hdirectory, hreplace⟩ := of_writeFile h
  have hextends := (prepares_makeDirectories hmake).keeps
  have hworking : fs'.working = fs₁.working := by
    obtain ⟨_, _, _, _, _, _, _, rfl⟩ := leads_of_replace hreplace
    rfl
  have hstart : fs'.startOf p = fs₁.startOf p := by
    rw [startOf, startOf, hworking]
  rcases of_writeTarget_of_missing hfind htarget with rfl | ⟨l, text, hlast, rfl⟩
  · -- the file is put at the path itself
    obtain ⟨before, name, d, hsteps, hn, hleads, -, rfl⟩ := leads_of_replace hreplace
    have hlands : LandsAt (d ++ [name]) (.file content privateMode)
        ((fs₁.put (d ++ [name]) (.file content privateMode)).walk true target) := by
      rw [walk_of_steps (by rw [hsteps]; simp), hstart, hsteps]
      exact hleads.landsAt_entry hn linkLimit
    exact ⟨d ++ [name], fs₁, rfl, hlands.find⟩
  · -- the path ends at a link, and what it leads to is written
    rcases (walks_of_walk (walk_of_findLast hlast)).endsAt with
      ⟨l', hl'⟩ | ⟨before, name, d, hsteps, hn, hleads, hplace⟩
    · cases (Place.found.inj hl').2
    rcases hplace with hfree | ⟨o, hfound, hobject⟩
    · cases hfree
    obtain ⟨rfl, rfl⟩ := Place.found.inj hfound
    have hleads₁ := hleads.extend hextends
    rw [← hextends.startOf] at hleads₁
    obtain ⟨l, hput, hland⟩ := landsAt_target (parts_of_steps hsteps hn).2 hn hleads₁
      (hextends.object _ _ hobject) hdirectory hreplace
    have hlands : LandsAt l (.file content privateMode) (fs'.walk true p) := by
      rw [walk_of_steps (by rw [hsteps]; simp), hstart, hsteps]
      exact hland linkLimit
    exact ⟨l, fs₁, hput, hlands.find⟩

section

variable {fs fs' : FileSystem} {p : Path} {content : ByteArray}

theorem letsWrite_of_writeFile (h : fs.writeFile p content = (.ok (), fs')) : fs.LetsWrite := by
  obtain ⟨target, fs₁, htarget, hmake, hlets, -⟩ := of_writeFile h
  have hsame := (prepares_makeDirectories hmake).refusals.symm
  exact ⟨⟨hsame ▸ hlets.create, hsame ▸ hlets.write, hsame ▸ hlets.sync, hsame ▸ hlets.move⟩,
    resolve_of_writeTarget htarget⟩

theorem refusals_of_writeFile (h : fs.writeFile p content = (.ok (), fs')) :
    fs'.refusals = fs.refusals := by
  obtain ⟨target, fs₁, -, hmake, -, -, hreplace⟩ := of_writeFile h
  obtain ⟨_, _, _, _, _, _, _, rfl⟩ := leads_of_replace hreplace
  exact (prepares_makeDirectories hmake).refusals

/-- What was written is found where it was put. Only where the path led to
nothing before can the new file be in its own way, or the path follow too many
links. -/
theorem find_writeFile (hw : fs.Reaches fs.working)
    (h : fs.writeFile p content = (.ok (), fs')) :
    ∃ (l : Location) (fs₁ : FileSystem), fs' = fs₁.put l (.file content privateMode) ∧
      (fs'.find p = .ok (l, .file content privateMode) ∨
        fs.find p = .error .missing ∧
          (fs'.find p = .error .notDirectory ∨ fs'.find p = .error .tooManyLinks)) := by
  rcases find_of_writeFile hw h with ⟨l, c, m, hfind, hobject⟩ | hfind
  · rw [writeFile_of_find hw (letsWrite_of_writeFile h) hfind] at h
    obtain ⟨-, rfl⟩ := Prod.mk.inj h
    exact ⟨l, fs, rfl, Or.inl (find_put_file (walk_of_find hfind) hobject content privateMode)⟩
  · obtain ⟨l, fs₁, hput, hfound⟩ := find_writeFile_of_missing hfind h
    exact ⟨l, fs₁, hput, hfound.imp_right fun hfails => ⟨hfind, hfails⟩⟩

/-! ## Writing again -/

theorem Reaches.put {l k : Location} {o : Object} (h : fs.Reaches k)
    (hl : fs.at? l ≠ some .directory) : (fs.put l o).Reaches k := by
  induction h with
  | root => exact .root
  | @into d name _ hn hobject ih =>
    have hne : d ++ [name] ≠ l := by
      rintro rfl
      exact hl hobject
    refine ih.into hn ?_
    rw [at?_put_of_ne fs o hne]
    exact hobject

theorem Reaches.extend (hext : fs.Extends fs') {l : Location} (h : fs.Reaches l) :
    fs'.Reaches l := by
  induction h with
  | root => exact .root
  | into _ hn hobject ih => exact ih.into hn (hext.object _ _ hobject)

theorem reaches_writeFile (hw : fs.Reaches fs.working)
    (h : fs.writeFile p content = (.ok (), fs')) : fs'.Reaches fs'.working := by
  obtain ⟨target, fs₁, -, hmake, -, -, hreplace⟩ := of_writeFile h
  have hextends := (prepares_makeDirectories hmake).keeps
  obtain ⟨_, _, _, _, _, _, hdirectory, rfl⟩ := leads_of_replace hreplace
  have hworking : fs₁.Reaches fs₁.working := by
    rw [hextends.working]
    exact hw.extend hextends
  exact hworking.put hdirectory

/-- A file that can be read can be written, if that is not refused. -/
theorem writeFile_of_read (hw : fs.Reaches fs.working) (hlets : fs.LetsWrite) {old : ByteArray}
    (h : fs.read p = .ok old) (content : ByteArray) :
    ∃ fs', fs.writeFile p content = (.ok (), fs') := by
  obtain ⟨-, l, m, hfind⟩ := find_of_read h
  exact ⟨_, writeFile_of_find hw hlets hfind content⟩

theorem LetsWrite.of_refusals (h : fs.LetsWrite) (hsame : fs'.refusals = fs.refusals) :
    fs'.LetsWrite :=
  ⟨⟨hsame ▸ h.create, hsame ▸ h.write, hsame ▸ h.sync, hsame ▸ h.move⟩, hsame ▸ h.resolve⟩

/-- Writing what was written changes nothing, where it is found. -/
theorem writeFile_again (hw : fs.Reaches fs.working)
    (h : fs.writeFile p content = (.ok (), fs')) (hread : fs'.read p = .ok content) :
    fs'.writeFile p content = (.ok (), fs') := by
  have hlets := (letsWrite_of_writeFile h).of_refusals (refusals_of_writeFile h)
  obtain ⟨l, fs₁, hput, hfound | ⟨-, hfails⟩⟩ := find_writeFile hw h
  · rw [writeFile_of_find (reaches_writeFile hw h) hlets hfound, hput, put_put]
  · obtain ⟨-, l', m, hfind⟩ := find_of_read hread
    rcases hfails with hfail | hfail
    · cases hfind.symm.trans hfail
    · cases hfind.symm.trans hfail

end

end PlaneAccess.FileSystem
