import PlaneAccess.Proofs.FileSystem.FailedWrite

/-!
# The way to a new file

A path that led to nothing leads to the file that has been written there
(`read_writeFile_of_not_returnsToLink`). There is one exception: the directories
that are made for the file are left again, and the way goes back to a link
(`ReturnsToLink`). The link can lead on by then, or have been replaced by the
file.
-/

namespace PlaneAccess.FileSystem

variable {fs fs' : FileSystem}

/-! ## The course of a walk -/

/-- A walk along some names that follows all links comes to a directory with
other names before it, over so many links. -/
inductive Comes (fs : FileSystem) :
    Nat → Location → List String → Location → List String → Prop where
  | here {l : Location} {ps : List String} : Comes fs 0 l ps l ps
  | dot {c : Nat} {l d : Location} {rest qs : List String} :
    Comes fs c l rest d qs → Comes fs c l ("." :: rest) d qs
  | up {c : Nat} {l d : Location} {rest qs : List String} :
    Comes fs c l.dropLast rest d qs → Comes fs c l (".." :: rest) d qs
  | directory {c : Nat} {l d : Location} {name : String} {rest qs : List String} :
    IsEntryName name → fs.at? (l ++ [name]) = some .directory →
    Comes fs c (l ++ [name]) rest d qs → Comes fs c l (name :: rest) d qs
  | link {c : Nat} {l d : Location} {name target : String} {rest qs : List String} :
    IsEntryName name → fs.at? (l ++ [name]) = some (.link target) →
    Comes fs c (linkBase l target) ((Path.ofText target).steps ++ rest) d qs →
    Comes fs (c + 1) l (name :: rest) d qs

theorem Comes.walkFrom {c : Nat} {l d : Location} {ps qs : List String}
    (h : fs.Comes c l ps d qs) (n : Nat) :
    fs.walkFrom true n l ps =
      if c ≤ n then fs.walkFrom true (n - c) d qs else .error .tooManyLinks := by
  induction h generalizing n with
  | here => rw [if_pos (Nat.zero_le n), Nat.sub_zero]
  | dot _ ih => rw [walkFrom_dot, ih]
  | up _ ih => rw [walkFrom_up, ih]
  | directory hn hobject _ ih => rw [walkFrom_directory hn hobject, ih]
  | link hn hobject _ ih =>
    rw [walkFrom_link hn hobject, if_neg (by simp)]
    cases n with
    | zero => rw [if_neg (Nat.not_succ_le_zero _)]
    | succ n =>
      simp only [ih, Nat.add_le_add_iff_right, Nat.add_sub_add_right]

theorem Comes.trans {c c' : Nat} {l d e : Location} {ps qs rs : List String}
    (h : fs.Comes c l ps d qs) (h' : fs.Comes c' d qs e rs) : fs.Comes (c + c') l ps e rs := by
  induction h with
  | here => rwa [Nat.zero_add]
  | dot _ ih => exact .dot (ih h')
  | up _ ih => exact .up (ih h')
  | directory hn hobject _ ih => exact .directory hn hobject (ih h')
  | link hn hobject _ ih =>
    rw [Nat.add_right_comm]
    exact .link hn hobject (ih h')

theorem Comes.extend (hext : fs.Extends fs') {c : Nat} {l d : Location} {ps qs : List String}
    (h : fs.Comes c l ps d qs) : fs'.Comes c l ps d qs := by
  induction h with
  | here => exact .here
  | dot _ ih => exact .dot ih
  | up _ ih => exact .up ih
  | directory hn hobject _ ih => exact .directory hn (hext.object _ _ hobject) ih
  | link hn hobject _ ih => exact .link hn (hext.object _ _ hobject) ih

theorem Leads.comes {l d : Location} {ps : List String} (h : fs.Leads l ps d)
    (rest : List String) : ∃ c, fs.Comes c l (ps ++ rest) d rest := by
  induction h with
  | here => exact ⟨0, .here⟩
  | dot _ ih =>
    obtain ⟨c, hc⟩ := ih
    exact ⟨c, .dot hc⟩
  | up _ ih =>
    obtain ⟨c, hc⟩ := ih
    exact ⟨c, .up hc⟩
  | directory hn hobject _ ih =>
    obtain ⟨c, hc⟩ := ih
    exact ⟨c, .directory hn hobject hc⟩
  | link hn hobject _ ih =>
    obtain ⟨c, hc⟩ := ih
    rw [List.append_assoc] at hc
    exact ⟨c + 1, .link hn hobject hc⟩

/-- A walk that has no more names before it than at the end has gone along the
others, so they lead somewhere. -/
theorem Comes.leads {c : Nat} {l d : Location} {ps rest qs : List String}
    (h : fs.Comes c l (ps ++ rest) d qs) (hlength : qs.length ≤ rest.length) :
    ∃ k, fs.Leads l ps k := by
  generalize hnames : ps ++ rest = names at h
  induction h generalizing ps with
  | here =>
    rw [← hnames, List.length_append] at hlength
    obtain rfl : ps = [] := List.eq_nil_of_length_eq_zero (by omega)
    exact ⟨_, .here⟩
  | dot _ ih =>
    cases ps with
    | nil => exact ⟨_, .here⟩
    | cons first ps =>
      obtain ⟨rfl, hmore⟩ := List.cons.inj hnames
      obtain ⟨k, hk⟩ := ih hlength hmore
      exact ⟨k, .dot hk⟩
  | up _ ih =>
    cases ps with
    | nil => exact ⟨_, .here⟩
    | cons first ps =>
      obtain ⟨rfl, hmore⟩ := List.cons.inj hnames
      obtain ⟨k, hk⟩ := ih hlength hmore
      exact ⟨k, .up hk⟩
  | directory hn hobject _ ih =>
    cases ps with
    | nil => exact ⟨_, .here⟩
    | cons first ps =>
      obtain ⟨rfl, hmore⟩ := List.cons.inj hnames
      obtain ⟨k, hk⟩ := ih hlength hmore
      exact ⟨k, .directory hn hobject hk⟩
  | link hn hobject _ ih =>
    cases ps with
    | nil => exact ⟨_, .here⟩
    | cons first ps =>
      obtain ⟨rfl, rfl⟩ := List.cons.inj hnames
      obtain ⟨k, hk⟩ := ih hlength (List.append_assoc _ _ _)
      exact ⟨k, .link hn hobject hk⟩

/-- A walk comes to an entry that leads nowhere as before when something else is
put there, and over no more links. -/
theorem Comes.put {c : Nat} {l d : Location} {ps : List String} {name : String}
    (h : fs.Comes c l ps d [name]) (hnowhere : ∀ k, ¬ fs.Leads d [name] k) (o : Object) :
    ∃ c' ≤ c, (fs.put (d ++ [name]) o).Comes c' l ps d [name] := by
  generalize hqs : [name] = qs at h hnowhere ⊢
  induction h with
  | here => exact ⟨0, Nat.le_refl _, .here⟩
  | dot _ ih =>
    obtain ⟨c', hle, hc'⟩ := ih hqs hnowhere
    exact ⟨c', hle, .dot hc'⟩
  | up _ ih =>
    obtain ⟨c', hle, hc'⟩ := ih hqs hnowhere
    exact ⟨c', hle, .up hc'⟩
  | @directory c l d first rest qs hn hobject _ ih =>
    obtain ⟨c', hle, hc'⟩ := ih hqs hnowhere
    obtain rfl := hqs
    have hne : l ++ [first] ≠ d ++ [name] := by
      intro heq
      obtain ⟨rfl, hname⟩ := List.append_inj' heq rfl
      obtain rfl := List.singleton_inj.mp hname
      exact hnowhere _ (.directory hn hobject .here)
    exact ⟨c', hle, .directory hn ((at?_put_of_ne fs o hne).trans hobject) hc'⟩
  | @link c l d first target rest qs hn hobject hmore ih =>
    obtain ⟨c', hle, hc'⟩ := ih hqs hnowhere
    obtain rfl := hqs
    by_cases heq : l ++ [first] = d ++ [name]
    · obtain ⟨rfl, hname⟩ := List.append_inj' heq rfl
      obtain rfl := List.singleton_inj.mp hname
      cases rest with
      | nil => exact ⟨0, Nat.zero_le _, .here⟩
      | cons next rest =>
        -- the link is not the last name, so what it says leads somewhere
        obtain ⟨k, hk⟩ := hmore.leads (by simp)
        refine absurd (Leads.link hn hobject ?_) (hnowhere k)
        rwa [List.append_nil]
    · exact ⟨c' + 1, Nat.succ_le_succ hle,
        .link hn ((at?_put_of_ne fs o heq).trans hobject) hc'⟩

/-! ## Paths to nothing -/

theorem Comes.le_linkLimit {p : Path} (hfind : fs.find p = .error .missing)
    (hsteps : p.steps ≠ []) {c : Nat} {d : Location} {qs : List String}
    (h : fs.Comes c (fs.startOf p) p.steps d qs) : c ≤ linkLimit := by
  refine Decidable.byContradiction fun hmany => ?_
  have hwalk := h.walkFrom linkLimit
  rw [← walk_of_steps hsteps, if_neg hmany] at hwalk
  rw [find, hwalk] at hfind
  cases hfind

theorem not_leads_of_missing {p : Path} (hfind : fs.find p = .error .missing)
    (hsteps : p.steps ≠ []) {c : Nat} {d : Location} {qs : List String}
    (h : fs.Comes c (fs.startOf p) p.steps d qs) (k : Location) : ¬ fs.Leads d qs k := by
  intro hleads
  obtain ⟨c', hc'⟩ := hleads.comes []
  rw [List.append_nil] at hc'
  have hall := h.trans hc'
  have hwalk := hall.walkFrom linkLimit
  rw [← walk_of_steps hsteps, if_pos (hall.le_linkLimit hfind hsteps), walkFrom_nil] at hwalk
  rw [find, hwalk] at hfind
  cases hfind

/-- A path that leads to nothing leads on the way to what a write would put in
its stead. -/
theorem comes_of_writeTarget {p target : Path} (hfind : fs.find p = .error .missing)
    (htarget : fs.writeTarget p = .ok target) (hdirectory : target.asDirectory = false)
    (hparts : target.parts ≠ []) :
    p.steps ≠ [] ∧ ∃ c before after d, target.parts = before ++ after ∧ after ≠ [] ∧
      fs.Leads (fs.startOf target) before d ∧ fs.Comes c (fs.startOf p) p.steps d after := by
  rcases of_writeTarget_of_missing hfind htarget with rfl | ⟨k, text, hlast, rfl⟩
  · rw [steps_of_parts hdirectory]
    exact ⟨hparts, 0, [], target.parts, _, rfl, hparts, .here, .here⟩
  · rcases (walks_of_walk (walk_of_findLast hlast)).endsAt with
      ⟨k', hk'⟩ | ⟨before, name, d, hsteps, hn, hleads, hplace⟩
    · cases (Place.found.inj hk').2
    rcases hplace with hfree | ⟨o, hfound, hobject⟩
    · cases hfree
    obtain ⟨rfl, rfl⟩ := Place.found.inj hfound
    have hne : p.steps ≠ [] := by
      rw [hsteps]
      simp
    refine ⟨hne, ?_⟩
    obtain ⟨c, hc⟩ := hleads.comes [name]
    have hlink := hc.trans (.link hn hobject .here)
    rw [← hsteps, List.append_nil] at hlink
    cases habsolute : (Path.ofText text).isAbsolute with
    | true =>
      rw [Path.join_of_isAbsolute habsolute] at hdirectory hparts ⊢
      rw [linkBase, habsolute, if_pos rfl, steps_of_parts hdirectory] at hlink
      refine ⟨_, [], _, _, rfl, hparts, ?_, hlink⟩
      rw [startOf, habsolute, if_pos rfl]
      exact .here
    | false =>
      have hparent : p.parent.parts = before := by
        rw [Path.parent, (parts_of_steps hsteps hn).2, List.dropLast_concat]
      rw [Path.join_of_not_isAbsolute habsolute, hparent] at hdirectory ⊢
      have htext : (Path.ofText text).steps = (Path.ofText text).parts := steps_of_parts hdirectory
      rw [linkBase, habsolute, if_neg (by decide), htext] at hlink
      refine ⟨_, before, _, d, rfl, ?_, hleads, hlink⟩
      -- a link that says nothing would lead to its own directory
      intro hnil
      rw [hnil] at hlink
      exact not_leads_of_missing hfind hne hlink d .here

theorem exists_of_append_eq_concat {α : Type} {before after way : List α} {last : α}
    (h : way ++ [last] = before ++ after) (hafter : after ≠ []) :
    ∃ more, way = before ++ more ∧ after = more ++ [last] := by
  rcases List.eq_nil_or_concat after with rfl | ⟨more, last', rfl⟩
  · exact absurd rfl hafter
  · rw [List.concat_eq_append, ← List.append_assoc] at h
    obtain ⟨hway, hlast⟩ := List.append_inj' h rfl
    exact ⟨more, hway, by rw [List.concat_eq_append, List.singleton_inj.mp hlast]⟩

/-! ## Directories that had to be made -/

/-- Making the directories of a path changes nothing, or begins with a name that
was free in a directory to which the names before it lead. -/
theorem of_makeDirectoriesReversed {isAbsolute : Bool} {ps : List String}
    (h : fs.makeDirectoriesReversed isAbsolute ps = (.ok (), fs')) :
    fs' = fs ∨ ∃ before name after d, ps.reverse = before ++ name :: after ∧ IsEntryName name ∧
      fs.Leads (fs.startOf ⟨isAbsolute, ps.reverse, .name⟩) before d ∧
      fs.at? (d ++ [name]) = none := by
  induction ps generalizing fs' with
  | nil => exact Or.inl (Prod.mk.inj h).2.symm
  | cons last ps ih =>
    rw [makeDirectoriesReversed] at h
    split at h
    · rename_i fs₁ hmake
      obtain ⟨l, hwalk, -⟩ := of_makeDirectory hmake
      rcases (walks_of_walk hwalk).endsAt with
        ⟨l', hl'⟩ | ⟨before, name, d, hsteps, hn, hleads, hplace⟩
      · cases hl'
      rcases hplace with hfree | ⟨o, hfound, -⟩
      · obtain rfl := Place.free.inj hfree
        exact Or.inr ⟨before, name, [], d, hsteps, hn, hleads,
          (walks_of_walk hwalk).at?_free rfl⟩
      · cases hfound
    · rename_i hmissing
      split at h
      · cases (Prod.mk.inj h).1
      · rename_i fs₁ hbefore
        rcases ih hbefore with rfl | ⟨before, name, after, d, hparts, hn, hleads, hnone⟩
        · -- nothing was made before, so there is nothing to make the last one in
          rw [hmissing] at h
          exact Or.inl (Prod.mk.inj h).2.symm
        · refine Or.inr ⟨before, name, after ++ [last], d, ?_, hn, hleads, hnone⟩
          rw [List.reverse_cons, hparts, List.append_assoc, List.cons_append]
    · exact Or.inl (Prod.mk.inj h).2.symm

/-- Names that lead somewhere stop short of one that is free. -/
theorem Leads.append_eq {l d e : Location} {qs before rest after : List String} {name : String}
    (h : fs.Leads l qs d) (hbefore : fs.Leads l before e) (hn : IsEntryName name)
    (hnone : fs.at? (e ++ [name]) = none) (heq : qs ++ rest = before ++ name :: after) :
    ∃ more, before = qs ++ more ∧ rest = more ++ name :: after := by
  rcases List.append_eq_append_iff.mp heq with ⟨more, hmore, hrest⟩ | ⟨more, hmore, hrest⟩
  · exact ⟨more, hmore, hrest⟩
  · cases more with
    | nil => exact ⟨[], by rw [hmore, List.append_nil, List.append_nil], hrest.symm⟩
    | cons first more =>
      obtain ⟨rfl, -⟩ := List.cons.inj hrest
      subst hmore
      have hfirst := hbefore.rest h
      cases hfirst with
      | dot _ => exact absurd rfl hn.1
      | up _ => exact absurd rfl hn.2
      | directory _ hobject _ => cases hnone.symm.trans hobject
      | link _ hobject _ => cases hnone.symm.trans hobject

theorem Walks.leads {n : Nat} {here d : Location} {ps : List String} {place : Place}
    (h : Walks fs true n here ps place) (hplace : place = .found d .directory) :
    fs.Leads here ps d := by
  induction h with
  | stop =>
    obtain ⟨rfl, -⟩ := Place.found.inj hplace
    exact .here
  | dot _ ih => exact .dot (ih hplace)
  | up _ ih => exact .up (ih hplace)
  | free _ _ => cases hplace
  | file _ _ => cases (Place.found.inj hplace).2
  | directory hn hobject _ ih => exact .directory hn hobject (ih hplace)
  | last _ _ hfl => cases hfl
  | link hn hobject _ _ ih => exact .link hn hobject (ih hplace)

theorem Leads.of_append_dot {l d : Location} {ps : List String}
    (h : fs.Leads l (ps ++ ["."]) d) : fs.Leads l ps d := by
  generalize hnames : ps ++ ["."] = names at h
  induction h generalizing ps with
  | here => simp at hnames
  | dot hrest ih =>
    cases ps with
    | nil =>
      obtain ⟨-, rfl⟩ := List.cons.inj hnames
      exact hrest
    | cons first ps =>
      obtain ⟨rfl, hmore⟩ := List.cons.inj hnames
      exact .dot (ih hmore)
  | up _ ih =>
    cases ps with
    | nil => exact absurd (List.cons.inj hnames).1 (by decide)
    | cons first ps =>
      obtain ⟨rfl, hmore⟩ := List.cons.inj hnames
      exact .up (ih hmore)
  | directory hn hobject _ ih =>
    cases ps with
    | nil => exact absurd (List.cons.inj hnames).1.symm hn.1
    | cons first ps =>
      obtain ⟨rfl, hmore⟩ := List.cons.inj hnames
      exact .directory hn hobject (ih hmore)
  | link hn hobject _ ih =>
    cases ps with
    | nil => exact absurd (List.cons.inj hnames).1.symm hn.1
    | cons first ps =>
      obtain ⟨rfl, rfl⟩ := List.cons.inj hnames
      exact .link hn hobject (ih (List.append_assoc _ _ _))

theorem leads_of_find {isAbsolute : Bool} {before : List String} {d : Location}
    (h : fs.find ⟨isAbsolute, before, .dot⟩ = .ok (d, .directory)) :
    fs.Leads (fs.startOf ⟨isAbsolute, before, .dot⟩) before d :=
  ((walks_of_walk (walk_of_find h)).leads rfl).of_append_dot

/-! ## Back to a link -/

def Object.isLink : Object → Bool
  | .link _ => true
  | _ => false

/-- Whether there is a link at one of the places that names lead to from a
directory if each of them is taken for that of a directory. -/
def meetsLink (fs : FileSystem) : Location → List String → Bool
  | _, [] => false
  | here, name :: rest =>
    if name = "." then fs.meetsLink here rest
    else if name = ".." then fs.meetsLink here.dropLast rest
    else (fs.at? (here ++ [name])).any Object.isLink || fs.meetsLink (here ++ [name]) rest

/-- The directory of a path is not there, and from whatever directory on the way
to it the names go on to a link. Only with two dots they can come back to one
from what is not there. -/
def ReturnsToLink (fs : FileSystem) (p : Path) : Prop :=
  fs.isDirectory p.directory = false ∧
    ∀ before after d, p.parts = before ++ after →
      fs.find ⟨p.isAbsolute, before, .dot⟩ = .ok (d, .directory) → fs.meetsLink d after = true

/-- The way to where a write to a path puts its file goes back to a link. -/
def GoesBackToLink (fs : FileSystem) (p : Path) : Prop :=
  ∃ target, fs.writeTarget p = .ok target ∧ fs.ReturnsToLink target

theorem meetsLink_name {here : Location} {name : String} {rest : List String}
    (hn : IsEntryName name) : fs.meetsLink here (name :: rest) =
      ((fs.at? (here ++ [name])).any Object.isLink || fs.meetsLink (here ++ [name]) rest) := by
  rw [meetsLink, if_neg hn.1, if_neg hn.2]

theorem Leads.comes_of_meetsLink {l d : Location} {ps qs : List String} (h : fs.Leads l ps d)
    (hlink : fs.meetsLink l (ps ++ qs) = false) :
    fs.Comes 0 l (ps ++ qs) d qs ∧ fs.meetsLink d qs = false := by
  induction h with
  | here => exact ⟨.here, hlink⟩
  | dot _ ih => exact (ih hlink).imp_left .dot
  | up _ ih => exact (ih hlink).imp_left .up
  | directory hn hobject _ ih =>
    rw [List.cons_append, meetsLink_name hn, Bool.or_eq_false_iff] at hlink
    exact (ih hlink.2).imp_left (.directory hn hobject)
  | link hn hobject _ _ =>
    rw [List.cons_append, meetsLink_name hn, hobject] at hlink
    cases hlink

/-- Where there are no new links no more of them are met. -/
theorem meetsLink_of_made
    (hmade : ∀ l o, fs'.at? l = some o → fs.at? l = some o ∨ o = .directory) {ps : List String} :
    ∀ {l : Location}, fs.meetsLink l ps = false → fs'.meetsLink l ps = false := by
  induction ps with
  | nil => exact fun _ => rfl
  | cons name ps ih =>
    intro l h
    by_cases hdot : name = "."
    · subst hdot
      exact ih h
    by_cases hup : name = ".."
    · subst hup
      exact ih h
    have hn : IsEntryName name := ⟨hdot, hup⟩
    rw [meetsLink_name hn, Bool.or_eq_false_iff] at h ⊢
    refine ⟨?_, ih h.2⟩
    cases hobject : fs'.at? (l ++ [name]) with
    | none => rfl
    | some o =>
      rcases hmade _ _ hobject with hold | rfl
      · rw [hold] at h
        exact h.1
      · rfl

/-- Behind a free name a way that does not go back to a link meets none. -/
theorem meetsLink_of_not_returnsToLink {p : Path} {before after : List String}
    {first name : String} {d : Location} (hreturns : ¬ fs.ReturnsToLink p)
    (hparts : p.parts = before ++ first :: after ++ [name]) (hn : IsEntryName first)
    (hleads : fs.Leads (fs.startOf p) before d) (hnone : fs.at? (d ++ [first]) = none) :
    fs.meetsLink d (first :: after ++ [name]) = false := by
  refine Bool.eq_false_iff.mpr fun hmeets => hreturns ⟨?_, ?_⟩
  · refine Bool.eq_false_iff.mpr fun hdirectory => ?_
    unfold isDirectory at hdirectory
    split at hdirectory
    · rename_i l hfind
      have hpath : p.directory = ⟨p.isAbsolute, before ++ first :: after, .dot⟩ := by
        rw [Path.directory, hparts, List.dropLast_concat]
        simp
      rw [hpath] at hfind
      have hnothing : (before ++ first :: after) ++ [] = before ++ first :: after :=
        List.append_nil _
      obtain ⟨more, -, hmore⟩ := (leads_of_find hfind).append_eq hleads hn hnone hnothing
      simp at hmore
    · cases hdirectory
  · intro before' after' d' hparts' hfind
    have heq : before' ++ after' = before ++ first :: (after ++ [name]) := by
      rw [← hparts', hparts, List.append_assoc, List.cons_append]
    have hleads' : fs.Leads (fs.startOf p) before' d' := leads_of_find hfind
    obtain ⟨more, rfl, rfl⟩ := hleads'.append_eq hleads hn hnone heq
    cases hstraight : fs.meetsLink d' (more ++ first :: (after ++ [name])) with
    | true => rfl
    | false =>
      have hnot := ((hleads'.rest hleads).comes_of_meetsLink hstraight).2
      cases hmeets.symm.trans hnot

/-! ## The new file -/

theorem Comes.find_put {p : Path} {c : Nat} {d : Location} {name : String} {content : ByteArray}
    {mode : Nat} (h : fs.Comes c (fs.startOf p) p.steps d [name]) (hc : c ≤ linkLimit)
    (hsteps : p.steps ≠ []) (hn : IsEntryName name) (hnowhere : ∀ k, ¬ fs.Leads d [name] k) :
    (fs.put (d ++ [name]) (.file content mode)).find p =
      .ok (d ++ [name], .file content mode) := by
  obtain ⟨c', hle, hcomes⟩ := h.put hnowhere (.file content mode)
  have hwalk : (fs.put (d ++ [name]) (.file content mode)).walk true p =
      .ok (.found (d ++ [name]) (.file content mode)) := by
    rw [walk_of_steps hsteps]
    refine (hcomes.walkFrom linkLimit).trans ?_
    rw [if_pos (Nat.le_trans hle hc), walkFrom_file hn (at?_put_self fs _ (by simp))]
    rfl
  rw [find, hwalk]

theorem not_leads_of_object {d : Location} {name : String} (hn : IsEntryName name)
    (hdirectory : fs.at? (d ++ [name]) ≠ some .directory)
    (hlink : fs.meetsLink d [name] = false) (k : Location) : ¬ fs.Leads d [name] k := by
  intro hleads
  cases hleads with
  | dot _ => exact hn.1 rfl
  | up _ => exact hn.2 rfl
  | directory _ hobject _ => exact hdirectory hobject
  | link _ hobject _ =>
    rw [meetsLink_name hn, hobject] at hlink
    cases hlink

/-- When the directories of what is written have been made, a walk along the
path comes to its last name, if the way there does not go back to a link, or if
the path leads to nothing still. -/
theorem comes_of_makeDirectories {p target : Path} {way : List String} {name : String}
    {e : Location} (hfind : fs.find p = .error .missing) (htarget : fs.writeTarget p = .ok target)
    (hclear : ¬ fs.ReturnsToLink target ∨ fs'.find p = .error .missing)
    (hdirectory : target.asDirectory = false) (hparts : target.parts = way ++ [name])
    (hn : IsEntryName name) (hmake : fs.makeDirectories target.parent = (.ok (), fs'))
    (hleads : fs'.Leads (fs'.startOf target) way e)
    (hobject : fs'.at? (e ++ [name]) ≠ some .directory) :
    p.steps ≠ [] ∧ ∃ c ≤ linkLimit, fs'.Comes c (fs'.startOf p) p.steps e [name] ∧
      ∀ k, ¬ fs'.Leads e [name] k := by
  have hprepares := prepares_makeDirectories hmake
  rw [hprepares.keeps.startOf] at hleads
  obtain ⟨hne, c, before, after, d, hsplit, hafter, hbefore, hcomes⟩ :=
    comes_of_writeTarget hfind htarget hdirectory (by simp [hparts])
  obtain ⟨more, rfl, rfl⟩ := exists_of_append_eq_concat (hparts.symm.trans hsplit) hafter
  refine ⟨hne, ?_⟩
  have hstill : fs'.find p = .error .missing → ∃ c ≤ linkLimit,
      fs'.Comes c (fs'.startOf p) p.steps e [name] ∧ ∀ k, ¬ fs'.Leads e [name] k := by
    intro hmissing
    obtain ⟨c', hc'⟩ := ((hbefore.extend hprepares.keeps).rest hleads).comes [name]
    have hall := (hcomes.extend hprepares.keeps).trans hc'
    rw [← hprepares.keeps.startOf] at hall
    exact ⟨c + c', hall.le_linkLimit hmissing hne, hall, not_leads_of_missing hmissing hne hall⟩
  rcases hclear with hreturns | hmissing
  · rw [makeDirectories] at hmake
    rcases of_makeDirectoriesReversed hmake with
      rfl | ⟨there, first, rest, k, hthere, hfirst, hleads', hnone⟩
    · -- all directories were there
      exact hstill hfind
    · -- from where they had to be made on, the way meets no link
      replace hthere : before ++ more = there ++ first :: rest := by
        rw [List.reverse_reverse, Path.parent, hparts, List.dropLast_concat] at hthere
        exact hthere
      replace hleads' : fs.Leads (fs.startOf target) there k := hleads'
      have hstraight :=
        meetsLink_of_not_returnsToLink hreturns (hthere ▸ hparts) hfirst hleads' hnone
      rw [hthere] at hleads
      obtain ⟨hmade, hend⟩ := ((hleads'.extend hprepares.keeps).rest hleads).comes_of_meetsLink
        (meetsLink_of_made (fun l o ho => (hprepares.made l o ho).imp_right And.left) hstraight)
      obtain ⟨between, rfl, rfl⟩ := hbefore.append_eq hleads' hfirst hnone hthere
      obtain ⟨c', hc'⟩ := (hbefore.rest hleads').comes (first :: rest ++ [name])
      rw [← List.append_assoc] at hc'
      have hall := hcomes.trans hc'
      have hcomes' := (hall.extend hprepares.keeps).trans hmade
      rw [← hprepares.keeps.startOf] at hcomes'
      exact ⟨c + c', hall.le_linkLimit hfind hne, hcomes', not_leads_of_object hn hobject hend⟩
  · exact hstill hmissing

/-- Where a path led to nothing, it leads to the file that was written, unless
the way to it goes back to a link. -/
theorem find_writeFile_of_clear {p target : Path} {content : ByteArray}
    (hfind : fs.find p = .error .missing) (htarget : fs.writeTarget p = .ok target)
    (hclear : ¬ fs.ReturnsToLink target ∨
      (fs.makeDirectories target.parent).2.find p = .error .missing)
    (h : fs.writeFile p content = (.ok (), fs')) :
    ∃ l, fs'.find p = .ok (l, .file content privateMode) := by
  obtain ⟨target', fs₁, htarget', hmake, -, hdirectory, hreplace⟩ := of_writeFile h
  obtain rfl := Except.ok.inj (htarget.symm.trans htarget')
  rw [hmake] at hclear
  obtain ⟨way, name, e, hsteps, hn, hleads, hobject, rfl⟩ := leads_of_replace hreplace
  have hparts : target.parts = way ++ [name] := (steps_of_parts hdirectory).symm.trans hsteps
  obtain ⟨hne, c, hc, hcomes, hnowhere⟩ :=
    comes_of_makeDirectories hfind htarget hclear hdirectory hparts hn hmake hleads hobject
  exact ⟨e ++ [name], hcomes.find_put hc hne hn hnowhere⟩

section

variable {p : Path} {content : ByteArray}

theorem not_goesBackToLink_of_read {bytes : ByteArray} (hw : fs.Reaches fs.working)
    (hread : fs.read p = .ok bytes) : ¬ fs.GoesBackToLink p := by
  rintro ⟨target, htarget, hreturns, -⟩
  obtain ⟨-, l, m, hfind⟩ := find_of_read hread
  obtain rfl := Except.ok.inj
    ((writeTarget_of_find (resolve_of_writeTarget htarget) hfind).symm.trans htarget)
  rcases reaches_of_find hw hfind with ⟨ho, -⟩ | ⟨d, name, _, _, hreaches, -, rfl, -, -⟩
  · cases ho
  rw [isDirectory, hreaches.find_directory name] at hreturns
  cases hreturns

/-- What was written is read, unless the path led to nothing before and the way
to the new file goes back to a link. -/
theorem read_writeFile_of_not_returnsToLink (hw : fs.Reaches fs.working)
    (hfree : fs.refusals.read = none) (h : fs.writeFile p content = (.ok (), fs')) :
    fs'.read p = .ok content ∨
      fs.read p = .error .missing ∧ fs.GoesBackToLink p ∧
        (fs'.read p = .error .notDirectory ∨ fs'.read p = .error .tooManyLinks) := by
  have hfree' : fs'.refusals.read = none := by rw [refusals_of_writeFile h, hfree]
  obtain ⟨l, fs₁, -, hfound | ⟨hmissing, hfails⟩⟩ := find_writeFile hw h
  · exact Or.inl (read_of_find hfree' hfound)
  obtain ⟨target, -, htarget, -⟩ := of_writeFile h
  by_cases hreturns : fs.ReturnsToLink target
  · exact Or.inr ⟨read_of_find_error hfree hmissing, ⟨target, htarget, hreturns⟩,
      hfails.imp (read_of_find_error hfree') (read_of_find_error hfree')⟩
  · obtain ⟨l', hfound⟩ := find_writeFile_of_clear hmissing htarget (Or.inl hreturns) h
    exact Or.inl (read_of_find hfree' hfound)

/-- Where it led to nothing, it is enough that no directories make it lead
anywhere else. -/
theorem read_writeFile_of_staysMissing (hw : fs.Reaches fs.working)
    (hfree : fs.refusals.read = none)
    (hstays : fs.find p = .error .missing → fs.StaysMissing p)
    (h : fs.writeFile p content = (.ok (), fs')) : fs'.read p = .ok content := by
  have hfree' : fs'.refusals.read = none := by rw [refusals_of_writeFile h, hfree]
  obtain ⟨l, fs₁, -, hfound | ⟨hmissing, -⟩⟩ := find_writeFile hw h
  · exact read_of_find hfree' hfound
  obtain ⟨target, fs₂, htarget, hmake, -⟩ := of_writeFile h
  have hclear : (fs.makeDirectories target.parent).2.find p = .error .missing := by
    rw [hmake]
    exact ((hstays hmissing).of_makeDirectories htarget hmake).find
  obtain ⟨l', hfound⟩ := find_writeFile_of_clear hmissing htarget (Or.inr hclear) h
  exact read_of_find hfree' hfound

end

end PlaneAccess.FileSystem
