import Mathlib.Data.List.Infix
import PlaneAccess.Proofs.FileSystem.WriteThenRead

/-!
# Writes that fail

A write that fails leaves a file as it was (`eq_of_writeFile_error`). Where a
path led to nothing it may have made directories on the way, and the next
write finds them there. A path `StaysMissing` if it still leads to nothing when
there are no more directories to make, and then it does so after any write that
fails (`StaysMissing.of_writeFile_error`). So it is with a path without dots
(`staysMissing_of_plain`), but once `x` has been made, `x/../d` is a directory if
`d` is one.
-/

namespace PlaneAccess.FileSystem

variable {fs fs' : FileSystem}

/-- A write that fails leaves the file that a path leads to, and all else. -/
theorem eq_of_writeFile_error {p : Path} {content c : ByteArray} {l : Location} {m : Nat}
    {e : Fault} (hw : fs.Reaches fs.working) (hfind : fs.find p = .ok (l, .file c m))
    (h : fs.writeFile p content = (.error e, fs')) : fs' = fs := by
  unfold writeFile at h
  split at h
  · exact (Prod.mk.inj h).2.symm
  · rename_i target htarget
    simp only [(target_of_find hw hfind htarget).1] at h
    exact eq_of_install_error h

theorem extends_of_writeFile_error {p : Path} {content : ByteArray} {e : Fault}
    (h : fs.writeFile p content = (.error e, fs')) : fs.Extends fs' := by
  unfold writeFile at h
  split at h
  · obtain ⟨-, rfl⟩ := Prod.mk.inj h
    exact .rfl
  · split at h
    · rename_i hmake
      obtain ⟨-, rfl⟩ := Prod.mk.inj h
      exact (prepares_makeDirectories hmake).keeps
    · rename_i hmake
      obtain rfl := eq_of_install_error h
      exact (prepares_makeDirectories hmake).keeps

/-! ## Walks that come to nothing -/

/-- What stops a walk stops it as well when there is more, if it is there. -/
theorem walkFrom_extend_error {fl : Bool} {n : Nat} {here : Location} {ps : List String}
    {e : Fault} (hext : fs.Extends fs') (h : fs.walkFrom fl n here ps = .error e)
    (he : e ≠ .missing) : fs'.walkFrom fl n here ps = .error e := by
  induction n, here, ps using walk_induction with
  | stop n here =>
    rw [walkFrom_nil] at h
    cases h
  | dot n here rest ih =>
    rw [walkFrom_dot] at h ⊢
    exact ih h
  | up n here rest ih =>
    rw [walkFrom_up] at h ⊢
    exact ih h
  | entry n here name rest hn ih ihlink =>
    cases hobject : fs.at? (here ++ [name]) with
    | none =>
      rw [walkFrom_free hn hobject] at h
      split at h
      · cases h
      · exact absurd (Except.error.inj h).symm he
    | some o =>
      have hobject' := hext.object _ _ hobject
      cases o with
      | directory =>
        rw [walkFrom_directory hn hobject] at h
        rw [walkFrom_directory hn hobject']
        exact ih h
      | file content mode =>
        rw [walkFrom_file hn hobject] at h
        rw [walkFrom_file hn hobject', h]
      | link target =>
        rw [walkFrom_link hn hobject] at h
        rw [walkFrom_link hn hobject']
        split at h
        · cases h
        · rename_i hfollow
          rw [if_neg hfollow]
          cases n with
          | zero => exact h
          | succ n => exact ihlink n rfl target h

theorem find_missing_of_extends {p : Path} (hext : fs.Extends fs')
    (h : fs'.find p = .error .missing) : fs.find p = .error .missing := by
  cases hwalk : fs.walk true p with
  | error e =>
    by_cases he : e = .missing
    · rw [find, hwalk, he]
    · have hwalk' : fs'.walk true p = .error e := by
        unfold walk at hwalk ⊢
        split at hwalk
        · exact absurd (Except.error.inj hwalk).symm he
        · rename_i hpath
          rw [if_neg hpath, hext.working]
          exact walkFrom_extend_error hext hwalk he
      rw [find, hwalk'] at h
      exact absurd (Except.error.inj h) he
  | ok place =>
    cases place with
    | free l => rw [find, hwalk]
    | found l o =>
      rw [find, walk_extend hext hwalk] at h
      cases h

/-- A walk that ends at a free name, or does not come that far, is stopped if it
has to go on from there. -/
theorem walkFrom_append_of_free {fl : Bool} {n : Nat} {here : Location} {ps more : List String}
    (hmore : more ≠ [])
    (h : fs.walkFrom fl n here ps = .error .missing ∨
      ∃ l, fs.walkFrom fl n here ps = .ok (.free l)) :
    fs.walkFrom fl n here (ps ++ more) = .error .missing := by
  have hgoesOn : ∀ rest : List String, (rest ++ more).isEmpty = false := by
    simp [hmore]
  induction n, here, ps using walk_induction with
  | stop n here =>
    rw [walkFrom_nil] at h
    rcases h with h | ⟨l, h⟩
    · cases h
    · cases Except.ok.inj h
  | dot n here rest ih =>
    rw [walkFrom_dot] at h
    rw [List.cons_append, walkFrom_dot]
    exact ih h
  | up n here rest ih =>
    rw [walkFrom_up] at h
    rw [List.cons_append, walkFrom_up]
    exact ih h
  | entry n here name rest hn ih ihlink =>
    rw [List.cons_append]
    cases hobject : fs.at? (here ++ [name]) with
    | none => rw [walkFrom_free hn hobject, hgoesOn, if_neg (by decide)]
    | some o =>
      cases o with
      | directory =>
        rw [walkFrom_directory hn hobject] at h ⊢
        exact ih h
      | file content mode =>
        rw [walkFrom_file hn hobject] at h
        rcases h with h | ⟨l, h⟩
        · split at h
          · cases h
          · cases Except.error.inj h
        · split at h
          · cases Except.ok.inj h
          · cases h
      | link target =>
        rw [walkFrom_link hn hobject] at h
        rw [walkFrom_link hn hobject, hgoesOn, Bool.false_and, if_neg (by decide)]
        split at h
        · rcases h with h | ⟨l, h⟩
          · cases h
          · cases Except.ok.inj h
        · cases n with
          | zero =>
            rcases h with h | ⟨l, h⟩
            · cases Except.error.inj h
            · cases h
          | succ n =>
            have hlink := ihlink n rfl target h
            rwa [List.append_assoc] at hlink

theorem walk_of_free {p : Path} {before more : List String} {l : Location}
    (h : fs.walk false ⟨p.isAbsolute, before, .name⟩ = .ok (.free l)) (hmore : more ≠ [])
    (hsteps : p.steps = before ++ more) : fs.walk false p = .error .missing := by
  have hne : p.steps ≠ [] := by simp [hsteps, hmore]
  rw [walk_of_steps hne, hsteps]
  refine walkFrom_append_of_free hmore (Or.inr ⟨l, ?_⟩)
  exact walkFrom_eq_ok.mpr (walks_of_walk h)

/-! ## Directories that are there already -/

/-- There is all that another file system has, and what is new are
directories. -/
structure GainsDirectories (fs full : FileSystem) : Prop extends fs.Extends full where
  new : ∀ l o, full.at? l = some o → fs.at? l = some o ∨ o = .directory

/-- No directory is left to be made for a path with these components in
reverse. -/
def HasDirectories (fs : FileSystem) (isAbsolute : Bool) (ps : List String) : Prop :=
  ∀ before, before ≠ [] → before <:+ ps →
    ∀ l, fs.walk false (pathOfReversed isAbsolute before) ≠ .ok (.free l)

/-- If making them changes nothing, they are there. -/
theorem hasDirectories_of_makeDirectoriesReversed {isAbsolute : Bool} {ps : List String}
    (hfree : ∀ p, fs.refusals.makeDirectory p = none)
    (h : (fs.makeDirectoriesReversed isAbsolute ps).2 = fs) :
    fs.HasDirectories isAbsolute ps := by
  -- a directory that is made was not there
  have hput : ∀ {fs₁ : FileSystem} {l : Location}, fs.Extends fs₁ → fs₁.at? l = none →
      fs₁.put l .directory ≠ fs := by
    intro fs₁ l hext hnone heq
    have hthere : (fs₁.put l .directory).at? l = some .directory := by
      refine at?_put_self fs₁ _ ?_
      rintro rfl
      cases hnone
    rw [heq] at hthere
    cases hnone.symm.trans (hext.object _ _ hthere)
  induction ps with
  | nil => exact fun before hne hbefore => absurd (List.suffix_nil.mp hbefore) hne
  | cons name ps ih =>
    intro before hne hbefore l hwalk
    rcases List.suffix_cons_iff.mp hbefore with rfl | hbefore
    · have hmake : fs.makeDirectory (pathOfReversed isAbsolute (name :: ps)) =
          .ok (fs.put l .directory) := by
        rw [makeDirectory, hfree, hwalk]
      rw [makeDirectoriesReversed] at h
      simp only [hmake] at h
      exact hput .rfl ((walks_of_walk hwalk).at?_free rfl) h
    · obtain ⟨more, rfl⟩ := hbefore
      have hmissing : fs.makeDirectory (pathOfReversed isAbsolute (name :: (more ++ before))) =
          .error .missing := by
        rw [makeDirectory, hfree]
        have hsteps : (pathOfReversed isAbsolute (name :: (more ++ before))).steps =
            before.reverse ++ (more.reverse ++ [name]) := by
          rw [steps_of_parts rfl, pathOfReversed, List.reverse_cons, List.reverse_append,
            List.append_assoc]
        rw [walk_of_free hwalk (by simp) hsteps]
      rw [makeDirectoriesReversed] at h
      simp only [hmissing] at h
      split at h
      · rename_i hbefore
        exact ih (by rw [hbefore]; exact h) before hne (List.suffix_append _ _) l hwalk
      · rename_i fs₁ hbefore
        have hkeeps := (fs.prepares_makeDirectoriesReversed isAbsolute (more ++ before)).keeps
        rw [hbefore] at hkeeps
        split at h
        · rename_i hmake
          obtain ⟨l', hwalk', rfl⟩ := of_makeDirectory hmake
          exact hput hkeeps ((walks_of_walk hwalk').at?_free rfl) h
        · exact ih (by rw [hbefore]; exact h) before hne (List.suffix_append _ _) l hwalk

namespace GainsDirectories

variable {full : FileSystem}

theorem makeDirectory {p : Path} (h : fs.GainsDirectories full)
    (hnot : ∀ l, full.walk false p ≠ .ok (.free l)) (hmake : fs.makeDirectory p = .ok fs') :
    fs'.GainsDirectories full := by
  obtain ⟨l, hwalk, rfl⟩ := of_makeDirectory hmake
  have hnone := (walks_of_walk hwalk).at?_free rfl
  have hl : l ≠ [] := by
    rintro rfl
    cases hnone
  have hthere : full.at? l = some .directory := by
    cases hobject : full.at? l with
    | none =>
      refine absurd (walk_of_walks hwalk ?_) (hnot l)
      rw [h.startOf]
      refine (walks_of_walk hwalk).extend h.toExtends fun k hk => ?_
      obtain rfl := Place.free.inj hk
      exact hobject
    | some o =>
      rcases h.new l o hobject with hold | rfl
      · cases hnone.symm.trans hold
      · rfl
  refine ⟨⟨h.working, fun k o ho => ?_⟩, fun k o ho => ?_⟩
  · by_cases hk : k = l
    · subst hk
      rw [at?_put_self fs _ hl] at ho
      rw [← Option.some.inj ho]
      exact hthere
    · rw [at?_put_of_ne fs _ hk] at ho
      exact h.object k o ho
  · refine (h.new k o ho).imp_left fun hold => ?_
    exact (extends_put .directory hnone).object k o hold

theorem makeDirectoriesReversed {isAbsolute : Bool} {ps : List String}
    (h : fs.GainsDirectories full) (hthere : full.HasDirectories isAbsolute ps) :
    (fs.makeDirectoriesReversed isAbsolute ps).2.GainsDirectories full := by
  induction ps with
  | nil => exact h
  | cons name before ih =>
    have hnot := hthere (name :: before) (List.cons_ne_nil _ _) List.suffix_rfl
    have hbefore := ih fun some hne hsome => hthere some hne (hsome.trans (List.suffix_cons _ _))
    rw [FileSystem.makeDirectoriesReversed]
    split
    · rename_i hmake
      exact h.makeDirectory hnot hmake
    · split
      · rename_i hmake
        rwa [hmake] at hbefore
      · rename_i hmake
        rw [hmake] at hbefore
        split
        · rename_i hlast
          exact hbefore.makeDirectory hnot hlast
        · exact hbefore
    · exact h

end GainsDirectories

/-! ## Paths that stay missing -/

def prepared (fs : FileSystem) (p : Path) : FileSystem :=
  match fs.writeTarget p with
  | .error _ => fs
  | .ok target => (fs.makeDirectories target.parent).2

/-- A path leads to nothing, and still does with directories added until there
are no more to make for a write to it. -/
def StaysMissing (fs : FileSystem) (p : Path) : Prop :=
  ∃ full, fs.GainsDirectories full ∧ full.refusals = .none ∧ full.prepared p = full ∧
    full.find p = .error .missing

theorem StaysMissing.find {p : Path} (h : fs.StaysMissing p) : fs.find p = .error .missing := by
  obtain ⟨full, hgains, -, -, hmissing⟩ := h
  exact find_missing_of_extends hgains.toExtends hmissing

theorem writeTarget_of_missing {p : Path} (hfree : fs.refusals = .none)
    (h : fs.find p = .error .missing) :
    fs.writeTarget p =
      match fs.findLast p with
      | .ok (_, .link text) => .ok (p.parent.join (Path.ofText text))
      | _ => .ok p := by
  cases hlast : fs.findLast p with
  | error e => simp only [writeTarget, missingTarget, hfree, h, hlast, Refusals.none]
  | ok found =>
    obtain ⟨l, o⟩ := found
    cases o with
    | _ => simp only [writeTarget, missingTarget, hfree, h, hlast, Refusals.none]

/-- Wherever a write puts its file by now, in the end the directories for it are
there. -/
theorem hasDirectories_of_prepared {p target : Path} {full : FileSystem}
    (hgains : fs.GainsDirectories full) (hfree : full.refusals = .none)
    (hprepared : full.prepared p = full) (hmissing : full.find p = .error .missing)
    (htarget : fs.writeTarget p = .ok target) :
    full.HasDirectories target.isAbsolute target.parent.parts.reverse := by
  have hmake : ∀ {q : Path}, full.writeTarget p = .ok q →
      full.HasDirectories q.isAbsolute q.parent.parts.reverse := by
    intro q hq
    rw [prepared, hq] at hprepared
    refine hasDirectories_of_makeDirectoriesReversed ?_ hprepared
    rw [hfree]
    exact fun _ => rfl
  have hfull := writeTarget_of_missing hfree hmissing
  rcases of_writeTarget_of_missing (find_missing_of_extends hgains.toExtends hmissing) htarget with
    rfl | ⟨l, text, hlast, rfl⟩
  · split at hfull
    · -- a link is there, so the names before it lead to its directory
      rename_i l text hlast
      have hlink := walk_of_findLast hlast
      rcases (walks_of_walk hlink).endsAt with ⟨l', hl'⟩ | ⟨way, name, _, hsteps, hn, -, -⟩
      · cases (Place.found.inj hl').2
      have hparent : target.parent.parts = way := by
        rw [Path.parent, (parts_of_steps hsteps hn).2, List.dropLast_concat]
      intro before hne hbefore k hwalk
      rw [hparent] at hbefore
      obtain ⟨more, hmore⟩ := List.reverse_prefix.mpr hbefore
      rw [List.reverse_reverse] at hmore
      rw [← hmore, List.append_assoc] at hsteps
      cases hlink.symm.trans (walk_of_free hwalk (by simp) hsteps)
    · exact hmake hfull
  · have hlast' : full.findLast p = .ok (l, .link text) := by
      rw [findLast, walk_extend hgains.toExtends (walk_of_findLast hlast)]
    rw [hlast'] at hfull
    exact hmake hfull

/-- Making the directories for a write leaves the path missing, whether all of
them can be made or not. -/
theorem StaysMissing.of_makeDirectories {p target : Path} {r : Except Fault Unit}
    (h : fs.StaysMissing p) (htarget : fs.writeTarget p = .ok target)
    (hmake : fs.makeDirectories target.parent = (r, fs')) : fs'.StaysMissing p := by
  obtain ⟨full, hgains, hfree, hprepared, hmissing⟩ := h
  have hthere := hasDirectories_of_prepared hgains hfree hprepared hmissing htarget
  have hmade := hgains.makeDirectoriesReversed hthere
  rw [show fs.makeDirectoriesReversed target.isAbsolute target.parent.parts.reverse = (r, fs')
    from hmake] at hmade
  exact ⟨full, hmade, hfree, hprepared, hmissing⟩

theorem StaysMissing.of_writeFile_error {p : Path} {content : ByteArray} {e : Fault}
    (h : fs.StaysMissing p) (hwrite : fs.writeFile p content = (.error e, fs')) :
    fs'.StaysMissing p := by
  unfold writeFile at hwrite
  split at hwrite
  · obtain ⟨-, rfl⟩ := Prod.mk.inj hwrite
    exact h
  · rename_i target htarget
    split at hwrite
    · rename_i hmake
      obtain ⟨-, rfl⟩ := Prod.mk.inj hwrite
      exact h.of_makeDirectories htarget hmake
    · rename_i hmake
      obtain rfl := eq_of_install_error hwrite
      exact h.of_makeDirectories htarget hmake

/-- It does not matter what is refused. -/
theorem StaysMissing.of_agrees {p : Path} (h : fs.StaysMissing p) (hagrees : fs.Agrees fs') :
    fs'.StaysMissing p := by
  obtain ⟨full, hgains, hfull⟩ := h
  refine ⟨full, ⟨⟨hgains.working.trans hagrees.working.symm, fun l o ho => ?_⟩, fun l o ho => ?_⟩,
    hfull⟩
  · rw [hagrees.object] at ho
    exact hgains.object l o ho
  · rw [hagrees.object]
    exact hgains.new l o ho

/-! ## Plain paths -/

theorem walkFrom_of_directories {fl : Bool} {n : Nat} {here : Location} {names rest : List String}
    (hnames : ∀ name ∈ names, IsEntryName name)
    (hway : ∀ before, before <+: names → fs.at? (here ++ before) = some .directory) :
    fs.walkFrom fl n here (names ++ rest) = fs.walkFrom fl n (here ++ names) rest := by
  induction names generalizing here with
  | nil => rw [List.nil_append, List.append_nil]
  | cons name names ih =>
    have hobject := hway [name] ⟨names, rfl⟩
    rw [List.cons_append, walkFrom_directory (hnames name (List.mem_cons_self ..)) hobject,
      ih (fun name' h => hnames name' (List.mem_cons_of_mem _ h)), List.append_assoc]
    · rfl
    · intro before hbefore
      rw [List.append_assoc]
      exact hway (name :: before) (List.cons_prefix_cons.mpr ⟨rfl, hbefore⟩)

/-- The same objects and directories at some locations where nothing was. -/
def withDirectories (fs : FileSystem) (ls : List Location) : FileSystem :=
  ⟨fs.objects ++ ls.map (fun l => (l, .directory)), fs.working, .none⟩

theorem at?_withDirectories (fs : FileSystem) (ls : List Location) (l : Location) :
    (fs.withDirectories ls).at? l =
      (fs.at? l).or (if l ∈ ls then some .directory else none) := by
  have hlookup : (ls.map (fun l => (l, Object.directory))).lookup l =
      if l ∈ ls then some .directory else none := by
    induction ls with
    | nil => rfl
    | cons k ls ih =>
      rw [List.map_cons, List.lookup_cons, ih]
      by_cases hl : l = k
      · simp [hl]
      · simp [hl, beq_eq_false_iff_ne.mpr hl]
  unfold at?
  split
  · rfl
  · rw [withDirectories, List.lookup_append, hlookup]

theorem gainsDirectories_withDirectories (fs : FileSystem) (ls : List Location) :
    fs.GainsDirectories (fs.withDirectories ls) := by
  refine ⟨⟨rfl, fun l o ho => ?_⟩, fun l o ho => ?_⟩
  · rw [at?_withDirectories, ho]
    rfl
  · rw [at?_withDirectories, Option.or_eq_some_iff] at ho
    refine ho.imp_right fun hnew => ?_
    split at hnew
    · exact (Option.some.inj hnew.2).symm
    · cases hnew.2

/-- A path without dots, on whose way there are only directories or nothing,
stays missing if there is nothing at its end. -/
theorem staysMissing_of_plain {p : Path} {way : List String} {name : String}
    (hplain : ∀ name ∈ p.parts, IsEntryName name) (hending : p.ending = .name)
    (hparts : p.parts = way ++ [name])
    (hway : ∀ before, before <+: way → fs.at? (fs.startOf p ++ before) = none ∨
      fs.at? (fs.startOf p ++ before) = some .directory)
    (hlast : fs.at? (fs.startOf p ++ p.parts) = none) : fs.StaysMissing p := by
  let full := fs.withDirectories (way.inits.map (fs.startOf p ++ ·))
  have hthere : ∀ before, before <+: way →
      full.at? (fs.startOf p ++ before) = some .directory := by
    intro before hbefore
    rw [at?_withDirectories, if_pos (List.mem_map_of_mem ((List.mem_inits _ _).mpr hbefore))]
    rcases hway before hbefore with h | h
    · rw [h, Option.none_or]
    · rw [h, Option.some_or]
  have hdirectory : p.asDirectory = false := by rw [Path.asDirectory, hending]; rfl
  have hsteps : p.steps = way ++ [name] := (steps_of_parts hdirectory).trans hparts
  have hname : IsEntryName name := hplain name (by simp [hparts])
  have hnames : ∀ name ∈ way, IsEntryName name := fun name h => hplain name (by simp [hparts, h])
  -- a walk in it comes down to the last name, which is free
  have hfree : full.at? (fs.startOf p ++ way ++ [name]) = none := by
    rw [List.append_assoc, ← hparts, at?_withDirectories, hlast, Option.none_or, if_neg]
    simp only [List.mem_map, List.mem_inits, List.append_cancel_left_eq, not_exists, not_and]
    rintro before hbefore rfl
    have hle := hbefore.length_le
    rw [hparts, List.length_append, List.length_singleton] at hle
    omega
  have hwalk : ∀ fl, full.walk fl p = .ok (.free (fs.startOf p ++ way ++ [name])) := by
    intro fl
    rw [walk_of_steps (by simp [hsteps]), hsteps]
    refine (walkFrom_of_directories hnames hthere).trans ?_
    rw [walkFrom_free hname hfree]
    rfl
  have hmissing : full.find p = .error .missing := by rw [find, hwalk]
  have htarget : full.writeTarget p = .ok p := by
    rw [writeTarget_of_missing rfl hmissing, findLast, hwalk]
  refine ⟨full, gainsDirectories_withDirectories fs _, rfl, ?_, hmissing⟩
  have hparent : p.parent.parts = way := by rw [Path.parent, hparts, List.dropLast_concat]
  have hnone : full.makeDirectories p.parent = (.ok (), full) := by
    refine makeDirectories_of_walk (l := fs.startOf p ++ way) rfl fun hne fl => ?_
    have hparentSteps : p.parent.steps = way ++ [] := by
      rw [steps_of_parts rfl, hparent, List.append_nil]
    rw [walk_of_steps (by rwa [steps_of_parts rfl]), hparentSteps]
    refine (walkFrom_of_directories hnames hthere).trans ?_
    rw [walkFrom_nil]
  rw [prepared, htarget]
  simp only [hnone]

end PlaneAccess.FileSystem
