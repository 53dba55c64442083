import PlaneAccess.Proofs.FileSystem.Walk

/-!
# Directories on the way

Making the directories of a path keeps all there is, and what is new are
directories to which a part of the path leads (`Prepares`), whether all of
them could be made or not.
-/

namespace PlaneAccess.FileSystem

/-- All there was is kept, and what is new are directories to which a path
leads, or the first components of it. -/
structure Prepares (fs fs' : FileSystem) (p : Path) : Prop where
  keeps : fs.Extends fs'
  refusals : fs'.refusals = fs.refusals
  made : ∀ l o, fs'.at? l = some o → fs.at? l = some o ∨
    o = .directory ∧ ∃ before, before <+: p.parts ∧
      fs'.find ⟨p.isAbsolute, before, .name⟩ = .ok (l, .directory)

theorem Prepares.rfl {fs : FileSystem} {p : Path} : fs.Prepares fs p :=
  ⟨.rfl, Eq.refl _, fun _ _ h => Or.inl h⟩

theorem Prepares.trans {fs fs' fs'' : FileSystem} {p q : Path} (h : fs.Prepares fs' p)
    (h' : fs'.Prepares fs'' q) (habsolute : p.isAbsolute = q.isAbsolute)
    (hparts : p.parts <+: q.parts) : fs.Prepares fs'' q := by
  refine ⟨h.keeps.trans h'.keeps, h'.refusals.trans h.refusals, fun l o ho => ?_⟩
  rcases h'.made l o ho with ho | hmade
  · rcases h.made l o ho with ho | ⟨hdirectory, before, hbefore, hfind⟩
    · exact Or.inl ho
    · refine Or.inr ⟨hdirectory, before, hbefore.trans hparts, ?_⟩
      rw [← habsolute]
      exact find_extend h'.keeps hfind
  · exact Or.inr hmade

/-! ## One directory -/

theorem Walks.put_directory {fs : FileSystem} {n : Nat} {here : Location} {ps : List String}
    {p : Place} (h : Walks fs false n here ps p) {l : Location} (hp : p = .free l) :
    Walks (fs.put l .directory) true n here ps (.found l .directory) := by
  have hkeep : ∀ {l k : Location} {o : Object}, fs.at? l = none → fs.at? k = some o →
      (fs.put l .directory).at? k = some o :=
    fun hl hk => (extends_put .directory hl).object _ _ hk
  induction h with
  | stop => cases hp
  | dot _ ih => exact .dot (ih hp)
  | up _ ih => exact .up (ih hp)
  | free hn hobject =>
    obtain rfl := Place.free.inj hp
    exact .directory hn (at?_put_self fs _ (by simp)) .stop
  | file _ _ => cases hp
  | directory hn hobject hw ih => exact .directory hn (hkeep (hw.at?_free hp) hobject) (ih hp)
  | last _ _ _ => cases hp
  | link hn hobject hrest hw ih =>
    refine .link hn (hkeep (hw.at?_free hp) hobject) ?_ (ih hp)
    simp

theorem of_makeDirectory {fs fs' : FileSystem} {p : Path} (h : fs.makeDirectory p = .ok fs') :
    ∃ l, fs.walk false p = .ok (.free l) ∧ fs' = fs.put l .directory := by
  unfold makeDirectory at h
  split at h
  · cases h
  · split at h
    · cases h
    · cases h
    · rename_i l hwalk
      exact ⟨l, hwalk, (Except.ok.inj h).symm⟩

theorem prepares_makeDirectory {fs fs' : FileSystem} {p : Path} (hp : p.ending = .name)
    (h : fs.makeDirectory p = .ok fs') : fs.Prepares fs' p := by
  obtain ⟨l, hwalk, rfl⟩ := of_makeDirectory h
  have hw := walks_of_walk hwalk
  have hnone := hw.at?_free rfl
  refine ⟨extends_put .directory hnone, Eq.refl _, fun k o ho => ?_⟩
  by_cases hk : k = l
  · subst hk
    have hne : k ≠ [] := by
      rintro rfl
      cases hnone
    rw [at?_put_self fs _ hne] at ho
    have hfind : (fs.put k .directory).find p = .ok (k, .directory) := by
      rw [find, walk_of_walks hwalk (hw.put_directory rfl)]
    refine Or.inr ⟨(Option.some.inj ho).symm, p.parts, List.prefix_rfl, ?_⟩
    cases p
    cases hp
    exact hfind
  · rw [at?_put_of_ne fs _ hk] at ho
    exact Or.inl ho

/-! ## All directories of a path -/

theorem prepares_makeDirectoriesReversed (fs : FileSystem) (isAbsolute : Bool)
    (ps : List String) :
    fs.Prepares (fs.makeDirectoriesReversed isAbsolute ps).2 (pathOfReversed isAbsolute ps) := by
  induction ps with
  | nil => exact .rfl
  | cons name before ih =>
    have hparts : (pathOfReversed isAbsolute before).parts <+:
        (pathOfReversed isAbsolute (name :: before)).parts := by
      rw [pathOfReversed, pathOfReversed, List.reverse_cons]
      exact List.prefix_append _ _
    rw [makeDirectoriesReversed]
    split
    · rename_i fs' hfs'
      exact prepares_makeDirectory rfl hfs'
    · split
      · rename_i hbefore
        rw [hbefore] at ih
        exact ih.trans .rfl rfl hparts
      · rename_i hbefore
        rw [hbefore] at ih
        split
        · rename_i hfs'
          exact ih.trans (prepares_makeDirectory rfl hfs') rfl hparts
        · exact ih.trans .rfl rfl hparts
    · exact .rfl

/-- What making the directories of a path has done, with an error or without
one. -/
theorem prepares_makeDirectories {fs fs' : FileSystem} {p : Path} {r : Except Fault Unit}
    (h : fs.makeDirectories p = (r, fs')) : fs.Prepares fs' p := by
  have hprepares := fs.prepares_makeDirectoriesReversed p.isAbsolute p.parts.reverse
  rw [makeDirectories] at h
  rw [h, pathOfReversed, List.reverse_reverse] at hprepares
  exact ⟨hprepares.keeps, hprepares.refusals, hprepares.made⟩

/-- Where a directory is already none is made, whether or not that would be
refused. -/
theorem makeDirectories_of_walk {fs : FileSystem} {p : Path} {l : Location}
    (hending : p.ending = .name)
    (h : p.parts ≠ [] → ∀ fl, fs.walk fl p = .ok (.found l .directory)) :
    fs.makeDirectories p = (.ok (), fs) := by
  obtain ⟨isAbsolute, parts, ending⟩ := p
  obtain rfl : ending = .name := hending
  rw [makeDirectories]
  cases hparts : parts.reverse with
  | nil => rfl
  | cons name before =>
    have hpath : pathOfReversed isAbsolute (name :: before) = ⟨isAbsolute, parts, .name⟩ := by
      rw [← hparts, pathOfReversed, List.reverse_reverse]
    replace h := h (by rintro rfl; cases hparts)
    obtain ⟨e, hmake, hne⟩ :
        ∃ e, fs.makeDirectory ⟨isAbsolute, parts, .name⟩ = .error e ∧ e ≠ .missing := by
      rw [makeDirectory]
      cases fs.refusals.makeDirectory ⟨isAbsolute, parts, .name⟩ with
      | some text => exact ⟨_, rfl, fun h => by cases h⟩
      | none =>
        rw [h]
        exact ⟨_, rfl, fun h => by cases h⟩
    have hdirectory : fs.isDirectory ⟨isAbsolute, parts, .name⟩ = true := by
      rw [isDirectory, find, h]
    rw [makeDirectoriesReversed]
    simp only [hpath, hmake, hdirectory]
    cases e with
    | missing => exact absurd rfl hne
    | _ => rfl

theorem makeDirectories_pathTo {fs : FileSystem} {l : Location} (h : fs.Reaches l) :
    fs.makeDirectories (pathTo l) = (.ok (), fs) :=
  makeDirectories_of_walk rfl fun _ => walk_pathTo h

end PlaneAccess.FileSystem
