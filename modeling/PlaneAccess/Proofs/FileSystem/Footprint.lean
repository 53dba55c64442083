import PlaneAccess.Proofs.FileSystem.NewFile

/-!
# What a write touches

A write that succeeds puts one file, with the directories that are missing on
the way to it, and leaves all else as it was (`WritesAt`). The path leads to the
file, and all links are left in place, unless there is a link where the file is
put (`replacesLink`). Where a path leads to a file that is the end of all links,
but of a path to nothing only the last link is followed, and that before the
directories are made. So another link can be in the place of the file, which is
lost then (`writeFile_footprint`).
-/

namespace PlaneAccess.FileSystem

variable {fs fs' : FileSystem} {p : Path}

/-- A path leads to an object, over links in whatever number. -/
def LeadsTo (fs : FileSystem) (p : Path) (l : Location) (o : Object) : Prop :=
  ∃ n, fs.walkFrom true n (fs.startOf p) p.steps = .ok (.found l o)

/-- Whether there is a link where a write to a path puts its file. -/
def replacesLink (fs : FileSystem) (p : Path) : Bool :=
  match fs.writeTarget p with
  | .error _ => false
  | .ok target =>
    match (fs.prepared p).findLast target with
    | .error _ => false
    | .ok (_, o) => o.isLink

/-- A location is that of a directory on the way to where a write to a path puts
its file. -/
def IsOnWay (fs : FileSystem) (p : Path) (k : Location) : Prop :=
  ∃ target before, fs.writeTarget p = .ok target ∧ before <+: target.parent.parts ∧
    (fs.prepared p).find ⟨target.isAbsolute, before, .name⟩ = .ok (k, .directory)

/-- An object has been put at a location for a path. All there was elsewhere is
kept, and what is new elsewhere are directories on the way. -/
structure WritesAt (fs fs' : FileSystem) (p : Path) (l : Location) (o : Object) : Prop where
  written : fs'.at? l = some o
  kept : ∀ k o', k ≠ l → fs.at? k = some o' → fs'.at? k = some o'
  new : ∀ k o', k ≠ l → fs'.at? k = some o' →
    fs.at? k = some o' ∨ o' = .directory ∧ fs.IsOnWay p k

def KeepsLinks (fs fs' : FileSystem) : Prop :=
  ∀ k target, fs.at? k = some (.link target) → fs'.at? k = some (.link target)

theorem leadsTo_of_find {l : Location} {o : Object} (h : fs.find p = .ok (l, o)) :
    fs.LeadsTo p l o :=
  ⟨linkLimit, walkFrom_eq_ok.mpr (walks_of_walk (walk_of_find h))⟩

theorem prepared_of_makeDirectories {target : Path} (htarget : fs.writeTarget p = .ok target)
    {r : Except Fault Unit} (hmake : fs.makeDirectories target.parent = (r, fs')) :
    fs.prepared p = fs' := by
  rw [prepared, htarget]
  simp only [hmake]

theorem WritesAt.keepsLinks {l : Location} {o : Object} (h : fs.WritesAt fs' p l o)
    (hl : ∀ target, fs.at? l ≠ some (.link target)) : fs.KeepsLinks fs' := by
  intro k target hk
  refine h.kept k _ ?_ hk
  rintro rfl
  exact hl target hk

/-! ## Where the file is put -/

theorem writesAt_of_makeDirectories {fs₁ : FileSystem} {target : Path} {l : Location} {o : Object}
    (htarget : fs.writeTarget p = .ok target) {r : Except Fault Unit}
    (hmake : fs.makeDirectories target.parent = (r, fs₁)) (hl : l ≠ []) :
    fs.WritesAt (fs₁.put l o) p l o where
  written := at?_put_self fs₁ o hl
  kept k o' hk h := by
    rw [at?_put_of_ne fs₁ o hk]
    exact (prepares_makeDirectories hmake).keeps.object k o' h
  new k o' hk h := by
    rw [at?_put_of_ne fs₁ o hk] at h
    rcases (prepares_makeDirectories hmake).made k o' h with hold | ⟨rfl, before, hbefore, hfind⟩
    · exact Or.inl hold
    · refine Or.inr ⟨rfl, target, before, htarget, hbefore, ?_⟩
      rw [prepared_of_makeDirectories htarget hmake]
      exact hfind

theorem Prepares.at?_link {q : Path} (h : fs.Prepares fs' q) {l : Location} {target : String}
    (hlink : fs'.at? l = some (.link target)) : fs.at? l = some (.link target) := by
  rcases h.made l _ hlink with hold | ⟨hdirectory, -⟩
  · exact hold
  · cases hdirectory

theorem Prepares.exists_link {q : Path} (h : fs.Prepares fs' q) {l : Location}
    (hlink : (fs'.at? l).any Object.isLink = true) : ∃ target, fs.at? l = some (.link target) := by
  cases hobject : fs'.at? l with
  | none =>
    rw [hobject] at hlink
    cases hlink
  | some o =>
    rw [hobject] at hlink
    cases o with
    | link target => exact ⟨target, h.at?_link hobject⟩
    | _ => cases hlink

theorem replacesLink_of_makeDirectories {fs₁ : FileSystem} {target : Path} {l : Location}
    (htarget : fs.writeTarget p = .ok target) {r : Except Fault Unit}
    (hmake : fs.makeDirectories target.parent = (r, fs₁))
    (hplace : fs₁.at? l = none ∧ fs₁.findLast target = .error .missing ∨
      ∃ o, o ≠ .directory ∧ fs₁.at? l = some o ∧ fs₁.findLast target = .ok (l, o)) :
    fs.replacesLink p = (fs₁.at? l).any Object.isLink := by
  rw [replacesLink, htarget, prepared_of_makeDirectories htarget hmake]
  rcases hplace with ⟨hnone, hlast⟩ | ⟨o, -, hobject, hlast⟩
  · simp only [hlast, hnone, Option.any_none]
  · simp only [hlast, hobject, Option.any_some]

/-- Where a path leads to a file, the place where a write puts its own is the one
that it had. -/
theorem place_of_find {fs₁ : FileSystem} {target : Path} {l l' : Location} {c : ByteArray} {m : Nat}
    (hw : fs.Reaches fs.working) (h : fs.find p = .ok (l, .file c m))
    (htarget : fs.writeTarget p = .ok target)
    (hmake : fs.makeDirectories target.parent = (.ok (), fs₁))
    (hplace : fs₁.at? l' = none ∧ fs₁.findLast target = .error .missing ∨
      ∃ o, o ≠ .directory ∧ fs₁.at? l' = some o ∧ fs₁.findLast target = .ok (l', o)) :
    fs₁ = fs ∧ l' = l := by
  obtain ⟨hmake', hlast⟩ := target_of_find hw h htarget
  obtain ⟨-, rfl⟩ := Prod.mk.inj (hmake.symm.trans hmake')
  rcases hplace with ⟨-, hmissing⟩ | ⟨o, -, -, hlast'⟩
  · cases hlast.symm.trans hmissing
  · exact ⟨rfl, (Prod.mk.inj (Except.ok.inj (hlast'.symm.trans hlast))).1⟩

theorem not_replacesLink_of_find {l : Location} {c : ByteArray} {m : Nat}
    (hw : fs.Reaches fs.working) (h : fs.find p = .ok (l, .file c m)) :
    fs.replacesLink p = false := by
  rw [replacesLink]
  cases htarget : fs.writeTarget p with
  | error e => rfl
  | ok target =>
    obtain ⟨hmake, hlast⟩ := target_of_find hw h htarget
    rw [prepared_of_makeDirectories htarget hmake]
    simp only [hlast]
    rfl

/-- A path that led to nothing leads to a file that is put where a write would
put it, when the directories have been made, if nothing else leads on from
there. -/
theorem leadsTo_put {target : Path} {way : List String} {name : String} {e : Location}
    (hfind : fs.find p = .error .missing) (htarget : fs.writeTarget p = .ok target)
    (hdirectory : target.asDirectory = false) (hparts : target.parts = way ++ [name])
    (hn : IsEntryName name) (hext : fs.Extends fs') (hleads : fs'.Leads (fs'.startOf target) way e)
    (hnowhere : ∀ k, ¬ fs'.Leads e [name] k) (content : ByteArray) (mode : Nat) :
    (fs'.put (e ++ [name]) (.file content mode)).LeadsTo p (e ++ [name]) (.file content mode) := by
  rw [hext.startOf] at hleads
  -- the path comes to a directory on the way of the target, and what is left from
  -- there on is the same for both
  obtain ⟨-, c, before, after, d, hsplit, hafter, hbefore, hcomes⟩ :=
    comes_of_writeTarget hfind htarget hdirectory (by simp [hparts])
  obtain ⟨more, rfl, rfl⟩ := exists_of_append_eq_concat (hparts.symm.trans hsplit) hafter
  -- that may go over further links, so there is no bound on their number
  obtain ⟨c', hc'⟩ := ((hbefore.extend hext).rest hleads).comes [name]
  have hcomes' := (hcomes.extend hext).trans hc'
  obtain ⟨n, -, hput⟩ := hcomes'.put hnowhere (.file content mode)
  refine ⟨n, ?_⟩
  have hwalk := hput.walkFrom n
  rw [if_pos (Nat.le_refl n), Nat.sub_self,
    walkFrom_file hn (at?_put_self fs' _ (by simp))] at hwalk
  have hstart : (fs'.put (e ++ [name]) (.file content mode)).startOf p = fs.startOf p :=
    hext.startOf p
  rw [hstart]
  exact hwalk

/-! ## Writing -/

/-- What a write puts in place and what it leaves alone. If there is a link where
it puts its file, then the path led to nothing and that link is gone. Otherwise
the path leads to the file and all links are as they were. -/
theorem writeFile_footprint {content : ByteArray} (hw : fs.Reaches fs.working)
    (h : fs.writeFile p content = (.ok (), fs')) :
    ∃ l, fs.WritesAt fs' p l (.file content privateMode) ∧
      (fs.replacesLink p = false →
        fs'.LeadsTo p l (.file content privateMode) ∧ fs.KeepsLinks fs') ∧
      (fs.replacesLink p = true →
        fs.find p = .error .missing ∧ ∃ target, fs.at? l = some (.link target)) := by
  obtain ⟨target, fs₁, htarget, hmake, -, hdirectory, hreplace⟩ := of_writeFile h
  obtain ⟨way, name, e, hsteps, hn, hleads, hplace, rfl⟩ := place_of_replace hreplace
  have hprepares := prepares_makeDirectories hmake
  have hreplaces := replacesLink_of_makeDirectories htarget hmake hplace
  have hwrites : fs.WritesAt (fs₁.put (e ++ [name]) (.file content privateMode)) p (e ++ [name])
      (.file content privateMode) := writesAt_of_makeDirectories htarget hmake (by simp)
  refine ⟨e ++ [name], hwrites, fun hnot => ?_, fun htrue => ⟨?_, ?_⟩⟩
  · have hplain : (fs₁.at? (e ++ [name])).any Object.isLink = false := hreplaces.symm.trans hnot
    refine ⟨?_, hwrites.keepsLinks fun text hlink => ?_⟩
    · rcases find_of_writeFile hw h with ⟨l, c, m, hfind, hobject⟩ | hfind
      · -- the file that was there is replaced
        obtain ⟨rfl, rfl⟩ := place_of_find hw hfind htarget hmake hplace
        exact leadsTo_of_find (find_put_file (walk_of_find hfind) hobject content privateMode)
      · -- the file is new, and only a link in its place could lead on from there
        have hnowhere : ∀ k, ¬ fs₁.Leads e [name] k := by
          refine not_leads_of_object hn ?_ ?_
          · rcases hplace with ⟨hnone, -⟩ | ⟨o, hne, hobject, -⟩
            · simp [hnone]
            · rw [hobject]
              exact fun heq => hne (Option.some.inj heq)
          · rw [meetsLink_name hn, hplain]
            rfl
        have hparts : target.parts = way ++ [name] :=
          (steps_of_parts hdirectory).symm.trans hsteps
        exact leadsTo_put hfind htarget hdirectory hparts hn hprepares.keeps hleads hnowhere _ _
    · rw [hprepares.keeps.object _ _ hlink] at hplain
      cases hplain
  · rcases find_of_writeFile hw h with ⟨l, c, m, hfind, -⟩ | hfind
    · rw [not_replacesLink_of_find hw hfind] at htrue
      cases htrue
    · exact hfind
  · exact hprepares.exists_link (hreplaces.symm.trans htrue)

end PlaneAccess.FileSystem
