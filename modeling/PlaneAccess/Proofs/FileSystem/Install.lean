import PlaneAccess.Proofs.FileSystem.Walk

/-!
# Files put in place

A file is finished under another name and then moved (`install`). What is
there afterwards is as if it had been put in place at once (`replace`): the
other name is gone, whether the file could be finished and moved
(`replace_of_install`) or not (`eq_of_install_error`), in whatever stage it has
failed.
-/

namespace PlaneAccess.FileSystem

/-- Puts a finished file in place of what a path leads to. A link at its end
is replaced and not followed, and a directory is never replaced. -/
def replace (fs : FileSystem) (p : Path) (content : ByteArray) (mode : Nat) :
    Except Fault FileSystem :=
  match fs.walk false p with
  | .error e => .error e
  | .ok (.found _ .directory) => .error .isDirectory
  | .ok (.found l _) => .ok (fs.put l (.file content mode))
  | .ok (.free l) => .ok (fs.put l (.file content mode))

variable {fs fs' : FileSystem} {p : Path} {content : ByteArray} {mode : Nat}

theorem replace_of_found {l : Location} {o : Object} (h : fs.walk false p = .ok (.found l o))
    (ho : o ≠ .directory) :
    fs.replace p content mode = .ok (fs.put l (.file content mode)) := by
  rw [replace, h]
  cases o with
  | directory => exact absurd rfl ho
  | file _ _ => rfl
  | link _ => rfl

/-! ## The other name -/

theorem length_le_lengths {e : Location × Object} :
    ∀ {es : List (Location × Object)}, e ∈ es → (e.1.getLast?.getD "").length ≤
      (es.map (fun e => (e.1.getLast?.getD "").length)).foldr Nat.add 0
  | f :: es, h => by
    rw [List.map_cons, List.foldr_cons]
    rcases List.mem_cons.mp h with rfl | h
    · exact Nat.le_add_right _ _
    · exact Nat.le_trans (length_le_lengths h) (Nat.le_add_left _ _)

theorem ne_freshName (d : Location) : ∀ e ∈ fs.objects, e.1 ≠ d ++ [fs.freshName] := by
  intro e he heq
  have hle := length_le_lengths he
  have hlength : fs.freshName.length =
      (fs.objects.map (fun e => (e.1.getLast?.getD "").length)).foldr Nat.add 0 + 1 := by
    rw [freshName, String.length_ofList, List.length_cons, List.length_replicate]
  rw [heq, List.getLast?_concat, Option.getD_some, hlength] at hle
  omega

theorem at?_of_ne {l : Location} (hl : l ≠ []) (h : ∀ e ∈ fs.objects, e.1 ≠ l) :
    fs.at? l = none := by
  rw [at?, if_neg (by simpa using hl), List.lookup_eq_none_iff]
  intro e he
  simpa using (h e he).symm

theorem put_put (fs : FileSystem) (l : Location) (o o' : Object) :
    (fs.put l o).put l o' = fs.put l o' := by
  rw [put, put, put]
  simp only [List.filter_cons_of_neg, ne_eq, not_true_eq_false, decide_false, Bool.false_eq_true,
    not_false_eq_true, List.filter_filter, Bool.and_self]

/-- A file of a new name is gone without a trace when it is removed. -/
theorem clear_put {l : Location} (o : Object) (h : ∀ e ∈ fs.objects, e.1 ≠ l) :
    (fs.put l o).clear l = fs := by
  have hfilter : fs.objects.filter (fun e => e.1 ≠ l) = fs.objects :=
    List.filter_eq_self.mpr fun e he => by simpa using h e he
  rw [clear, put]
  simp only [hfilter]
  rw [List.filter_cons_of_neg (by simp), hfilter]

/-! ## Walks past the other name -/

/-- A walk past a new file comes to the same place without it, unless it ends
at that file. -/
theorem Walks.of_put {l : Location} (hl : fs.at? l = none) {fl : Bool} {n : Nat}
    {here : Location} {ps : List String} {place : Place}
    (h : Walks (fs.put l (.file content mode)) fl n here ps place) :
    Walks fs fl n here ps place ∨
      place = .found l (.file content mode) ∧ Walks fs fl n here ps (.free l) := by
  have hother : ∀ {k : Location} {o : Object},
      (fs.put l (.file content mode)).at? k = some o → k ≠ l → fs.at? k = some o := by
    intro k o hk hne
    rwa [at?_put_of_ne fs _ hne] at hk
  have hne : ∀ {here : Location} {name : String} {o : Object},
      (fs.put l (.file content mode)).at? (here ++ [name]) = some o →
      (∀ c m, o ≠ .file c m) → here ++ [name] ≠ l := by
    rintro here name o hk ho rfl
    rw [at?_put_self fs _ (by simp)] at hk
    exact ho content mode (Option.some.inj hk).symm
  induction h with
  | stop => exact Or.inl .stop
  | dot _ ih => exact ih.imp .dot (And.imp_right .dot)
  | up _ ih => exact ih.imp .up (And.imp_right .up)
  | @free n here name hn hobject =>
    refine Or.inl (.free hn ?_)
    by_cases heq : here ++ [name] = l
    · rw [heq]
      exact hl
    · rwa [at?_put_of_ne fs _ heq] at hobject
  | @file n here name c m hn hobject =>
    by_cases heq : here ++ [name] = l
    · refine Or.inr ?_
      subst heq
      rw [at?_put_self fs _ (by simp)] at hobject
      obtain ⟨rfl, rfl⟩ := Object.file.inj (Option.some.inj hobject)
      exact ⟨rfl, .free hn hl⟩
    · exact Or.inl (.file hn (hother hobject heq))
  | directory hn hobject _ ih =>
    have hobject' := hother hobject (hne hobject fun _ _ h => by cases h)
    exact ih.imp (.directory hn hobject') (And.imp_right (.directory hn hobject'))
  | last hn hobject hfl =>
    exact Or.inl (.last hn (hother hobject (hne hobject fun _ _ h => by cases h)) hfl)
  | link hn hobject hrest _ ih =>
    have hobject' := hother hobject (hne hobject fun _ _ h => by cases h)
    exact ih.imp (.link hn hobject' hrest) (And.imp_right (.link hn hobject' hrest))

/-! ## The stages -/

/-- The stages in which a file is put in place are not refused. -/
structure LetsInstall (fs : FileSystem) : Prop where
  create : fs.refusals.create = none
  write : fs.refusals.write = none
  sync : fs.refusals.sync = none
  move : fs.refusals.move = none

theorem of_fill {l : Location} (h : fs.fill l content mode = (.ok (), fs')) :
    fs' = fs.put l (.file content mode) ∧ fs.refusals.write = none ∧ fs.refusals.sync = none := by
  unfold fill at h
  split at h
  · cases (Prod.mk.inj h).1
  · rename_i hwrite
    extract_lets written at h
    split at h
    · cases (Prod.mk.inj h).1
    · rename_i hsync
      exact ⟨(Prod.mk.inj h).2.symm, hwrite, hsync⟩

theorem of_fill_error {l : Location} {e : Fault} (h : fs.fill l content mode = (.error e, fs')) :
    ∃ c, fs' = fs.put l (.file c mode) := by
  unfold fill at h
  split at h
  · exact ⟨_, (Prod.mk.inj h).2.symm⟩
  · extract_lets written at h
    split at h
    · exact ⟨_, (Prod.mk.inj h).2.symm⟩
    · cases (Prod.mk.inj h).1

theorem fill_of_letsInstall (h : fs.LetsInstall) (l : Location) (content : ByteArray) (mode : Nat) :
    fs.fill l content mode = (.ok (), fs.put l (.file content mode)) := by
  rw [fill, h.write]
  have hsync : (fs.put l (.file content mode)).refusals.sync = none := h.sync
  simp only [hsync]

theorem of_moveFile {l : Location} (h : fs.moveFile l content mode p = .ok fs') :
    fs.refusals.move = none ∧ p.asDirectory = false ∧
      ∃ k, ((∃ o, o ≠ .directory ∧ fs.walk false p = .ok (.found k o)) ∨
          fs.walk false p = .ok (.free k)) ∧
        fs' = (fs.clear l).put k (.file content mode) := by
  unfold moveFile at h
  split at h
  · cases h
  rename_i hmove
  split at h
  · cases h
  split at h
  · cases h
  split at h
  · cases h
  split at h
  · cases h
  rename_i hdirectory
  refine ⟨hmove, Bool.eq_false_iff.mpr hdirectory, ?_⟩
  split at h
  · cases h
  · cases h
  · rename_i k o hne hwalk
    exact ⟨k, Or.inl ⟨o, hne, hwalk⟩, (Except.ok.inj h).symm⟩
  · rename_i k hwalk
    exact ⟨k, Or.inr hwalk, (Except.ok.inj h).symm⟩

theorem moveFile_of_found {l k : Location} {o : Object} (hmove : fs.refusals.move = none)
    (hempty : p.isEmpty = false) (hholder : ∃ d, fs.find p.holder = .ok d)
    (hentry : p.endsInEntry = true) (hp : p.asDirectory = false)
    (hwalk : fs.walk false p = .ok (.found k o)) (ho : o ≠ .directory) :
    fs.moveFile l content mode p = .ok ((fs.clear l).put k (.file content mode)) := by
  obtain ⟨d, hd⟩ := hholder
  rw [moveFile, hmove, hempty, if_neg (by decide), hd]
  simp only [hentry, hp, hwalk]
  cases o with
  | directory => exact absurd rfl ho
  | file _ _ => rfl
  | link _ => rfl

/-! ## Installing -/

theorem replace_of_moveFile {t : Location} (ht : t ≠ []) (hfresh : ∀ e ∈ fs.objects, e.1 ≠ t)
    (h : (fs.put t (.file content mode)).moveFile t content mode p = .ok fs') :
    p.asDirectory = false ∧ fs.replace p content mode = .ok fs' := by
  have hnone := at?_of_ne ht hfresh
  have hwalk : ∀ {place : Place}, (fs.put t (.file content mode)).walk false p = .ok place →
      fs.walk false p = .ok place ∨
        place = .found t (.file content mode) ∧ fs.walk false p = .ok (.free t) := by
    intro place hplace
    have hw := (walks_of_walk hplace).of_put hnone
    exact hw.imp (walk_of_walks hplace) (And.imp_right (walk_of_walks hplace))
  obtain ⟨-, hdirectory, k, hplace, rfl⟩ := of_moveFile h
  rw [clear_put _ hfresh]
  refine ⟨hdirectory, ?_⟩
  rcases hplace with ⟨o, hne, hplace⟩ | hplace
  · rcases hwalk hplace with hplace | ⟨heq, hplace⟩
    · exact replace_of_found hplace hne
    · obtain ⟨rfl, -⟩ := Place.found.inj heq
      rw [replace, hplace]
  · rcases hwalk hplace with hplace | ⟨heq, -⟩
    · rw [replace, hplace]
    · cases heq

/-- What installing without an error has done. No stage of it was refused. -/
theorem replace_of_install (h : fs.install p content mode = (.ok (), fs')) :
    fs.LetsInstall ∧ p.asDirectory = false ∧ fs.replace p content mode = .ok fs' := by
  unfold install at h
  split at h
  · cases (Prod.mk.inj h).1
  rename_i d _ _
  split at h
  · cases (Prod.mk.inj h).1
  rename_i hcreate
  extract_lets temporary created at h
  split at h
  · cases (Prod.mk.inj h).1
  rename_i filled hfill
  obtain ⟨rfl, hwrite, hsync⟩ := of_fill hfill
  split at h
  · cases (Prod.mk.inj h).1
  rename_i hmove
  obtain ⟨-, rfl⟩ := Prod.mk.inj h
  rw [put_put] at hmove
  exact ⟨⟨hcreate, hwrite, hsync, (of_moveFile hmove).1⟩,
    replace_of_moveFile (by simp) (ne_freshName d) hmove⟩

/-- Installing with an error leaves nothing behind, in whatever stage it has
failed: the file of the other name was not made yet, or has been removed. -/
theorem eq_of_install_error {e : Fault} (h : fs.install p content mode = (.error e, fs')) :
    fs' = fs := by
  unfold install at h
  split at h
  · exact (Prod.mk.inj h).2.symm
  rename_i d _ _
  split at h
  · exact (Prod.mk.inj h).2.symm
  extract_lets temporary created at h
  have hclear : ∀ c, (created.put temporary (.file c mode)).clear temporary = fs := by
    intro c
    rw [put_put]
    exact clear_put _ (ne_freshName d)
  split at h
  · rename_i hfill
    obtain ⟨c, rfl⟩ := of_fill_error hfill
    rw [← (Prod.mk.inj h).2, hclear]
  · rename_i hfill
    obtain ⟨rfl, -⟩ := of_fill hfill
    split at h
    · rw [← (Prod.mk.inj h).2, hclear]
    · cases (Prod.mk.inj h).1

/-- A path whose last component is a name, and that asks for no directory, has
it looked up in its directory. -/
theorem holder_of_parts {before : List String} {name : String} (hp : p.asDirectory = false)
    (hparts : p.parts = before ++ [name]) (hn : IsEntryName name) :
    p.isEmpty = false ∧ p.endsInEntry = true ∧ p.holder = p.directory := by
  obtain ⟨isAbsolute, parts, ending⟩ := p
  obtain rfl : ending = .name := by
    cases ending with
    | name => rfl
    | _ => cases hp
  obtain rfl : parts = before ++ [name] := hparts
  refine ⟨?_, ?_, ?_⟩
  · simp [Path.isEmpty]
  · simp [Path.endsInEntry, hn.2]
  · simp [Path.holder, Path.directory]

theorem install_of_found {before : List String} {name : String} {d k : Location} {o o' : Object}
    (hlets : fs.LetsInstall) (hd : fs.find p.directory = .ok (d, o)) (hp : p.asDirectory = false)
    (hparts : p.parts = before ++ [name]) (hn : IsEntryName name)
    (hwalk : fs.walk false p = .ok (.found k o')) (ho : o' ≠ .directory) :
    fs.install p content mode = (.ok (), fs.put k (.file content mode)) := by
  have hfresh := fs.ne_freshName d
  have hnone : fs.at? (d ++ [fs.freshName]) = none := at?_of_ne (by simp) hfresh
  have hext := extends_put (.file content mode) hnone
  obtain ⟨hempty, hentry, hholder⟩ := holder_of_parts hp hparts hn
  have hfind : (fs.put (d ++ [fs.freshName]) (.file content mode)).find p.holder = .ok (d, o) := by
    rw [hholder]
    exact find_extend hext hd
  have hlets' : (fs.put (d ++ [fs.freshName]) (.file content mode)).refusals.move = none :=
    hlets.move
  have hmove : (fs.put (d ++ [fs.freshName]) (.file content mode)).moveFile
      (d ++ [fs.freshName]) content mode p = .ok (fs.put k (.file content mode)) := by
    rw [moveFile_of_found hlets' hempty ⟨_, hfind⟩ hentry hp (walk_extend hext hwalk) ho,
      clear_put _ hfresh]
  have hcreated : (fs.put (d ++ [fs.freshName]) (.file .empty mode)).LetsInstall :=
    ⟨hlets.create, hlets.write, hlets.sync, hlets.move⟩
  rw [install, hd]
  simp only [hlets.create, fill_of_letsInstall hcreated, put_put, hmove]

end PlaneAccess.FileSystem
