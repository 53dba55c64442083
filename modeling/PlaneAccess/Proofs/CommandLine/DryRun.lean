import PlaneAccess.CommandLine.Run
import PlaneAccess.Proofs.Loader
import PlaneAccess.Proofs.Loader.Failure

/-!
# Dry runs

A dry run prints what merging writes (`Workspace.dry_run`). The one loads the
aggregate first and the other one fetches the credentials first, but both come
to the same kubeconfig or to none (`Loader.mergedDocument_eq_ok`). So there is
no difference but in the write, which can still fail.
-/

namespace PlaneAccess

open PlaneAccess.ControlPlane

/-! ## What is written -/

namespace FileSystem

/-- Some content has been put in place for a path. It is read there, unless the
way to the new file goes back to a link. -/
structure Written (fs fs' : FileSystem) (p : Path) (content : ByteArray) : Prop where
  file : ∃ l, fs'.at? l = some (.file content privateMode)
  found : ¬ fs.GoesBackToLink p → fs'.read p = .ok content

theorem written_of_writeFile {fs fs' : FileSystem} {p : Path} {content : ByteArray}
    (hw : fs.Reaches fs.working) (hfree : fs.refusals.read = none)
    (h : fs.writeFile p content = (.ok (), fs')) : fs.Written fs' p content := by
  refine ⟨?_, fun hnot => ?_⟩
  · obtain ⟨target, fs₁, -, -, -, -, hreplace⟩ := of_writeFile h
    obtain ⟨_, name, d, _, _, _, _, rfl⟩ := leads_of_replace hreplace
    exact ⟨d ++ [name], at?_put_self fs₁ _ (by simp)⟩
  · rcases read_writeFile_of_not_returnsToLink hw hfree h with hread | ⟨-, hback, -⟩
    · exact hread
    · exact absurd hback hnot

end FileSystem

/-! ## The kubeconfig that is merged -/

namespace Loader

variable {l : Loader} {fs : FileSystem} {i : Identity} {m : Kubeconfig}

/-- It does not matter whether the aggregate or the bundle is loaded first. -/
theorem mergedDocument_eq_ok :
    l.mergedDocument fs i = .ok m ↔
      ∃ before s, l.aggregate.loadOrEmpty fs = .ok before ∧ l.remappedDocument i = .ok s ∧
        m = before.merge s := by
  rw [mergedDocument]
  constructor
  · intro h
    obtain ⟨s, hs, h⟩ := bind_eq_ok.mp h
    obtain ⟨before, hbefore, h⟩ := bind_eq_ok.mp h
    exact ⟨before, s, hbefore, hs, (Except.ok.inj h).symm⟩
  · rintro ⟨before, s, hbefore, hs, rfl⟩
    rw [hs, ok_bind, hbefore]
    rfl

/-- With the kubeconfig that is merged only the write can fail. -/
theorem loadAndMerge_of_encode {text : String} (h : l.mergedDocument fs i = .ok m)
    (htext : m.encode = some text) :
    (∃ fs', fs.writeFile l.aggregate.location text.toUTF8 = (.ok (), fs') ∧
        l.loadAndMerge fs i = (.ok m, fs')) ∨
      ∃ f fs', fs.writeFile l.aggregate.location text.toUTF8 = (.error f, fs') ∧
        l.loadAndMerge fs i =
          (.error (.persist (l.aggregate.shown ++ ": " ++ f.message)), fs') := by
  rw [loadAndMerge, h]
  cases hwrite : fs.writeFile l.aggregate.location text.toUTF8 with
  | mk r fs' =>
    cases r with
    | ok u =>
      refine Or.inl ⟨fs', rfl, ?_⟩
      simp only [Aggregate.persist_of_writeFile htext hwrite]
    | error f =>
      refine Or.inr ⟨f, fs', rfl, ?_⟩
      simp only [Aggregate.persist_of_writeFile_error htext hwrite]

end Loader

/-! ## Both commands -/

namespace CommandLine.Workspace

variable {w : Workspace} {i : Identity} {m : Kubeconfig} {text : String}

theorem mergeDry_of_encode (h : w.loader.mergedDocument w.fileSystem i = .ok m)
    (htext : m.encode = some text) : w.mergeDry i = .printed text := by
  obtain ⟨before, s, hbefore, hs, rfl⟩ := Loader.mergedDocument_eq_ok.mp h
  have hmerge : w.loader.mergeInto before i = .ok (before.merge s) := by
    rw [Loader.mergeInto, hs]
    rfl
  replace hbefore : w.aggregate.loadOrEmpty w.fileSystem = .ok before := hbefore
  unfold mergeDry
  simp only [hbefore, hmerge, htext]

theorem of_mergeDry (h : (w.mergeDry i).exitCode = 0) :
    ∃ m text, w.loader.mergedDocument w.fileSystem i = .ok m ∧ m.encode = some text := by
  unfold mergeDry at h
  split at h
  · cases h
  · rename_i before hbefore
    split at h
    · cases h
    · rename_i k hk
      split at h
      · cases h
      · rename_i text htext
        obtain ⟨s, hs, hmerge⟩ := bind_eq_ok.mp hk
        refine ⟨k, text, Loader.mergedDocument_eq_ok.mpr ⟨before, s, hbefore, hs, ?_⟩, htext⟩
        exact (Except.ok.inj hmerge).symm

theorem of_merge (h : (w.merge i).1.exitCode = 0) :
    ∃ m text, w.loader.mergedDocument w.fileSystem i = .ok m ∧ m.encode = some text ∧
      w.fileSystem.writeFile w.aggregate.location text.toUTF8 = (.ok (), (w.merge i).2) := by
  rw [merge] at h
  split at h
  · cases h
  · rename_i m fs' hmerge
    obtain ⟨before, document, hbefore, hdocument, hm, hpersist⟩ := Loader.of_loadAndMerge hmerge
    obtain ⟨text, htext, hwrite⟩ := Aggregate.of_persist hpersist
    have hremapped : w.loader.remappedDocument i = .ok (document.remap i w.loader.naming) := by
      rw [Loader.remappedDocument, hdocument]
      rfl
    refine ⟨m, text, Loader.mergedDocument_eq_ok.mpr ⟨before, _, hbefore, hremapped, hm⟩,
      htext, ?_⟩
    rw [merge, hmerge]
    exact hwrite

theorem read_of_mergedDocument (h : w.loader.mergedDocument w.fileSystem i = .ok m) :
    w.fileSystem.refusals.read = none := by
  obtain ⟨before, -, hbefore, -⟩ := Loader.mergedDocument_eq_ok.mp h
  exact Aggregate.read_of_loadOrEmpty hbefore

theorem merge_of_encode (hw : w.fileSystem.Reaches w.fileSystem.working)
    (h : w.loader.mergedDocument w.fileSystem i = .ok m) (htext : m.encode = some text) :
    (w.merge i).1.exitCode = 0 ∧
        w.fileSystem.Written (w.merge i).2 w.aggregate.location text.toUTF8 ∨
      ∃ reason, (w.merge i).1 =
          .failed (some ("Merging credentials of " ++ i.text)) (.persist reason) ∧
        w.fileSystem.PreparesWrite (w.merge i).2 w.aggregate.location ∧
        ∀ bytes, w.fileSystem.read w.aggregate.location = .ok bytes →
          (w.merge i).2 = w.fileSystem := by
  rw [merge]
  rcases Loader.loadAndMerge_of_encode h htext with
    ⟨fs', hwrite, hmerge⟩ | ⟨f, fs', hwrite, hmerge⟩
  · rw [hmerge]
    exact Or.inl ⟨rfl, FileSystem.written_of_writeFile hw (read_of_mergedDocument h) hwrite⟩
  · rw [hmerge]
    refine Or.inr ⟨_, rfl, FileSystem.preparesWrite_of_error hwrite, fun bytes hread => ?_⟩
    obtain ⟨-, _, _, hfind⟩ := FileSystem.find_of_read hread
    exact FileSystem.eq_of_writeFile_error hw hfind hwrite

/-- A wait comes to the same for both: it does not end, it fails, or it is
over. -/
theorem run_merge_cases (w : Workspace) (i : Identity) (wait : Bool) :
    (∀ dryRun, w.run (.merge i wait dryRun) = none) ∨
      (∃ out, out.exitCode ≠ 0 ∧
        ∀ dryRun, w.run (.merge i wait dryRun) = some (out, w.fileSystem)) ∨
      w.run (.merge i wait true) = some (w.mergeDry i, w.fileSystem) ∧
        w.run (.merge i wait false) = some (w.merge i) := by
  cases wait with
  | false => exact Or.inr (Or.inr ⟨rfl, rfl⟩)
  | true =>
    simp only [run, afterWait, if_true]
    cases w.await i with
    | none => exact Or.inl fun _ => rfl
    | some e =>
      cases e with
      | found => exact Or.inr (Or.inr ⟨rfl, rfl⟩)
      | failed e => exact Or.inr (Or.inl ⟨_, Nat.one_ne_zero, fun _ => rfl⟩)
      | panicked => exact Or.inr (Or.inl ⟨.panicked, by decide, fun _ => rfl⟩)

/-- A dry run prints what merging writes, and changes nothing. Where merging
succeeds the dry run does. Where the dry run does, merging writes what it has
printed or fails to write, and then a file that was there is as it was. -/
theorem dry_run (w : Workspace) (i : Identity) (wait : Bool)
    (hw : w.fileSystem.Reaches w.fileSystem.working) :
    (∀ out fs', w.run (.merge i wait false) = some (out, fs') → out.exitCode = 0 →
      ∃ text, w.run (.merge i wait true) = some (.printed text, w.fileSystem) ∧
        w.fileSystem.Written fs' w.aggregate.location text.toUTF8) ∧
    (∀ out fs', w.run (.merge i wait true) = some (out, fs') → fs' = w.fileSystem) ∧
    ∀ out fs', w.run (.merge i wait true) = some (out, fs') → out.exitCode = 0 →
      ∃ out' fs'', w.run (.merge i wait false) = some (out', fs'') ∧
        (out'.exitCode = 0 ∧
            w.fileSystem.Written fs'' w.aggregate.location out.output.toUTF8 ∨
          ∃ reason, out' = .failed (some ("Merging credentials of " ++ i.text)) (.persist reason) ∧
            w.fileSystem.PreparesWrite fs'' w.aggregate.location ∧
            ∀ bytes, w.fileSystem.read w.aggregate.location = .ok bytes →
              fs'' = w.fileSystem) := by
  rcases w.run_merge_cases i wait with hnone | ⟨out₁, hcode, hfails⟩ | ⟨hdry, hreal⟩
  · refine ⟨?_, ?_, ?_⟩
    · intro out fs' h
      rw [hnone] at h
      cases h
    · intro out fs' h
      rw [hnone] at h
      cases h
    · intro out fs' h
      rw [hnone] at h
      cases h
  · refine ⟨?_, ?_, ?_⟩
    · intro out fs' h hout
      rw [hfails] at h
      obtain ⟨rfl, -⟩ := Prod.mk.inj (Option.some.inj h)
      exact absurd hout hcode
    · intro out fs' h
      rw [hfails] at h
      exact (Prod.mk.inj (Option.some.inj h)).2.symm
    · intro out fs' h hout
      rw [hfails] at h
      obtain ⟨rfl, -⟩ := Prod.mk.inj (Option.some.inj h)
      exact absurd hout hcode
  · rw [hdry, hreal]
    refine ⟨?_, ?_, ?_⟩
    · intro out fs' h hout
      have hmerge := Option.some.inj h
      have hcode : (w.merge i).1.exitCode = 0 := by
        rw [hmerge]
        exact hout
      obtain ⟨m, text, hmerged, htext, hwrite⟩ := of_merge hcode
      rw [hmerge] at hwrite
      exact ⟨text, by rw [mergeDry_of_encode hmerged htext],
        FileSystem.written_of_writeFile hw (read_of_mergedDocument hmerged) hwrite⟩
    · intro out fs' h
      exact (Prod.mk.inj (Option.some.inj h)).2.symm
    · intro out fs' h hout
      obtain ⟨rfl, rfl⟩ := Prod.mk.inj (Option.some.inj h)
      obtain ⟨m, text, hmerged, htext⟩ := of_mergeDry hout
      refine ⟨(w.merge i).1, (w.merge i).2, rfl, ?_⟩
      rw [mergeDry_of_encode hmerged htext]
      exact merge_of_encode hw hmerged htext

/-! ## Files behind links -/

/-- A workspace with some files, in which the credentials of one control plane
are there and are empty. -/
def withFiles (fs : FileSystem) : Workspace where
  settings := .ofPath (Settings.octets "/config")
  connection := .server ⟨.ofList [("x-system",
    ⟨[⟨some "admin-kubeconfig", .ofList [("kubeconfig", "")]⟩], none, none, []⟩)]⟩
  fileSystem := fs

/-- A file behind a link gets what the dry run prints. -/
theorem dry_run_link :
    let w := withFiles ⟨[(["config"], .link "d/../real"), (["d"], .directory),
      (["real"], .file "clusters:\n- name: c\n  cluster:\n    server: a\n".toUTF8 0o644)], [],
      .none⟩
    ∃ text fs', (w.run (.merge (Loader.letterPlane .k8s) false false)).map Prod.snd = some fs' ∧
      w.run (.merge (Loader.letterPlane .k8s) false true) = some (.printed text, w.fileSystem) ∧
      fs'.read w.aggregate.location = .ok text.toUTF8 := by
  intro w
  have hcode : (w.merge (Loader.letterPlane .k8s)).1.exitCode = 0 := by decide +kernel
  obtain ⟨hreal, -, -⟩ := dry_run w (Loader.letterPlane .k8s) false .root
  obtain ⟨text, hdry, hwritten⟩ := hreal (w.merge (Loader.letterPlane .k8s)).1
    (w.merge (Loader.letterPlane .k8s)).2 rfl hcode
  obtain ⟨bytes, hthere, -⟩ := exists_of_toOption_any
    (r := w.fileSystem.read w.aggregate.location) (fun _ => true) (by decide +kernel)
  exact ⟨text, _, rfl, hdry,
    hwritten.found (FileSystem.not_goesBackToLink_of_read .root hthere)⟩

/-- Merging succeeds, but the path of the aggregate does not lead to what the
dry run prints. -/
def NotShown (w : Workspace) (i : Identity) : Prop :=
  ∃ out fs' text, w.run (.merge i false false) = some (out, fs') ∧ out.exitCode = 0 ∧
    w.run (.merge i false true) = some (.printed text, w.fileSystem) ∧
    fs'.read w.aggregate.location ≠ .ok text.toUTF8

theorem notShown_of_merge (hcode : (w.merge i).1.exitCode = 0)
    (hfails : ((w.merge i).2.read w.aggregate.location).toOption.isNone = true) :
    w.NotShown i := by
  obtain ⟨m, text, hmerged, htext, -⟩ := of_merge hcode
  have hdry : w.run (.merge i false true) = some (.printed text, w.fileSystem) := by
    rw [← mergeDry_of_encode hmerged htext]
    rfl
  refine ⟨(w.merge i).1, (w.merge i).2, text, rfl, hcode, hdry, ?_⟩
  intro hread
  rw [hread] at hfails
  cases hfails

/-- A file behind links can be in its own way. -/
theorem not_shown :
    (withFiles ⟨[(["config"], .link "x/../l/../l"), (["l"], .link "x")], [], .none⟩).NotShown
      (Loader.letterPlane .k8s) :=
  notShown_of_merge (by decide +kernel) (by decide +kernel)

end CommandLine.Workspace

end PlaneAccess
