import PlaneAccess.Aggregate
import PlaneAccess.Proofs.FileSystem.NewFile
import PlaneAccess.Proofs.Kubeconfig.Decoded

/-!
# The aggregate on disk

What has been persisted is loaded again (`Aggregate.load_persist`).
-/

namespace PlaneAccess.Aggregate

/-- The kubeconfig on disk before anything is merged into it: there was no file,
or its content is read. -/
theorem of_loadOrEmpty {a : Aggregate} {fs : FileSystem} {k : Kubeconfig}
    (h : a.loadOrEmpty fs = .ok k) :
    fs.read a.location = .error .missing ∧ k = .empty ∨
      ∃ bytes, fs.read a.location = .ok bytes ∧ Kubeconfig.decode bytes = .ok k := by
  unfold loadOrEmpty load at h
  cases hread : fs.read a.location with
  | error e =>
    rw [hread] at h
    cases e with
    | missing => exact Or.inl ⟨rfl, (Except.ok.inj h).symm⟩
    | _ => cases h
  | ok bytes =>
    rw [hread] at h
    cases hdecode : Kubeconfig.decode bytes with
    | error e =>
      simp only [hdecode] at h
      cases h
    | ok k' =>
      simp only [hdecode] at h
      obtain rfl := Except.ok.inj h
      exact Or.inr ⟨bytes, rfl, hdecode⟩

theorem read_of_loadOrEmpty {a : Aggregate} {fs : FileSystem} {k : Kubeconfig}
    (h : a.loadOrEmpty fs = .ok k) : fs.refusals.read = none := by
  rcases of_loadOrEmpty h with ⟨hmissing, -⟩ | ⟨bytes, hbytes, -⟩
  · exact (FileSystem.find_of_read_missing hmissing).1
  · exact (FileSystem.find_of_read hbytes).1

theorem loadOrEmpty_freely {a : Aggregate} {fs : FileSystem} (hfree : fs.refusals.read = none) :
    a.loadOrEmpty fs.freely = a.loadOrEmpty fs := by
  rw [loadOrEmpty, load, FileSystem.read_freely hfree, loadOrEmpty, load]

theorem decoded_of_loadOrEmpty {a : Aggregate} {fs : FileSystem} {k : Kubeconfig}
    (h : a.loadOrEmpty fs = .ok k) : k.Decoded := by
  rcases of_loadOrEmpty h with ⟨-, rfl⟩ | ⟨bytes, -, hdecode⟩
  · exact .empty
  · exact Kubeconfig.decoded_of_decode hdecode

theorem load_of_read {a : Aggregate} {fs : FileSystem} {bytes : ByteArray} {k : Kubeconfig}
    (hread : fs.read a.location = .ok bytes) (hdecode : Kubeconfig.decode bytes = .ok k) :
    a.load fs = .ok k := by
  rw [load, hread]
  simp only [hdecode]
  rfl

/-- What persisting without an error has done. -/
theorem of_persist {a : Aggregate} {fs fs' : FileSystem} {k : Kubeconfig}
    (h : a.persist fs k = (.ok (), fs')) :
    ∃ text, k.encode = some text ∧ fs.writeFile a.location text.toUTF8 = (.ok (), fs') := by
  unfold persist at h
  split at h
  · cases (Prod.mk.inj h).1
  · rename_i text htext
    split at h
    · cases (Prod.mk.inj h).1
    · rename_i hwrite
      obtain ⟨-, rfl⟩ := Prod.mk.inj h
      exact ⟨text, htext, hwrite⟩

/-- Persisting that fails has changed nothing, or it could not write. -/
theorem of_persist_error {a : Aggregate} {fs fs' : FileSystem} {k : Kubeconfig} {e : Error}
    (h : a.persist fs k = (.error e, fs')) :
    fs' = fs ∨ ∃ content f, fs.writeFile a.location content = (.error f, fs') := by
  unfold persist at h
  split at h
  · exact Or.inl (Prod.mk.inj h).2.symm
  · split at h
    · rename_i hwrite
      obtain ⟨-, rfl⟩ := Prod.mk.inj h
      exact Or.inr ⟨_, _, hwrite⟩
    · cases (Prod.mk.inj h).1

theorem persist_of_writeFile {a : Aggregate} {fs fs' : FileSystem} {k : Kubeconfig} {text : String}
    (htext : k.encode = some text)
    (hwrite : fs.writeFile a.location text.toUTF8 = (.ok (), fs')) :
    a.persist fs k = (.ok (), fs') := by
  rw [persist, htext]
  simp only [hwrite]

theorem persist_of_writeFile_error {a : Aggregate} {fs fs' : FileSystem} {k : Kubeconfig}
    {text : String} {f : FileSystem.Fault} (htext : k.encode = some text)
    (hwrite : fs.writeFile a.location text.toUTF8 = (.error f, fs')) :
    a.persist fs k = (.error (.persist (a.shown ++ ": " ++ f.message)), fs') := by
  rw [persist, htext]
  simp only [hwrite]

/-- A kubeconfig that has been persisted is loaded again. Only where the path led
to nothing before and the way to the new file goes back to a link can reading it
fail. -/
theorem load_persist {a : Aggregate} {fs fs' : FileSystem} {k : Kubeconfig}
    (hk : k.Faithful) (hdepth : k.toTree.depth ≤ Yaml.Tree.depthLimit)
    (hread : k.toTree.readsBack = true) (hw : fs.Reaches fs.working)
    (hfree : fs.refusals.read = none) (h : a.persist fs k = (.ok (), fs')) :
    a.load fs' = .ok k ∨
      fs.read a.location = .error .missing ∧ fs.GoesBackToLink a.location ∧
        (fs'.read a.location = .error .notDirectory ∨
          fs'.read a.location = .error .tooManyLinks) := by
  obtain ⟨text, htext, hwrite⟩ := of_persist h
  rcases FileSystem.read_writeFile_of_not_returnsToLink hw hfree hwrite with hbytes | hfails
  · rw [Kubeconfig.eq_of_encode htext] at hbytes
    exact Or.inl (load_of_read hbytes (hk.decode_render hdepth hread))
  · exact Or.inr hfails

end PlaneAccess.Aggregate
