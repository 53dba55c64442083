import PlaneAccess.Proofs.Aggregate.Persisted
import PlaneAccess.Proofs.FileSystem.Footprint

/-!
# What persisting touches

Persisting a kubeconfig writes one file, and all else stays as it was but for
the directories that are made for it (`Aggregate.persist_footprint`). It writes
through the links that lead to the file, as long as there is none in the very
place where the file is put (`FileSystem.replacesLink`).
-/

namespace PlaneAccess.Aggregate

/-- A kubeconfig that has been persisted is in one file, to which the path
leads. There is nothing else new but directories on the way, and all other
files, directories and links are as they were. Only if a path to nothing has its
file put in the place of a link does it take the place of that one. -/
theorem persist_footprint {a : Aggregate} {fs fs' : FileSystem} {k : Kubeconfig}
    (hw : fs.Reaches fs.working) (h : a.persist fs k = (.ok (), fs')) :
    ∃ l text, k.encode = some text ∧
      fs.WritesAt fs' a.location l (.file text.toUTF8 FileSystem.privateMode) ∧
      (fs.replacesLink a.location = false →
        fs'.LeadsTo a.location l (.file text.toUTF8 FileSystem.privateMode) ∧
          fs.KeepsLinks fs') ∧
      (fs.replacesLink a.location = true →
        fs.find a.location = .error .missing ∧ ∃ target, fs.at? l = some (.link target)) := by
  obtain ⟨text, htext, hwrite⟩ := of_persist h
  obtain ⟨l, hwrites, hthrough, hinstead⟩ := FileSystem.writeFile_footprint hw hwrite
  exact ⟨l, text, htext, hwrites, hthrough, hinstead⟩

/-- The path is a link to a file that is not there, in directories that are not
there either. Another link leads to the same place and is left as it is. -/
theorem persist_footprint_link :
    let a : Aggregate := .ofText "/kube/config"
    let fs : FileSystem := ⟨[(["kube"], .directory), (["kube", "config"], .link "../store/of/config"),
      (["other"], .link "kube/config")], [], .none⟩
    fs.replacesLink a.location = false ∧ ∃ fs', a.persist fs tokenOnly = (.ok (), fs') ∧
      fs'.at? ["kube", "config"] = some (.link "../store/of/config") ∧
      fs'.at? ["other"] = some (.link "kube/config") ∧
      ∃ l content, fs'.LeadsTo a.location l (.file content FileSystem.privateMode) := by
  intro a fs
  obtain ⟨_, hresult, -⟩ := exists_of_toOption_any (r := (a.persist fs tokenOnly).1)
    (fun _ => true) (by decide +kernel)
  have hpersist : a.persist fs tokenOnly = (.ok (), (a.persist fs tokenOnly).2) :=
    Prod.ext hresult rfl
  have hnot : fs.replacesLink a.location = false := by decide +kernel
  obtain ⟨l, text, -, -, hthrough, -⟩ := persist_footprint .root hpersist
  obtain ⟨hleads, hlinks⟩ := hthrough hnot
  exact ⟨hnot, _, hpersist, hlinks _ _ rfl, hlinks _ _ rfl, l, _, hleads⟩

/-- The path is a link to a link to nothing, and the file takes the place of the
second one. -/
theorem persist_replaces_link :
    let a : Aggregate := .ofText "/config"
    let fs : FileSystem := ⟨[(["config"], .link "b"), (["b"], .link "c")], [], .none⟩
    ∃ fs', a.persist fs tokenOnly = (.ok (), fs') ∧ fs.at? ["b"] = some (.link "c") ∧
      ¬ fs.KeepsLinks fs' := by
  intro a fs
  obtain ⟨_, hresult, -⟩ := exists_of_toOption_any (r := (a.persist fs tokenOnly).1)
    (fun _ => true) (by decide +kernel)
  have hgone : ((a.persist fs tokenOnly).2.at? ["b"]).any FileSystem.Object.isLink = false := by
    decide +kernel
  refine ⟨_, Prod.ext hresult rfl, rfl, ?_⟩
  intro hlinks
  rw [hlinks ["b"] "c" rfl] at hgone
  cases hgone

end PlaneAccess.Aggregate
