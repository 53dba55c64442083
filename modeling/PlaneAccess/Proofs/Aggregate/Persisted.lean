import PlaneAccess.Proofs.Aggregate
import PlaneAccess.Proofs.Except

/-!
# What has been persisted

A kubeconfig that has been persisted is loaded from the same path, by whatever
links the path leads to the file (`Aggregate.loaded_of_persist`). There is one
exception, where the directories made for the file are left again
(`FileSystem.ReturnsToLink`).
-/

namespace PlaneAccess.Aggregate

/-- A kubeconfig that has been persisted is loaded. Only where the path led to
nothing before and the way to the new file goes back to a link can reading it
fail. -/
theorem loaded_of_persist {a : Aggregate} {fs fs' : FileSystem} {k : Kubeconfig}
    (hk : k.Regular) (hread : k.toTree.readsBack = true) (hw : fs.Reaches fs.working)
    (hfree : fs.refusals.read = none) (h : a.persist fs k = (.ok (), fs')) :
    a.load fs' = .ok k ∨
      fs.read a.location = .error .missing ∧
        (∃ target, fs.writeTarget a.location = .ok target ∧ fs.ReturnsToLink target) ∧
        (fs'.read a.location = .error .notDirectory ∨
          fs'.read a.location = .error .tooManyLinks) :=
  load_persist hk.faithful hk.depth hread hw hfree h

/-- The kubeconfig that holds nothing but a token. -/
def tokenOnly : Kubeconfig := .ofUser { User.empty with token := some "t" }

theorem regular_tokenOnly : tokenOnly.Regular := {
  clusters := by decide +kernel
  users := by decide +kernel
  contexts := by decide +kernel
  untagged := by decide +kernel
  preferences := fun h => by cases h
  extensions := fun h => by cases h
  depth := by decide +kernel
  keys := by decide +kernel }

theorem readsBack_tokenOnly : tokenOnly.toTree.readsBack = true := by decide +kernel

/-- The file is not there yet, and nor are the directories into which the link
to it goes down. -/
theorem loaded_of_persist_link :
    let a : Aggregate := .ofText "/kube/config"
    let fs : FileSystem :=
      ⟨[(["kube"], .directory), (["kube", "config"], .link "../store/of/config")], [],
        .none⟩
    ∃ fs', a.persist fs tokenOnly = (.ok (), fs') ∧ a.load fs' = .ok tokenOnly := by
  intro a fs
  obtain ⟨_, hresult, -⟩ := exists_of_toOption_any (r := (a.persist fs tokenOnly).1)
    (fun _ => true) (by decide +kernel)
  have hpersist : a.persist fs tokenOnly = (.ok (), (a.persist fs tokenOnly).2) :=
    Prod.ext hresult rfl
  have hw : fs.Reaches fs.working := .root
  refine ⟨_, hpersist, ?_⟩
  rcases loaded_of_persist regular_tokenOnly readsBack_tokenOnly hw rfl hpersist with
    hload | ⟨-, ⟨target, htarget, -, hlink⟩, -⟩
  · exact hload
  · -- from the root on, the way down meets no link
    obtain ⟨target', htarget', hpath⟩ := exists_of_toOption_any (r := fs.writeTarget a.location)
      (fun p => p = ⟨true, ["kube", "..", "store", "of", "config"], .name⟩) (by decide +kernel)
    obtain rfl := Except.ok.inj (htarget.symm.trans htarget')
    obtain rfl := of_decide_eq_true hpath
    have hmeets := hlink ["kube", ".."] ["store", "of", "config"] [] rfl rfl
    exact absurd hmeets (by decide)

/-- The file takes the place of a link that is on the way to it once more. -/
theorem not_loaded_of_persist :
    let a : Aggregate := .ofText "/config"
    let fs : FileSystem := ⟨[(["config"], .link "x/../l/../l"), (["l"], .link "x")], [], .none⟩
    tokenOnly.Regular ∧ tokenOnly.toTree.readsBack = true ∧
      ∃ fs', a.persist fs tokenOnly = (.ok (), fs') ∧ ∀ k, a.load fs' ≠ .ok k := by
  intro a fs
  obtain ⟨_, hresult, -⟩ := exists_of_toOption_any (r := (a.persist fs tokenOnly).1)
    (fun _ => true) (by decide +kernel)
  have hnone : (a.load (a.persist fs tokenOnly).2).toOption.all (fun _ => false) = true := by
    decide +kernel
  exact ⟨regular_tokenOnly, readsBack_tokenOnly, _, Prod.ext hresult rfl,
    fun _ => ne_ok_of_toOption_all hnone rfl⟩

end PlaneAccess.Aggregate
