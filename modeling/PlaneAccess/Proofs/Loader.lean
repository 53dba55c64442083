import PlaneAccess.Loader
import PlaneAccess.Proofs.Aggregate
import PlaneAccess.Proofs.Kubeconfig.Merging

/-!
# Credentials loaded and merged

What `Loader.loadAndMerge` has done when it returns a kubeconfig: where the
entries of the kubeconfig come from, what the names of the control plane stand
for, and what the file holds afterwards.
-/

namespace PlaneAccess

open PlaneAccess.ControlPlane PlaneAccess.Yaml

/-! ## Loading -/

namespace Loader

/-- A kubeconfig that has been fetched was decoded from a payload. -/
theorem of_fetchDocument {l : Loader} {i : Identity} {k : Kubeconfig}
    (h : l.fetchDocument i = .ok k) :
    ∃ payloads bytes, l.fetch (l.source i).space (l.source i).name = .ok payloads ∧
      payloads.get? (l.source i).key = some bytes ∧ Kubeconfig.decode bytes = .ok k := by
  obtain ⟨payloads, hfetch, h⟩ := bind_eq_ok.mp h
  split at h
  · cases h
  · rename_i bytes hbytes
    refine ⟨payloads, bytes, hfetch, hbytes, ?_⟩
    cases hdecode : Kubeconfig.decode bytes with
    | error e =>
      rw [hdecode] at h
      cases h
    | ok k' =>
      rw [hdecode] at h
      obtain rfl := Except.ok.inj h
      rfl

theorem of_loadAndMerge {l : Loader} {fs fs' : FileSystem} {i : Identity} {m : Kubeconfig}
    (h : l.loadAndMerge fs i = (.ok m, fs')) :
    ∃ before document, l.aggregate.loadOrEmpty fs = .ok before ∧
      l.fetchDocument i = .ok document ∧ m = before.merge (document.remap i l.naming) ∧
      l.aggregate.persist fs m = (.ok (), fs') := by
  unfold loadAndMerge at h
  split at h
  · cases (Prod.mk.inj h).1
  · rename_i k hmerged
    split at h
    · cases (Prod.mk.inj h).1
    · rename_i fs₁ hpersist
      obtain ⟨hk, rfl⟩ := Prod.mk.inj h
      obtain rfl := Except.ok.inj hk
      obtain ⟨s, hs, hmerged⟩ := bind_eq_ok.mp hmerged
      obtain ⟨before, hbefore, hmerged⟩ := bind_eq_ok.mp hmerged
      obtain ⟨document, hdocument, hs⟩ := bind_eq_ok.mp hs
      obtain rfl := Except.ok.inj hs
      obtain rfl := Except.ok.inj hmerged
      exact ⟨before, document, hbefore, hdocument, rfl, hpersist⟩

/-- A value that is kept as a field comes back: it is not null, and its tags
come back. -/
def ComesBack (v : Option Value) : Prop := ∀ x, v = some x → x ≠ .null ∧ x.keepsTags false = true

/-- What has been done when a kubeconfig is returned. It combines the one
before, read from the file if there was one, with the one in the payload of
the bundle, in which placeholders have got names of their own. The file is
read as this kubeconfig afterwards, if what it keeps as it is comes back and the
way to a new file does not go back to a link. -/
theorem loadAndMerge_ok {l : Loader} {fs fs' : FileSystem} {i : Identity} {m : Kubeconfig}
    (h : l.loadAndMerge fs i = (.ok m, fs')) :
    ∃ before document : Kubeconfig,
      (fs.read l.aggregate.location = .error .missing ∧ before = .empty ∨
        ∃ bytes, fs.read l.aggregate.location = .ok bytes ∧
          Kubeconfig.decode bytes = .ok before) ∧
      (∃ payloads bytes, l.fetch (l.source i).space (l.source i).name = .ok payloads ∧
        payloads.get? (l.source i).key = some bytes ∧
        Kubeconfig.decode bytes = .ok document) ∧
      m.Combines before (document.remap i l.naming) ∧
      (∀ old, i.kind.placeholders = some old →
        m.HasOwnNames document old (l.naming.entries i.name.text)) ∧
      (fs.Reaches fs.working → ComesBack m.preferences → ComesBack m.extensions →
        m.toTree.readsBack = true → ¬ fs.GoesBackToLink l.aggregate.location →
        l.aggregate.load fs' = .ok m) := by
  obtain ⟨before, document, hbefore, hdocument, rfl, hpersist⟩ := of_loadAndMerge h
  have hcombines := Kubeconfig.combines_merge before (document.remap i l.naming)
  obtain ⟨payloads, bytes, hfetch, hbytes, hdecode⟩ := of_fetchDocument hdocument
  refine ⟨before, document, Aggregate.of_loadOrEmpty hbefore,
    ⟨payloads, bytes, hfetch, hbytes, hdecode⟩, hcombines, fun old hold => ?_, ?_⟩
  · refine Kubeconfig.HasOwnNames.of_combines hcombines ?_
    rw [Kubeconfig.remap, hold]
    exact Kubeconfig.hasOwnNames_renameEntries document old _
  · intro hw hpreferences hextensions hread hnot
    -- renaming and merging keep what reading makes sure of
    have hdecoded := (Aggregate.decoded_of_loadOrEmpty hbefore).merge
      ((Kubeconfig.decoded_of_decode hdecode).remap i l.naming)
    rcases Aggregate.load_persist (hdecoded.faithful hpreferences hextensions)
      hdecoded.depth_toTree hread hw (Aggregate.read_of_loadOrEmpty hbefore) hpersist with
      hload | ⟨-, hback, -⟩
    · exact hload
    · exact absurd hback hnot

/-- A loader whose bundles all have one payload, with the aggregate at the
root. -/
def ofPayload (key text : String) : Loader :=
  ⟨fun _ _ => .ok (.ofList [(key, text.toUTF8)]), .standard, .ofText "/config"⟩

/-- The file system that has nothing but the aggregate. -/
def onlyAggregate (o : FileSystem.Object) : FileSystem := ⟨[(["config"], o)], [], .none⟩

def letterPlane (kind : Kind) : Identity := ⟨⟨"x", by decide +kernel⟩, kind⟩

theorem exists_of_any {r : Except Error Kubeconfig × FileSystem} {P : Kubeconfig → Bool}
    (h : r.1.toOption.any P = true) : ∃ m fs, r = (.ok m, fs) ∧ P m = true := by
  obtain ⟨m, hm, hP⟩ := exists_of_toOption_any P h
  exact ⟨m, r.2, Prod.ext hm rfl, hP⟩

/-- The cluster of a virtual cluster gets the place of another one that already
has its new name, and what else there was is loaded again as well. -/
theorem loadAndMerge_ok_vcluster :
    let l := ofPayload "config"
      "clusters:\n- name: my-vcluster\n  cluster:\n    server: a\ncurrent-context: my-vcluster\n"
    let fs := onlyAggregate (.file
      "clusters:\n- name: x-cluster\n  cluster:\n    server: b\nusers:\n- name: u\n".toUTF8 0o644)
    ∃ m fs', l.loadAndMerge fs (letterPlane .vcluster) = (.ok m, fs') ∧
      m.currentContext = "x" ∧
      m.contexts.get? "x" = some ⟨"x-cluster", "x-admin", none, .empty⟩ ∧
      l.aggregate.load fs' = .ok m := by
  intro l fs
  obtain ⟨m, fs', h, hm⟩ := exists_of_any (r := l.loadAndMerge fs (letterPlane .vcluster))
    (P := fun m => m.toTree.readsBack && m.preferences.isNone && m.extensions.isNone)
    (by decide +kernel)
  simp only [Bool.and_eq_true, Option.isNone_iff_eq_none] at hm
  obtain ⟨⟨hread, hpreferences⟩, hextensions⟩ := hm
  have hcomes : ∀ {v : Option Value}, v = none → ComesBack v := by
    intro v hv x hx
    cases (hv.symm.trans hx)
  obtain ⟨before, document, -, -, -, hnames, hload⟩ := loadAndMerge_ok h
  have hown := hnames ⟨"my-vcluster", "my-vcluster", "my-vcluster"⟩ rfl
  obtain ⟨bytes, hbytes, -⟩ := exists_of_toOption_any (r := fs.read l.aggregate.location)
    (fun _ => true) (by decide +kernel)
  refine ⟨m, fs', h, hown.currentContext, hown.context, ?_⟩
  exact hload .root (hcomes hpreferences) (hcomes hextensions) hread
    (FileSystem.not_goesBackToLink_of_read .root hbytes)

/-! ## Kubeconfigs that are not loaded again -/

def NotLoaded (l : Loader) (fs : FileSystem) (i : Identity) : Prop :=
  ∃ m fs', l.loadAndMerge fs i = (.ok m, fs') ∧ m.toTree.readsBack = true ∧
    l.aggregate.load fs' ≠ .ok m

/-- Whether what is loaded afterwards says something else than what was
returned. -/
def loadsOther (l : Loader) (fs : FileSystem) (i : Identity) : Bool :=
  match l.loadAndMerge fs i with
  | (.ok m, fs') =>
    m.toTree.readsBack && m.same m && (l.aggregate.load fs').toOption.all (fun k => !k.same m)
  | _ => false

theorem notLoaded_of_loadsOther {l : Loader} {fs : FileSystem} {i : Identity}
    (h : l.loadsOther fs i = true) : l.NotLoaded fs i := by
  unfold loadsOther at h
  split at h
  · rename_i m fs' hresult
    rw [Bool.and_eq_true, Bool.and_eq_true] at h
    obtain ⟨⟨hread, hsame⟩, hall⟩ := h
    exact ⟨m, fs', hresult, hread, ne_ok_of_toOption_all hall (by rw [hsame]; rfl)⟩
  · cases h

/-- Preferences that are null by their tag are absent afterwards, and a tag with
three marks loses one of them. -/
theorem not_loaded_again :
    let l := ofPayload "kubeconfig" ""
    l.NotLoaded (onlyAggregate (.file "preferences: !!null 'null'\n".toUTF8 0o644))
      (letterPlane .k8s) ∧
    l.NotLoaded (onlyAggregate (.file "preferences: !<!!!a> b\n".toUTF8 0o644))
      (letterPlane .k8s) := by
  refine ⟨?_, ?_⟩
  · exact notLoaded_of_loadsOther (by decide +kernel)
  · exact notLoaded_of_loadsOther (by decide +kernel)

end Loader

end PlaneAccess
