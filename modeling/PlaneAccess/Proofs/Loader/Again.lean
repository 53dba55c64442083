import PlaneAccess.Proofs.Loader

/-!
# Merging again

Merging the credentials of a control plane once more, with nothing changed in
between, gives the same kubeconfig and leaves all files as they are
(`Loader.loadAndMerge_again`). What was null in the first kubeconfig is gone
from the second one.
-/

namespace PlaneAccess

open PlaneAccess.ControlPlane PlaneAccess.Yaml

/-! ## Kubeconfigs without nulls -/

namespace Kubeconfig

theorem withoutNulls_merge_self (k s : Kubeconfig) :
    (k.merge s).withoutNulls.merge s = (k.merge s).withoutNulls :=
  merge_merge_self k.withoutNulls s

theorem encode_withoutNulls {k : Kubeconfig} {text : String} (h : k.encode = some text) :
    ∃ text', k.withoutNulls.encode = some text' := by
  have hvalue : ∀ v : Option Value, v.all (·.isWritable false) = true →
      (withoutNull v).all (·.isWritable false) = true := by
    intro v hv
    unfold withoutNull
    split
    · rfl
    · exact hv
  unfold encode at h
  split at h
  · rename_i hwritable
    have hwritable' : k.withoutNulls.isWritable = true := by
      simp only [isWritable, Bool.and_eq_true] at hwritable ⊢
      obtain ⟨⟨⟨⟨hpreferences, hextensions⟩, hclusters⟩, husers⟩, hcontexts⟩ := hwritable
      exact ⟨⟨⟨⟨hvalue _ hpreferences, hvalue _ hextensions⟩, hclusters⟩, husers⟩, hcontexts⟩
    exact ⟨_, if_pos hwritable'⟩
  · cases h

end Kubeconfig

/-! ## The second time -/

namespace Loader

variable {l : Loader} {fs fs' : FileSystem} {i : Identity}

theorem loadAndMerge_of_persist {before document k : Kubeconfig}
    (hdocument : l.fetchDocument i = .ok document) (hbefore : l.aggregate.load fs = .ok before)
    (hk : before.merge (document.remap i l.naming) = k)
    (hpersist : l.aggregate.persist fs k = (.ok (), fs')) :
    l.loadAndMerge fs i = (.ok k, fs') := by
  have hmerged : l.mergedDocument fs i = .ok k := by
    rw [mergedDocument, remappedDocument, hdocument, ok_bind, Aggregate.loadOrEmpty, hbefore]
    exact congrArg Except.ok hk
  rw [loadAndMerge, hmerged]
  simp only [hpersist]

def KeepsTags (v : Option Value) : Prop := ∀ x, v = some x → x.keepsTags false = true

/-- After a kubeconfig has been returned its text is in the file, and the same
call returns the kubeconfig without its nulls, if the way to a new file does not
go back to a link. If it has no nulls, then all files stay as they are. -/
theorem loadAndMerge_again {m : Kubeconfig} (h : l.loadAndMerge fs i = (.ok m, fs'))
    (hw : fs.Reaches fs.working) (hpreferences : KeepsTags m.preferences)
    (hextensions : KeepsTags m.extensions) (hread : m.toTree.readsBack = true)
    (hnot : ¬ fs.GoesBackToLink l.aggregate.location) :
    ∃ text fs'', m.encode = some text ∧
      fs'.read l.aggregate.location = .ok text.toUTF8 ∧
      l.loadAndMerge fs' i = (.ok m.withoutNulls, fs'') ∧
      (m.HasNoNulls → m.withoutNulls = m ∧ fs'' = fs') := by
  obtain ⟨before, document, hbefore, hdocument, hm, hpersist⟩ := of_loadAndMerge h
  obtain ⟨_, _, _, _, hdecode⟩ := of_fetchDocument hdocument
  obtain ⟨text, htext, hwrite⟩ := Aggregate.of_persist hpersist
  have hbytes : fs'.read l.aggregate.location = .ok text.toUTF8 := by
    rcases FileSystem.read_writeFile_of_not_returnsToLink hw
      (Aggregate.read_of_loadOrEmpty hbefore) hwrite with hbytes | ⟨-, hback, -⟩
    · exact hbytes
    · exact absurd hback hnot
  -- what was merged is what had been read, so it comes back
  have hdecoded : m.Decoded := by
    rw [hm]
    exact (Aggregate.decoded_of_loadOrEmpty hbefore).merge
      ((Kubeconfig.decoded_of_decode hdecode).remap i l.naming)
  have hload : l.aggregate.load fs' = .ok m.withoutNulls := by
    refine Aggregate.load_of_read hbytes ?_
    rw [Kubeconfig.eq_of_encode htext]
    exact (hdecoded.carried hpreferences hextensions).decode_render hdecoded.depth_toTree hread
  have hmerge : m.withoutNulls.merge (document.remap i l.naming) = m.withoutNulls := by
    rw [hm]
    exact Kubeconfig.withoutNulls_merge_self before _
  refine ⟨text, ?_⟩
  by_cases hnulls : m.HasNoNulls
  · have hsame := hnulls.withoutNulls_eq
    have hpersist' : l.aggregate.persist fs' m.withoutNulls = (.ok (), fs') := by
      rw [hsame]
      exact Aggregate.persist_of_writeFile htext (FileSystem.writeFile_again hw hwrite hbytes)
    exact ⟨fs', htext, hbytes, loadAndMerge_of_persist hdocument hload hmerge hpersist',
      fun _ => ⟨hsame, rfl⟩⟩
  · obtain ⟨text', htext'⟩ := Kubeconfig.encode_withoutNulls htext
    have hlets := (FileSystem.letsWrite_of_writeFile hwrite).of_refusals
      (FileSystem.refusals_of_writeFile hwrite)
    obtain ⟨fs'', hwrite'⟩ := FileSystem.writeFile_of_read
      (FileSystem.reaches_writeFile hw hwrite) hlets hbytes text'.toUTF8
    have hpersist' := Aggregate.persist_of_writeFile htext' hwrite'
    exact ⟨fs'', htext, hbytes, loadAndMerge_of_persist hdocument hload hmerge hpersist',
      fun h => absurd h hnulls⟩

/-- The cluster of a virtual cluster gets the place of another one in a file
behind a link, and gets it again. -/
theorem loadAndMerge_again_link :
    let l := ofPayload "config"
      "clusters:\n- name: my-vcluster\n  cluster:\n    server: a\ncurrent-context: my-vcluster\n"
    let fs : FileSystem := ⟨[(["config"], .link "d/../real"), (["d"], .directory),
      (["real"], .file
        "clusters:\n- name: x-cluster\n  cluster:\n    server: b\nextensions: {e: 1}\n".toUTF8
        0o644)], [], .none⟩
    ∃ m fs' text, l.loadAndMerge fs (letterPlane .vcluster) = (.ok m, fs') ∧
      m.encode = some text ∧ fs'.read l.aggregate.location = .ok text.toUTF8 ∧
      l.loadAndMerge fs' (letterPlane .vcluster) = (.ok m, fs') := by
  intro l fs
  obtain ⟨m, fs', h, hm⟩ := exists_of_any (r := l.loadAndMerge fs (letterPlane .vcluster))
    (P := fun m => m.toTree.readsBack && m.preferences.isNone &&
      m.extensions.any (fun v => v.keepsTags false && !v.same .null))
    (by decide +kernel)
  simp only [Bool.and_eq_true, Option.isNone_iff_eq_none, Option.any_eq_true] at hm
  obtain ⟨⟨hread, hpreferences⟩, v, hextensions, htags, hnull⟩ := hm
  have hnulls : m.HasNoNulls := by
    refine ⟨by simp [hpreferences], fun hv => ?_⟩
    obtain rfl := Option.some.inj (hextensions.symm.trans hv)
    exact absurd hnull (by decide)
  obtain ⟨bytes, hthere, -⟩ := exists_of_toOption_any (r := fs.read l.aggregate.location)
    (fun _ => true) (by decide +kernel)
  obtain ⟨text, fs'', htext, hbytes, hsecond, hsame⟩ :=
    loadAndMerge_again h .root (fun x hx => by simp [hpreferences] at hx)
      (fun x hx => by
        obtain rfl := Option.some.inj (hextensions.symm.trans hx)
        exact htags) hread (FileSystem.not_goesBackToLink_of_read .root hthere)
  obtain ⟨hwithout, rfl⟩ := hsame hnulls
  rw [hwithout] at hsecond
  exact ⟨m, _, text, h, htext, hbytes, hsecond⟩

/-! ## Kubeconfigs that are not returned again -/

def NotReturnedAgain (l : Loader) (fs : FileSystem) (i : Identity) : Prop :=
  ∃ m fs', l.loadAndMerge fs i = (.ok m, fs') ∧ m.toTree.readsBack = true ∧
    (l.loadAndMerge fs' i).1 ≠ .ok m

/-- Whether the second call fails or returns something else than the first. -/
def returnsOther (l : Loader) (fs : FileSystem) (i : Identity) : Bool :=
  match l.loadAndMerge fs i with
  | (.ok m, fs') =>
    m.toTree.readsBack && m.same m && (l.loadAndMerge fs' i).1.toOption.all (fun k => !k.same m)
  | _ => false

theorem notReturnedAgain_of_returnsOther (h : l.returnsOther fs i = true) :
    l.NotReturnedAgain fs i := by
  unfold returnsOther at h
  split at h
  · rename_i m fs' hresult
    rw [Bool.and_eq_true, Bool.and_eq_true] at h
    obtain ⟨⟨hread, hsame⟩, hall⟩ := h
    exact ⟨m, fs', hresult, hread, ne_ok_of_toOption_all hall (by rw [hsame]; rfl)⟩
  · cases h

/-- Preferences that are null by their tag are lost the second time, and a tag
with three marks loses one of them. -/
theorem not_returned_again :
    let l := ofPayload "kubeconfig" ""
    l.NotReturnedAgain (onlyAggregate (.file "preferences: !!null 'null'\n".toUTF8 0o644))
      (letterPlane .k8s) ∧
    l.NotReturnedAgain (onlyAggregate (.file "preferences: !<!!!a> b\n".toUTF8 0o644))
      (letterPlane .k8s) := by
  refine ⟨?_, ?_⟩
  · exact notReturnedAgain_of_returnsOther (by decide +kernel)
  · exact notReturnedAgain_of_returnsOther (by decide +kernel)

end Loader

end PlaneAccess
