import Mathlib.Data.List.Induction
import PlaneAccess.Proofs.Loader
import PlaneAccess.Proofs.Loader.Again

/-!
# Merging again and again

What the aggregate holds after any calls to merge credentials
(`Loader.merges`). Each call that succeeds loads what the last one has
written, so the aggregate is what is left of merging one kubeconfig after the
other (`Loader.Ready.run`), and of this it can be said which of them had the
last word on a name (`Kubeconfig.HasLast`). A call that fails can have made
directories, and it is only by these that a path which led to nothing can come
to lead somewhere else (`FileSystem.StaysMissing`).
-/

namespace PlaneAccess

open PlaneAccess.ControlPlane PlaneAccess.Yaml

/-! ## Kubeconfigs merged one after the other -/

namespace Kubeconfig

/-- What is loaded after a kubeconfig has been merged and written. -/
def mergeStored (k d : Kubeconfig) : Kubeconfig := (k.merge d).withoutNulls

def lastOf {α : Type} (get : Kubeconfig → Option α) (ds : List Kubeconfig) : Option α :=
  ds.reverse.findSome? get

/-- A kubeconfig has for each name what the last of some others has for it, or
else what there was at first. The last of them decides about its current
context. Preferences and extensions are those there were at first, but for
nulls that are not written again. -/
structure HasLast (k k₀ : Kubeconfig) (ds : List Kubeconfig) : Prop where
  clusters : ∀ n, k.clusters.get? n =
    (lastOf (fun d => d.clusters.get? n) ds).or (k₀.clusters.get? n)
  users : ∀ n, k.users.get? n = (lastOf (fun d => d.users.get? n) ds).or (k₀.users.get? n)
  contexts : ∀ n, k.contexts.get? n =
    (lastOf (fun d => d.contexts.get? n) ds).or (k₀.contexts.get? n)
  currentContext : k.currentContext =
    (ds.getLast?.map Kubeconfig.currentContext).getD k₀.currentContext
  preferences : k.preferences =
    if ds.isEmpty then k₀.preferences else withoutNull k₀.preferences
  extensions : k.extensions = if ds.isEmpty then k₀.extensions else withoutNull k₀.extensions

structure NamesIn (k k' : Kubeconfig) : Prop where
  clusters : ∀ n, k.clusters.contains n = true → k'.clusters.contains n = true
  users : ∀ n, k.users.contains n = true → k'.users.contains n = true
  contexts : ∀ n, k.contexts.contains n = true → k'.contexts.contains n = true

theorem lastOf_concat {α : Type} (get : Kubeconfig → Option α) (ds : List Kubeconfig)
    (d : Kubeconfig) (first : Option α) :
    (lastOf get (ds ++ [d])).or first = (get d).or ((lastOf get ds).or first) := by
  rw [lastOf, List.reverse_append, List.reverse_singleton, List.singleton_append,
    List.findSome?_cons, lastOf]
  cases get d with
  | none => rfl
  | some a => rfl

theorem withoutNull_withoutNull (v : Option Value) : withoutNull (withoutNull v) = withoutNull v :=
  withoutNull_eq fun h => by
    unfold withoutNull at h
    split at h
    · cases h
    · rename_i hne
      exact hne h

/-- Merging one after the other leaves the last word to the last one. -/
theorem hasLast_foldl (k₀ : Kubeconfig) (ds : List Kubeconfig) :
    (ds.foldl mergeStored k₀).HasLast k₀ ds := by
  induction ds using List.reverseRecOn with
  | nil => exact ⟨fun _ => rfl, fun _ => rfl, fun _ => rfl, rfl, rfl, rfl⟩
  | append_singleton ds d ih =>
    have hcombines := combines_merge (ds.foldl mergeStored k₀) d
    have hvalue : ∀ {v v₀ : Option Value}, v = (if ds.isEmpty then v₀ else withoutNull v₀) →
        withoutNull v = withoutNull v₀ := by
      intro v v₀ hv
      rw [hv]
      split
      · rfl
      · exact withoutNull_withoutNull v₀
    have hempty : (ds ++ [d]).isEmpty = false := by simp
    rw [List.foldl_concat]
    constructor
    · intro n
      rw [lastOf_concat, ← ih.clusters n]
      exact hcombines.clusters n
    · intro n
      rw [lastOf_concat, ← ih.users n]
      exact hcombines.users n
    · intro n
      rw [lastOf_concat, ← ih.contexts n]
      exact hcombines.contexts n
    · rw [List.getLast?_concat]
      rfl
    · rw [hempty]
      exact hvalue ih.preferences
    · rw [hempty]
      exact hvalue ih.extensions

theorem HasLast.namesIn {k k₀ : Kubeconfig} {ds : List Kubeconfig} (h : k.HasLast k₀ ds) :
    k₀.NamesIn k := by
  have hkeeps : ∀ {α : Type} {x y z : Option α}, x = y.or z → z.isSome = true →
      x.isSome = true := by
    intro α x y z heq hz
    rw [heq, Option.isSome_or, hz, Bool.or_true]
  exact ⟨fun n => hkeeps (h.clusters n), fun n => hkeeps (h.users n),
    fun n => hkeeps (h.contexts n)⟩

end Kubeconfig

/-! ## Calls -/

namespace Loader

theorem KeepsTags.withoutNull {v : Option Value} (h : KeepsTags v) :
    KeepsTags (withoutNull v) := by
  intro x hx
  unfold Yaml.withoutNull at hx
  split at hx
  · cases hx
  · exact h x hx

/-- When credentials are merged: the bundles as they are by then, what the
system refuses by then, and a control plane. -/
structure Occasion where
  fetch : Fetch
  refusals : FileSystem.Refusals
  plane : Identity

def mergeOn (l : Loader) (fs : FileSystem) (o : Occasion) : Except Error Kubeconfig × FileSystem :=
  { l with fetch := o.fetch }.loadAndMerge { fs with refusals := o.refusals } o.plane

/-- The kubeconfig that is merged on an occasion, unless the call fails: that
of the control plane with names of its own. -/
def mergedOn (l : Loader) (fs : FileSystem) (o : Occasion) : Option Kubeconfig :=
  match (l.mergeOn fs o).1 with
  | .error _ => none
  | .ok _ => ({ l with fetch := o.fetch }.remappedDocument o.plane).toOption

def filesAfter (l : Loader) (fs : FileSystem) (os : List Occasion) : FileSystem :=
  os.foldl (fun fs o => (l.mergeOn fs o).2) fs

/-- The kubeconfigs that some calls merge, without those that fail. -/
def merged (l : Loader) (fs : FileSystem) : List Occasion → List Kubeconfig
  | [] => []
  | o :: os => (l.mergedOn fs o).toList ++ l.merged (l.mergeOn fs o).2 os

def returned (l : Loader) (fs : FileSystem) : List Occasion → List Kubeconfig
  | [] => []
  | o :: os => (l.mergeOn fs o).1.toOption.toList ++ l.returned (l.mergeOn fs o).2 os

variable {l : Loader} {fs fs' : FileSystem} {k : Kubeconfig}

theorem filesAfter_append (l : Loader) (fs : FileSystem) (os os' : List Occasion) :
    l.filesAfter fs (os ++ os') = l.filesAfter (l.filesAfter fs os) os' := List.foldl_append

theorem returned_append (l : Loader) (fs : FileSystem) (os os' : List Occasion) :
    l.returned fs (os ++ os') = l.returned fs os ++ l.returned (l.filesAfter fs os) os' := by
  induction os generalizing fs with
  | nil => rfl
  | cons o os ih =>
    rw [List.cons_append, returned, ih, returned, List.append_assoc]
    rfl

/-- A call that fails has changed nothing, or it could not write. -/
theorem of_loadAndMerge_error {i : Identity} {e : Error}
    (h : l.loadAndMerge fs i = (.error e, fs')) :
    fs' = fs ∨ ∃ content f, fs.writeFile l.aggregate.location content = (.error f, fs') := by
  unfold loadAndMerge at h
  split at h
  · exact Or.inl (Prod.mk.inj h).2.symm
  · split at h
    · rename_i hpersist
      obtain ⟨-, rfl⟩ := Prod.mk.inj h
      exact Aggregate.of_persist_error hpersist
    · cases (Prod.mk.inj h).1

/-! ## Between calls -/

/-- The aggregate is loaded as a kubeconfig where nothing is refused, and what
is kept of it comes back. If it is not there, no directories make anything else
of its path. -/
structure Ready (l : Loader) (fs : FileSystem) (k : Kubeconfig) : Prop where
  reaches : fs.Reaches fs.working
  loads : l.aggregate.loadOrEmpty fs.freely = .ok k
  preferences : KeepsTags k.preferences
  extensions : KeepsTags k.extensions
  stays : fs.find l.aggregate.location = .error .missing →
    fs.StaysMissing l.aggregate.location

theorem Ready.of_agrees (h : l.Ready fs k) (hagrees : fs.Agrees fs') : l.Ready fs' k := by
  refine ⟨?_, ?_, h.preferences, h.extensions, fun hmissing => ?_⟩
  · rw [hagrees.working]
    exact hagrees.reaches h.reaches
  · rw [Aggregate.loadOrEmpty, Aggregate.load, hagrees.read_freely]
    exact h.loads
  · rw [hagrees.find] at hmissing
    exact (h.stays hmissing).of_agrees hagrees

theorem Ready.of_ok (h : l.Ready fs k) {i : Identity} {m : Kubeconfig}
    (hmerge : l.loadAndMerge fs i = (.ok m, fs')) (hread : m.toTree.readsBack = true) :
    ∃ d, l.remappedDocument i = .ok d ∧ l.Ready fs' (k.mergeStored d) := by
  obtain ⟨before, document, hbefore, hdocument, rfl, hpersist⟩ := of_loadAndMerge hmerge
  have hfree := Aggregate.read_of_loadOrEmpty hbefore
  obtain rfl : k = before := by
    have hloads := h.loads
    rw [Aggregate.loadOrEmpty_freely hfree, hbefore] at hloads
    exact (Except.ok.inj hloads).symm
  obtain ⟨text, htext, hwrite⟩ := Aggregate.of_persist hpersist
  have hbytes := FileSystem.read_writeFile_of_staysMissing h.reaches hfree h.stays hwrite
  have hfree' : fs'.refusals.read = none := by
    rw [FileSystem.refusals_of_writeFile hwrite, hfree]
  obtain ⟨_, _, _, _, hdecode⟩ := of_fetchDocument hdocument
  have hdecoded := (Aggregate.decoded_of_loadOrEmpty hbefore).merge
    ((Kubeconfig.decoded_of_decode hdecode).remap i l.naming)
  have hload : l.aggregate.load fs' = .ok (k.mergeStored (document.remap i l.naming)) := by
    refine Aggregate.load_of_read hbytes ?_
    rw [Kubeconfig.eq_of_encode htext]
    exact (hdecoded.carried h.preferences h.extensions).decode_render
      hdecoded.depth_toTree hread
  refine ⟨document.remap i l.naming, ?_, ?_⟩
  · rw [remappedDocument, hdocument]
    rfl
  · refine ⟨FileSystem.reaches_writeFile h.reaches hwrite, ?_, h.preferences.withoutNull,
      h.extensions.withoutNull, fun hmissing => ?_⟩
    · rw [Aggregate.loadOrEmpty_freely hfree', Aggregate.loadOrEmpty, hload]
    · obtain ⟨-, _, _, hfind⟩ := FileSystem.find_of_read hbytes
      cases hfind.symm.trans hmissing

/-- A call that fails leaves the kubeconfig that there was. -/
theorem Ready.of_error (h : l.Ready fs k) {i : Identity} {e : Error}
    (hmerge : l.loadAndMerge fs i = (.error e, fs')) : l.Ready fs' k := by
  rcases of_loadAndMerge_error hmerge with rfl | ⟨content, f, hwrite⟩
  · exact h
  have hfind := (fs.agrees_refusals .none).find l.aggregate.location
  rcases Aggregate.of_loadOrEmpty h.loads with ⟨hmissing, rfl⟩ | ⟨bytes, hread, -⟩
  · have hnone := hfind.symm.trans (FileSystem.find_of_read_missing hmissing).2
    have hext := FileSystem.extends_of_writeFile_error hwrite
    have hstays := (h.stays hnone).of_writeFile_error hwrite
    refine ⟨?_, ?_, h.preferences, h.extensions, fun _ => hstays⟩
    · rw [hext.working]
      exact h.reaches.extend hext
    · have hstill : fs'.freely.read l.aggregate.location = .error .missing := by
        refine FileSystem.read_of_find_error rfl ?_
        exact ((fs'.agrees_refusals .none).find _).trans hstays.find
      rw [Aggregate.loadOrEmpty, Aggregate.load, hstill]
  · obtain ⟨-, _, _, hfile⟩ := FileSystem.find_of_read hread
    obtain rfl := FileSystem.eq_of_writeFile_error h.reaches (hfind.symm.trans hfile) hwrite
    exact h

theorem Ready.mergeOn (h : l.Ready fs k) (o : Occasion)
    (hread : ∀ m ∈ (l.mergeOn fs o).1.toOption.toList, m.toTree.readsBack = true) :
    l.Ready (l.mergeOn fs o).2 ((l.mergedOn fs o).toList.foldl Kubeconfig.mergeStored k) := by
  have hthen := h.of_agrees (fs.agrees_refusals o.refusals)
  have h' : Ready { l with fetch := o.fetch } { fs with refusals := o.refusals } k :=
    ⟨hthen.reaches, hthen.loads, hthen.preferences, hthen.extensions, hthen.stays⟩
  unfold mergedOn
  cases hmerge : l.mergeOn fs o with
  | mk r fs' =>
    rw [hmerge] at hread
    cases r with
    | error e =>
      have hready := h'.of_error hmerge
      exact ⟨hready.reaches, hready.loads, hready.preferences, hready.extensions, hready.stays⟩
    | ok m =>
      obtain ⟨d, hd, hready⟩ := h'.of_ok hmerge (hread m (by simp [Except.toOption]))
      simp only [hd]
      exact ⟨hready.reaches, hready.loads, hready.preferences, hready.extensions, hready.stays⟩

/-! ## Runs of calls -/

/-- The aggregate after some calls: one kubeconfig after the other has been
merged into it. -/
theorem Ready.run (h : l.Ready fs k) (os : List Occasion)
    (hread : ∀ m ∈ l.returned fs os, m.toTree.readsBack = true) :
    l.Ready (l.filesAfter fs os) ((l.merged fs os).foldl Kubeconfig.mergeStored k) := by
  induction os generalizing fs k with
  | nil => exact h
  | cons o os ih =>
    have hone := h.mergeOn o fun m hm => hread m (List.mem_append_left _ hm)
    rw [merged, List.foldl_append]
    exact ih hone fun m hm => hread m (List.mem_append_right _ hm)

/-- After any calls the last one that has succeeded with a name has the last
word on it, and the names that could be loaded before any of the calls are
still there. -/
theorem merges {k₀ : Kubeconfig} (hload : l.aggregate.loadOrEmpty fs.freely = .ok k₀)
    (hw : fs.Reaches fs.working) (hpreferences : KeepsTags k₀.preferences)
    (hextensions : KeepsTags k₀.extensions)
    (hstays : fs.find l.aggregate.location = .error .missing →
      fs.StaysMissing l.aggregate.location)
    (os : List Occasion) (hread : ∀ m ∈ l.returned fs os, m.toTree.readsBack = true) :
    ∃ k, l.aggregate.loadOrEmpty (l.filesAfter fs os).freely = .ok k ∧
      k.HasLast k₀ (l.merged fs os) ∧
      ∀ before after, os = before ++ after →
        ∃ k', l.aggregate.loadOrEmpty (l.filesAfter fs before).freely = .ok k' ∧
          k'.NamesIn k := by
  have hready : l.Ready fs k₀ := ⟨hw, hload, hpreferences, hextensions, hstays⟩
  have hend := hready.run os hread
  refine ⟨_, hend.loads, Kubeconfig.hasLast_foldl _ _, ?_⟩
  rintro before after rfl
  rw [returned_append] at hread
  have hmid := hready.run before fun m hm => hread m (List.mem_append_left _ hm)
  have hrest := hmid.run after fun m hm => hread m (List.mem_append_right _ hm)
  rw [← filesAfter_append] at hrest
  refine ⟨_, hmid.loads, ?_⟩
  rw [Except.ok.inj (hend.loads.symm.trans hrest.loads)]
  exact (Kubeconfig.hasLast_foldl _ _).namesIn

/-- The disk is full at first. Then the control plane is loaded, and later it is
not there any more. -/
def threeOccasions : List Occasion :=
  let fetch := (ofPayload "kubeconfig" "current-context: x\nusers: [{name: u}]\n").fetch
  [⟨fetch, { FileSystem.Refusals.none with
      write := some (0, "No space left on device (os error 28)") }, letterPlane .k8s⟩,
    ⟨fetch, .none, letterPlane .k8s⟩,
    ⟨fun _ _ => .error (.notFound "secret"), .none, letterPlane .k8s⟩]

/-- There is no aggregate at first, nor a directory for it. What has been loaded
once is still there in the end. -/
theorem merges_new_file :
    let l : Loader := { ofPayload "kubeconfig" "" with aggregate := .ofText "/a/b/config" }
    ∃ k, l.aggregate.loadOrEmpty (l.filesAfter .empty threeOccasions).freely = .ok k ∧
      (l.merged .empty threeOccasions).map Kubeconfig.currentContext = ["x"] ∧
      k.currentContext = "x" ∧ k.users.contains "u" = true := by
  intro l
  obtain ⟨k₀, hload, hk₀⟩ := exists_of_toOption_any
    (r := l.aggregate.loadOrEmpty FileSystem.empty.freely)
    (fun k => k.preferences.isNone && k.extensions.isNone) (by decide +kernel)
  simp only [Bool.and_eq_true, Option.isNone_iff_eq_none] at hk₀
  have hkeeps : ∀ {v : Option Value}, v = none → KeepsTags v := by
    intro v hv x hx
    cases (hv.symm.trans hx)
  have hread : ∀ m ∈ l.returned .empty threeOccasions, m.toTree.readsBack = true :=
    List.all_eq_true.mp (by decide +kernel)
  have hmerged : (l.merged .empty threeOccasions).map Kubeconfig.currentContext = ["x"] := by
    decide +kernel
  have hpath : l.aggregate.location = ⟨true, ["a", "b", "config"], .name⟩ := by decide +kernel
  have hstays : FileSystem.empty.StaysMissing l.aggregate.location := by
    have hnothing : ∀ k, FileSystem.empty.at? k = none ∨
        FileSystem.empty.at? k = some .directory := by
      intro k
      unfold FileSystem.at?
      split
      · exact Or.inr rfl
      · exact Or.inl rfl
    rw [hpath]
    have hparts : ["a", "b", "config"] = ["a", "b"] ++ ["config"] := rfl
    exact FileSystem.staysMissing_of_plain (by decide) rfl hparts (fun _ _ => hnothing _) rfl
  obtain ⟨k, hk, hlast, hall⟩ := merges hload .root (hkeeps hk₀.1) (hkeeps hk₀.2)
    (fun _ => hstays) threeOccasions hread
  obtain ⟨k', hk', hnames⟩ := hall (threeOccasions.take 2) (threeOccasions.drop 2) rfl
  obtain ⟨k₁, hk₁, hu⟩ := exists_of_toOption_any
    (r := l.aggregate.loadOrEmpty (l.filesAfter .empty (threeOccasions.take 2)).freely)
    (fun k => k.users.contains "u") (by decide +kernel)
  obtain rfl := Except.ok.inj (hk'.symm.trans hk₁)
  refine ⟨k, hk, hmerged, ?_, hnames.users "u" hu⟩
  rw [hlast.currentContext, ← List.getLast?_map, hmerged]
  rfl

/-! ## Preferences that are lost -/

/-- After some calls the aggregate is not loaded with the preferences that it
had. -/
def LosesPreferences (l : Loader) (fs : FileSystem) (os : List Occasion) : Prop :=
  ∃ k₀, l.aggregate.loadOrEmpty fs.freely = .ok k₀ ∧
    (∀ m ∈ l.returned fs os, m.toTree.readsBack = true) ∧
    ∀ k, l.aggregate.loadOrEmpty (l.filesAfter fs os).freely = .ok k →
      k.preferences ≠ k₀.preferences

/-- Whether the aggregate is loaded at first with preferences of which
something holds, and then without or not at all. -/
def losesOn (l : Loader) (fs : FileSystem) (os : List Occasion) (P : Option Value → Bool) : Bool :=
  (l.aggregate.loadOrEmpty fs.freely).toOption.any (fun k => P k.preferences) &&
    (l.returned fs os).all (fun m => m.toTree.readsBack) &&
    (l.aggregate.loadOrEmpty (l.filesAfter fs os).freely).toOption.all
      (fun k => !P k.preferences)

theorem losesPreferences_of_losesOn {os : List Occasion} {P : Option Value → Bool}
    (h : l.losesOn fs os P = true) : l.LosesPreferences fs os := by
  unfold losesOn at h
  rw [Bool.and_eq_true, Bool.and_eq_true] at h
  obtain ⟨⟨hany, hread⟩, hall⟩ := h
  obtain ⟨k₀, hload, hP⟩ := exists_of_toOption_any _ hany
  refine ⟨k₀, hload, List.all_eq_true.mp hread, fun k hk heq => ?_⟩
  refine ne_ok_of_toOption_all hall ?_ hk
  rw [heq, hP]
  rfl

/-- Preferences that are null by their tag are absent afterwards, and a tag with
three marks loses one of them. A path that leads to nothing comes to lead to a
directory, and the aggregate is not loaded any more. -/
theorem loses_preferences :
    let l := ofPayload "kubeconfig" ""
    let os : List Occasion := [⟨l.fetch, .none, letterPlane .k8s⟩]
    l.LosesPreferences (onlyAggregate (.file "preferences: !!null 'null'\n".toUTF8 0o644)) os ∧
    l.LosesPreferences (onlyAggregate (.file "preferences: !<!!!a> b\n".toUTF8 0o644)) os ∧
    { l with aggregate := .ofText "/x/../d" }.LosesPreferences
      ⟨[(["d"], .directory)], [], .none⟩ os := by
  intro l os
  refine ⟨?_, ?_, ?_⟩
  · exact losesPreferences_of_losesOn (P := Option.isSome) (by decide +kernel)
  · exact losesPreferences_of_losesOn
      (P := fun v => v.any (·.same (.tagged "!a" (.string "b")))) (by decide +kernel)
  · exact losesPreferences_of_losesOn (P := Option.isNone) (by decide +kernel)

end Loader

end PlaneAccess
