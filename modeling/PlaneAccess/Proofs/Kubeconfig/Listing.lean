import PlaneAccess.Proofs.Kubeconfig.Decoded

/-!
# Lists of named entries

The lists of a file are a kubeconfig exactly if no two entries of one list have
one name (`Listing.toKubeconfig_iff`). The maps then hold the entries and nothing
else. Otherwise the error is about the first list with a name that is there
twice, and of such names the one that is met first.
-/

namespace PlaneAccess

/-! ## The first name that is there again -/

/-- A name is the first one in a list that is there already. -/
def FirstRepeated (names : List String) (n : String) : Prop :=
  ∃ before after, names = before ++ n :: after ∧ n ∈ before ∧ before.Nodup

theorem exists_firstRepeated {names : List String} (h : ¬ names.Nodup) :
    ∃ n, FirstRepeated names n := by
  induction names using List.reverseRecOn with
  | nil => exact absurd List.nodup_nil h
  | append_singleton names m ih =>
    by_cases hnames : names.Nodup
    · have hm : m ∈ names := by
        by_contra hm
        apply h
        rw [List.nodup_append]
        refine ⟨hnames, List.nodup_singleton m, ?_⟩
        intro a ha b hb hab
        obtain rfl := List.mem_singleton.mp hb
        exact hm (hab ▸ ha)
      exact ⟨m, names, [], rfl, hm, hnames⟩
    · obtain ⟨n, before, after, rfl, hn, hbefore⟩ := ih hnames
      exact ⟨n, before, after ++ [m], List.append_assoc _ _ _, hn, hbefore⟩

namespace Listing

variable {α : Type} {list : Section} {default : α} {es : List (Named α)} {m : NameMap α}

def namesOf (es : List (Named α)) : List String := es.map Named.name

theorem map_fst_bodies (default : α) (es : List (Named α)) :
    (bodies default es).map Prod.fst = namesOf es := by
  rw [bodies, List.map_map]
  rfl

/-! ## One list -/

theorem collectInto_of_nodup (hm : ∀ e ∈ es, m.get? e.name = none) (hes : (namesOf es).Nodup) :
    ∃ m', collectInto list default m es = .ok m' := by
  induction es generalizing m with
  | nil => exact ⟨m, rfl⟩
  | cons e es ih =>
    rw [namesOf, List.map_cons, List.nodup_cons] at hes
    have hnew : m.contains e.name = false := by
      rw [NameMap.contains, hm e List.mem_cons_self]
      rfl
    rw [collectInto, hnew, if_neg (by decide)]
    refine ih ?_ hes.2
    intro f hf
    have hne : e.name ≠ f.name := by
      intro heq
      exact hes.1 (heq ▸ List.mem_map_of_mem hf)
    rw [NameMap.get?_insert, if_neg hne]
    exact hm f (List.mem_cons_of_mem _ hf)

theorem collectInto_of_repeated {before after : List (Named α)} {e : Named α}
    (hbefore : ∀ f ∈ before, m.get? f.name = none) (hnodup : (namesOf before).Nodup)
    (he : e.name ∈ namesOf before ∨ m.contains e.name = true) :
    collectInto list default m (before ++ e :: after) = .error ⟨list, e.name⟩ := by
  induction before generalizing m with
  | nil =>
    have hcontains : m.contains e.name = true := by
      rcases he with hmem | hcontains
      · exact absurd hmem List.not_mem_nil
      · exact hcontains
    rw [List.nil_append, collectInto, if_pos hcontains]
  | cons f before ih =>
    rw [namesOf, List.map_cons, List.nodup_cons] at hnodup
    have hnew : m.contains f.name = false := by
      rw [NameMap.contains, hbefore f List.mem_cons_self]
      rfl
    rw [List.cons_append, collectInto, hnew, if_neg (by decide)]
    refine ih ?_ hnodup.2 ?_
    · intro g hg
      have hne : f.name ≠ g.name := by
        intro heq
        exact hnodup.1 (heq ▸ List.mem_map_of_mem hg)
      rw [NameMap.get?_insert, if_neg hne]
      exact hbefore g (List.mem_cons_of_mem _ hg)
    · -- the name of `f` is in the map from now on
      rw [NameMap.contains, NameMap.get?_insert]
      rcases he with hmem | hcontains
      · rcases List.mem_cons.mp hmem with heq | hmem
        · exact Or.inr (by rw [if_pos heq.symm]; rfl)
        · exact Or.inl hmem
      · refine Or.inr ?_
        split
        · rfl
        · exact hcontains

/-- A list has a map exactly if its names are distinct, and the map holds its
entries and nothing else. -/
theorem collect_eq_ok_iff :
    collect list default es = .ok m ↔ m.toList.Perm (bodies default es) := by
  constructor
  · intro h
    obtain ⟨hnodup, rfl⟩ := collect_eq_ok h
    exact NameMap.perm_toList_ofList hnodup
  · intro h
    have hnodup : (namesOf es).Nodup := by
      rw [← map_fst_bodies default es]
      exact (h.map Prod.fst).nodup_iff.mp m.nodup_keys
    obtain ⟨m', hm'⟩ : ∃ m', collect list default es = .ok m' :=
      collectInto_of_nodup (fun _ _ => rfl) hnodup
    -- two maps with the same entries are the same
    have hsame : m' = m := by
      refine NameMap.ext_get? fun n => Option.ext fun a => ?_
      rw [← NameMap.mem_toList, ← NameMap.mem_toList, h.mem_iff]
      obtain ⟨hbodies, rfl⟩ := collect_eq_ok hm'
      exact (NameMap.perm_toList_ofList hbodies).mem_iff
    rw [← hsame]
    exact hm'

theorem exists_collect_iff : (∃ m, collect list default es = .ok m) ↔ (namesOf es).Nodup := by
  constructor
  · rintro ⟨m, h⟩
    rw [← map_fst_bodies default es]
    exact (collect_eq_ok h).1
  · exact collectInto_of_nodup fun _ _ => rfl

theorem collect_eq_error_iff {e : RepeatedName} :
    collect list default es = .error e ↔ e.list = list ∧ FirstRepeated (namesOf es) e.name := by
  have hrepeated : ∀ {n : String}, FirstRepeated (namesOf es) n →
      collect list default es = .error ⟨list, n⟩ := by
    rintro n ⟨before, after, hes, hn, hbefore⟩
    obtain ⟨before', rest, rfl, rfl, hrest⟩ := List.map_eq_append_iff.mp hes
    obtain ⟨f, after', rfl, rfl, -⟩ := List.map_eq_cons_iff.mp hrest
    exact collectInto_of_repeated (fun _ _ => rfl) hbefore (Or.inl hn)
  constructor
  · intro h
    have hnodup : ¬ (namesOf es).Nodup := by
      intro hnodup
      obtain ⟨m, hm⟩ := exists_collect_iff.mpr hnodup
      rw [h] at hm
      cases hm
    obtain ⟨n, hn⟩ := exists_firstRepeated hnodup
    obtain rfl := Except.error.inj (h.symm.trans (hrepeated hn))
    exact ⟨rfl, hn⟩
  · rintro ⟨rfl, hn⟩
    exact hrepeated hn

end Listing

/-! ## All lists -/

namespace Listing

/-- No two entries of one list have one name. Entries of different lists may. -/
structure HasUniqueNames (l : Listing) : Prop where
  clusters : (namesOf l.clusters).Nodup
  users : (namesOf l.users).Nodup
  contexts : (namesOf l.contexts).Nodup

/-- A kubeconfig has the entries of the lists and no others, those without a body
as empty records, and the rest of what is listed. -/
structure IsHeldBy (l : Listing) (k : Kubeconfig) : Prop where
  clusters : k.clusters.toList.Perm (bodies .empty l.clusters)
  users : k.users.toList.Perm (bodies .empty l.users)
  contexts : k.contexts.toList.Perm (bodies .empty l.contexts)
  currentContext : k.currentContext = l.currentContext.getD ""
  preferences : k.preferences = l.preferences
  extensions : k.extensions = l.extensions

/-- What is wrong with lists in which a name is repeated, and the message for
it: the first list counts, and in it the first name that is there already. -/
inductive RepeatsFirst (l : Listing) : RepeatedName → String → Prop
  | cluster {n : String} (h : FirstRepeated (namesOf l.clusters) n) :
    RepeatsFirst l ⟨.cluster, n⟩ ("duplicate cluster entry " ++ Text.quoted n)
  | user {n : String} (hclusters : (namesOf l.clusters).Nodup)
    (h : FirstRepeated (namesOf l.users) n) :
    RepeatsFirst l ⟨.user, n⟩ ("duplicate user entry " ++ Text.quoted n)
  | context {n : String} (hclusters : (namesOf l.clusters).Nodup)
    (husers : (namesOf l.users).Nodup) (h : FirstRepeated (namesOf l.contexts) n) :
    RepeatsFirst l ⟨.context, n⟩ ("duplicate context entry " ++ Text.quoted n)

variable {l : Listing} {k : Kubeconfig}

theorem toKubeconfig_eq_ok_iff : l.toKubeconfig = .ok k ↔ l.IsHeldBy k := by
  constructor
  · intro h
    obtain ⟨clusters, hclusters, h⟩ := bind_eq_ok.mp h
    obtain ⟨users, husers, h⟩ := bind_eq_ok.mp h
    obtain ⟨contexts, hcontexts, h⟩ := bind_eq_ok.mp h
    obtain rfl := Except.ok.inj h
    exact ⟨collect_eq_ok_iff.mp hclusters, collect_eq_ok_iff.mp husers,
      collect_eq_ok_iff.mp hcontexts, rfl, rfl, rfl⟩
  · intro h
    rw [toKubeconfig, collect_eq_ok_iff.mpr h.clusters, ok_bind, collect_eq_ok_iff.mpr h.users,
      ok_bind, collect_eq_ok_iff.mpr h.contexts, ok_bind, ← h.currentContext, ← h.preferences,
      ← h.extensions]
    rfl

theorem exists_toKubeconfig_iff : (∃ k, l.toKubeconfig = .ok k) ↔ l.HasUniqueNames := by
  constructor
  · rintro ⟨k, h⟩
    obtain ⟨clusters, hclusters, h⟩ := bind_eq_ok.mp h
    obtain ⟨users, husers, h⟩ := bind_eq_ok.mp h
    obtain ⟨contexts, hcontexts, -⟩ := bind_eq_ok.mp h
    exact ⟨exists_collect_iff.mp ⟨_, hclusters⟩, exists_collect_iff.mp ⟨_, husers⟩,
      exists_collect_iff.mp ⟨_, hcontexts⟩⟩
  · intro h
    obtain ⟨clusters, hclusters⟩ := exists_collect_iff.mpr h.clusters
    obtain ⟨users, husers⟩ := exists_collect_iff.mpr h.users
    obtain ⟨contexts, hcontexts⟩ := exists_collect_iff.mpr h.contexts
    rw [toKubeconfig, hclusters, ok_bind, husers, ok_bind, hcontexts, ok_bind]
    exact ⟨_, rfl⟩

/-- The lists are gone through one after the other, and the first one with a
repeated name decides. -/
theorem toKubeconfig_of_repeatsFirst {e : RepeatedName} {message : String}
    (h : l.RepeatsFirst e message) : l.toKubeconfig = .error e := by
  cases h with
  | cluster h =>
    exact bind_eq_error.mpr (Or.inl (collect_eq_error_iff.mpr ⟨rfl, h⟩))
  | user hclusters h =>
    obtain ⟨clusters, hclusters⟩ := exists_collect_iff.mpr hclusters
    rw [toKubeconfig, hclusters, ok_bind]
    exact bind_eq_error.mpr (Or.inl (collect_eq_error_iff.mpr ⟨rfl, h⟩))
  | context hclusters husers h =>
    obtain ⟨clusters, hclusters⟩ := exists_collect_iff.mpr hclusters
    obtain ⟨users, husers⟩ := exists_collect_iff.mpr husers
    rw [toKubeconfig, hclusters, ok_bind, husers, ok_bind]
    exact bind_eq_error.mpr (Or.inl (collect_eq_error_iff.mpr ⟨rfl, h⟩))

theorem repeatsFirst_of_toKubeconfig {e : RepeatedName} (h : l.toKubeconfig = .error e) :
    l.RepeatsFirst e (DecodeError.repeatedName e).message := by
  obtain ⟨list, n⟩ := e
  rcases bind_eq_error.mp h with h | ⟨clusters, hclusters, h⟩
  · obtain ⟨rfl, hn⟩ := collect_eq_error_iff.mp h
    exact .cluster hn
  replace hclusters := exists_collect_iff.mp ⟨_, hclusters⟩
  rcases bind_eq_error.mp h with h | ⟨users, husers, h⟩
  · obtain ⟨rfl, hn⟩ := collect_eq_error_iff.mp h
    exact .user hclusters hn
  replace husers := exists_collect_iff.mp ⟨_, husers⟩
  rcases bind_eq_error.mp h with h | ⟨contexts, -, h⟩
  · obtain ⟨rfl, hn⟩ := collect_eq_error_iff.mp h
    exact .context hclusters husers hn
  · cases h

/-- Lists are a kubeconfig exactly if the names within each list are distinct.
It holds their entries and nothing else. If there is none, the error and its
message are about the first list with a repeated name, and about the first entry
in it whose name is there already. -/
theorem toKubeconfig_iff (l : Listing) :
    ((∃ k, l.toKubeconfig = .ok k) ↔ l.HasUniqueNames) ∧
      (∀ k, l.toKubeconfig = .ok k ↔ l.IsHeldBy k) ∧
      ∀ e, l.toKubeconfig = .error e ↔
        l.RepeatsFirst e (DecodeError.repeatedName e).message :=
  ⟨exists_toKubeconfig_iff, fun _ => toKubeconfig_eq_ok_iff,
    fun _ => ⟨repeatsFirst_of_toKubeconfig, toKubeconfig_of_repeatsFirst⟩⟩

/-- A name may stand in two lists. Of two names that are there again, the one
that comes back first is named. -/
example : ({ empty with
      clusters := [⟨"z", none⟩]
      users := [⟨"z", none⟩, ⟨"y", none⟩, ⟨"y", some .empty⟩, ⟨"z", none⟩]
      contexts := [⟨"c", none⟩, ⟨"c", none⟩] } : Listing).toKubeconfig =
    .error ⟨.user, "y"⟩ := by
  rfl

end Listing

end PlaneAccess
