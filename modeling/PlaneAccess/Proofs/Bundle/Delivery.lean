import Mathlib.Data.List.Induction
import Mathlib.Data.Nat.Init
import PlaneAccess.Proofs.Bundle.Session

/-!
# No bundle gets lost

A stream tells every bundle that is put into its namespace while the store is
open, however far it falls behind, and it tells nothing else. The first is by
`Due`: a name that a stream owes stays owed until it is told. The second is by
`Sourced`: whatever a store or a stream holds came in by some step.
-/

namespace PlaneAccess.Bundle

def Step.brings (space name : String) : Step → Prop
  | .insert space' name' _ => space' = space ∧ name' = name
  | .announce space' names => space' = space ∧ name ∈ names
  | _ => False

theorem Step.of_mem_names_onStore {s : Store} {t : Step} {space n : String}
    (h : n ∈ (t.onStore s).names space) : n ∈ s.names space ∨ t.brings space n := by
  cases t with
  | insert space' n' p =>
    rw [onStore, Store.mem_names, Store.contains_insert, Bool.or_eq_true,
      decide_eq_true_eq] at h
    rcases h with hbrings | hthere
    · exact Or.inr hbrings
    · exact Or.inl (Store.mem_names.mpr hthere)
  | announce space' names =>
    rw [onStore, Store.announceAll_eq] at h
    exact Or.inl h
  | _ => exact Or.inl h

theorem Step.of_mem_history_onStore {s : Store} {t : Step} {a : Announcement}
    (h : a ∈ (t.onStore s).history) : a ∈ s.history ∨ t.brings a.space a.name := by
  cases t with
  | insert space' n' p =>
    rw [onStore, Store.history_insert] at h
    split at h
    · rcases List.mem_append.mp h with h | h
      · exact Or.inl h
      · rw [List.mem_singleton.mp h]
        exact Or.inr ⟨rfl, rfl⟩
    · exact Or.inl h
  | announce space' names =>
    rw [onStore, Store.announceAll_eq] at h
    split at h
    · rcases List.mem_append.mp h with h | h
      · exact Or.inl h
      · obtain ⟨n, hn, rfl⟩ := List.mem_map.mp h
        exact Or.inr ⟨rfl, hn⟩
    · exact Or.inl h
  | _ => exact Or.inl h

namespace Session

/-! ## Names that are owed -/

/-- The stream of a name is for a namespace, and has not ended if the store is
open. -/
structure Live (s : Session) (id space : String) : Prop where
  faithful : ∀ c, s.streams.get? id = some c →
    c.space = space ∧ c.position ≤ s.store.history.length
  going : s.store.isOpen = true → ∃ c, s.streams.get? id = some c

/-- The stream of a name has a bundle still to tell. -/
def Due (s : Session) (id space name : String) : Prop :=
  ∃ c, s.streams.get? id = some c ∧ c.space = space ∧
    name ∈ s.store.names space ∧ name ∈ c.tellable s.store

theorem live_step {s : Session} {t : Step} {id space : String} (h : s.Live id space)
    (hk : replaces id (t, (s.step t).1) = false) : (s.step t).2.1.Live id space := by
  have hlater := Step.later_onStore s.store t
  cases hc : s.streams.get? id with
  | none =>
    have hnone := (step_no_stream hc hk).1
    constructor
    · intro c hget
      rw [hnone] at hget
      cases hget
    · intro ho
      rw [step_store] at ho
      obtain ⟨c, hget⟩ := h.going (hlater.isOpen ho)
      rw [hc] at hget
      cases hget
  | some c =>
    obtain ⟨hspace, hposition⟩ := h.faithful c hc
    obtain ⟨c', hread⟩ := step_stream hc hk
    constructor
    · intro c₁ hget₁
      rcases hread.goes with hget | ⟨hget, -⟩
      · rw [hget] at hget₁
        obtain rfl := Option.some.inj hget₁
        rw [step_store]
        exact ⟨hread.told.space.trans hspace,
          Nat.le_trans (hread.told.position hposition) hlater.history.length_le⟩
      · rw [hget] at hget₁
        cases hget₁
    · intro ho
      rw [step_store] at ho
      rcases hread.goes with hget | ⟨-, hclosed, -⟩
      · exact ⟨c', hget⟩
      · rw [hlater.isOpen ho] at hclosed
        cases hclosed

/-- What a stream owes it tells or goes on to owe. -/
theorem due_step {s : Session} {t : Step} {id space name : String}
    (h : s.Due id space name) (hk : replaces id (t, (s.step t).1) = false) :
    name ∈ tells id (t, (s.step t).1) ∨ (s.step t).2.1.Due id space name := by
  obtain ⟨c, hc, rfl, hname, htell⟩ := h
  obtain ⟨c', hread⟩ := step_stream hc hk
  rw [hread.told.tellable, List.mem_append] at htell
  rcases htell with htold | hleft
  · exact Or.inl htold
  · -- what is left to tell stays so in a store that has only grown
    rcases hread.goes with hget | ⟨-, -, hnil⟩
    · have hlater := Step.later_onStore s.store t
      refine Or.inr ⟨c', hget, hread.told.space, ?_, ?_⟩
      · rw [step_store]
        exact hlater.names _ hname
      · rw [step_store]
        rw [← hread.told.space] at hname
        exact Subscription.mem_tellable_of_later hlater hname hleft
    · rw [hnil] at hleft
      exact absurd hleft List.not_mem_nil

/-- A stream that reports to have told everything owes nothing. -/
theorem due_reports {s : Session} {t : Step} {id space name : String}
    (h : s.Due id space name) (hk : replaces id (t, (s.step t).1) = false)
    (hr : reports id (t, (s.step t).1) = true) : name ∈ tells id (t, (s.step t).1) := by
  obtain ⟨c, hc, -, -, htell⟩ := h
  obtain ⟨c', hread⟩ := step_stream hc hk
  rw [hread.told.tellable, hread.all hr, List.append_nil] at htell
  exact htell

theorem replaces_of_reports {id : String} {x : Step × Answer} (h : reports id x = true) :
    replaces id x = false := by
  obtain ⟨t, a⟩ := x
  cases t with
  | next id' => rfl
  | drain id' => rfl
  | _ => exact absurd h (by simp [reports])

theorem replaces_of_mem_tells {id name : String} {x : Step × Answer}
    (h : name ∈ tells id x) : replaces id x = false := by
  obtain ⟨t, a⟩ := x
  cases t with
  | next id' => rfl
  | drain id' => rfl
  | _ => exact absurd h (by simp [tells])

theorem live_of_subscribe {s : Session} {id space : String}
    (ha : (s.step (.subscribe id space)).1 = .subscribed (.ok ())) :
    (s.step (.subscribe id space)).2.1.Live id space := by
  have hget := (step_subscribed ha).2
  constructor
  · intro c hc
    rw [hget] at hc
    obtain rfl := Option.some.inj hc
    rw [step_store]
    exact ⟨rfl, Nat.le_refl _⟩
  · intro _
    exact ⟨_, hget⟩

theorem due_of_subscribe {s : Session} {id space name : String}
    (ha : (s.step (.subscribe id space)).1 = .subscribed (.ok ()))
    (hn : name ∈ s.store.names space) : (s.step (.subscribe id space)).2.1.Due id space name := by
  refine ⟨_, (step_subscribed ha).2, rfl, ?_, ?_⟩
  · rw [step_store]
    exact hn
  · exact Subscription.queued_subset_tellable _ _ hn

theorem due_of_insert {s : Session} {id space name : String} (p : Payloads)
    (h : s.Live id space) (ho : s.store.isOpen = true) :
    (s.step (.insert space name p)).2.1.Due id space name := by
  obtain ⟨c, hc⟩ := h.going ho
  obtain ⟨rfl, hposition⟩ := h.faithful c hc
  refine ⟨c, hc, rfl, ?_, ?_⟩
  · rw [step_store, Step.onStore, Store.mem_names, Store.contains_insert]
    simp
  · rw [step_store]
    exact Subscription.mem_tellable_insert name p ho hposition

/-! ## Names that came in -/

/-- Everything that a session may tell satisfies a relation between namespaces
and names. -/
structure Sourced (s : Session) (came : String → String → Prop) : Prop where
  names : ∀ space, ∀ n ∈ s.store.names space, came space n
  history : ∀ a ∈ s.store.history, came a.space a.name
  queued : ∀ id c, s.streams.get? id = some c → ∀ n ∈ c.queued, came c.space n

theorem sourced_start (came : String → String → Prop) : start.Sourced came :=
  ⟨fun _ _ h => absurd h List.not_mem_nil, fun _ h => absurd h List.not_mem_nil,
    fun _ _ h => by cases h⟩

theorem Sourced.tellable {s : Session} {came : String → String → Prop} (h : s.Sourced came)
    {id : String} {c : Subscription} (hc : s.streams.get? id = some c) {n : String}
    (hn : n ∈ c.tellable s.store) : came c.space n := by
  rcases Subscription.mem_of_mem_tellable hn with hq | hnames | hhistory
  · exact h.queued id c hc n hq
  · exact h.names c.space n hnames
  · exact h.history _ hhistory

theorem sourced_step {s : Session} {came came' : String → String → Prop} (t : Step)
    (h : s.Sourced came) (hold : ∀ space n, came space n → came' space n)
    (hnew : ∀ space n, t.brings space n → came' space n) :
    (s.step t).2.1.Sourced came' := by
  refine ⟨?_, ?_, ?_⟩
  · intro space n hn
    rw [step_store] at hn
    rcases Step.of_mem_names_onStore hn with hthere | hbrings
    · exact hold space n (h.names space n hthere)
    · exact hnew space n hbrings
  · intro a ha
    rw [step_store] at ha
    rcases Step.of_mem_history_onStore ha with hthere | hbrings
    · exact hold _ _ (h.history a hthere)
    · exact hnew _ _ hbrings
  · intro id c hget n hn
    cases hk : replaces id (t, (s.step t).1) with
    | true =>
      rcases step_replaced hk with hnone | ⟨space, hsome⟩
      · rw [hnone] at hget
        cases hget
      · -- a new stream has the bundles of the store before it
        rw [hsome] at hget
        obtain rfl := Option.some.inj hget
        exact hold _ _ (h.names space n hn)
    | false =>
      cases hc : s.streams.get? id with
      | none =>
        rw [(step_no_stream hc hk).1] at hget
        cases hget
      | some c₀ =>
        obtain ⟨c', hread⟩ := step_stream hc hk
        rcases hread.goes with hget' | ⟨hget', -⟩
        · rw [hget'] at hget
          obtain rfl := Option.some.inj hget
          rw [hread.told.space]
          refine hold _ _ (h.tellable hc ?_)
          rw [hread.told.tellable]
          exact List.mem_append_right _ (Subscription.queued_subset_tellable _ _ hn)
        · rw [hget'] at hget
          cases hget

theorem mem_names_after {ts : List Step} {space name : String} {p : Payloads} {i j : Nat}
    (hi : ts[i]? = some (.insert space name p)) (hij : i < j) :
    name ∈ (start.after (ts.take j)).store.names space := by
  induction j, hij using Nat.le_induction with
  | base =>
    rw [after_take_succ hi, step_store, Step.onStore, Store.mem_names, Store.contains_insert]
    simp
  | succ j _ ih =>
    cases ht : ts[j]? with
    | none =>
      -- the run is over
      rwa [List.take_add_one, ht, Option.toList_none, List.append_nil]
    | some t =>
      rw [after_take_succ ht, step_store]
      exact (Step.later_onStore _ t).names space ih

/-- What a run can tell came in by one of its steps. -/
theorem sourced_after (ts : List Step) :
    (start.after ts).Sourced (fun space n => ∃ t ∈ ts, t.brings space n) := by
  induction ts using List.reverseRecOn with
  | nil => exact sourced_start _
  | append_singleton ts t ih =>
    rw [after_append]
    refine sourced_step t ih ?_ ?_
    · rintro space n ⟨u, hu, hbrings⟩
      exact ⟨u, List.mem_append_left _ hu, hbrings⟩
    · intro space n hbrings
      exact ⟨t, List.mem_append_right _ List.mem_cons_self, hbrings⟩

/-! ## Whole runs -/

/-- In a run the stream of a name is opened for a namespace by one step, and up
to another one it is neither dropped nor replaced. -/
structure Subscribed (ts : List Step) (id space : String) (opened last : Nat) : Prop where
  opens : (start.transcript ts)[opened]? = some (.subscribe id space, .subscribed (.ok ()))
  keeps : ∀ i, opened < i → i < last → ∀ x ∈ (start.transcript ts)[i]?, replaces id x = false

section

variable {ts : List Step} {id space name : String} {opened last : Nat}

theorem Subscribed.step (h : Subscribed ts id space opened last) :
    ts[opened]? = some (.subscribe id space) ∧
      ((start.after (ts.take opened)).step (.subscribe id space)).1 = .subscribed (.ok ()) := by
  have ho := h.opens
  rw [getElem?_transcript, Option.map_eq_some_iff] at ho
  obtain ⟨t, ht, heq⟩ := ho
  obtain ⟨rfl, ha⟩ := Prod.mk.inj heq
  exact ⟨ht, ha⟩

theorem Subscribed.kept (h : Subscribed ts id space opened last) {i : Nat} (ho : opened < i)
    (hl : i < last) {t : Step} (ht : ts[i]? = some t) :
    replaces id (t, ((start.after (ts.take i)).step t).1) = false := by
  refine h.keeps i ho hl _ ?_
  rw [getElem?_transcript, ht]
  rfl

theorem Subscribed.live (h : Subscribed ts id space opened last) (hlen : last ≤ ts.length)
    {i : Nat} (ho : opened < i) (hl : i ≤ last) :
    (start.after (ts.take i)).Live id space := by
  induction i, ho using Nat.le_induction with
  | base =>
    rw [after_take_succ h.step.1]
    exact live_of_subscribe h.step.2
  | succ i ho ih =>
    have ht := List.getElem?_eq_getElem (Nat.lt_of_lt_of_le hl hlen)
    rw [after_take_succ ht]
    exact live_step (ih (Nat.le_of_succ_le hl)) (h.kept ho hl ht)

/-- A name that is owed at one step is told by a later one or still owed. -/
theorem Subscribed.due (h : Subscribed ts id space opened last) (hlen : last ≤ ts.length)
    {i : Nat} (ho : opened < i) (hdue : (start.after (ts.take i)).Due id space name)
    {j : Nat} (hij : i ≤ j) (hj : j ≤ last) :
    (∃ k x, i ≤ k ∧ k < j ∧ (start.transcript ts)[k]? = some x ∧ name ∈ tells id x) ∨
      (start.after (ts.take j)).Due id space name := by
  induction j, hij using Nat.le_induction with
  | base => exact Or.inr hdue
  | succ j hij ih =>
    rcases ih (Nat.le_of_succ_le hj) with ⟨k, x, hik, hkj, hx, htold⟩ | hdue
    · exact Or.inl ⟨k, x, hik, Nat.lt_succ_of_lt hkj, hx, htold⟩
    · have ht := List.getElem?_eq_getElem (Nat.lt_of_lt_of_le hj hlen)
      rw [after_take_succ ht]
      refine (due_step hdue (h.kept (Nat.lt_of_lt_of_le ho hij) hj ht)).imp (fun htold => ?_)
        (fun hdue => hdue)
      refine ⟨j, _, hij, Nat.lt_succ_self j, ?_, htold⟩
      rw [getElem?_transcript, ht]
      rfl

/-- When a stream reports to have told everything, it has told each bundle that
was put into its namespace while the store was open, and has done so after the
bundle was put in. -/
theorem Subscribed.told (h : Subscribed ts id space opened last) (hol : opened < last)
    {x : Step × Answer} (hx : (start.transcript ts)[last]? = some x)
    (hr : reports id x = true) {i : Nat} {p : Payloads} (hil : i < last)
    (hi : ts[i]? = some (.insert space name p))
    (hopen : (start.after (ts.take i)).store.isOpen = true) :
    ∃ j y, opened < j ∧ i < j ∧ j ≤ last ∧ (start.transcript ts)[j]? = some y ∧
      name ∈ tells id y := by
  rw [getElem?_transcript, Option.map_eq_some_iff] at hx
  obtain ⟨t, ht, rfl⟩ := hx
  have hlen : last ≤ ts.length := by
    obtain ⟨hlt, -⟩ := List.getElem?_eq_some_iff.mp ht
    exact Nat.le_of_lt hlt
  -- from the later of the two steps on the name is owed
  obtain ⟨m, hom, him, hml, hdue⟩ : ∃ m, opened < m ∧ i < m ∧ m ≤ last ∧
      (start.after (ts.take m)).Due id space name := by
    rcases Nat.lt_or_ge opened i with hoi | hio
    · refine ⟨i + 1, Nat.lt_succ_of_lt hoi, Nat.lt_succ_self i, hil, ?_⟩
      rw [after_take_succ hi]
      exact due_of_insert p (h.live hlen hoi (Nat.le_of_lt hil)) hopen
    · refine ⟨opened + 1, Nat.lt_succ_self opened, Nat.lt_succ_of_le hio, hol, ?_⟩
      rw [after_take_succ h.step.1]
      refine due_of_subscribe h.step.2 ?_
      have hne : i ≠ opened := by
        rintro rfl
        cases (hi.symm.trans h.step.1)
      exact mem_names_after hi (Nat.lt_of_le_of_ne hio hne)
  have hk : replaces id (t, ((start.after (ts.take last)).step t).1) = false :=
    replaces_of_reports hr
  rcases h.due hlen hom hdue hml (Nat.le_refl last) with ⟨j, y, hmj, hjl, hy, htold⟩ | hdue
  · exact ⟨j, y, Nat.lt_of_lt_of_le hom hmj, Nat.lt_of_lt_of_le him hmj, Nat.le_of_lt hjl, hy,
      htold⟩
  · refine ⟨last, _, hol, hil, Nat.le_refl last, ?_, due_reports hdue hk hr⟩
    rw [getElem?_transcript, ht]
    rfl

theorem Subscribed.came (h : Subscribed ts id space opened last) (hol : opened < last)
    {x : Step × Answer} (hx : (start.transcript ts)[last]? = some x)
    (htold : name ∈ tells id x) : ∃ t ∈ ts.take last, t.brings space name := by
  rw [getElem?_transcript, Option.map_eq_some_iff] at hx
  obtain ⟨t, ht, rfl⟩ := hx
  have hlen : last ≤ ts.length := by
    obtain ⟨hlt, -⟩ := List.getElem?_eq_some_iff.mp ht
    exact Nat.le_of_lt hlt
  have hk : replaces id (t, ((start.after (ts.take last)).step t).1) = false :=
    replaces_of_mem_tells htold
  cases hc : (start.after (ts.take last)).streams.get? id with
  | none =>
    rw [(step_no_stream hc hk).2] at htold
    exact absurd htold List.not_mem_nil
  | some c =>
    obtain ⟨rfl, -⟩ := (h.live hlen hol (Nat.le_refl last)).faithful c hc
    obtain ⟨c', hread⟩ := step_stream hc hk
    refine (sourced_after (ts.take last)).tellable hc ?_
    rw [hread.told.tellable]
    exact List.mem_append_left _ htold

/-- No bundle gets lost to a stream, and nothing else is told to it. -/
theorem delivery (h : Subscribed ts id space opened last) (hol : opened < last)
    {x : Step × Answer} (hx : (start.transcript ts)[last]? = some x) :
    (reports id x = true → ∀ i name p, i < last → ts[i]? = some (.insert space name p) →
      (start.after (ts.take i)).store.isOpen = true →
      ∃ j y, opened < j ∧ i < j ∧ j ≤ last ∧ (start.transcript ts)[j]? = some y ∧
        name ∈ tells id y) ∧
      ∀ name ∈ tells id x, ∃ t ∈ ts.take last, t.brings space name :=
  ⟨fun hr _ _ _ hil hi hopen => h.told hol hx hr hil hi hopen,
    fun _ htold => h.came hol hx htold⟩

end

/-- A run with a stream that falls behind a bundle of its namespace. -/
def lagging : List Step :=
  [.subscribe "late" "plane", .insert "plane" "config" .empty,
    .announce "elsewhere" (List.replicate 64 "noise"), .drain "late"]

/-- The bundle that the stream has fallen behind is told to it. -/
theorem delivery_lagging :
    ∃ j y, 0 < j ∧ 1 < j ∧ j ≤ 3 ∧ (start.transcript lagging)[j]? = some y ∧
      "config" ∈ tells "late" y := by
  have hsub : Subscribed lagging "late" "plane" 0 3 := by
    refine ⟨rfl, ?_⟩
    intro i ho hl x hx
    rw [getElem?_transcript] at hx
    obtain ⟨t, ht, rfl⟩ := Option.map_eq_some_iff.mp hx
    obtain rfl | rfl : i = 1 ∨ i = 2 := by omega
    · obtain rfl := Option.some.inj ht
      rfl
    · obtain rfl := Option.some.inj ht
      rfl
  have hx : (start.transcript lagging)[3]? =
      some (.drain "late", ((start.after (lagging.take 3)).step (.drain "late")).1) := by
    rw [getElem?_transcript]
    rfl
  exact (delivery hsub (by decide) hx).1 (by decide +kernel) 1 "config" .empty (by decide) rfl
    (by decide +kernel)

end Session

end PlaneAccess.Bundle
