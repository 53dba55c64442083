import PlaneAccess.Bundle.Subscription
import PlaneAccess.Proofs.Bundle.Store

/-!
# What a subscription tells

`tellable` is the list of all names that a subscription has to tell as things
stand. Polling takes its first name off (`poll_cases`), and draining tells it
to the end (`drain_eq`). So what subscriptions promise is a matter of
which names are in that list.
-/

namespace PlaneAccess.Bundle.Subscription

def namesOf (space : String) (as : List Announcement) : List String :=
  (as.filter (fun a => a.space = space)).map Announcement.name

/-- All names that a subscription has to tell, in order. -/
def tellable (c : Subscription) (s : Store) : List String :=
  c.queued ++ (if c.lags s then s.names c.space else []) ++
    namesOf c.space (s.history.drop (c.catchUp s).position)

def done (c : Subscription) (s : Store) : Subscription :=
  { c with queued := [], position := s.history.length }

def idle (s : Store) : Poll := if s.isOpen then .pending else .ended

theorem mem_namesOf {space n : String} {as : List Announcement} :
    n ∈ namesOf space as ↔ (⟨space, n⟩ : Announcement) ∈ as := by
  unfold namesOf
  rw [List.mem_map]
  constructor
  · rintro ⟨⟨_, _⟩, ha, rfl⟩
    obtain ⟨hmem, hspace⟩ := List.mem_filter.mp ha
    simp only [decide_eq_true_eq] at hspace
    exact hspace ▸ hmem
  · intro h
    exact ⟨⟨space, n⟩, List.mem_filter.mpr ⟨h, by simp⟩, rfl⟩

theorem idle_eq_ended {s : Store} : idle s = .ended ↔ s.isOpen = false := by
  cases h : s.isOpen with
  | true => simp [idle, h]
  | false => simp [idle, h]

/-! ## Catching up -/

theorem catchUp_of_lags {c : Subscription} {s : Store} (h : c.lags s = true) :
    c.catchUp s =
      ⟨c.space, s.names c.space, s.history.length - keptAnnouncements⟩ := by
  simp [catchUp, h]

theorem catchUp_of_not_lags {c : Subscription} {s : Store} (h : c.lags s = false) :
    c.catchUp s = c := by
  simp [catchUp, h]

/-- After catching up a subscription does not lag. -/
theorem lags_catchUp (c : Subscription) (s : Store) : (c.catchUp s).lags s = false := by
  cases h : c.lags s with
  | true =>
    rw [catchUp_of_lags h]
    simp only [lags, decide_eq_false_iff_not]
    omega
  | false =>
    rw [catchUp_of_not_lags h]
    exact h

theorem space_catchUp (c : Subscription) (s : Store) : (c.catchUp s).space = c.space := by
  unfold catchUp
  split
  · rfl
  · rfl

theorem position_catchUp_le {c : Subscription} {s : Store}
    (h : c.position ≤ s.history.length) : (c.catchUp s).position ≤ s.history.length := by
  unfold catchUp
  split
  · exact Nat.sub_le _ _
  · exact h

theorem tellable_of_not_lags {c : Subscription} {s : Store} (h : c.lags s = false) :
    c.tellable s = c.queued ++ namesOf c.space (s.history.drop c.position) := by
  simp [tellable, catchUp_of_not_lags h, h]

/-- Catching up is no more than what the next poll would do. -/
theorem tellable_catchUp {c : Subscription} {s : Store} (hq : c.queued = []) :
    (c.catchUp s).tellable s = c.tellable s := by
  rw [tellable_of_not_lags (lags_catchUp c s), space_catchUp, tellable, hq, List.nil_append]
  cases h : c.lags s with
  | true => rw [catchUp_of_lags h, if_pos rfl]
  | false => rw [catchUp_of_not_lags h, hq, if_neg (by simp)]

theorem poll_catchUp {c : Subscription} {s : Store} (hq : c.queued = []) :
    (c.catchUp s).poll s = c.poll s := by
  unfold poll
  simp only [catchUp_of_not_lags (lags_catchUp c s), hq]
  cases h : (c.catchUp s).queued with
  | nil => simp only
  | cons n rest => rfl

/-! ## Polling -/

theorem namesOf_of_firstOf_eq_some {space n : String} {i : Nat} {as : List Announcement}
    (h : firstOf space as = some (n, i)) :
    namesOf space as = n :: namesOf space (as.drop i) ∧ i ≤ as.length := by
  induction as generalizing i with
  | nil => simp [firstOf] at h
  | cons a as ih =>
    rw [firstOf] at h
    by_cases ha : a.space = space
    · rw [if_pos ha] at h
      obtain ⟨rfl, rfl⟩ := Prod.mk.inj (Option.some.inj h)
      simp [namesOf, ha]
    · rw [if_neg ha] at h
      obtain ⟨⟨m, j⟩, hj, heq⟩ := Option.map_eq_some_iff.mp h
      obtain ⟨rfl, rfl⟩ := Prod.mk.inj heq
      obtain ⟨hn, hi⟩ := ih hj
      constructor
      · simpa [namesOf, ha] using hn
      · simpa using hi

theorem namesOf_of_firstOf_eq_none {space : String} {as : List Announcement}
    (h : firstOf space as = none) : namesOf space as = [] := by
  induction as with
  | nil => rfl
  | cons a as ih =>
    rw [firstOf] at h
    by_cases ha : a.space = space
    · simp [ha] at h
    · rw [if_neg ha, Option.map_eq_none_iff] at h
      simpa [namesOf, ha] using ih h

theorem poll_queued {c : Subscription} {s : Store} {n : String} {rest : List String}
    (h : c.queued = n :: rest) : c.poll s = (.event n, { c with queued := rest }) := by
  rw [poll, h]

theorem poll_history {c : Subscription} {s : Store} (hq : c.queued = [])
    (hl : c.lags s = false) : c.poll s = c.pollHistory s := by
  rw [poll, hq]
  simp only [catchUp_of_not_lags hl, hq]

theorem poll_of_tellable_nil {c : Subscription} {s : Store} (h : c.tellable s = []) :
    c.poll s = (idle s, c.done s) := by
  have hq : c.queued = [] := by
    rw [tellable, List.append_assoc] at h
    exact (List.append_eq_nil_iff.mp h).1
  rw [← tellable_catchUp hq, tellable_of_not_lags (lags_catchUp c s), space_catchUp,
    List.append_eq_nil_iff] at h
  obtain ⟨hqueued, hhistory⟩ := h
  rw [← poll_catchUp hq, poll_history hqueued (lags_catchUp c s), pollHistory, space_catchUp]
  cases hf : firstOf c.space (s.history.drop (c.catchUp s).position) with
  | none =>
    simp only [hqueued, idle, done, ← space_catchUp c s]
  | some r =>
    have := (namesOf_of_firstOf_eq_some hf).1
    rw [hhistory] at this
    exact absurd this (by simp)

theorem tellable_queued {c : Subscription} {s : Store} {n : String} {rest : List String}
    (h : c.queued = n :: rest) :
    c.tellable s = n :: tellable { c with queued := rest } s := by
  have hlags : lags { c with queued := rest } s = c.lags s := rfl
  have hposition : (catchUp { c with queued := rest } s).position = (c.catchUp s).position := by
    cases hl : c.lags s with
    | true => rw [catchUp_of_lags hl, catchUp_of_lags (hlags.trans hl)]
    | false => rw [catchUp_of_not_lags hl, catchUp_of_not_lags (hlags.trans hl)]
  rw [tellable, tellable, hlags, hposition, h]
  rfl

theorem pollHistory_of_namesOf_cons {c : Subscription} {s : Store} {n : String}
    {rest : List String} (hq : c.queued = []) (hl : c.lags s = false)
    (h : namesOf c.space (s.history.drop c.position) = n :: rest) :
    ∃ c', c.pollHistory s = (.event n, c') ∧ c'.space = c.space ∧ c'.tellable s = rest ∧
      c'.lags s = false ∧ (c.position ≤ s.history.length → c'.position ≤ s.history.length) := by
  cases hf : firstOf c.space (s.history.drop c.position) with
  | none =>
    rw [namesOf_of_firstOf_eq_none hf] at h
    exact absurd h (by simp)
  | some r =>
    obtain ⟨m, i⟩ := r
    obtain ⟨hnames, hi⟩ := namesOf_of_firstOf_eq_some hf
    obtain ⟨rfl, rfl⟩ := List.cons.inj (hnames.symm.trans h)
    have hl' : lags { c with position := c.position + i } s = false := by
      simp only [lags, decide_eq_false_iff_not] at hl ⊢
      omega
    refine ⟨{ c with position := c.position + i }, by rw [pollHistory, hf], rfl, ?_, hl', ?_⟩
    · rw [tellable_of_not_lags hl', List.drop_drop, hq]
      rfl
    · intro hle
      rw [List.length_drop] at hi
      show c.position + i ≤ s.history.length
      omega

/-- Polling takes off the first name that the subscription has to tell. -/
theorem poll_of_tellable_cons {c : Subscription} {s : Store} {n : String}
    {rest : List String} (h : c.tellable s = n :: rest) :
    ∃ c', c.poll s = (.event n, c') ∧ c'.space = c.space ∧ c'.tellable s = rest ∧
      (c.lags s = false → c'.lags s = false) ∧
      (c.position ≤ s.history.length → c'.position ≤ s.history.length) := by
  cases hq : c.queued with
  | cons m queued =>
    obtain ⟨rfl, rfl⟩ := List.cons.inj ((tellable_queued hq).symm.trans h)
    exact ⟨_, poll_queued hq, rfl, rfl, id, id⟩
  | nil =>
    -- with an empty queue the poll goes on from where catching up leads
    have hlags := lags_catchUp c s
    rw [← tellable_catchUp hq] at h
    rw [← poll_catchUp hq, ← space_catchUp c s]
    cases hq' : (c.catchUp s).queued with
    | cons m queued =>
      obtain ⟨rfl, rfl⟩ := List.cons.inj ((tellable_queued hq').symm.trans h)
      exact ⟨_, poll_queued hq', rfl, rfl, fun _ => hlags, fun hle => position_catchUp_le hle⟩
    | nil =>
      rw [tellable_of_not_lags hlags, hq', List.nil_append] at h
      obtain ⟨c', hpoll, hspace, hrest, hlags', hposition⟩ :=
        pollHistory_of_namesOf_cons hq' hlags h
      rw [poll_history hq' hlags]
      exact ⟨c', hpoll, hspace, hrest, fun _ => hlags',
        fun hle => hposition (position_catchUp_le hle)⟩

/-! ## Draining -/

theorem length_tellable_lt_bound (c : Subscription) (s : Store) :
    (c.tellable s).length < c.bound s := by
  have hnames : ∀ as : List Announcement, (namesOf c.space as).length ≤ as.length := by
    intro as
    rw [namesOf, List.length_map]
    exact List.length_filter_le _ _
  have hle := hnames (s.history.drop (c.catchUp s).position)
  have hl := lags_catchUp c s
  simp only [lags, decide_eq_false_iff_not] at hl
  rw [List.length_drop] at hle
  have hif : (if c.lags s then s.names c.space else []).length ≤ (s.names c.space).length := by
    split
    · exact Nat.le_refl _
    · exact Nat.zero_le _
  rw [tellable, List.length_append, List.length_append, bound]
  omega

theorem drainUpTo_of_length_lt {s : Store} {n : Nat} {c : Subscription}
    (h : (c.tellable s).length < n) :
    drainUpTo s n c = (c.tellable s, idle s, c.done s) := by
  induction n generalizing c with
  | zero => exact absurd h (Nat.not_lt_zero _)
  | succ n ih =>
    rw [drainUpTo]
    cases ht : c.tellable s with
    | nil =>
      rw [poll_of_tellable_nil ht]
      cases ho : s.isOpen with
      | true => simp only [idle, ho, if_true]
      | false => simp only [idle, ho, Bool.false_eq_true, if_false]
    | cons m rest =>
      obtain ⟨c', hpoll, hspace, hrest, -⟩ := poll_of_tellable_cons ht
      rw [ht, ← hrest, List.length_cons] at h
      rw [hpoll]
      simp only [ih (Nat.lt_of_succ_lt_succ h), hrest]
      simp only [done, hspace]

theorem drain_eq (c : Subscription) (s : Store) :
    c.drain s = (c.tellable s, idle s, c.done s) :=
  drainUpTo_of_length_lt (length_tellable_lt_bound c s)

theorem lags_done (c : Subscription) (s : Store) : (c.done s).lags s = false := by
  refine decide_eq_false ?_
  show ¬ s.history.length + keptAnnouncements < s.history.length
  omega

theorem tellable_done (c : Subscription) (s : Store) : (c.done s).tellable s = [] := by
  rw [tellable_of_not_lags (c.lags_done s), done]
  simp [namesOf]

/-! ## Names that have been told -/

/-- A subscription has told some of the names that it had to tell, and goes on
with the others. It does not fall behind by that. -/
structure Told (c : Subscription) (s : Store) (names : List String) (c' : Subscription) :
    Prop where
  space : c'.space = c.space
  position : c.position ≤ s.history.length → c'.position ≤ s.history.length
  abreast : c.lags s = false → c'.lags s = false
  tellable : c.tellable s = names ++ c'.tellable s

theorem told_nothing (c : Subscription) (s : Store) : c.Told s [] c :=
  ⟨rfl, id, id, rfl⟩

theorem told_all (c : Subscription) (s : Store) : c.Told s (c.tellable s) (c.done s) := by
  refine ⟨rfl, fun _ => Nat.le_refl _, fun _ => c.lags_done s, ?_⟩
  rw [tellable_done, List.append_nil]

/-- A poll tells one name, or reports that there is none to tell. -/
theorem poll_cases (c : Subscription) (s : Store) :
    (∃ n c', c.poll s = (.event n, c') ∧ c.Told s [n] c') ∨
      c.poll s = (idle s, c.done s) ∧ c.Told s [] (c.done s) := by
  cases ht : c.tellable s with
  | nil =>
    have hall := c.told_all s
    rw [ht] at hall
    exact Or.inr ⟨poll_of_tellable_nil ht, hall⟩
  | cons n rest =>
    obtain ⟨c', hpoll, hspace, hrest, habreast, hposition⟩ := poll_of_tellable_cons ht
    refine Or.inl ⟨n, c', hpoll, hspace, hposition, habreast, ?_⟩
    rw [ht, hrest]
    rfl

end PlaneAccess.Bundle.Subscription
