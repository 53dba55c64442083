import PlaneAccess.Proofs.Bundle.Independence

/-!
# Polling to the end

A subscription that is polled again and again while nothing else happens comes
to the end of what it has to tell. How much that can be is known beforehand,
since catching up leaves it with no more than the announcements that are kept
(`length_tellable_lt_bound`). For the same reason it catches up only once: a
replay that is due is made by one of the polls and by no other
(`Subscription.replays_of_poll`).
-/

namespace PlaneAccess.Bundle

namespace Subscription

variable {c : Subscription} {s : Store}

/-- What a poll replays: nothing as long as names are queued. -/
def replayedByPoll (c : Subscription) (s : Store) : Option (List String) :=
  if c.queued.isEmpty then c.replayed s else none

/-- The answers to so many polls in a row, each with what it replays. -/
def polls (s : Store) : Nat → Subscription → List (Poll × Option (List String))
  | 0, _ => []
  | n + 1, c => ((c.poll s).1, c.replayedByPoll s) :: polls s n (c.poll s).2

theorem polls_succ (s : Store) (n : Nat) (c : Subscription) :
    polls s (n + 1) c = ((c.poll s).1, c.replayedByPoll s) :: polls s n (c.poll s).2 := rfl

/-! ## Replays -/

theorem replayed_of_not_lags (h : c.lags s = false) : c.replayed s = none := by
  rw [replayed, h, if_neg (by decide)]

theorem replayed_of_poll_queued {n : String} {rest : List String} (h : c.queued = n :: rest) :
    c.replayedByPoll s = none ∧ (c.poll s).2.replayed s = c.replayed s := by
  rw [replayedByPoll, h, poll_queued h]
  exact ⟨rfl, rfl⟩

/-- Without names in the queue a poll catches up, so there is nothing left to
replay. -/
theorem replayed_of_poll_nil (h : c.queued = []) :
    c.replayedByPoll s = c.replayed s ∧ (c.poll s).2.replayed s = none := by
  refine ⟨by rw [replayedByPoll, h]; rfl, replayed_of_not_lags ?_⟩
  rw [← poll_catchUp h]
  rcases (c.catchUp s).poll_cases s with ⟨n, c', hpoll, htold⟩ | ⟨hpoll, htold⟩
  · rw [hpoll]
    exact htold.abreast (lags_catchUp c s)
  · rw [hpoll]
    exact htold.abreast (lags_catchUp c s)

theorem replays_of_poll (c : Subscription) (s : Store) :
    (c.replayedByPoll s).toList ++ ((c.poll s).2.replayed s).toList =
      (c.replayed s).toList := by
  cases hq : c.queued with
  | cons n rest =>
    obtain ⟨hnow, hlater⟩ := replayed_of_poll_queued (s := s) hq
    rw [hnow, hlater]
    rfl
  | nil =>
    obtain ⟨hnow, hlater⟩ := replayed_of_poll_nil (s := s) hq
    rw [hnow, hlater]
    exact List.append_nil _

theorem filterMap_polls_succ (s : Store) (n : Nat) (c : Subscription) :
    (polls s (n + 1) c).filterMap Prod.snd =
      (c.replayedByPoll s).toList ++ (polls s n (c.poll s).2).filterMap Prod.snd := by
  rw [polls_succ]
  cases c.replayedByPoll s with
  | none => rfl
  | some names => rfl

/-! ## Whole runs of polls -/

/-- Polled once more than it has names to tell, a subscription tells them all
and then reports that there are none left. -/
theorem answers_polls {names : List String} (h : c.tellable s = names) :
    (polls s (names.length + 1) c).map Prod.fst = names.map Poll.event ++ [idle s] := by
  -- the names that are left get fewer with each poll
  induction names generalizing c with
  | nil =>
    rw [List.length_nil, polls_succ, poll_of_tellable_nil h]
    rfl
  | cons n rest ih =>
    obtain ⟨c', hpoll, -, hrest, -⟩ := poll_of_tellable_cons h
    rw [List.length_cons, polls_succ, hpoll, List.map_cons, ih hrest]
    rfl

theorem replays_polls {names : List String} (h : c.tellable s = names) :
    (polls s (names.length + 1) c).filterMap Prod.snd = (c.replayed s).toList := by
  induction names generalizing c with
  | nil =>
    rw [List.length_nil, filterMap_polls_succ, ← c.replays_of_poll s, poll_of_tellable_nil h,
      replayed_of_not_lags (c.lags_done s)]
    rfl
  | cons n rest ih =>
    obtain ⟨c', hpoll, -, hrest, -⟩ := poll_of_tellable_cons h
    rw [List.length_cons, filterMap_polls_succ, ← c.replays_of_poll s, hpoll, ih hrest]

end Subscription

namespace Session

variable {s : Session} {id : String} {c : Subscription}

theorem step_next (hc : s.streams.get? id = some c) :
    (s.step (.next id)).1 = .polled (c.poll s.store).1 ∧
      s.replayed (.next id) = c.replayedByPoll s.store ∧
      (s.step (.next id)).2.1.store = s.store ∧
      (s.step (.next id)).2.1.streams.get? id =
        if (c.poll s.store).1 = .ended then none else some (c.poll s.store).2 := by
  refine ⟨?_, ?_, step_store s (.next id), ?_⟩
  · rw [step_answer]
    simp only [act, hc]
  · simp only [replayed, hc, Option.bind_some]
    rfl
  · rw [step_streams]
    simp only [act, hc]
    rw [get?_putBack, if_pos rfl]

/-- What steps show to the one who polls a stream is what its subscription
answers, up to the first answer that is no name. -/
theorem observed_polls {names : List String} (hc : s.streams.get? id = some c)
    (h : c.tellable s.store = names) :
    (s.observed true id (List.replicate (names.length + 1) (.next id))).map
        (fun o => (o.answer, o.replayed)) =
      (Subscription.polls s.store (names.length + 1) c).map fun x => (.polled x.1, x.2) := by
  have his : Step.isOf id (.next id) = true := decide_eq_true rfl
  induction names generalizing s c with
  | nil =>
    obtain ⟨hanswer, hreplayed, -, -⟩ := step_next hc
    rw [List.length_nil, List.replicate_succ, observed_cons, his, if_pos rfl, hanswer, hreplayed]
    rfl
  | cons n rest ih =>
    obtain ⟨hanswer, hreplayed, hstore, hstream⟩ := step_next hc
    obtain ⟨c', hpoll, -, hrest, -⟩ := Subscription.poll_of_tellable_cons h
    rw [hpoll, if_neg (by simp)] at hstream
    have hlater := ih hstream (by rw [hstore]; exact hrest)
    rw [List.length_cons, List.replicate_succ, observed_cons, his, if_pos rfl, hanswer, hreplayed,
      stepKeeping_true, List.map_append, hlater, hstore,
      Subscription.polls_succ _ (rest.length + 1), hpoll]
    rfl

/-- Polling a subscription comes to an end in every state of the store: after at
most as many names as are queued, as there are bundles in its namespace and as
announcements are kept, it reports that it has nothing more to tell. On the way
it replays the bundles at most once, and not at all unless it has more
announcements to see than are kept. In a session this is what the steps that
poll a stream show. -/
theorem polling_ends (c : Subscription) (s : Store) :
    ∃ (names : List String) (p : Poll),
      names.length ≤ c.queued.length + (s.names c.space).length + keptAnnouncements ∧
      (p = .pending ∨ p = .ended) ∧
      let seen := Subscription.polls s (names.length + 1) c
      seen.map Prod.fst = names.map Poll.event ++ [p] ∧
        (seen.filterMap Prod.snd).length ≤ 1 ∧
        (c.unread s ≤ keptAnnouncements → seen.filterMap Prod.snd = []) ∧
        ∀ (t : Session) (id : String), t.store = s → t.streams.get? id = some c →
          (t.observed true id (List.replicate (names.length + 1) (.next id))).map
              (fun o => (o.answer, o.replayed)) =
            seen.map fun x => (.polled x.1, x.2) := by
  refine ⟨c.tellable s, Subscription.idle s, ?_, ?_, Subscription.answers_polls rfl, ?_, ?_, ?_⟩
  · exact Nat.le_of_lt_succ (c.length_tellable_lt_bound s)
  · unfold Subscription.idle
    split
    · exact Or.inl rfl
    · exact Or.inr rfl
  · rw [Subscription.replays_polls rfl, Option.length_toList]
    split
    · exact Nat.le_refl 1
    · exact Nat.zero_le 1
  · intro hunread
    rw [Subscription.replays_polls rfl,
      Subscription.replayed_of_not_lags (Subscription.lags_of_unread_le hunread)]
    rfl
  · rintro t id rfl hc
    exact observed_polls hc rfl

/-- The bound is met by a subscription that has all three kinds of names to
tell. -/
example :
    let s := (start.after [.insert "plane" "a" .empty, .subscribe "late" "plane",
      .insert "plane" "b" .empty, .announce "plane" (List.replicate 64 "c")]).store
    let seen := Subscription.polls s 68 ⟨"plane", ["a"], 1⟩
    seen.map Prod.fst =
        ("a" :: "a" :: "b" :: List.replicate 64 "c").map Poll.event ++ [.pending] ∧
      seen.filterMap Prod.snd = [["a", "b"]] := by
  decide +kernel

end Session

end PlaneAccess.Bundle
