import PlaneAccess.Bundle.Session
import PlaneAccess.Proofs.Bundle.Subscription

/-!
# Steps of a session

What one step does to the store (`step_store`) and to one stream
(`stream_cases`), and how the answers to a list of steps come about. Proofs
about whole runs go by these lemmas and do not look into steps again.
-/

namespace PlaneAccess.Bundle

/-! ## Stores that grow -/

namespace Store

/-- A store that another may have become: it has kept its bundles and its
history, and has not been opened again. -/
structure Later (s s' : Store) : Prop where
  names : ∀ space, s.names space ⊆ s'.names space
  history : s.history <+: s'.history
  isOpen : s'.isOpen = true → s.isOpen = true

theorem Later.refl (s : Store) : Later s s :=
  ⟨fun _ => List.Subset.refl _, List.prefix_refl _, id⟩

theorem later_insert (s : Store) (space name : String) (p : Payloads) :
    Later s (s.insert space name p) := by
  refine ⟨fun space' => names_subset_insert s space name space' p, ?_, ?_⟩
  · rw [history_insert]
    split
    · exact List.prefix_append _ _
    · exact List.prefix_refl _
  · rw [isOpen_insert]
    exact id

theorem later_announceAll (s : Store) (space : String) (names : List String) :
    Later s (s.announceAll space names) := by
  rw [announceAll_eq]
  refine ⟨fun _ => List.Subset.refl _, ?_, id⟩
  show s.history <+: if s.isOpen then _ else s.history
  split
  · exact List.prefix_append _ _
  · exact List.prefix_refl _

theorem later_close (s : Store) : Later s s.close :=
  ⟨fun _ => List.Subset.refl _, List.prefix_refl _, fun h => by cases h⟩

end Store

namespace Subscription

/-- The names of bundles that are there do not get lost, whatever else is
announced. -/
theorem mem_tellable_of_later {c : Subscription} {s s' : Store} {n : String}
    (h : s.Later s') (hn : n ∈ s.names c.space) (ht : n ∈ c.tellable s) :
    n ∈ c.tellable s' := by
  cases hl : c.lags s' with
  | true =>
    rw [tellable, if_pos hl]
    exact List.mem_append_left _ (List.mem_append_right _ (h.names _ hn))
  | false =>
    have hlen := h.history.length_le
    have hl₀ : c.lags s = false := by
      simp only [lags, decide_eq_false_iff_not] at hl ⊢
      omega
    rw [tellable_of_not_lags hl₀, List.mem_append, mem_namesOf] at ht
    rw [tellable_of_not_lags hl, List.mem_append, mem_namesOf]
    refine ht.imp id fun hd => ?_
    obtain ⟨later, hlater⟩ := h.history
    rw [← hlater, List.drop_append]
    exact List.mem_append_left _ hd

theorem mem_tellable_insert {c : Subscription} {s : Store} (n : String) (p : Payloads)
    (ho : s.isOpen = true) (hp : c.position ≤ s.history.length) :
    n ∈ c.tellable (s.insert c.space n p) := by
  cases hl : c.lags (s.insert c.space n p) with
  | true =>
    rw [tellable, if_pos hl]
    refine List.mem_append_left _ (List.mem_append_right _ ?_)
    rw [Store.mem_names, Store.contains_insert]
    simp
  | false =>
    rw [tellable_of_not_lags hl, List.mem_append, mem_namesOf, Store.history_insert,
      if_pos ho, List.drop_append_of_le_length hp]
    exact Or.inr (List.mem_append_right _ List.mem_cons_self)

theorem mem_of_mem_tellable {c : Subscription} {s : Store} {n : String}
    (h : n ∈ c.tellable s) :
    n ∈ c.queued ∨ n ∈ s.names c.space ∨ (⟨c.space, n⟩ : Announcement) ∈ s.history := by
  rw [tellable, List.mem_append, List.mem_append, mem_namesOf] at h
  rcases h with (hq | hl) | hh
  · exact Or.inl hq
  · split at hl
    · exact Or.inr (Or.inl hl)
    · exact absurd hl List.not_mem_nil
  · exact Or.inr (Or.inr (List.mem_of_mem_drop hh))

theorem queued_subset_tellable (c : Subscription) (s : Store) : c.queued ⊆ c.tellable s :=
  fun _ h => List.mem_append_left _ (List.mem_append_left _ h)

end Subscription

/-! ## One step -/

def Step.onStore (s : Store) : Step → Store
  | .insert space name p => s.insert space name p
  | .announce space names => s.announceAll space names
  | .close => s.close
  | _ => s

def Step.onClock (now : Nat) : Step → Nat
  | .advance d => now + d.toNanos
  | _ => now

theorem Step.later_onStore (s : Store) (t : Step) : s.Later (t.onStore s) := by
  cases t with
  | insert space name p => exact s.later_insert space name p
  | announce space names => exact s.later_announceAll space names
  | close => exact s.later_close
  | _ => exact Store.Later.refl s

def tells (id : String) : Step × Answer → List String
  | (.next id', .polled (.event n)) => if id' = id then [n] else []
  | (.drain id', .drained names _) => if id' = id then names else []
  | _ => []

def reports (id : String) : Step × Answer → Bool
  | (.next id', .polled .pending) => id' = id
  | (.next id', .polled .ended) => id' = id
  | (.drain id', .drained _ _) => id' = id
  | _ => false

def ends (id : String) : Step × Answer → Bool
  | (.next id', .polled .ended) => id' = id
  | (.drain id', .drained _ .ended) => id' = id
  | _ => false

def Step.polls (id : String) : Step → Bool
  | .next id' => id' = id
  | .drain id' => id' = id
  | _ => false

/-- Whether a step drops the stream of a name, or puts another in its stead. -/
def replaces (id : String) : Step × Answer → Bool
  | (.subscribe id' _, .subscribed (.ok _)) => id' = id
  | (.drop id', _) => id' = id
  | _ => false

namespace Session

/-! ### Streams that come and go -/

theorem get?_openStream (s : Session) (id id' : String) (c : Subscription) :
    (s.openStream id c).streams.get? id' = if id = id' then some c else s.streams.get? id' :=
  NameMap.get?_insert s.streams id id' c

theorem get?_dropStream (s : Session) (id id' : String) :
    (s.dropStream id).streams.get? id' = if id = id' then none else s.streams.get? id' :=
  NameMap.get?_erase s.streams id id'

theorem get?_putBack (s : Session) (id id' : String) (p : Poll) (c : Subscription) :
    (s.putBack id p c).streams.get? id' =
      if id = id' then (if p = .ended then none else some c) else s.streams.get? id' := by
  rw [putBack]
  split
  · rw [get?_dropStream]
  · rw [NameMap.get?_insert]

/-- Polling a stream does nothing to the store, the clock and the waits. -/
theorem putBack_keeps (s : Session) (id : String) (p : Poll) (c : Subscription) :
    (s.putBack id p c).store = s.store ∧ (s.putBack id p c).now = s.now ∧
      (s.putBack id p c).waits = s.waits := by
  rw [putBack]
  split
  · exact ⟨rfl, rfl, rfl⟩
  · exact ⟨rfl, rfl, rfl⟩

theorem act_store_now (s : Session) (t : Step) :
    (s.act t).2.1.store = t.onStore s.store ∧ (s.act t).2.1.now = t.onClock s.now := by
  cases t with
  | subscribe id space =>
    simp only [act]
    cases s.store.subscribe space with
    | error e => exact ⟨rfl, rfl⟩
    | ok c => exact ⟨rfl, rfl⟩
  | next id =>
    simp only [act]
    cases s.streams.get? id with
    | none => exact ⟨rfl, rfl⟩
    | some c =>
      obtain ⟨hstore, hnow, -⟩ := s.putBack_keeps id (c.poll s.store).1 (c.poll s.store).2
      exact ⟨hstore, hnow⟩
  | drain id =>
    simp only [act]
    cases s.streams.get? id with
    | none => exact ⟨rfl, rfl⟩
    | some c =>
      obtain ⟨hstore, hnow, -⟩ :=
        s.putBack_keeps id (c.drain s.store).2.1 (c.drain s.store).2.2
      exact ⟨hstore, hnow⟩
  | wait id r cancelled =>
    simp only [act]
    cases Wait.start s.store s.now r cancelled with
    | error e => exact ⟨rfl, rfl⟩
    | ok w => exact ⟨rfl, rfl⟩
  | cancel id =>
    simp only [act]
    cases s.waits.get? id with
    | none => exact ⟨rfl, rfl⟩
    | some w => exact ⟨rfl, rfl⟩
  | _ => exact ⟨rfl, rfl⟩

theorem step_store (s : Session) (t : Step) : (s.step t).2.1.store = t.onStore s.store :=
  (act_store_now s t).1

/-- Waits have no part in the answer to a step, nor in its streams. -/
theorem step_answer (s : Session) (t : Step) : (s.step t).1 = (s.act t).1 := rfl

theorem step_streams (s : Session) (t : Step) :
    (s.step t).2.1.streams = (s.act t).2.1.streams := rfl

theorem streams_advance (s : Session) (d : Duration) :
    (s.act (.advance d)).2.1.streams = s.streams := by
  -- the time is kept general, for it must not be computed
  have h : ∀ now : Nat, ({ s with now := now } : Session).streams = s.streams := fun _ => rfl
  exact h _

theorem waits_advance (s : Session) (d : Duration) :
    (s.act (.advance d)).2.1.waits = s.waits := by
  have h : ∀ now : Nat, ({ s with now := now } : Session).waits = s.waits := fun _ => rfl
  exact h _

theorem idle_going (c : Subscription) (s : Store) :
    (if Subscription.idle s = .ended then none else some (c.done s)) = some (c.done s) ∨
      (if Subscription.idle s = .ended then none else some (c.done s)) = none ∧
        s.isOpen = false ∧ (c.done s).tellable s = [] := by
  cases h : s.isOpen with
  | true => simp [Subscription.idle, h]
  | false => simp [Subscription.idle, h, c.tellable_done]

theorem tells_polled_idle (id id' : String) (s : Store) :
    tells id (.next id', .polled (Subscription.idle s)) = [] := by
  unfold Subscription.idle
  split
  · rfl
  · rfl

theorem next_of_ne {id id' : String} (h : id' ≠ id) (p : Poll) :
    tells id (.next id', .polled p) = [] ∧ reports id (.next id', .polled p) = false := by
  cases p with
  | event n => simp [tells, reports, h]
  | pending => simp [tells, reports, h]
  | ended => simp [tells, reports, h]

/-- A stream is read: it tells some of the names that there are to tell, and
goes on with the others. Only in a closed store it ends, and then with nothing
left to tell. -/
structure Read (s : Session) (id : String) (x : Step × Answer) (after : Option Subscription)
    (c c' : Subscription) : Prop where
  before : s.streams.get? id = some c
  told : c.Told s.store (tells id x) c'
  all : reports id x = true → c'.tellable s.store = []
  goes : after = some c' ∨ after = none ∧ s.store.isOpen = false ∧ c'.tellable s.store = []

/-- A step leaves a stream that it does not replace as it is, or reads it. -/
theorem stream_cases {s : Session} {t : Step} {id : String}
    (hk : replaces id (t, (s.step t).1) = false) :
    ((s.step t).2.1.streams.get? id = s.streams.get? id ∧ tells id (t, (s.step t).1) = [] ∧
        reports id (t, (s.step t).1) = false) ∨
      t.polls id = true ∧
        ∃ c c', s.Read id (t, (s.step t).1) ((s.step t).2.1.streams.get? id) c c' := by
  rw [step_answer] at hk
  rw [step_answer, step_streams]
  cases t with
  | subscribe id' space =>
    cases hs : s.store.subscribe space with
    | error e =>
      simp only [act, hs]
      exact Or.inl ⟨trivial, rfl, rfl⟩
    | ok c =>
      simp only [act, hs, replaces, decide_eq_false_iff_not] at hk ⊢
      rw [get?_openStream, if_neg hk]
      exact Or.inl ⟨rfl, rfl, rfl⟩
  | next id' =>
    cases hc : s.streams.get? id' with
    | none =>
      simp only [act, hc]
      exact Or.inl ⟨trivial, rfl, rfl⟩
    | some c =>
      simp only [act, hc, get?_putBack]
      by_cases hid : id' = id
      · subst hid
        rw [if_pos rfl]
        rcases c.poll_cases s.store with ⟨n, c', hpoll, htold⟩ | ⟨hpoll, htold⟩
        · -- with a name told the stream goes on
          rw [hpoll, if_neg (by simp)]
          refine Or.inr ⟨decide_eq_true rfl, c, c', hc, ?_, (fun h => by cases h), Or.inl rfl⟩
          rw [tells, if_pos rfl]
          exact htold
        · rw [hpoll]
          refine Or.inr ⟨decide_eq_true rfl, c, c.done s.store, hc, ?_,
            fun _ => c.tellable_done _, idle_going _ _⟩
          rw [tells_polled_idle]
          exact htold
      · rw [if_neg hid]
        exact Or.inl ⟨rfl, next_of_ne hid _⟩
  | drain id' =>
    cases hc : s.streams.get? id' with
    | none =>
      simp only [act, hc]
      exact Or.inl ⟨trivial, rfl, rfl⟩
    | some c =>
      simp only [act, hc, get?_putBack, Subscription.drain_eq]
      by_cases hid : id' = id
      · subst hid
        rw [if_pos rfl]
        refine Or.inr ⟨decide_eq_true rfl, c, c.done s.store, hc, ?_,
          fun _ => c.tellable_done _, idle_going _ _⟩
        rw [tells, if_pos rfl]
        exact c.told_all s.store
      · rw [if_neg hid]
        exact Or.inl ⟨rfl, by simp [tells, hid], by simp [reports, hid]⟩
  | drop id' =>
    simp only [act, replaces, decide_eq_false_iff_not] at hk ⊢
    rw [get?_dropStream, if_neg hk]
    exact Or.inl ⟨rfl, rfl, rfl⟩
  | wait id' r cancelled =>
    simp only [act]
    cases Wait.start s.store s.now r cancelled with
    | error e => exact Or.inl ⟨rfl, rfl, rfl⟩
    | ok w => exact Or.inl ⟨rfl, rfl, rfl⟩
  | cancel id' =>
    simp only [act]
    cases s.waits.get? id' with
    | none => exact Or.inl ⟨rfl, rfl, rfl⟩
    | some w => exact Or.inl ⟨rfl, rfl, rfl⟩
  | advance d =>
    rw [streams_advance]
    exact Or.inl ⟨rfl, rfl, rfl⟩
  | _ => exact Or.inl ⟨rfl, rfl, rfl⟩

/-- What one step makes of a stream that it does not replace. -/
theorem step_stream {s : Session} {t : Step} {id : String} {c : Subscription}
    (hc : s.streams.get? id = some c) (hk : replaces id (t, (s.step t).1) = false) :
    ∃ c', s.Read id (t, (s.step t).1) ((s.step t).2.1.streams.get? id) c c' := by
  rcases stream_cases hk with ⟨hget, htells, hreports⟩ | ⟨-, c₁, c', hread⟩
  · refine ⟨c, hc, ?_, fun h => ?_, Or.inl (hget.trans hc)⟩
    · rw [htells]
      exact c.told_nothing s.store
    · rw [hreports] at h
      cases h
  · obtain rfl := Option.some.inj (hread.before.symm.trans hc)
    exact ⟨c', hread⟩

theorem step_no_stream {s : Session} {t : Step} {id : String}
    (hc : s.streams.get? id = none) (hk : replaces id (t, (s.step t).1) = false) :
    (s.step t).2.1.streams.get? id = none ∧ tells id (t, (s.step t).1) = [] := by
  rcases stream_cases hk with ⟨hget, htells, -⟩ | ⟨-, c, c', hread⟩
  · exact ⟨hget.trans hc, htells⟩
  · cases hread.before.symm.trans hc

theorem step_subscribed {s : Session} {id space : String}
    (ha : (s.step (.subscribe id space)).1 = .subscribed (.ok ())) :
    s.store.isOpen = true ∧ (s.step (.subscribe id space)).2.1.streams.get? id =
      some ⟨space, s.store.names space, s.store.history.length⟩ := by
  rw [step_answer] at ha
  rw [step_streams]
  cases ho : s.store.isOpen with
  | false => simp [act, Store.subscribe, ho] at ha
  | true =>
    simp only [act, Store.subscribe, ho, if_true]
    rw [get?_openStream, if_pos rfl]
    exact ⟨trivial, rfl⟩

theorem step_replaced {s : Session} {t : Step} {id : String}
    (hk : replaces id (t, (s.step t).1) = true) :
    (s.step t).2.1.streams.get? id = none ∨
      ∃ space, (s.step t).2.1.streams.get? id =
        some ⟨space, s.store.names space, s.store.history.length⟩ := by
  cases t with
  | subscribe id' space =>
    cases hs : s.store.subscribe space with
    | error e => simp [step_answer, act, hs, replaces] at hk
    | ok c =>
      have ha : (s.step (.subscribe id' space)).1 = .subscribed (.ok ()) := by
        rw [step_answer, act, hs]
      rw [ha] at hk
      obtain rfl : id' = id := of_decide_eq_true hk
      exact Or.inr ⟨space, (step_subscribed ha).2⟩
  | drop id' =>
    rw [step_streams, act, get?_dropStream, if_pos (of_decide_eq_true hk)]
    exact Or.inl rfl
  | _ => exact absurd hk (by simp [replaces])

/-! ## Runs -/

def after (s : Session) (ts : List Step) : Session := (s.run ts).1

def transcript (s : Session) : List Step → List (Step × Answer)
  | [] => []
  | t :: ts => (t, (s.step t).1) :: (s.step t).2.1.transcript ts

theorem after_cons (s : Session) (t : Step) (ts : List Step) :
    s.after (t :: ts) = (s.step t).2.1.after ts := rfl

theorem after_append (s : Session) (ts us : List Step) :
    s.after (ts ++ us) = (s.after ts).after us := by
  induction ts generalizing s with
  | nil => rfl
  | cons t ts ih => rw [List.cons_append, after_cons, after_cons, ih]

theorem after_take_succ {s : Session} {ts : List Step} {i : Nat} {t : Step}
    (h : ts[i]? = some t) :
    s.after (ts.take (i + 1)) = ((s.after (ts.take i)).step t).2.1 := by
  rw [List.take_add_one, h, after_append]
  rfl

theorem getElem?_transcript (s : Session) (ts : List Step) (i : Nat) :
    (s.transcript ts)[i]? =
      ts[i]?.map (fun t => (t, ((s.after (ts.take i)).step t).1)) := by
  induction ts generalizing s i with
  | nil => rfl
  | cons t ts ih =>
    cases i with
    | zero => rfl
    | succ i =>
      rw [transcript, List.getElem?_cons_succ, ih, List.getElem?_cons_succ, List.take_succ_cons,
        after_cons]

end Session

end PlaneAccess.Bundle
