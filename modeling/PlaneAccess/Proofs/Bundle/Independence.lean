import PlaneAccess.Proofs.Bundle.History

/-!
# Streams side by side

What a stream is told does not depend on other streams and waits, though all
of them are served from one history (`Session.observed_eq`). A stream sees of
the store only its bundles and the announcements that it has not seen yet
(`Subscription.SameView`). So it does not even matter whether announcements are
kept while there is nobody to tell them to.
-/

namespace PlaneAccess.Bundle

/-! ## What a subscription sees -/

namespace Subscription

/-- Two subscriptions with two stores have the same before them: the same names
to tell first, and then the same announcements. -/
structure SameView (c : Subscription) (s : Store) (c' : Subscription) (s' : Store) : Prop where
  space : c'.space = c.space
  queued : c'.queued = c.queued
  ahead : s'.history.drop c'.position = s.history.drop c.position
  position : c.position ≤ s.history.length
  position' : c'.position ≤ s'.history.length

/-- The names that a subscription goes through again because it lags. -/
def replayed (c : Subscription) (s : Store) : Option (List String) :=
  if c.lags s then some (s.names c.space) else none

end Subscription

structure Store.Alike (s s' : Store) : Prop where
  spaces : s'.spaces = s.spaces
  isOpen : s'.isOpen = s.isOpen

theorem Store.Alike.names {s s' : Store} (h : s.Alike s') (space : String) :
    s'.names space = s.names space := by
  rw [Store.names, Store.names, Store.bundles, Store.bundles, h.spaces]

namespace Subscription

variable {c c' : Subscription} {s s' : Store}

theorem lags_iff : c.lags s = true ↔ keptAnnouncements < (s.history.drop c.position).length := by
  rw [lags, decide_eq_true_eq, List.length_drop]
  omega

theorem SameView.lags (h : c.SameView s c' s') : c'.lags s' = c.lags s := by
  rw [Bool.eq_iff_iff, lags_iff, lags_iff, h.ahead]

theorem SameView.replayed (hs : s.Alike s') (h : c.SameView s c' s') :
    c'.replayed s' = c.replayed s := by
  rw [Subscription.replayed, Subscription.replayed, h.lags, h.space, hs.names]

/-- What is ahead of a subscription that has caught up are the last of the
announcements that it had not seen. -/
theorem drop_position_of_lags (h : c.lags s = true) :
    s.history.drop (s.history.length - keptAnnouncements) =
      (s.history.drop c.position).drop
        ((s.history.drop c.position).length - keptAnnouncements) := by
  have hlags := lags_iff.mp h
  rw [List.drop_drop, List.length_drop]
  rw [List.length_drop] at hlags
  congr 1
  omega

theorem SameView.catchUp (hs : s.Alike s') (h : c.SameView s c' s') :
    (c.catchUp s).SameView s (c'.catchUp s') s' := by
  cases hl : c.lags s with
  | true =>
    have hl' := h.lags.trans hl
    rw [catchUp_of_lags hl, catchUp_of_lags hl']
    refine ⟨h.space, ?_, ?_, Nat.sub_le _ _, Nat.sub_le _ _⟩
    · rw [h.space]
      exact hs.names c.space
    · show s'.history.drop _ = s.history.drop _
      rw [drop_position_of_lags hl, drop_position_of_lags hl', h.ahead]
  | false =>
    rw [catchUp_of_not_lags hl, catchUp_of_not_lags (h.lags.trans hl)]
    exact h

theorem SameView.done (h : c.SameView s c' s') : (c.done s).SameView s (c'.done s') s' := by
  refine ⟨h.space, rfl, ?_, Nat.le_refl _, Nat.le_refl _⟩
  show s'.history.drop s'.history.length = s.history.drop s.history.length
  rw [List.drop_length, List.drop_length]

theorem idle_of_alike (hs : s.Alike s') : idle s' = idle s := by
  rw [idle, idle, hs.isOpen]

theorem SameView.pollHistory (hs : s.Alike s') (h : c.SameView s c' s') :
    (c'.pollHistory s').1 = (c.pollHistory s).1 ∧
      (c.pollHistory s).2.SameView s (c'.pollHistory s').2 s' := by
  rw [Subscription.pollHistory, Subscription.pollHistory, h.ahead, h.space]
  cases hf : firstOf c.space (s.history.drop c.position) with
  | none =>
    refine ⟨?_, rfl, h.queued, ?_, Nat.le_refl _, Nat.le_refl _⟩
    · simp only [hs.isOpen]
    · show s'.history.drop s'.history.length = s.history.drop s.history.length
      rw [List.drop_length, List.drop_length]
  | some r =>
    obtain ⟨name, n⟩ := r
    have hn := (namesOf_of_firstOf_eq_some hf).2
    have hn' := hn
    rw [← h.ahead] at hn'
    rw [List.length_drop] at hn hn'
    have hposition := h.position
    have hposition' := h.position'
    refine ⟨rfl, rfl, h.queued, ?_, ?_, ?_⟩
    · show s'.history.drop (c'.position + n) = s.history.drop (c.position + n)
      rw [← List.drop_drop, ← List.drop_drop, h.ahead]
    · show c.position + n ≤ s.history.length
      omega
    · show c'.position + n ≤ s'.history.length
      omega

/-- Subscriptions that see the same tell the same, and go on seeing the
same. -/
theorem SameView.poll (hs : s.Alike s') (h : c.SameView s c' s') :
    (c'.poll s').1 = (c.poll s).1 ∧ (c.poll s).2.SameView s (c'.poll s').2 s' := by
  cases hq : c.queued with
  | cons n rest =>
    rw [poll_queued hq, poll_queued (h.queued.trans hq)]
    exact ⟨rfl, h.space, rfl, h.ahead, h.position, h.position'⟩
  | nil =>
    have hcatch := h.catchUp hs
    rw [← poll_catchUp hq, ← poll_catchUp (h.queued.trans hq)]
    cases hq' : (c.catchUp s).queued with
    | cons n rest =>
      rw [poll_queued hq', poll_queued (hcatch.queued.trans hq')]
      exact ⟨rfl, hcatch.space, rfl, hcatch.ahead, hcatch.position, hcatch.position'⟩
    | nil =>
      rw [poll_history hq' (lags_catchUp c s),
        poll_history (hcatch.queued.trans hq') (lags_catchUp c' s')]
      exact hcatch.pollHistory hs

theorem SameView.tellable (hs : s.Alike s') (h : c.SameView s c' s') :
    c'.tellable s' = c.tellable s := by
  rw [Subscription.tellable, Subscription.tellable, h.queued, h.lags, h.space, hs.names,
    (h.catchUp hs).ahead]

theorem SameView.drain (hs : s.Alike s') (h : c.SameView s c' s') :
    (c'.drain s').1 = (c.drain s).1 ∧ (c'.drain s').2.1 = (c.drain s).2.1 ∧
      (c.drain s).2.2.SameView s (c'.drain s').2.2 s' := by
  rw [drain_eq, drain_eq]
  exact ⟨h.tellable hs, idle_of_alike hs, h.done⟩

end Subscription

/-! ## Steps -/

namespace Step

def isOf (id : String) : Step → Bool
  | .subscribe id' _ | .next id' | .drain id' | .drop id' => id' = id
  | _ => false

/-- What a step does to the store, with announcements one by one. -/
def shared : Step → List Step
  | .insert space name p => [.insert space name p]
  | .announce space names => names.map fun n => .announce space [n]
  | .close => [.close]
  | _ => []

/-- The part of a step that matters to the stream of a name. -/
def relevant (id : String) (t : Step) : List Step := if t.isOf id then [t] else t.shared

theorem isOf_of_mem_shared {id : String} {t u : Step} (h : u ∈ t.shared) :
    u.isOf id = false := by
  cases t with
  | insert space name p =>
    rw [List.mem_singleton.mp h]
    rfl
  | announce space names =>
    obtain ⟨n, -, rfl⟩ := List.mem_map.mp h
    rfl
  | close =>
    rw [List.mem_singleton.mp h]
    rfl
  | _ => exact absurd h List.not_mem_nil

theorem onStore_of_isOf {id : String} {t : Step} (h : t.isOf id = true) (s : Store) :
    t.onStore s = s := by
  cases t with
  | subscribe id' space => rfl
  | next id' => rfl
  | drain id' => rfl
  | drop id' => rfl
  | _ => cases h

theorem foldl_shared (t : Step) (s : Store) :
    t.shared.foldl (fun s u => u.onStore s) s = t.onStore s := by
  cases t with
  | announce space names =>
    rw [shared, List.foldl_map]
    rfl
  | _ => rfl

/-- Stores that are alike are so after the same step. -/
theorem alike_onStore {s s' : Store} (h : s.Alike s') (t : Step) :
    (t.onStore s).Alike (t.onStore s') := by
  constructor
  · cases t with
    | insert space name p =>
      simp only [onStore, Store.insert, Store.announce_eq, Store.bundles, h.spaces]
    | announce space names =>
      simp only [onStore, Store.announceAll_eq, h.spaces]
    | _ => exact h.spaces
  · rw [isOpen_onStore, isOpen_onStore, h.isOpen]

end Step

theorem Subscription.SameView.onStore {c c' : Subscription} {s s' : Store} (hs : s.Alike s')
    (h : c.SameView s c' s') (t : Step) : c.SameView (t.onStore s) c' (t.onStore s') := by
  have hposition := h.position
  have hposition' := h.position'
  refine ⟨h.space, h.queued, ?_, ?_, ?_⟩
  · rw [t.history_onStore, t.history_onStore, List.drop_append_of_le_length hposition,
      List.drop_append_of_le_length hposition', h.ahead, hs.isOpen]
  · rw [t.history_onStore, List.length_append]
    exact Nat.le_add_right_of_le hposition
  · rw [t.history_onStore, List.length_append]
    exact Nat.le_add_right_of_le hposition'

namespace Session

/-- Nothing is subscribed to the store of a session. -/
def isUnheard (s : Session) : Bool := s.streams.isEmpty && s.waits.isEmpty

/-- The session after a step. What is announced while nothing is subscribed is
kept as everything else, or is not kept. -/
def stepKeeping (keeps : Bool) (s : Session) (t : Step) : Session :=
  let s' := (s.step t).2.1
  if keeps || !s.isUnheard then s'
  else { s' with store := { s'.store with history := s.store.history } }

def replayed (s : Session) : Step → Option (List String)
  | .next id =>
    (s.streams.get? id).bind fun c => if c.queued.isEmpty then c.replayed s.store else none
  | .drain id => (s.streams.get? id).bind fun c => c.replayed s.store
  | _ => none

structure Observation where
  step : Step
  answer : Answer
  replayed : Option (List String)

/-- What a run shows to the one who has the stream of a name. -/
def observed (keeps : Bool) (id : String) (s : Session) : List Step → List Observation
  | [] => []
  | t :: ts =>
    (if t.isOf id then [⟨t, (s.step t).1, s.replayed t⟩] else []) ++
      (s.stepKeeping keeps t).observed keeps id ts

theorem observed_cons (keeps : Bool) (id : String) (s : Session) (t : Step) (ts : List Step) :
    s.observed keeps id (t :: ts) =
      (if t.isOf id then [⟨t, (s.step t).1, s.replayed t⟩] else []) ++
        (s.stepKeeping keeps t).observed keeps id ts := rfl

theorem stepKeeping_true (s : Session) (t : Step) : s.stepKeeping true t = (s.step t).2.1 := rfl

/-! ## Sessions alike -/

/-- There is no stream in either of two sessions, or one in each that sees the
same. -/
inductive SameStream (s s' : Store) : Option Subscription → Option Subscription → Prop where
  | none : SameStream s s' none none
  | some {c c' : Subscription} : c.SameView s c' s' → SameStream s s' (some c) (some c')

/-- Two sessions are alike for the one who has the stream of a name. -/
structure Alike (id : String) (s s' : Session) : Prop where
  store : s.store.Alike s'.store
  stream : SameStream s.store s'.store (s.streams.get? id) (s'.streams.get? id)

theorem Alike.refl_start (id : String) : Alike id start start := ⟨⟨rfl, rfl⟩, .none⟩

theorem SameStream.putBack {s s' : Store} {c c' : Subscription} (h : c.SameView s c' s')
    (p : Poll) :
    SameStream s s' (if p = .ended then Option.none else Option.some c)
      (if p = .ended then Option.none else Option.some c') := by
  split
  · exact .none
  · exact .some h

section

variable {id : String} {s s' : Session} {t : Step}

/-- A step with a stream shows the same in sessions that are alike, and leaves
them alike. -/
theorem Alike.step_of_isOf (h : Alike id s s') (ht : t.isOf id = true) :
    (s'.step t).1 = (s.step t).1 ∧ s'.replayed t = s.replayed t ∧
      Alike id (s.step t).2.1 (s'.step t).2.1 := by
  have hstore : (s.step t).2.1.store.Alike (s'.step t).2.1.store := by
    rw [step_store, step_store]
    exact Step.alike_onStore h.store t
  suffices hstream : (s'.step t).1 = (s.step t).1 ∧ s'.replayed t = s.replayed t ∧
      SameStream s.store s'.store ((s.step t).2.1.streams.get? id)
        ((s'.step t).2.1.streams.get? id) by
    obtain ⟨hanswer, hreplayed, hstream⟩ := hstream
    refine ⟨hanswer, hreplayed, hstore, ?_⟩
    rw [step_store, step_store, Step.onStore_of_isOf ht, Step.onStore_of_isOf ht]
    exact hstream
  have hs := h.store
  have hsame := h.stream
  rw [step_answer, step_answer, step_streams, step_streams]
  cases t with
  | subscribe id' space =>
    obtain rfl : id' = id := of_decide_eq_true ht
    simp only [act, Store.subscribe, hs.isOpen]
    cases s.store.isOpen with
    | false => exact ⟨rfl, rfl, hsame⟩
    | true =>
      refine ⟨rfl, rfl, ?_⟩
      simp only [if_true, get?_openStream]
      refine .some ⟨rfl, hs.names space, ?_, Nat.le_refl _, Nat.le_refl _⟩
      rw [List.drop_length, List.drop_length]
  | next id' =>
    obtain rfl : id' = id := of_decide_eq_true ht
    simp only [act, replayed]
    generalize ho : s.streams.get? id' = o, ho' : s'.streams.get? id' = o' at hsame ⊢
    cases hsame with
    | none =>
      simp only [ho, ho']
      exact ⟨trivial, rfl, .none⟩
    | @some c c' hview =>
      obtain ⟨hpoll, hview'⟩ := hview.poll hs
      simp only [get?_putBack, if_true, hpoll, Option.bind_some, hview.queued, hview.replayed hs]
      exact ⟨trivial, trivial, .putBack hview' _⟩
  | drain id' =>
    obtain rfl : id' = id := of_decide_eq_true ht
    simp only [act, replayed]
    generalize ho : s.streams.get? id' = o, ho' : s'.streams.get? id' = o' at hsame ⊢
    cases hsame with
    | none =>
      simp only [ho, ho']
      exact ⟨trivial, rfl, .none⟩
    | @some c c' hview =>
      obtain ⟨hnames, hpoll, hview'⟩ := hview.drain hs
      simp only [get?_putBack, if_true, hnames, hpoll, Option.bind_some, hview.replayed hs]
      exact ⟨trivial, trivial, .putBack hview' _⟩
  | drop id' =>
    obtain rfl : id' = id := of_decide_eq_true ht
    simp only [act, get?_dropStream, if_true, NameMap.contains]
    generalize s.streams.get? id' = o, s'.streams.get? id' = o' at hsame ⊢
    cases hsame with
    | none => exact ⟨rfl, rfl, .none⟩
    | some _ => exact ⟨rfl, rfl, .none⟩
  | _ => cases ht

/-- Other steps leave the stream of a name as it is. -/
theorem stream_of_not_isOf (ht : t.isOf id = false) :
    (s.step t).2.1.streams.get? id = s.streams.get? id := by
  have hreplaces : replaces id (t, (s.step t).1) = false := by
    cases t with
    | subscribe id' space =>
      cases (s.step (.subscribe id' space)).1 with
      | subscribed r =>
        cases r with
        | ok _ => exact ht
        | error _ => rfl
      | _ => rfl
    | drop id' => exact ht
    | _ => rfl
  rcases stream_cases hreplaces with ⟨hget, -⟩ | ⟨hpolls, -⟩
  · exact hget
  · cases t with
    | next id' => cases ht.symm.trans hpolls
    | drain id' => cases ht.symm.trans hpolls
    | _ => cases hpolls

theorem stream_of_isUnheard (h : s.isUnheard = true) (id : String) :
    s.streams.get? id = none := by
  rw [isUnheard, Bool.and_eq_true] at h
  rw [NameMap.get?, List.isEmpty_iff.mp h.1]
  rfl

/-- Announcements that are not kept were not ahead of the stream. -/
theorem alike_stepKeeping (h : Alike id s s') (ht : t.isOf id = false) (keeps : Bool)
    {s'' : Session} (hstore : s''.store = t.onStore s'.store)
    (hstream : s''.streams.get? id = s'.streams.get? id) :
    Alike id (s.stepKeeping keeps t) s'' := by
  have halike := Step.alike_onStore h.store t
  have hsame := h.stream
  unfold stepKeeping
  split
  · refine ⟨by rw [step_store, hstore]; exact halike, ?_⟩
    rw [step_store, hstore, hstream, stream_of_not_isOf ht]
    generalize s.streams.get? id = o, s'.streams.get? id = o' at hsame ⊢
    cases hsame with
    | none => exact .none
    | some hview => exact .some (hview.onStore h.store t)
  · rename_i hkeeps
    rw [Bool.or_eq_true, not_or, Bool.not_eq_true', Bool.not_eq_false] at hkeeps
    have hnone := stream_of_isUnheard hkeeps.2 id
    rw [hnone] at hsame
    refine ⟨⟨?_, ?_⟩, ?_⟩
    · rw [hstore, halike.spaces, ← step_store]
    · rw [hstore, halike.isOpen, ← step_store]
    · show SameStream _ _ ((s.step t).2.1.streams.get? id) _
      rw [stream_of_not_isOf ht, hnone, hstream]
      generalize s'.streams.get? id = o' at hsame ⊢
      cases hsame with
      | none => exact .none

/-- A step with a stream makes no announcements. -/
theorem stepKeeping_of_isOf (ht : t.isOf id = true) (keeps : Bool) :
    s.stepKeeping keeps t = (s.step t).2.1 := by
  have hstore : (s.step t).2.1.store = s.store := by
    rw [step_store, Step.onStore_of_isOf ht]
  unfold stepKeeping
  split
  · rfl
  · simp only [hstore]
    rw [← hstore]

/-! ## Whole runs -/

theorem after_of_not_isOf {us : List Step} (hus : ∀ u ∈ us, u.isOf id = false) :
    (s.after us).store = us.foldl (fun s u => u.onStore s) s.store ∧
      (s.after us).streams.get? id = s.streams.get? id := by
  induction us generalizing s with
  | nil => exact ⟨rfl, rfl⟩
  | cons u us ih =>
    obtain ⟨hstore, hstream⟩ :=
      ih (s := (s.step u).2.1) fun v hv => hus v (List.mem_cons_of_mem u hv)
    rw [after_cons, hstore, hstream, step_store, stream_of_not_isOf (hus u List.mem_cons_self)]
    exact ⟨rfl, rfl⟩

theorem observed_append {us : List Step} (hus : ∀ u ∈ us, u.isOf id = false) (ts : List Step) :
    s.observed true id (us ++ ts) = (s.after us).observed true id ts := by
  induction us generalizing s with
  | nil => rfl
  | cons u us ih =>
    rw [List.cons_append, observed_cons, hus u List.mem_cons_self, if_neg (by decide),
      List.nil_append, stepKeeping_true, ih fun v hv => hus v (List.mem_cons_of_mem u hv)]
    rfl

/-- A run shows to a stream what its relevant parts alone would show. -/
theorem observed_flatMap_relevant (h : Alike id s s') (keeps : Bool) (ts : List Step) :
    s.observed keeps id ts = s'.observed true id (ts.flatMap (Step.relevant id)) := by
  induction ts generalizing s s' with
  | nil => rfl
  | cons t ts ih =>
    rw [observed_cons, List.flatMap_cons, Step.relevant]
    cases ht : t.isOf id with
    | true =>
      obtain ⟨hanswer, hreplayed, hnext⟩ := h.step_of_isOf ht
      rw [if_pos rfl, if_pos rfl, stepKeeping_of_isOf ht, ih hnext, List.singleton_append,
        List.singleton_append, observed_cons, ht, if_pos rfl, hanswer, hreplayed, stepKeeping_true,
        List.singleton_append]
    | false =>
      have hshared : ∀ u ∈ t.shared, u.isOf id = false := fun u hu => Step.isOf_of_mem_shared hu
      obtain ⟨hstore, hstream⟩ := after_of_not_isOf (s := s') hshared
      rw [Step.foldl_shared] at hstore
      rw [if_neg (by decide), if_neg (by decide), List.nil_append, observed_append hshared]
      exact ih (alike_stepKeeping h ht keeps hstore hstream)

end

/-- Two runs with the same insertions, announcements and steps with the stream
of one name, in the same order, show the same to it. All else may differ: other
streams and waits, what time it is, and whether announcements are kept while
nothing is subscribed. -/
theorem observed_eq (id : String) {ts us : List Step}
    (h : ts.flatMap (Step.relevant id) = us.flatMap (Step.relevant id)) (keeps keeps' : Bool) :
    start.observed keeps id ts = start.observed keeps' id us := by
  rw [observed_flatMap_relevant (.refl_start id), h,
    ← observed_flatMap_relevant (.refl_start id) keeps']

/-- A stream that lags replays the same, whether or not there are others to
hear the announcements and however these are grouped. -/
theorem observed_eq_of_lagging :
    let ts : List Step :=
      [.announce "plane" ["lost"], .subscribe "a" "plane", .insert "plane" "config" .empty,
        .announce "elsewhere" (List.replicate 64 "noise"), .drain "a", .next "a", .close,
        .next "a"]
    let us : List Step :=
      [.subscribe "b" "plane", .announce "plane" ["lost"], .subscribe "a" "plane",
        .wait "w" ⟨"plane", "other", none⟩ false, .insert "plane" "config" .empty,
        .next "b", .announce "elsewhere" (List.replicate 30 "noise"), .drop "b", .cancel "w",
        .announce "elsewhere" (List.replicate 34 "noise"), .drain "a", .advance ⟨1, 0, by decide⟩,
        .next "a", .close, .next "a"]
    ts.flatMap (Step.relevant "a") = us.flatMap (Step.relevant "a") ∧
      start.observed false "a" ts = start.observed true "a" us ∧
      (start.observed true "a" us).map (·.replayed) = [none, some ["config"], none, none] := by
  intro ts us
  have h : ts.flatMap (Step.relevant "a") = us.flatMap (Step.relevant "a") := by rfl
  exact ⟨h, observed_eq "a" h false true, by decide +kernel⟩

end Session

end PlaneAccess.Bundle
