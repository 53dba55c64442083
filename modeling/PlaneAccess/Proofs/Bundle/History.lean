import PlaneAccess.Proofs.Bundle.Delivery

/-!
# Streams that keep up

A stream that never falls too far behind tells an exact history: first the
bundles that are there when it is opened, and then every announcement in its
namespace, in order and once. The reason is an account (`Exact`): what such a
stream has told, followed by what it has still to tell, is that history as far
as it has got. A step adds to both sides alike or moves names from the second
part to the first.
-/

namespace PlaneAccess.Bundle

namespace Subscription

/-- How many announcements a subscription has not seen, of all namespaces. -/
def unread (c : Subscription) (s : Store) : Nat := s.history.length - c.position

/-- The names that a subscription has still to tell if it keeps up. -/
def untold (c : Subscription) (s : Store) : List String :=
  c.queued ++ namesOf c.space (s.history.drop c.position)

theorem lags_of_unread_le {c : Subscription} {s : Store}
    (h : c.unread s ≤ keptAnnouncements) : c.lags s = false := by
  rw [unread] at h
  simp only [lags, decide_eq_false_iff_not]
  omega

theorem namesOf_append (space : String) (as bs : List Announcement) :
    namesOf space (as ++ bs) = namesOf space as ++ namesOf space bs := by
  rw [namesOf, List.filter_append, List.map_append]
  rfl

theorem untold_of_history {c : Subscription} {s s' : Store} {as : List Announcement}
    (hp : c.position ≤ s.history.length) (h : s'.history = s.history ++ as) :
    c.untold s' = c.untold s ++ namesOf c.space as := by
  rw [untold, untold, h, List.drop_append_of_le_length hp, namesOf_append, List.append_assoc]

theorem Told.untold {c c' : Subscription} {s : Store} {names : List String}
    (h : c.Told s names c') (hl : c.lags s = false) :
    c.untold s = names ++ c'.untold s ∧ c'.tellable s = c'.untold s := by
  have hc : c.tellable s = c.untold s := tellable_of_not_lags hl
  have hc' : c'.tellable s = c'.untold s := tellable_of_not_lags (h.abreast hl)
  refine ⟨?_, hc'⟩
  rw [← hc, ← hc']
  exact h.tellable

end Subscription

/-! ## What is announced -/

def Step.announcements : Step → List Announcement
  | .insert space name _ => [⟨space, name⟩]
  | .announce space names => names.map (Announcement.mk space)
  | _ => []

def Step.closes : Step → Bool
  | .close => true
  | _ => false

/-- What some steps announce in a store that is open before them: the
announcements of those before the store is closed. -/
def announced (ts : List Step) : List Announcement :=
  (ts.takeWhile (fun t => !t.closes)).flatMap Step.announcements

theorem Step.eq_close {t : Step} (h : t.closes = true) : t = .close := by
  cases t with
  | close => rfl
  | _ => cases h

theorem Step.history_onStore (s : Store) (t : Step) :
    (t.onStore s).history = s.history ++ if s.isOpen then t.announcements else [] := by
  cases ho : s.isOpen with
  | true =>
    cases t with
    | insert space name p => simp [onStore, Store.history_insert, ho, announcements]
    | announce space names => simp [onStore, Store.announceAll_eq, ho, announcements]
    | _ => simp [onStore, Store.close, announcements]
  | false =>
    cases t with
    | insert space name p => simp [onStore, Store.history_insert, ho]
    | announce space names => simp [onStore, Store.announceAll_eq, ho]
    | _ => simp [onStore, Store.close]

theorem Step.isOpen_onStore (s : Store) (t : Step) :
    (t.onStore s).isOpen = (s.isOpen && !t.closes) := by
  cases t with
  | insert space name p => simp [onStore, Store.isOpen_insert, closes]
  | announce space names => simp [onStore, Store.announceAll_eq, closes]
  | _ => simp [onStore, Store.close, closes]

theorem announced_cons (t : Step) (ts : List Step) :
    announced (t :: ts) = if t.closes then [] else t.announcements ++ announced ts := by
  cases h : t.closes with
  | true => simp [announced, h]
  | false => simp [announced, h]

theorem Step.mem_names_onStore {s : Store} {t : Step} {space n : String} :
    n ∈ (t.onStore s).names space ↔ n ∈ s.names space ∨ ∃ p, .insert space n p = t := by
  cases t with
  | insert space' n' p =>
    rw [onStore, Store.mem_names, Store.mem_names, Store.contains_insert, Bool.or_eq_true,
      decide_eq_true_eq, or_comm]
    constructor
    · rintro (hthere | ⟨rfl, rfl⟩)
      · exact Or.inl hthere
      · exact Or.inr ⟨p, rfl⟩
    · rintro (hthere | ⟨p', heq⟩)
      · exact Or.inl hthere
      · obtain ⟨rfl, rfl, -⟩ := Step.insert.inj heq
        exact Or.inr ⟨rfl, rfl⟩
  | announce space' names =>
    rw [onStore, Store.announceAll_eq]
    simp [Store.names, Store.bundles]
  | _ => simp [onStore, Store.close, Store.names, Store.bundles]

namespace Session

theorem history_after (s : Session) (ts : List Step) :
    (s.after ts).store.history =
      s.store.history ++ if s.store.isOpen then announced ts else [] := by
  induction ts generalizing s with
  | nil =>
    show s.store.history = s.store.history ++ _
    simp [announced]
  | cons t ts ih =>
    rw [after_cons, ih, step_store, Step.history_onStore, Step.isOpen_onStore, announced_cons]
    cases s.store.isOpen with
    | false => simp
    | true =>
      cases hc : t.closes with
      | true =>
        obtain rfl := Step.eq_close hc
        simp [Step.announcements]
      | false => simp

theorem isOpen_after (s : Session) (ts : List Step) :
    (s.after ts).store.isOpen = true ↔ s.store.isOpen = true ∧ .close ∉ ts := by
  induction ts generalizing s with
  | nil =>
    show s.store.isOpen = true ↔ _
    simp
  | cons t ts ih =>
    rw [after_cons, ih, step_store, Step.isOpen_onStore, Bool.and_eq_true, List.mem_cons,
      not_or, and_assoc]
    have hclose : (!t.closes) = true ↔ ¬ Step.close = t := by
      cases t with
      | close => simp [Step.closes]
      | _ => simp [Step.closes]
    rw [hclose]

theorem mem_names_after_iff {s : Session} {ts : List Step} {space n : String} :
    n ∈ (s.after ts).store.names space ↔
      n ∈ s.store.names space ∨ ∃ p, .insert space n p ∈ ts := by
  induction ts generalizing s with
  | nil =>
    show n ∈ s.store.names space ↔ _
    simp
  | cons t ts ih =>
    rw [after_cons, ih, step_store, Step.mem_names_onStore, or_assoc, ← exists_or]
    simp only [List.mem_cons]

theorem after_take_of_le {ts : List Step} {i j : Nat} (hij : i ≤ j) :
    start.after (ts.take j) = (start.after (ts.take i)).after ((ts.take j).drop i) := by
  have hmin : (ts.take j).take i = ts.take i := by
    rw [List.take_take, Nat.min_eq_left hij]
  rw [← after_append, ← hmin, List.take_append_drop]

/-! ## The account of a stream -/

/-- What the stream of a name has told, and what it has still to tell, is what
was there when the history had some length, and then what was announced. -/
def Exact (s : Session) (id space : String) (present : List String) (length : Nat)
    (told : List String) : Prop :=
  ∀ c, s.streams.get? id = some c →
    told ++ c.untold s.store =
      present ++ Subscription.namesOf space (s.store.history.drop length)

theorem exact_of_subscribe {s : Session} {id space : String}
    (ha : (s.step (.subscribe id space)).1 = .subscribed (.ok ())) :
    (s.step (.subscribe id space)).2.1.Exact id space (s.store.names space)
      s.store.history.length [] := by
  intro c hc
  have hget := (step_subscribed ha).2
  obtain rfl := Option.some.inj (hc.symm.trans hget)
  rw [step_store]
  rfl

theorem onStore_of_polls {t : Step} {id : String} (h : t.polls id = true) (s : Store) :
    t.onStore s = s := by
  cases t with
  | next id' => rfl
  | drain id' => rfl
  | _ => cases h

/-- A step that finds the stream near enough to the end of the history keeps
its account. -/
theorem exact_step {s : Session} {t : Step} {id space : String} {present told : List String}
    {length : Nat} (h : s.Exact id space present length told) (hlive : s.Live id space)
    (hlength : length ≤ s.store.history.length)
    (hk : replaces id (t, (s.step t).1) = false)
    (hnear : t.polls id = true → ∀ c, s.streams.get? id = some c →
      c.unread s.store ≤ keptAnnouncements) :
    (s.step t).2.1.Exact id space present length (told ++ tells id (t, (s.step t).1)) := by
  intro c' hc'
  rw [step_store]
  rcases stream_cases hk with ⟨hget, htells, -⟩ | ⟨hpolls, c, c₁, hread⟩
  · -- the history may get longer, and so does what is left to tell
    rw [hget] at hc'
    obtain ⟨rfl, hposition⟩ := hlive.faithful c' hc'
    have hhistory := Step.history_onStore s.store t
    have hbefore := h c' hc'
    rw [htells, List.append_nil, Subscription.untold_of_history hposition hhistory,
      ← List.append_assoc, hbefore, hhistory, List.drop_append_of_le_length hlength,
      Subscription.namesOf_append, List.append_assoc]
  · -- names are told that were left to tell
    have hbefore := h c hread.before
    have hlags := Subscription.lags_of_unread_le (hnear hpolls c hread.before)
    have htold := (hread.told.untold hlags).1
    rcases hread.goes with hafter | ⟨hafter, -⟩
    · obtain rfl := Option.some.inj (hafter.symm.trans hc')
      rw [onStore_of_polls hpolls, List.append_assoc, ← htold]
      exact hbefore
    · rw [hafter] at hc'
      cases hc'

/-- A stream that keeps up and reports to have told everything has told its
whole history. -/
theorem exact_reports {s : Session} {t : Step} {id space : String}
    {present told : List String} {length : Nat}
    (h : s.Exact id space present length told) (hk : replaces id (t, (s.step t).1) = false)
    (hnear : t.polls id = true → ∀ c, s.streams.get? id = some c →
      c.unread s.store ≤ keptAnnouncements)
    (hr : reports id (t, (s.step t).1) = true) :
    told ++ tells id (t, (s.step t).1) =
      present ++ Subscription.namesOf space (s.store.history.drop length) := by
  rcases stream_cases hk with ⟨-, -, hreports⟩ | ⟨hpolls, c, c', hread⟩
  · rw [hreports] at hr
    cases hr
  · have hlags := Subscription.lags_of_unread_le (hnear hpolls c hread.before)
    obtain ⟨htold, hrest⟩ := hread.told.untold hlags
    rw [hread.all hr] at hrest
    rw [← h c hread.before, htold, ← hrest, List.append_nil]

theorem ends_iff {s : Session} {t : Step} {id : String}
    (hr : reports id (t, (s.step t).1) = true) :
    ends id (t, (s.step t).1) = true ↔ s.store.isOpen = false := by
  rw [step_answer] at hr ⊢
  cases t with
  | next id' =>
    cases hc : s.streams.get? id' with
    | none => simp [act, hc, reports] at hr
    | some c =>
      simp only [act, hc] at hr ⊢
      rcases c.poll_cases s.store with ⟨n, c', hpoll, -⟩ | ⟨hpoll, -⟩
      · rw [hpoll] at hr
        cases hr
      · rw [hpoll] at hr ⊢
        cases ho : s.store.isOpen with
        | true => simp [Subscription.idle, ho, ends]
        | false =>
          simp only [Subscription.idle, ho, reports] at hr
          simpa [Subscription.idle, ho, ends] using hr
  | drain id' =>
    cases hc : s.streams.get? id' with
    | none => simp [act, hc, reports] at hr
    | some c =>
      simp only [act, hc, Subscription.drain_eq, reports] at hr ⊢
      cases ho : s.store.isOpen with
      | true => simp [Subscription.idle, ho, ends]
      | false => simpa [Subscription.idle, ho, ends] using hr
  | _ => exact absurd hr (by simp [reports])

/-! ## Whole runs -/

/-- What a run tells to the stream of a name from one step on and before
another. -/
def heard (id : String) (ts : List Step) (i j : Nat) : List String :=
  (((start.transcript ts).take j).drop i).flatMap (tells id)

theorem heard_succ {id : String} {ts : List Step} {i j : Nat} {x : Step × Answer}
    (hij : i ≤ j) (hx : (start.transcript ts)[j]? = some x) :
    heard id ts i (j + 1) = heard id ts i j ++ tells id x := by
  obtain ⟨hlt, -⟩ := List.getElem?_eq_some_iff.mp hx
  have hlen : i ≤ ((start.transcript ts).take j).length := by
    rw [List.length_take]
    omega
  rw [heard, List.take_add_one, hx, List.drop_append_of_le_length hlen, List.flatMap_append]
  simp [heard]

theorem heard_self (id : String) (ts : List Step) (i : Nat) : heard id ts i i = [] := by
  rw [heard, List.drop_eq_nil_of_le (List.length_take_le _ _)]
  rfl

theorem pairwise_names (s : Store) (space : String) : (s.names space).Pairwise (· < ·) :=
  List.pairwise_map.mpr (s.bundles space).increasing

section

variable {ts : List Step} {id space : String} {opened last : Nat}

theorem history_length_le (ts : List Step) {i : Nat} (ho : opened < i) :
    (start.after (ts.take opened)).store.history.length ≤
      (start.after (ts.take i)).store.history.length := by
  rw [after_take_of_le (Nat.le_of_lt ho), history_after _ ((ts.take i).drop opened),
    List.length_append]
  exact Nat.le_add_right _ _

/-- The account of a stream at each step of a run during which it keeps up. -/
theorem Subscribed.exact (h : Subscribed ts id space opened last) (hlen : last ≤ ts.length)
    (hnear : ∀ i t c, opened < i → i ≤ last → ts[i]? = some t → t.polls id = true →
      (start.after (ts.take i)).streams.get? id = some c →
      c.unread (start.after (ts.take i)).store ≤ keptAnnouncements)
    {i : Nat} (ho : opened < i) (hl : i ≤ last) :
    (start.after (ts.take i)).Exact id space
      ((start.after (ts.take opened)).store.names space)
      (start.after (ts.take opened)).store.history.length (heard id ts (opened + 1) i) := by
  induction i, ho using Nat.le_induction with
  | base =>
    rw [after_take_succ h.step.1, heard_self]
    exact exact_of_subscribe h.step.2
  | succ i ho ih =>
    have hli := Nat.le_of_succ_le hl
    have ht := List.getElem?_eq_getElem (Nat.lt_of_lt_of_le hl hlen)
    have hx : (start.transcript ts)[i]? =
        some (ts[i], ((start.after (ts.take i)).step ts[i]).1) := by
      rw [getElem?_transcript, ht]
      rfl
    rw [after_take_succ ht, heard_succ ho hx]
    exact exact_step (ih hli) (h.live hlen ho hli) (history_length_le ts ho) (h.kept ho hl ht)
      (fun hpolls c hc => hnear i _ c ho hli ht hpolls hc)

/-- A stream that keeps up tells an exact history. Whenever it reports to have
told everything it has told the bundles that were there when it was opened, in
order, and then all that was announced in its namespace since then, as it was
announced. It comes to its end only once the store is closed. -/
theorem exact_history (h : Subscribed ts id space opened last) (hol : opened < last)
    (hnear : ∀ i t c, opened < i → i ≤ last → ts[i]? = some t → t.polls id = true →
      (start.after (ts.take i)).streams.get? id = some c →
      c.unread (start.after (ts.take i)).store ≤ keptAnnouncements)
    {x : Step × Answer} (hx : (start.transcript ts)[last]? = some x)
    (hr : reports id x = true) :
    ∃ present : List String, present.Pairwise (· < ·) ∧
      (∀ n, n ∈ present ↔ ∃ p, .insert space n p ∈ ts.take opened) ∧
      heard id ts (opened + 1) (last + 1) =
        present ++ Subscription.namesOf space (announced ((ts.take last).drop (opened + 1))) ∧
      (ends id x = true ↔ .close ∈ (ts.take last).drop (opened + 1)) := by
  have hheard : heard id ts (opened + 1) (last + 1) = _ := heard_succ hol hx
  rw [getElem?_transcript, Option.map_eq_some_iff] at hx
  obtain ⟨t, ht, rfl⟩ := hx
  obtain ⟨hlt, -⟩ := List.getElem?_eq_some_iff.mp ht
  have hopened : (start.after (ts.take (opened + 1))).store =
      (start.after (ts.take opened)).store := by
    rw [after_take_succ h.step.1, step_store]
    rfl
  have hopen : (start.after (ts.take opened)).store.isOpen = true :=
    (step_subscribed h.step.2).1
  refine ⟨(start.after (ts.take opened)).store.names space, pairwise_names _ _, ?_, ?_, ?_⟩
  · intro n
    rw [mem_names_after_iff]
    exact or_iff_right List.not_mem_nil
  · have hk := replaces_of_reports hr
    have hexact := h.exact (Nat.le_of_lt hlt) hnear hol (Nat.le_refl last)
    have hend := exact_reports hexact hk
      (fun hpolls c hc => hnear last t c hol (Nat.le_refl last) ht hpolls hc) hr
    have hhistory : (start.after (ts.take last)).store.history =
        (start.after (ts.take opened)).store.history ++
          announced ((ts.take last).drop (opened + 1)) := by
      rw [after_take_of_le hol, history_after _ ((ts.take last).drop _), hopened, if_pos hopen]
    rw [hheard, hend, hhistory, List.drop_left]
  · rw [ends_iff hr, ← Bool.not_eq_true, after_take_of_le hol,
      isOpen_after _ ((ts.take last).drop _), hopened]
    simp [hopen]

end

/-- A run in which a stream has 64 announcements left to see when it is
drained at the end. -/
def atCapacity : List Step :=
  [.insert "plane" "b" .empty, .insert "plane" "a" .empty, .subscribe "late" "plane",
    .announce "elsewhere" (List.replicate 63 "noise"), .insert "plane" "c" .empty, .close,
    .drain "late"]

/-- At the limit the stream still keeps up. -/
theorem exact_history_at_capacity :
    ∃ present : List String, present.Pairwise (· < ·) ∧
      (∀ n, n ∈ present ↔ ∃ p, .insert "plane" n p ∈ atCapacity.take 2) ∧
      heard "late" atCapacity 3 7 =
        present ++ Subscription.namesOf "plane" (announced ((atCapacity.take 6).drop 3)) ∧
      (ends "late" (.drain "late", ((start.after (atCapacity.take 6)).step (.drain "late")).1) =
          true ↔
        .close ∈ (atCapacity.take 6).drop 3) := by
  have hsub : Subscribed atCapacity "late" "plane" 2 6 := by
    refine ⟨rfl, ?_⟩
    intro i ho hl x hx
    rw [getElem?_transcript] at hx
    obtain ⟨t, ht, rfl⟩ := Option.map_eq_some_iff.mp hx
    obtain rfl | rfl | rfl : i = 3 ∨ i = 4 ∨ i = 5 := by omega
    · obtain rfl := Option.some.inj ht
      rfl
    · obtain rfl := Option.some.inj ht
      rfl
    · obtain rfl := Option.some.inj ht
      rfl
  have hx : (start.transcript atCapacity)[6]? =
      some (.drain "late", ((start.after (atCapacity.take 6)).step (.drain "late")).1) := by
    rw [getElem?_transcript]
    rfl
  refine exact_history hsub (by decide) ?_ hx (by decide +kernel)
  intro i t c ho hl ht hpolls hc
  obtain rfl | rfl | rfl | rfl : i = 3 ∨ i = 4 ∨ i = 5 ∨ i = 6 := by omega
  · obtain rfl := Option.some.inj ht
    cases hpolls
  · obtain rfl := Option.some.inj ht
    cases hpolls
  · obtain rfl := Option.some.inj ht
    cases hpolls
  · have hget : (start.after (atCapacity.take 6)).streams.get? "late" =
        some ⟨"plane", ["a", "b"], 2⟩ := by decide +kernel
    obtain rfl := Option.some.inj (hc.symm.trans hget)
    decide +kernel

end Session

end PlaneAccess.Bundle
