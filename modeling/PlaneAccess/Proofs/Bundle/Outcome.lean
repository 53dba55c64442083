import Mathlib.Data.List.Induction
import PlaneAccess.Proofs.Bundle.Session
import PlaneAccess.Proofs.Bundle.Wait

/-!
# How waits end

The first step that decides about a wait also ends it, and with the result
that the step stands for (`verdict`). Between steps a wait that goes on is
`Resting`: its subscription has nothing to tell, and nothing that could end it
has happened so far.
-/

namespace PlaneAccess.Bundle

/-! ## What decides about a wait -/

/-- How a step ends a wait that goes on, if it does. Of a burst of announcements
only those count that are kept. -/
def Step.verdict (id : String) (r : Request) (started now : Nat) : Step → Option Ending
  | .insert space name _ =>
    if space = r.space ∧ name = r.name then some .found else none
  | .announce space names =>
    if space = r.space ∧ r.name ∈ names.drop (names.length - keptAnnouncements) then
      some .found
    else none
  | .cancel id' => if id' = id then some (.failed .cancelled) else none
  | .advance d =>
    (r.timeout.filter (fun t => started + t.toNanos ≤ now + d.toNanos)).map
      (fun t => .failed (.timedOut t))
  | .close => some (.failed .subscriptionClosed)
  | _ => none

/-- How the first of some steps that decides ends a wait. -/
def firstVerdict (id : String) (r : Request) (started : Nat) :
    Nat → List Step → Option Ending
  | _, [] => none
  | now, t :: ts =>
    (t.verdict id r started now).or (firstVerdict id r started (t.onClock now) ts)

/-- How a wait ends that is started in a session, with some steps to come, if the
clock can show its deadline. -/
def verdict (s : Session) (id : String) (r : Request) (cancelled : Bool) (ts : List Step) :
    Option Ending :=
  if cancelled then some (.failed .cancelled)
  else if s.store.isOpen = false then
    some (.failed (.subscription ("namespace " ++ r.space ++ ": store closed")))
  else if s.store.contains r.space r.name then some .found
  else firstVerdict id r s.now s.now ts

def resultsOf (id : String) (es : Ended) : List Ending :=
  (es.filter (fun e => e.1 = id)).map Prod.snd

def Step.starts (id : String) : Step → Bool
  | .wait id' _ _ => id' = id
  | _ => false

theorem resultsOf_append (id : String) (es fs : Ended) :
    resultsOf id (es ++ fs) = resultsOf id es ++ resultsOf id fs := by
  rw [resultsOf, List.filter_append, List.map_append]
  rfl

/-! ## Waits between steps -/

namespace Wait

/-- A wait goes on, and nothing has happened so far that ends it. -/
structure Resting (w : Wait) (s : Store) (now : Nat) : Prop where
  isOpen : s.isOpen = true
  subscription : w.subscription = ⟨w.request.space, [], s.history.length⟩
  absent : s.contains w.request.space w.request.name = false
  cancelled : w.cancelled = false
  expired : w.request.expired w.started now = none

theorem settle_eq (w : Wait) (s : Store) (now : Nat) :
    w.settle s now =
      if w.request.name ∈ w.subscription.tellable s then .ended .found
      else if s.isOpen = false then .ended (.failed .subscriptionClosed)
      else if w.cancelled then .ended (.failed .cancelled)
      else
        match w.request.expired w.started now with
        | some t => .ended (.failed (.timedOut t))
        | none => .waiting { w with subscription := w.subscription.done s } := by
  rw [settle, Subscription.drain_eq]
  simp only [signals, Stage.run_append, Stage.run_told]
  by_cases hname : w.request.name ∈ w.subscription.tellable s
  · rw [if_pos hname, if_pos hname, Stage.run_ended, Stage.run_ended, Stage.run_ended]
  · rw [if_neg hname, if_neg hname]
    cases ho : s.isOpen with
    | false =>
      have hclosed : Stage.run w.request w.started .listening [.closed] =
          .ended (.failed .subscriptionClosed) := rfl
      rw [if_pos (Subscription.idle_eq_ended.mpr ho), if_pos rfl, hclosed, Stage.run_ended,
        Stage.run_ended]
    | true =>
      have hopen : Stage.run w.request w.started .listening [] = .listening := rfl
      rw [if_neg (by simp [Subscription.idle_eq_ended, ho]), hopen]
      cases w.cancelled with
      | true =>
        have hcancelled : Stage.run w.request w.started .listening [.cancelled] =
            .ended (.failed .cancelled) := rfl
        rw [if_pos rfl, hcancelled, Stage.run_ended]
        rfl
      | false =>
        have htime : Stage.run w.request w.started .listening [.time now] =
            Stage.next w.request w.started .listening (.time now) := rfl
        rw [if_neg (by decide), hopen, htime, Stage.next_time rfl]
        cases w.request.expired w.started now with
        | none => rfl
        | some t => rfl

end Wait

namespace Subscription

theorem mem_tellable_done_insert (space n space' name : String) {s : Store} (p : Payloads)
    (ho : s.isOpen = true) :
    n ∈ tellable ⟨space, [], s.history.length⟩ (s.insert space' name p) ↔
      space' = space ∧ name = n := by
  have hl : lags ⟨space, [], s.history.length⟩ (s.insert space' name p) = false := by
    refine decide_eq_false ?_
    rw [Store.history_insert, if_pos ho, List.length_append]
    show ¬ s.history.length + keptAnnouncements < s.history.length + 1
    rw [keptAnnouncements]
    omega
  rw [tellable_of_not_lags hl, List.nil_append, mem_namesOf, Store.history_insert, if_pos ho,
    List.drop_left, List.mem_singleton, Announcement.mk.injEq]
  exact and_congr eq_comm eq_comm

theorem mem_tellable_done_announceAll {space n : String} (space' : String) (names : List String)
    {s : Store} (ho : s.isOpen = true) (hn : n ∉ s.names space) :
    n ∈ tellable ⟨space, [], s.history.length⟩ (s.announceAll space' names) ↔
      space' = space ∧ n ∈ names.drop (names.length - keptAnnouncements) := by
  obtain ⟨burst, hburst⟩ : ∃ as, as = names.map (Announcement.mk space') := ⟨_, rfl⟩
  have hs : s.announceAll space' names = { s with history := s.history ++ burst } := by
    rw [Store.announceAll_eq, if_pos ho, hburst]
  have hlength : burst.length = names.length := by
    rw [hburst, List.length_map]
  have hmem : ∀ k, (⟨space, n⟩ : Announcement) ∈ burst.drop k ↔
      space' = space ∧ n ∈ names.drop k := by
    intro k
    rw [hburst, ← List.map_drop, List.mem_map]
    constructor
    · rintro ⟨m, hm, heq⟩
      obtain ⟨rfl, rfl⟩ := Announcement.mk.inj heq
      exact ⟨rfl, hm⟩
    · rintro ⟨rfl, hm⟩
      exact ⟨n, hm, rfl⟩
  rw [hs]
  cases hl : lags ⟨space, [], s.history.length⟩ { s with history := s.history ++ burst } with
  | true =>
    -- catching up tells no name that is not there, and then what is kept of the burst
    have hnames : n ∉ ({ s with history := s.history ++ burst } : Store).names space := hn
    have hlen := of_decide_eq_true hl
    rw [tellable, if_pos hl, catchUp_of_lags hl, List.nil_append, List.mem_append, mem_namesOf,
      or_iff_right hnames]
    simp only [List.length_append, hlength] at hlen ⊢
    rw [Nat.add_sub_assoc (by omega), List.drop_append, List.drop_eq_nil_of_le (by omega),
      List.nil_append, Nat.add_sub_cancel_left]
    exact hmem _
  | false =>
    -- the whole burst is kept
    have hlen := of_decide_eq_false hl
    simp only [List.length_append, hlength] at hlen
    rw [tellable_of_not_lags hl, List.nil_append, mem_namesOf, List.drop_left,
      Nat.sub_eq_zero_of_le (by omega), ← hmem 0, List.drop_zero]

theorem tellable_done_self (space : String) (s : Store) :
    tellable ⟨space, [], s.history.length⟩ s = [] :=
  tellable_done ⟨space, [], 0⟩ s

end Subscription

namespace Wait

def onStep (id : String) (w : Wait) : Step → Wait
  | .cancel id' => if id' = id then { w with cancelled := true } else w
  | _ => w

theorem settle_of_quiet {w : Wait} {s : Store} {now : Nat}
    (hn : w.request.name ∉ w.subscription.tellable s) (ho : s.isOpen = true)
    (hc : w.cancelled = false) (he : w.request.expired w.started now = none) :
    w.settle s now = .waiting { w with subscription := w.subscription.done s } := by
  rw [settle_eq, if_neg hn, if_neg (by simp [ho]), if_neg (by simp [hc]), he]

/-- A wait that goes on ends as it is told, if it is, and else comes to rest. -/
def Obeys (w : Wait) (s : Store) (now : Nat) : Option Ending → Prop
  | some e => w.settle s now = .ended e
  | none => ∃ w', w.settle s now = .waiting w' ∧ w'.request = w.request ∧
      w'.started = w.started ∧ w'.Resting s now

theorem obeys_none {w : Wait} {s : Store} {now : Nat}
    (hs : w.subscription.space = w.request.space)
    (hn : w.request.name ∉ w.subscription.tellable s) (ho : s.isOpen = true)
    (ha : s.contains w.request.space w.request.name = false) (hc : w.cancelled = false)
    (he : w.request.expired w.started now = none) : w.Obeys s now none := by
  refine ⟨_, settle_of_quiet hn ho hc he, rfl, rfl, ho, ?_, ha, hc, he⟩
  show w.subscription.done s = ⟨w.request.space, [], s.history.length⟩
  rw [Subscription.done, hs]

theorem Resting.quiet {w : Wait} {s : Store} {now : Nat} (h : w.Resting s now) :
    w.request.name ∉ w.subscription.tellable s := by
  rw [h.subscription, Subscription.tellable_done_self]
  exact List.not_mem_nil

theorem Resting.settle {w : Wait} {s : Store} {now : Nat} (h : w.Resting s now) :
    w.settle s now = .waiting w := by
  rw [settle_of_quiet h.quiet h.isOpen h.cancelled h.expired]
  congr
  rw [h.subscription]
  rfl

/-- What a step does to a wait at rest: it ends it, or leaves it at rest. -/
theorem Resting.step {w : Wait} {s : Store} {now : Nat} (h : w.Resting s now) (id : String)
    (t : Step) :
    (w.onStep id t).Obeys (t.onStore s) (t.onClock now)
      (t.verdict id w.request w.started now) := by
  have hname : w.request.name ∉ s.names w.request.space := by
    rw [Store.mem_names, h.absent]
    exact Bool.false_ne_true
  have hspace : w.subscription.space = w.request.space := by
    rw [h.subscription]
  -- the steps that have nothing to do with the wait
  have hrest : w.Obeys s now none := ⟨w, h.settle, rfl, rfl, h⟩
  cases t with
  | insert space name p =>
    have hmem := Subscription.mem_tellable_done_insert w.request.space w.request.name space name p
      h.isOpen
    rw [← h.subscription] at hmem
    by_cases hv : space = w.request.space ∧ name = w.request.name
    · rw [Step.verdict, if_pos hv]
      show w.settle (s.insert space name p) now = _
      rw [settle_eq, if_pos (hmem.mpr hv)]
    · have ho := (Store.isOpen_insert s space name p).trans h.isOpen
      rw [Step.verdict, if_neg hv]
      refine obeys_none hspace (fun hn => hv (hmem.mp hn)) ho ?_ h.cancelled h.expired
      show (s.insert space name p).contains w.request.space w.request.name = false
      rw [Store.contains_insert, h.absent, Bool.or_false]
      exact decide_eq_false hv
  | announce space names =>
    have hmem := Subscription.mem_tellable_done_announceAll space names h.isOpen hname
    rw [← h.subscription] at hmem
    by_cases hv : space = w.request.space ∧
        w.request.name ∈ names.drop (names.length - keptAnnouncements)
    · rw [Step.verdict, if_pos hv]
      show w.settle (s.announceAll space names) now = _
      rw [settle_eq, if_pos (hmem.mpr hv)]
    · have ho : (s.announceAll space names).isOpen = true := by
        rw [Store.announceAll_eq, h.isOpen]
      rw [Step.verdict, if_neg hv]
      refine obeys_none hspace (fun hn => hv (hmem.mp hn)) ho ?_ h.cancelled h.expired
      show (s.announceAll space names).contains w.request.space w.request.name = false
      rw [Store.announceAll_eq]
      exact h.absent
  | close =>
    -- closing announces nothing more
    have hquiet : w.request.name ∉ w.subscription.tellable s.close := by
      rw [h.subscription]
      exact (Subscription.tellable_done_self w.request.space s.close).symm ▸ List.not_mem_nil
    show w.settle s.close now = _
    rw [settle_eq, if_neg hquiet, if_pos (show s.close.isOpen = false from rfl)]
  | cancel id' =>
    by_cases hv : id' = id
    · rw [Step.verdict, if_pos hv, onStep, if_pos hv]
      show Wait.settle s now { w with cancelled := true } = _
      rw [settle_eq, if_neg h.quiet, if_neg (by simp [h.isOpen]), if_pos rfl]
    · rw [Step.verdict, if_neg hv, onStep, if_neg hv]
      exact hrest
  | advance d =>
    have hv : Step.verdict id w.request w.started now (.advance d) =
        (w.request.expired w.started (now + d.toNanos)).map (fun t => .failed (.timedOut t)) := rfl
    rw [hv]
    cases he : w.request.expired w.started (now + d.toNanos) with
    | some t =>
      show w.settle s (now + d.toNanos) = _
      rw [settle_eq, if_neg h.quiet, if_neg (by simp [h.isOpen]), if_neg (by simp [h.cancelled]),
        he]
    | none => exact obeys_none hspace h.quiet h.isOpen h.absent h.cancelled he
  | _ => exact hrest

end Wait

/-! ## Waits of a session -/

namespace Progress

def going : Progress → Option Wait
  | .waiting w => some w
  | .ended _ => none

def ending? : Progress → Option Ending
  | .waiting _ => none
  | .ended e => some e

end Progress

namespace Session

theorem keys_settleAll_sublist (store : Store) (now : Nat) (ws : List (String × Wait)) :
    ((settleAll store now ws).1.map Prod.fst).Sublist (ws.map Prod.fst) := by
  induction ws with
  | nil => exact List.Sublist.refl _
  | cons e ws ih =>
    obtain ⟨id, w⟩ := e
    rw [settleAll]
    cases hw : w.settle store now with
    | waiting w' => exact ih.cons_cons id
    | ended r => exact ih.cons id

theorem settleAll_spec (store : Store) (now : Nat) {ws : List (String × Wait)}
    (h : Increasing ws) (id : String) :
    NameMap.lookup id (settleAll store now ws).1 =
        (NameMap.lookup id ws).bind (fun w => (w.settle store now).going) ∧
      resultsOf id (settleAll store now ws).2 =
        ((NameMap.lookup id ws).bind (fun w => (w.settle store now).ending?)).toList := by
  induction ws with
  | nil => exact ⟨rfl, rfl⟩
  | cons e ws ih =>
    obtain ⟨id', w⟩ := e
    obtain ⟨hhead, htail⟩ := List.pairwise_cons.mp h
    obtain ⟨hgoing, hresults⟩ := ih htail
    -- there is one wait of a name at most
    have habsent : id' = id → NameMap.lookup id ws = none := by
      rintro rfl
      exact NameMap.lookup_eq_none_of_lt hhead
    by_cases hid : id' = id
    · rw [habsent hid] at hgoing hresults
      rw [settleAll, NameMap.lookup, if_pos hid]
      cases hw : w.settle store now with
      | waiting w' =>
        refine ⟨?_, ?_⟩
        · rw [NameMap.lookup, if_pos hid]
          simp [hw, Progress.going]
        · simpa [hw, Progress.ending?] using hresults
      | ended r =>
        refine ⟨?_, ?_⟩
        · simpa [hw, Progress.going] using hgoing
        · simpa [hw, resultsOf, hid, Progress.ending?] using hresults
    · rw [settleAll, NameMap.lookup, if_neg hid]
      cases hw : w.settle store now with
      | waiting w' =>
        refine ⟨?_, hresults⟩
        rw [NameMap.lookup, if_neg hid]
        exact hgoing
      | ended r =>
        refine ⟨hgoing, ?_⟩
        rw [← hresults, resultsOf, List.filter_cons_of_neg (by simpa using hid)]
        rfl

theorem settle_spec (s : Session) (id : String) :
    s.settle.1.waits.get? id =
        (s.waits.get? id).bind (fun w => (w.settle s.store s.now).going) ∧
      resultsOf id s.settle.2 =
        ((s.waits.get? id).bind (fun w => (w.settle s.store s.now).ending?)).toList := by
  have hincreasing : Increasing (settleAll s.store s.now s.waits.toList).1 := by
    have hkeys := List.Pairwise.sublist (keys_settleAll_sublist s.store s.now s.waits.toList)
      (List.pairwise_map.mpr s.waits.increasing)
    exact List.pairwise_map.mp hkeys
  obtain ⟨hgoing, hresults⟩ := settleAll_spec s.store s.now s.waits.increasing id
  refine ⟨?_, hresults⟩
  show (NameMap.ofList (settleAll s.store s.now s.waits.toList).1).get? id = _
  rw [NameMap.ofList, NameMap.get?_foldl_insert _ hincreasing, NameMap.get?_empty, Option.or_none]
  exact hgoing

theorem act_waits (s : Session) {t : Step} {id : String} (hs : t.starts id = false) :
    (s.act t).2.1.waits.get? id = (s.waits.get? id).map (fun w => w.onStep id t) ∧
      resultsOf id (s.act t).2.2 = [] := by
  -- most steps leave the wait as it is
  have hsame : (∀ w : Wait, w.onStep id t = w) →
      s.waits.get? id = (s.waits.get? id).map (fun w => w.onStep id t) := by
    intro h
    simp [h]
  cases t with
  | subscribe id' space =>
    simp only [act]
    cases s.store.subscribe space with
    | error e => exact ⟨hsame fun _ => rfl, rfl⟩
    | ok c => exact ⟨hsame fun _ => rfl, rfl⟩
  | next id' =>
    simp only [act]
    cases s.streams.get? id' with
    | none => exact ⟨hsame fun _ => rfl, rfl⟩
    | some c =>
      obtain ⟨-, -, hwaits⟩ := s.putBack_keeps id' (c.poll s.store).1 (c.poll s.store).2
      exact ⟨(congrArg (NameMap.get? · id) hwaits).trans (hsame fun _ => rfl), rfl⟩
  | drain id' =>
    simp only [act]
    cases s.streams.get? id' with
    | none => exact ⟨hsame fun _ => rfl, rfl⟩
    | some c =>
      obtain ⟨-, -, hwaits⟩ := s.putBack_keeps id' (c.drain s.store).2.1 (c.drain s.store).2.2
      exact ⟨(congrArg (NameMap.get? · id) hwaits).trans (hsame fun _ => rfl), rfl⟩
  | wait id' r cancelled =>
    have hid := of_decide_eq_false hs
    simp only [act]
    cases Wait.start s.store s.now r cancelled with
    | error e => exact ⟨hsame fun _ => rfl, by simp [resultsOf, hid]⟩
    | ok w =>
      refine ⟨?_, rfl⟩
      rw [NameMap.get?_insert, if_neg hid]
      exact hsame fun _ => rfl
  | cancel id' =>
    simp only [act]
    cases hw : s.waits.get? id' with
    | none =>
      refine ⟨?_, rfl⟩
      by_cases hid : id' = id
      · subst hid
        rw [hw]
        rfl
      · exact hsame fun w => by rw [Wait.onStep, if_neg hid]
    | some w =>
      refine ⟨?_, rfl⟩
      rw [NameMap.get?_insert]
      by_cases hid : id' = id
      · subst hid
        rw [if_pos rfl, hw]
        simp [Wait.onStep]
      · rw [if_neg hid]
        exact hsame fun w => by rw [Wait.onStep, if_neg hid]
  | advance d =>
    exact ⟨(congrArg (NameMap.get? · id) (waits_advance s d)).trans (hsame fun _ => rfl), rfl⟩
  | _ => exact ⟨hsame fun _ => rfl, rfl⟩

/-- What a step does to the wait of a name that it does not start. -/
theorem step_wait (s : Session) {t : Step} {id : String} (hs : t.starts id = false) :
    (s.step t).2.1.waits.get? id =
        (s.waits.get? id).bind
          (fun w => ((w.onStep id t).settle (t.onStore s.store) (t.onClock s.now)).going) ∧
      resultsOf id (s.step t).2.2 =
        ((s.waits.get? id).bind
          (fun w =>
            ((w.onStep id t).settle (t.onStore s.store) (t.onClock s.now)).ending?)).toList := by
  obtain ⟨hget, hearly⟩ := act_waits s hs
  obtain ⟨hstore, hnow⟩ := act_store_now s t
  obtain ⟨hgoing, hresults⟩ := settle_spec (s.act t).2.1 id
  rw [hget, hstore, hnow, Option.bind_map] at hgoing hresults
  refine ⟨hgoing, ?_⟩
  show resultsOf id ((s.act t).2.2 ++ (s.act t).2.1.settle.2) = _
  rw [resultsOf_append, hearly, List.nil_append, hresults]
  rfl

theorem step_start {s : Session} {id : String} (r : Request) (cancelled : Bool)
    (hfree : s.waits.get? id = none) :
    match Wait.start s.store s.now r cancelled with
    | .error e =>
      (s.step (.wait id r cancelled)).2.1.waits.get? id = none ∧
        resultsOf id (s.step (.wait id r cancelled)).2.2 = [e]
    | .ok w =>
      (s.step (.wait id r cancelled)).2.1.waits.get? id = (w.settle s.store s.now).going ∧
        resultsOf id (s.step (.wait id r cancelled)).2.2 =
          (w.settle s.store s.now).ending?.toList := by
  have hstep : s.step (.wait id r cancelled) =
      ((s.act (.wait id r cancelled)).1, (s.act (.wait id r cancelled)).2.1.settle.1,
        (s.act (.wait id r cancelled)).2.2 ++ (s.act (.wait id r cancelled)).2.1.settle.2) := rfl
  rw [hstep]
  cases hw : Wait.start s.store s.now r cancelled with
  | error e =>
    obtain ⟨hgoing, hresults⟩ := settle_spec s id
    simp only [act, hw]
    rw [hfree] at hgoing hresults
    refine ⟨hgoing, ?_⟩
    rw [resultsOf_append, hresults]
    simp [resultsOf]
  | ok w =>
    obtain ⟨hgoing, hresults⟩ := settle_spec { s.acquire with waits := s.waits.insert id w } id
    simp only [act, hw]
    rw [NameMap.get?_insert, if_pos rfl] at hgoing hresults
    exact ⟨hgoing, hresults⟩

end Session

namespace Wait

end Wait

namespace Session

def Settled (s : Session) : Prop :=
  ∀ id w, s.waits.get? id = some w → w.Resting s.store s.now

theorem settleAll_of_resting {store : Store} {now : Nat} {ws : List (String × Wait)}
    (h : ∀ e ∈ ws, e.2.Resting store now) : settleAll store now ws = (ws, []) := by
  induction ws with
  | nil => rfl
  | cons e ws ih =>
    obtain ⟨id, w⟩ := e
    rw [settleAll, ih (fun e he => h e (List.mem_cons_of_mem _ he)),
      (h _ List.mem_cons_self).settle]

theorem release_zero (s : Session) : s.release 0 = s := by
  have hactive : s.active - ((0 : Nat) : Int) = s.active := Int.sub_zero s.active
  rw [release, hactive]

theorem Settled.settle {s : Session} (h : s.Settled) : s.settle = (s, []) := by
  have hrest : ∀ e ∈ s.waits.toList, e.2.Resting s.store s.now := by
    intro e he
    exact h e.1 e.2 (NameMap.mem_toList.mp he)
  rw [Session.settle, settleAll_of_resting hrest]
  show (({ s.release 0 with waits := NameMap.ofList s.waits.toList } : Session), ([] : Ended)) =
    (s, [])
  rw [NameMap.ofList_toList, release_zero]

theorem run_cons (s : Session) (t : Step) (ts : List Step) :
    s.run (t :: ts) =
      (((s.step t).2.1.run ts).1, (s.step t).2.2 ++ ((s.step t).2.1.run ts).2) := rfl

theorem run_of_absent {s : Session} {id : String} {ts : List Step}
    (hfree : s.waits.get? id = none) (hs : ∀ t ∈ ts, t.starts id = false) :
    resultsOf id (s.run ts).2 = [] ∧ (s.run ts).1.waits.get? id = none := by
  induction ts generalizing s with
  | nil => exact ⟨rfl, hfree⟩
  | cons t ts ih =>
    obtain ⟨hget, hresults⟩ := step_wait s (hs t List.mem_cons_self)
    rw [hfree] at hget hresults
    obtain ⟨hlater, hend⟩ := ih hget (fun u hu => hs u (List.mem_cons_of_mem _ hu))
    rw [run_cons]
    refine ⟨?_, hend⟩
    rw [resultsOf_append, hresults, hlater]
    rfl

end Session

end PlaneAccess.Bundle
