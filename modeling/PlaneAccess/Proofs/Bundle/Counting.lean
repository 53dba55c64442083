import Mathlib.Data.List.Induction
import PlaneAccess.Proofs.Bundle.Outcome

/-!
# The counter of subscriptions

The counter goes up when a subscription is made and down when one is let go.
It always counts the streams and the waits that a session holds (`Balanced`),
so it is never below zero. Which these are can be told from a run alone: the
streams that it opened and neither dropped nor read to the end, and the waits
that it started and that have no result yet.
-/

namespace PlaneAccess.Bundle

/-! ## What a run leaves open -/

def opens : Step × Answer → Option String
  | (.subscribe id _, .subscribed (.ok _)) => some id
  | _ => none

/-- Whether the stream of a name is over with a step: it is dropped, another
one is put in its stead, or it has come to its end. -/
def leaves (id : String) (x : Step × Answer) : Bool := replaces id x || ends id x

/-- The streams that some steps open and that are not over with a later one. -/
def openStreams : List (Step × Answer) → List String
  | [] => []
  | x :: xs =>
    ((opens x).filter (fun id => xs.all (fun y => !leaves id y))).toList ++ openStreams xs

def Step.waitName : Step → Option String
  | .wait id _ _ => some id
  | _ => none

def waitNames (ts : List Step) : List String := ts.filterMap Step.waitName

/-- The waits that a run starts and that have not ended by then. -/
def goingWaits (ts : List Step) : List String :=
  (waitNames ts).filter (fun id => (resultsOf id (Session.start.run ts).2).isEmpty)

theorem Step.starts_iff {t : Step} {id : String} :
    t.starts id = true ↔ t.waitName = some id := by
  cases t with
  | wait id' r cancelled => simp [starts, waitName]
  | _ => simp [starts, waitName]

theorem replaces_of_opens {x : Step × Answer} {id : String} (h : opens x = some id) :
    replaces id x = true := by
  obtain ⟨t, a⟩ := x
  cases t with
  | subscribe id' space =>
    cases a with
    | subscribed r =>
      cases r with
      | ok u =>
        obtain rfl := Option.some.inj h
        exact decide_eq_true rfl
      | error e => cases h
    | _ => cases h
  | _ => cases h

theorem openStreams_concat (xs : List (Step × Answer)) (x : Step × Answer) :
    openStreams (xs ++ [x]) =
      (openStreams xs).filter (fun id => !leaves id x) ++ (opens x).toList := by
  induction xs with
  | nil => cases h : opens x <;> simp [openStreams, h]
  | cons y ys ih =>
    rw [List.cons_append, openStreams, ih, openStreams, List.filter_append, ← List.append_assoc]
    congr 2
    cases h : opens y with
    | none => rfl
    | some id =>
      cases hx : leaves id x with
      | true => simp [Option.filter, hx]
      | false =>
        have hall : ((ys ++ [x]).all fun z => !leaves id z) = ys.all fun z => !leaves id z := by
          simp [hx]
        rw [Option.filter_some, Option.filter_some, hall]
        split
        · rw [Option.toList_some, List.filter_cons, hx]
          rfl
        · rfl

theorem nodup_openStreams (xs : List (Step × Answer)) : (openStreams xs).Nodup := by
  induction xs using List.reverseRecOn with
  | nil => exact List.nodup_nil
  | append_singleton xs x ih =>
    rw [openStreams_concat, List.nodup_append]
    refine ⟨List.Pairwise.filter _ ih, ?_, ?_⟩
    · cases opens x with
      | none => exact List.nodup_nil
      | some id => exact List.pairwise_singleton _ id
    · rintro id hid id' hid' rfl
      have hopens : opens x = some id := Option.mem_toList.mp hid'
      have hkeeps := (List.mem_filter.mp hid).2
      rw [leaves, replaces_of_opens hopens] at hkeeps
      cases hkeeps

namespace Session

/-! ## What is held -/

/-- The counter counts the streams and the waits. -/
def Balanced (s : Session) : Prop := s.active = s.streams.size + s.waits.size

theorem Balanced.nonneg {s : Session} (h : s.Balanced) : 0 ≤ s.active := by
  rw [Balanced] at h
  omega

theorem balanced_start : start.Balanced := rfl

theorem balanced_openStream {s : Session} (h : s.Balanced) (id : String) (c : Subscription) :
    (s.openStream id c).Balanced := by
  have hsize := NameMap.size_insert s.streams id c
  have hactive : (s.openStream id c).active = s.active + 1 - (s.held id : Nat) := rfl
  rw [Balanced] at h
  rw [Balanced, hactive, h]
  show _ = ((s.streams.insert id c).size : Int) + s.waits.size
  rw [hsize, held]
  cases s.streams.contains id with
  | true =>
    simp only [if_true]
    omega
  | false =>
    simp only [Bool.false_eq_true, if_false]
    omega

theorem balanced_dropStream {s : Session} (h : s.Balanced) (id : String) :
    (s.dropStream id).Balanced := by
  have hsize := NameMap.size_erase s.streams id
  have hactive : (s.dropStream id).active = s.active - (s.held id : Nat) := rfl
  rw [Balanced] at h
  rw [Balanced, hactive, h, hsize]
  show _ = ((s.streams.erase id).size : Int) + s.waits.size
  rw [held]
  omega

theorem balanced_putBack {s : Session} (h : s.Balanced) {id : String}
    (hid : s.streams.contains id = true) (p : Poll) (c : Subscription) :
    (s.putBack id p c).Balanced := by
  rw [putBack]
  split
  · exact balanced_dropStream h id
  · have hsize := NameMap.size_insert s.streams id c
    rw [if_pos hid] at hsize
    show s.active = ((s.streams.insert id c).size : Int) + s.waits.size
    rw [hsize]
    exact h

theorem balanced_act {s : Session} (h : s.Balanced) {t : Step}
    (hfree : ∀ id, t.waitName = some id → s.waits.get? id = none) :
    (s.act t).2.1.Balanced := by
  cases t with
  | subscribe id space =>
    simp only [act]
    cases s.store.subscribe space with
    | error e => exact h
    | ok c => exact balanced_openStream h id c
  | next id =>
    simp only [act]
    cases hc : s.streams.get? id with
    | none => exact h
    | some c => exact balanced_putBack h (congrArg Option.isSome hc) _ _
  | drain id =>
    simp only [act]
    cases hc : s.streams.get? id with
    | none => exact h
    | some c => exact balanced_putBack h (congrArg Option.isSome hc) _ _
  | drop id => exact balanced_dropStream h id
  | wait id r cancelled =>
    simp only [act]
    cases Wait.start s.store s.now r cancelled with
    | error e => exact h
    | ok w =>
      have hsize := NameMap.size_insert s.waits id w
      rw [NameMap.contains, hfree id rfl] at hsize
      show s.active + 1 = (s.streams.size : Int) + (s.waits.insert id w).size
      rw [Balanced] at h
      rw [hsize, h]
      simp only [Option.isSome_none, Bool.false_eq_true, if_false]
      omega
  | cancel id =>
    simp only [act]
    cases hw : s.waits.get? id with
    | none => exact h
    | some w =>
      have hsize := NameMap.size_insert s.waits id { w with cancelled := true }
      rw [if_pos (show s.waits.contains id = true from congrArg Option.isSome hw)] at hsize
      show s.active = (s.streams.size : Int) + (s.waits.insert id _).size
      rw [hsize]
      exact h
  | advance d =>
    have hclock : ∀ now : Nat, ({ s with now := now } : Session).Balanced := fun _ => h
    exact hclock _
  | _ => exact h

theorem length_settleAll (store : Store) (now : Nat) (ws : List (String × Wait)) :
    (settleAll store now ws).1.length + (settleAll store now ws).2.length = ws.length := by
  induction ws with
  | nil => rfl
  | cons e ws ih =>
    obtain ⟨id, w⟩ := e
    rw [settleAll]
    cases w.settle store now with
    | waiting w' =>
      simp only [List.length_cons]
      omega
    | ended r =>
      simp only [List.length_cons]
      omega

theorem balanced_settle {s : Session} (h : s.Balanced) : s.settle.1.Balanced := by
  have hlength := length_settleAll s.store s.now s.waits.toList
  have hkeys : ((settleAll s.store s.now s.waits.toList).1.map Prod.fst).Nodup :=
    (NameMap.nodup_of_increasing s.waits.increasing).sublist (keys_settleAll_sublist _ _ _)
  have hgoing := (NameMap.perm_toList_ofList hkeys).length_eq
  have hwaits : s.waits.size = s.waits.toList.length := rfl
  show s.active - ((settleAll s.store s.now s.waits.toList).2.length : Nat) =
    (s.streams.size : Int) +
      (NameMap.ofList (settleAll s.store s.now s.waits.toList).1).toList.length
  rw [Balanced] at h
  rw [hgoing, h, hwaits, ← hlength]
  omega

/-! ## Streams -/

theorem ends_polled (id id' : String) (p : Poll) :
    ends id (.next id', .polled p) = (decide (id' = id) && decide (p = .ended)) := by
  cases p with
  | ended => simp [ends]
  | _ => simp [ends]

theorem ends_drained (id id' : String) (names : List String) (p : Poll) :
    ends id (.drain id', .drained names p) = (decide (id' = id) && decide (p = .ended)) := by
  cases p with
  | ended => simp [ends]
  | _ => simp [ends]

theorem contains_putBack (s : Session) (id id' : String) (p : Poll) (c : Subscription)
    (hc : s.streams.contains id' = true) :
    (s.putBack id' p c).streams.contains id =
      (s.streams.contains id && !(decide (id' = id) && decide (p = .ended))) := by
  rw [NameMap.contains, get?_putBack]
  by_cases hid : id' = id
  · subst hid
    by_cases hp : p = .ended
    · simp [hp]
    · simp [hp, hc]
  · rw [if_neg hid]
    simp [hid, NameMap.contains]

theorem contains_step (s : Session) (t : Step) (id : String) :
    (s.step t).2.1.streams.contains id = true ↔
      opens (t, (s.step t).1) = some id ∨
        s.streams.contains id = true ∧ leaves id (t, (s.step t).1) = false := by
  rw [step_answer, step_streams]
  cases t with
  | subscribe id' space =>
    simp only [act]
    cases s.store.subscribe space with
    | error e => simp [opens, leaves, replaces, ends]
    | ok c =>
      show ((s.openStream id' c).streams.get? id).isSome = true ↔ _
      rw [get?_openStream]
      by_cases hid : id' = id
      · simp [hid, opens]
      · simp [hid, opens, leaves, replaces, ends, NameMap.contains]
  | next id' =>
    simp only [act]
    cases hc : s.streams.get? id' with
    | none => simp [opens, leaves, replaces, ends]
    | some c =>
      rw [contains_putBack s id id' _ _ (congrArg Option.isSome hc), leaves, ends_polled]
      simp only [opens, replaces, Bool.false_or, Bool.and_eq_true, Bool.not_eq_true',
        reduceCtorEq, false_or]
  | drain id' =>
    simp only [act]
    cases hc : s.streams.get? id' with
    | none => simp [opens, leaves, replaces, ends]
    | some c =>
      rw [contains_putBack s id id' _ _ (congrArg Option.isSome hc), leaves, ends_drained]
      simp only [opens, replaces, Bool.false_or, Bool.and_eq_true, Bool.not_eq_true',
        reduceCtorEq, false_or]
  | drop id' =>
    show ((s.dropStream id').streams.get? id).isSome = true ↔ _
    rw [get?_dropStream]
    by_cases hid : id' = id
    · simp [hid, opens, leaves, replaces]
    · simp [hid, opens, leaves, replaces, ends, NameMap.contains]
  | wait id' r cancelled =>
    simp only [act]
    cases Wait.start s.store s.now r cancelled with
    | error e => simp [opens, leaves, replaces, ends]
    | ok w => simp [opens, leaves, replaces, ends, acquire]
  | cancel id' =>
    simp only [act]
    cases s.waits.get? id' with
    | none => simp [opens, leaves, replaces, ends]
    | some w => simp [opens, leaves, replaces, ends]
  | advance d =>
    rw [streams_advance]
    simp [opens, leaves, replaces, ends]
  | _ => simp [act, opens, leaves, replaces, ends]

/-! ## Waits -/

theorem isSome_going (p : Progress) : p.going.isSome = true ↔ p.ending?.toList = [] := by
  cases p with
  | waiting w => simp [Progress.going, Progress.ending?]
  | ended r => simp [Progress.going, Progress.ending?]

theorem contains_waits_step (s : Session) {t : Step} {id : String} (hs : t.starts id = false) :
    (s.step t).2.1.waits.contains id = true ↔
      s.waits.contains id = true ∧ resultsOf id (s.step t).2.2 = [] := by
  obtain ⟨hget, hresults⟩ := step_wait s hs
  rw [NameMap.contains, hget, hresults, NameMap.contains]
  cases s.waits.get? id with
  | none => simp
  | some w =>
    rw [Option.bind_some, Option.bind_some, isSome_going]
    exact (and_iff_right rfl).symm

theorem contains_waits_start {s : Session} {id : String} (r : Request) (cancelled : Bool)
    (hfree : s.waits.get? id = none) :
    (s.step (.wait id r cancelled)).2.1.waits.contains id = true ↔
      resultsOf id (s.step (.wait id r cancelled)).2.2 = [] := by
  have hstart := step_start r cancelled hfree
  cases hw : Wait.start s.store s.now r cancelled with
  | error e =>
    rw [hw] at hstart
    obtain ⟨hget, hresults⟩ := hstart
    rw [NameMap.contains, hget, hresults]
    simp
  | ok w =>
    rw [hw] at hstart
    obtain ⟨hget, hresults⟩ := hstart
    rw [NameMap.contains, hget, hresults]
    exact isSome_going _

/-! ## Whole runs -/

theorem transcript_concat (s : Session) (ts : List Step) (t : Step) :
    s.transcript (ts ++ [t]) = s.transcript ts ++ [(t, ((s.after ts).step t).1)] := by
  induction ts generalizing s with
  | nil => rfl
  | cons u us ih => rw [List.cons_append, transcript, ih, transcript, after_cons, List.cons_append]

theorem ended_concat (s : Session) (ts : List Step) (t : Step) :
    (s.run (ts ++ [t])).2 = (s.run ts).2 ++ ((s.after ts).step t).2.2 := by
  induction ts generalizing s with
  | nil =>
    rw [List.nil_append, run_cons]
    simp [run, after]
  | cons u us ih => rw [List.cons_append, run_cons, run_cons, after_cons, ih, List.append_assoc]

theorem after_concat (s : Session) (ts : List Step) (t : Step) :
    s.after (ts ++ [t]) = ((s.after ts).step t).2.1 := after_append s ts [t]

theorem waitNames_concat (ts : List Step) (t : Step) :
    waitNames (ts ++ [t]) = waitNames ts ++ t.waitName.toList := by
  rw [waitNames, List.filterMap_append]
  cases h : t.waitName with
  | none => simp [h, waitNames]
  | some id => simp [h, waitNames]

theorem mem_goingWaits {ts : List Step} {id : String} :
    id ∈ goingWaits ts ↔ id ∈ waitNames ts ∧ resultsOf id (start.run ts).2 = [] := by
  rw [goingWaits, List.mem_filter, List.isEmpty_iff]

theorem of_notMem_waitNames {ts : List Step} {id : String} (h : id ∉ waitNames ts) :
    resultsOf id (start.run ts).2 = [] ∧ (start.after ts).waits.get? id = none := by
  refine run_of_absent rfl fun t ht => ?_
  cases hs : t.starts id with
  | false => rfl
  | true =>
    have hname := Step.starts_iff.mp hs
    exact absurd (List.mem_filterMap.mpr ⟨t, ht, hname⟩) h

theorem nodup_waitNames_concat {ts : List Step} {t : Step}
    (h : (waitNames (ts ++ [t])).Nodup) :
    (waitNames ts).Nodup ∧ ∀ id, t.waitName = some id →
      resultsOf id (start.run ts).2 = [] ∧ (start.after ts).waits.get? id = none := by
  rw [waitNames_concat, List.nodup_append] at h
  obtain ⟨hold, -, hnew⟩ := h
  refine ⟨hold, fun id hname => of_notMem_waitNames fun hmem => ?_⟩
  exact hnew id hmem id (Option.mem_toList.mpr hname) rfl

theorem mem_openStreams_iff (ts : List Step) (id : String) :
    id ∈ openStreams (start.transcript ts) ↔
      (start.after ts).streams.contains id = true := by
  induction ts using List.reverseRecOn with
  | nil =>
    constructor
    · intro h
      cases h
    · intro h
      cases h
  | append_singleton ts t ih =>
    rw [transcript_concat, openStreams_concat, after_concat, contains_step, List.mem_append,
      List.mem_filter, ih, or_comm, Option.mem_toList, Bool.not_eq_true']

theorem mem_goingWaits_iff {ts : List Step} (hnames : (waitNames ts).Nodup) (id : String) :
    id ∈ goingWaits ts ↔ (start.after ts).waits.contains id = true := by
  induction ts using List.reverseRecOn with
  | nil =>
    constructor
    · intro h
      cases h
    · intro h
      cases h
  | append_singleton ts t ih =>
    obtain ⟨hold, hfresh⟩ := nodup_waitNames_concat hnames
    rw [mem_goingWaits, waitNames_concat, ended_concat, after_concat, resultsOf_append,
      List.append_eq_nil_iff, List.mem_append, Option.mem_toList]
    cases hs : t.starts id with
    | true =>
      -- a wait that is started now was not there before
      have hname := Step.starts_iff.mp hs
      obtain ⟨hresults, hfree⟩ := hfresh id hname
      cases t with
      | wait id' r cancelled =>
        obtain rfl := Option.some.inj hname
        rw [contains_waits_start r cancelled hfree]
        constructor
        · rintro ⟨-, -, hnow⟩
          exact hnow
        · intro hnow
          exact ⟨Or.inr hname, hresults, hnow⟩
      | _ => cases hs
    | false =>
      have hname : t.waitName ≠ some id := by
        intro hname
        rw [Step.starts_iff.mpr hname] at hs
        cases hs
      rw [contains_waits_step _ hs, or_iff_left hname, ← ih hold, mem_goingWaits, and_assoc]

theorem balanced_after {ts : List Step} (hnames : (waitNames ts).Nodup) :
    (start.after ts).Balanced := by
  induction ts using List.reverseRecOn with
  | nil => exact balanced_start
  | append_singleton ts t ih =>
    obtain ⟨hold, hfresh⟩ := nodup_waitNames_concat hnames
    rw [after_concat]
    exact balanced_settle (balanced_act (ih hold) (fun id hname => (hfresh id hname).2))

/-- After every run the counter counts the streams that were opened and
neither dropped nor read to the end, and the waits that were started and have
not ended. It is not below zero on the way either, even before the waits go
on. Names tell the waits apart, so each has one of its own. -/
theorem active_eq {ts : List Step} (hnames : (waitNames ts).Nodup) :
    (start.after ts).active =
        (openStreams (start.transcript ts)).length + (goingWaits ts).length ∧
      ∀ us t, us ++ [t] <+: ts → 0 ≤ ((start.after us).act t).2.1.active := by
  constructor
  · have hstreams : (openStreams (start.transcript ts)).length = (start.after ts).streams.size :=
      NameMap.length_eq_size (nodup_openStreams _) (mem_openStreams_iff ts)
    have hwaits : (goingWaits ts).length = (start.after ts).waits.size :=
      NameMap.length_eq_size (List.Pairwise.filter _ hnames) (mem_goingWaits_iff hnames)
    rw [hstreams, hwaits]
    exact balanced_after hnames
  · intro us t hle
    have hnames' : (waitNames (us ++ [t])).Nodup :=
      hnames.sublist (hle.sublist.filterMap Step.waitName)
    obtain ⟨hold, hfresh⟩ := nodup_waitNames_concat hnames'
    have hbalanced := balanced_act (balanced_after hold) (fun id hname => (hfresh id hname).2)
    exact hbalanced.nonneg

/-- A run in which streams are replaced, dropped and read to the end, and in
which waits end in all ways. -/
def comings : List Step :=
  [.subscribe "a" "plane", .subscribe "a" "plane", .subscribe "b" "plane",
    .wait "found" ⟨"plane", "config", none⟩ false,
    .wait "stopped" ⟨"plane", "other", none⟩ false,
    .wait "never" ⟨"plane", "config", none⟩ true,
    .wait "late" ⟨"plane", "other", some (.ofSecs 2)⟩ false,
    .wait "open" ⟨"plane", "other", none⟩ false,
    .insert "plane" "config" .empty, .cancel "stopped", .drop "b", .drop "b",
    .advance (.ofSecs 2)]

/-- A stream and a wait are left before the store is closed, and afterwards
the stream until it is read to the end. -/
theorem active_eq_comings :
    (start.after comings).active = 2 ∧
      (start.after (comings ++ [.close, .wait "failed" ⟨"plane", "config", none⟩ false])).active
        = 1 ∧
      (start.after (comings ++ [.close, .drain "a"])).active = 0 := by
  refine ⟨?_, ?_, ?_⟩
  · rw [(active_eq (by decide)).1]
    decide +kernel
  · rw [(active_eq (by decide)).1]
    decide +kernel
  · rw [(active_eq (by decide)).1]
    decide +kernel

end Session

end PlaneAccess.Bundle
