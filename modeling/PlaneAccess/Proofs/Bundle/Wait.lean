import PlaneAccess.Bundle.Wait

/-!
# What ends a wait

A wait is ended by the first signal that decides about it (`Stage.Ends`), and
nothing that comes later counts. As long as it is undisturbed, neither cancelled
nor out of time, it listens once its store has answered, and then only its bundle
or the end of the subscription ends it.
-/

namespace PlaneAccess.Bundle

namespace Stage

variable {r : Request} {started : Nat} {stage : Stage} {e : Ending} {signal : Signal}
  {signals signals' : List Signal}

theorem run_cons (stage : Stage) (signal : Signal) (signals : List Signal) :
    run r started stage (signal :: signals) =
      run r started (next r started stage signal) signals := rfl

theorem run_append (stage : Stage) (pre post : List Signal) :
    run r started stage (pre ++ post) = run r started (run r started stage pre) post :=
  List.foldl_append

theorem run_ended (e : Ending) (signals : List Signal) :
    run r started (.ended e) signals = .ended e := by
  induction signals with
  | nil => rfl
  | cons signal signals ih => exact ih

/-! ## One signal -/

/-- How a signal ends a wait that goes on. -/
inductive Ends (r : Request) (started : Nat) : Stage → Signal → Ending → Prop
  | refused (error : Error) :
    Ends r started .subscribing (.subscribed (.error error)) (.failed error)
  | told : Ends r started .listening (.told r.name) .found
  | closed : Ends r started .listening .closed (.failed .subscriptionClosed)
  | cancelled {stage : Stage} : Ends r started stage .cancelled (.failed .cancelled)
  | timedOut {stage : Stage} {now : Nat} {t : Duration} (ht : r.expired started now = some t) :
    Ends r started stage (.time now) (.failed (.timedOut t))

theorem next_cancelled (hgoing : stage.ending? = none) :
    next r started stage .cancelled = .ended (.failed .cancelled) := by
  cases stage with
  | ended e => cases hgoing
  | _ => rfl

theorem next_time (hgoing : stage.ending? = none) (now : Nat) :
    next r started stage (.time now) =
      match r.expired started now with
      | some t => .ended (.failed (.timedOut t))
      | none => stage := by
  cases stage with
  | ended e => cases hgoing
  | _ => rfl

theorem next_told (name : String) : next r started .listening (.told name) =
    if name = r.name then .ended .found else .listening := rfl

theorem next_of_ends (hgoing : stage.ending? = none) (h : Ends r started stage signal e) :
    next r started stage signal = .ended e := by
  cases h with
  | told => rw [next_told, if_pos rfl]
  | cancelled => exact next_cancelled hgoing
  | timedOut ht => rw [next_time hgoing, ht]
  | _ => rfl

theorem going_listening : Stage.listening.ending? = none := rfl

/-- A signal ends a wait, or is the answer after which it listens, or makes no
difference. -/
theorem next_cases (r : Request) (started : Nat) (hgoing : stage.ending? = none)
    (signal : Signal) :
    (∃ e, Ends r started stage signal e) ∨
      stage = .subscribing ∧ signal = .subscribed (.ok ()) ∨
      next r started stage signal = stage := by
  cases signal with
  | cancelled => exact Or.inl ⟨_, .cancelled⟩
  | time now =>
    cases ht : r.expired started now with
    | some t => exact Or.inl ⟨_, .timedOut ht⟩
    | none =>
      refine Or.inr (Or.inr ?_)
      rw [next_time hgoing, ht]
  | subscribed answer =>
    cases stage with
    | ended e => cases hgoing
    | listening => exact Or.inr (Or.inr rfl)
    | subscribing =>
      cases answer with
      | ok u => exact Or.inr (Or.inl ⟨rfl, rfl⟩)
      | error error => exact Or.inl ⟨_, .refused error⟩
  | told name =>
    cases stage with
    | ended e => cases hgoing
    | subscribing => exact Or.inr (Or.inr rfl)
    | listening =>
      by_cases hname : name = r.name
      · subst hname
        exact Or.inl ⟨_, .told⟩
      · refine Or.inr (Or.inr ?_)
        rw [next_told, if_neg hname]
  | closed =>
    cases stage with
    | ended e => cases hgoing
    | subscribing => exact Or.inr (Or.inr rfl)
    | listening => exact Or.inl ⟨_, .closed⟩

/-- The wait is neither cancelled nor out of time. -/
structure Undisturbed (r : Request) (started : Nat) (signals : List Signal) : Prop where
  cancelled : .cancelled ∉ signals
  time : ∀ now, .time now ∈ signals → r.expired started now = none

theorem Undisturbed.mono (h : Undisturbed r started signals) (hsub : signals' ⊆ signals) :
    Undisturbed r started signals' :=
  ⟨fun hmem => h.cancelled (hsub hmem), fun now hmem => h.time now (hsub hmem)⟩

/-- An undisturbed wait that listens ends with its bundle and with nothing else, as
long as there is more to come. -/
theorem run_listening (hu : Undisturbed r started signals) (hclosed : .closed ∉ signals) :
    (.told r.name ∈ signals → run r started .listening signals = .ended .found) ∧
      (.told r.name ∉ signals → run r started .listening signals = .listening) := by
  induction signals with
  | nil => exact ⟨fun h => absurd h List.not_mem_nil, fun _ => rfl⟩
  | cons signal signals ih =>
    rcases next_cases r started going_listening signal with
      ⟨e, hends⟩ | ⟨h, -⟩ | hstays
    · rw [run_cons, next_of_ends rfl hends, run_ended]
      cases hends with
      | told => exact ⟨fun _ => rfl, fun h => absurd List.mem_cons_self h⟩
      | closed => exact absurd List.mem_cons_self hclosed
      | cancelled => exact absurd List.mem_cons_self hu.cancelled
      | timedOut ht =>
        rw [hu.time _ List.mem_cons_self] at ht
        cases ht
    · cases h
    · obtain ⟨hfound, hwaits⟩ := ih (hu.mono (List.subset_cons_self _ _))
        fun h => hclosed (List.mem_cons_of_mem _ h)
      have hne : .told r.name ≠ signal := by
        rintro rfl
        rw [next_told, if_pos rfl] at hstays
        cases hstays
      rw [run_cons, hstays]
      exact ⟨fun h => hfound (List.mem_of_ne_of_mem hne h),
        fun h => hwaits fun hmem => h (List.mem_cons_of_mem _ hmem)⟩

theorem run_told (names : List String) :
    run r started .listening (names.map .told) =
      if r.name ∈ names then .ended .found else .listening := by
  have hu : Undisturbed r started (names.map .told) := ⟨by simp, by simp⟩
  obtain ⟨hfound, hwaits⟩ := run_listening hu (by simp)
  split
  · rename_i hname
    exact hfound (List.mem_map_of_mem hname)
  · rename_i hname
    exact hwaits (by simpa using hname)

end Stage

end PlaneAccess.Bundle
