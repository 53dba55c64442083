import PlaneAccess.Bundle.Store

/-!
# Subscriptions

A subscription to a namespace tells the names of the bundles that are there
already and then the announcements. Only the newest announcements are kept
for it. If it falls further behind, it tells the names of the bundles that
are there by then, and goes on with the oldest announcement that is kept.
-/

namespace PlaneAccess.Bundle

/-- How many announcements are kept for subscriptions, over all
namespaces. -/
def keptAnnouncements : Nat := 64

/-- A subscription: its namespace, the names it has still to tell before any
announcement, and the number of announcements that it is done with. -/
structure Subscription where
  space : String
  queued : List String
  position : Nat
  deriving DecidableEq, Repr

inductive Poll where
  | event (name : String)
  | pending
  | ended
  deriving DecidableEq, Repr

def Store.subscribe (s : Store) (space : String) :
    Except Error Subscription :=
  if s.isOpen then .ok ⟨space, s.names space, s.history.length⟩
  else .error (.subscription ("namespace " ++ space ++ ": store closed"))

namespace Subscription

/-- Whether announcements that the subscription has not seen are no longer
kept. -/
def lags (c : Subscription) (s : Store) : Bool :=
  c.position + keptAnnouncements < s.history.length

/-- Catches up with the store after falling too far behind. -/
def catchUp (c : Subscription) (s : Store) : Subscription :=
  if c.lags s then
    { c with
      queued := s.names c.space
      position := s.history.length - keptAnnouncements }
  else c

/-- The first announcement of a namespace in a list, and the number of
announcements up to it. -/
def firstOf (space : String) : List Announcement → Option (String × Nat)
  | [] => none
  | a :: as =>
    if a.space = space then some (a.name, 1)
    else (firstOf space as).map (fun (n, i) => (n, i + 1))

def pollHistory (c : Subscription) (s : Store) : Poll × Subscription :=
  match firstOf c.space (s.history.drop c.position) with
  | some (name, n) => (.event name, { c with position := c.position + n })
  | none =>
    (if s.isOpen then .pending else .ended,
      { c with position := s.history.length })

def poll (c : Subscription) (s : Store) : Poll × Subscription :=
  match c.queued with
  | name :: rest => (.event name, { c with queued := rest })
  | [] =>
    let c := c.catchUp s
    match c.queued with
    | name :: rest => (.event name, { c with queued := rest })
    | [] => c.pollHistory s

/-- All that a subscription has to tell, in order, with at most `n` names,
and what comes after that. -/
def drainUpTo (s : Store) : Nat → Subscription →
    List String × Poll × Subscription
  | 0, c => ([], .pending, c)
  | n + 1, c =>
    match c.poll s with
    | (.event name, c) =>
      let (names, p, c) := drainUpTo s n c
      (name :: names, p, c)
    | (p, c) => ([], p, c)

/-- More names than a subscription can have to tell at once: those it has
queued, those of the bundles that are there, and those of the announcements
that are kept. -/
def bound (c : Subscription) (s : Store) : Nat :=
  c.queued.length + (s.names c.space).length + keptAnnouncements + 1

def drain (c : Subscription) (s : Store) :
    List String × Poll × Subscription :=
  drainUpTo s (c.bound s) c

end Subscription

end PlaneAccess.Bundle
