import PlaneAccess.Bundle.Subscription

/-!
# Waiting for a bundle

A wait asks its store for a subscription and then listens to it until its
bundle is told. It is also over when it is cancelled, when its time is over,
or when there is nothing more to come. It gets to know all this one after the
other (`Stage.run`), whichever store it is. The store in memory has all that
there is to know at once. The bundle counts first then and the time last.
-/

namespace PlaneAccess.Bundle

structure Request where
  space : String
  name : String
  timeout : Option Duration
  deriving DecidableEq, Repr

/-- The first time in nanoseconds that the clock cannot show. Its seconds are
signed numbers of 64 bits. -/
def clockLimit : Nat := Nat.pow 2 63 * 1000000000

namespace Request

/-- Whether the clock can show the end of the time of a wait. -/
def hasDeadline (r : Request) (started : Nat) : Bool :=
  r.timeout.all (fun t => started + t.toNanos < clockLimit)

/-- The time-out that is over at a time, if it is. -/
def expired (r : Request) (started now : Nat) : Option Duration :=
  r.timeout.filter (fun t => started + t.toNanos ≤ now)

end Request

/-- How a wait ends. It panics if the clock cannot show its deadline. -/
inductive Ending where
  | found
  | failed (e : Error)
  | panicked

/-- What a wait gets to know: the answer of its store, a name that its
subscription tells or its end, its cancellation, and the time. -/
inductive Signal where
  | subscribed (r : Except Error Unit)
  | told (name : String)
  | closed
  | cancelled
  | time (now : Nat)

inductive Stage where
  | subscribing
  | listening
  | ended (e : Ending)

namespace Stage

/-- The deadline is told before anything else, and then whether the wait has
been cancelled already. -/
def first (r : Request) (started : Nat) (cancelled : Bool) : Stage :=
  if r.hasDeadline started then
    if cancelled then .ended (.failed .cancelled) else .subscribing
  else .ended .panicked

def next (r : Request) (started : Nat) : Stage → Signal → Stage
  | .ended e, _ => .ended e
  | .subscribing, .subscribed (.ok ()) => .listening
  | .subscribing, .subscribed (.error e) => .ended (.failed e)
  | .listening, .told name =>
    if name = r.name then .ended .found else .listening
  | .listening, .closed => .ended (.failed .subscriptionClosed)
  | _, .cancelled => .ended (.failed .cancelled)
  | stage, .time now =>
    match r.expired started now with
    | some t => .ended (.failed (.timedOut t))
    | none => stage
  | stage, _ => stage

def run (r : Request) (started : Nat) (stage : Stage) (signals : List Signal) :
    Stage :=
  signals.foldl (next r started) stage

def ending? : Stage → Option Ending
  | .ended e => some e
  | .subscribing | .listening => none

end Stage

/-- A wait that listens: its request, the time in nanoseconds at which it
started, whether it has been cancelled, and its subscription. -/
structure Wait where
  request : Request
  started : Nat
  cancelled : Bool
  subscription : Subscription
  deriving DecidableEq, Repr

inductive Progress where
  | waiting (w : Wait)
  | ended (e : Ending)

namespace Wait

/-- Starts a wait. It subscribes if it has not ended before, and the store in
memory answers at once. -/
def start (s : Store) (now : Nat) (r : Request) (cancelled : Bool) :
    Except Ending Wait :=
  match Stage.first r now cancelled with
  | .ended e => .error e
  | _ =>
    match s.subscribe r.space with
    | .error e => .error (.failed e)
    | .ok c => .ok ⟨r, now, false, c⟩

/-- All that a wait gets to know at once: the names that its subscription
tells, what comes after them, its cancellation, and the time. -/
def signals (w : Wait) (now : Nat) (names : List String) (p : Poll) :
    List Signal :=
  names.map .told ++ (if p = .ended then [.closed] else []) ++
    (if w.cancelled then [.cancelled] else []) ++ [.time now]

def settle (s : Store) (now : Nat) (w : Wait) : Progress :=
  let (names, p, c) := w.subscription.drain s
  match Stage.run w.request w.started .listening (w.signals now names p) with
  | .ended e => .ended e
  | _ => .waiting { w with subscription := c }

end Wait

/-- How a wait ends during which nothing happens but that time goes by, if it
does. -/
def Store.await (s : Store) (r : Request) (cancelled : Bool) :
    Option Ending :=
  match Wait.start s 0 r cancelled with
  | .error e => some e
  | .ok w =>
    match w.settle s (r.timeout.elim 0 Duration.toNanos) with
    | .ended e => some e
    | .waiting _ => none

end PlaneAccess.Bundle
