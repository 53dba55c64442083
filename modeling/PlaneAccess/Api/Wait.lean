import PlaneAccess.Api.Server

/-!
# Waiting for a secret

A wait for a secret goes on through what happens, one after the other: the
server answers, its watch yields items, it is cancelled, and time goes by. What
this means to the wait is the same as for the store in memory (`Stage.run`).
-/

namespace PlaneAccess.Api

open PlaneAccess.Bundle

/-- What happens while a bundle is awaited. The server is asked for one secret,
and answers that before there is a watch. -/
inductive Happening where
  | answered
  | item (i : Watch.Item)
  | cancelled
  | time (now : Nat)

def Happening.signal? (answer : Except PlaneAccess.Error Unit) :
    Happening → Option Signal
  | .answered => some (.subscribed answer)
  | .item i => i.created?.map .told
  | .cancelled => some .cancelled
  | .time now => some (.time now)

namespace Connection

/-- How far a wait comes that starts at a time, through what happens. The time
at its start is the first that it gets to know, for the server does not answer
at once. -/
def stageAfter (c : Connection) (r : Request) (started : Nat)
    (cancelled : Bool) (hs : List Happening) : Stage :=
  Stage.run r started (.first r started cancelled)
    (.time started :: hs.filterMap (Happening.signal? (c.probe r.space)))

def waitThrough (c : Connection) (r : Request) (started : Nat)
    (cancelled : Bool) (hs : List Happening) : Option Ending :=
  (c.stageAfter r started cancelled hs).ending?

/-- All that happens to a wait by itself: the answer of the server, the items
of its watch, and then its time going by. -/
def happenings (c : Connection) (r : Request) : List Happening :=
  .answered :: (c.items r.space).map .item ++
    r.timeout.toList.map (fun t => .time t.toNanos)

/-- How a wait ends during which only the server does something, if it
does. -/
def await (c : Connection) (r : Request) (cancelled : Bool) : Option Ending :=
  c.waitThrough r 0 cancelled (c.happenings r)

/-- The items that a wait takes from its watch, if it comes to have one. -/
def awaitedItems (c : Connection) (r : Request) (cancelled : Bool) :
    List Watch.Item :=
  match c.stageAfter r 0 cancelled [.answered] with
  | .listening => Watch.upTo r.name (c.items r.space)
  | _ => []

end Connection

end PlaneAccess.Api
