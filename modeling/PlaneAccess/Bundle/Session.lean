import PlaneAccess.Bundle.Wait

/-!
# Sessions with a store

A store together with a clock and all that goes on with it: streams that are
polled by hand, and waits in the background. After each step every wait goes
on as far as it can. A counter says how many subscriptions are held. It goes up
when one is made and down when one is let go.
-/

namespace PlaneAccess.Bundle

/-- A store, the time in nanoseconds, the streams and waits by name, and the
counter of subscriptions. -/
structure Session where
  store : Store
  now : Nat
  streams : NameMap Subscription
  waits : NameMap Wait
  active : Int

inductive Step where
  | insert (space name : String) (p : Payloads)
  | announce (space : String) (names : List String)
  | close
  | fetch (space name : String)
  | subscribe (id space : String)
  | next (id : String)
  | drain (id : String)
  | drop (id : String)
  | wait (id : String) (r : Request) (cancelled : Bool)
  | cancel (id : String)
  | advance (d : Duration)

inductive Answer where
  | done
  | payloads (p : Except Error Payloads)
  | subscribed (r : Except Error Unit)
  | polled (p : Poll)
  | drained (names : List String) (p : Poll)
  | dropped (wasThere : Bool)
  | noStream

abbrev Ended := List (String × Ending)

namespace Session

def start : Session := ⟨.empty, 0, .empty, .empty, 0⟩

def acquire (s : Session) : Session := { s with active := s.active + 1 }

def release (s : Session) (n : Nat) : Session :=
  { s with active := s.active - n }

def held (s : Session) (id : String) : Nat :=
  if s.streams.contains id then 1 else 0

/-- A new subscription becomes the stream of a name. Another one in its place
is let go. -/
def openStream (s : Session) (id : String) (c : Subscription) : Session :=
  { s.acquire.release (s.held id) with streams := s.streams.insert id c }

def dropStream (s : Session) (id : String) : Session :=
  { s.release (s.held id) with streams := s.streams.erase id }

/-- The session with a subscription put back after polling. One that has
ended is let go. -/
def putBack (s : Session) (id : String) (p : Poll) (c : Subscription) :
    Session :=
  if p = .ended then s.dropStream id
  else { s with streams := s.streams.insert id c }

/-- Takes a step, before waits go on. A wait may end at once. -/
def act (s : Session) : Step → Answer × Session × Ended
  | .insert space name p =>
    (.done, { s with store := s.store.insert space name p }, [])
  | .announce space names =>
    (.done, { s with store := s.store.announceAll space names }, [])
  | .close => (.done, { s with store := s.store.close }, [])
  | .fetch space name => (.payloads (s.store.fetch space name), s, [])
  | .subscribe id space =>
    match s.store.subscribe space with
    | .error e => (.subscribed (.error e), s, [])
    | .ok c => (.subscribed (.ok ()), s.openStream id c, [])
  | .next id =>
    match s.streams.get? id with
    | none => (.noStream, s, [])
    | some c =>
      let (p, c) := c.poll s.store
      (.polled p, s.putBack id p c, [])
  | .drain id =>
    match s.streams.get? id with
    | none => (.noStream, s, [])
    | some c =>
      let (names, p, c) := c.drain s.store
      (.drained names p, s.putBack id p c, [])
  | .drop id => (.dropped (s.streams.contains id), s.dropStream id, [])
  | .wait id r cancelled =>
    match Wait.start s.store s.now r cancelled with
    | .error e => (.done, s, [(id, e)])
    | .ok w =>
      (.done, { s.acquire with waits := s.waits.insert id w }, [])
  | .cancel id =>
    match s.waits.get? id with
    | none => (.done, s, [])
    | some w =>
      (.done,
        { s with waits := s.waits.insert id { w with cancelled := true } }, [])
  | .advance d => (.done, { s with now := s.now + d.toNanos }, [])

def settleAll (store : Store) (now : Nat) :
    List (String × Wait) → List (String × Wait) × Ended
  | [] => ([], [])
  | (id, w) :: ws =>
    let (going, ended) := settleAll store now ws
    match w.settle store now with
    | .waiting w => ((id, w) :: going, ended)
    | .ended e => (going, (id, e) :: ended)

/-- Lets every wait go on as far as it can. Those that end let their
subscriptions go. -/
def settle (s : Session) : Session × Ended :=
  let (going, ended) := settleAll s.store s.now s.waits.toList
  ({ s.release ended.length with waits := NameMap.ofList going }, ended)

def step (s : Session) (t : Step) : Answer × Session × Ended :=
  let (a, s, early) := s.act t
  let (s, ended) := s.settle
  (a, s, early ++ ended)

/-- The session after some steps, and the waits that ended on the way. -/
def run (s : Session) : List Step → Session × Ended
  | [] => (s, [])
  | t :: ts =>
    let (_, s, ended) := s.step t
    let (s, later) := s.run ts
    (s, ended ++ later)

end Session

end PlaneAccess.Bundle
