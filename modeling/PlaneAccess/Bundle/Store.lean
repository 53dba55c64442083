import PlaneAccess.Error
import PlaneAccess.NameMap

/-!
# A store of bundles

Bundles by namespace and name, and the history of their announcements. A
store can be closed. It keeps its bundles then, but announces nothing more.
-/

namespace PlaneAccess.Bundle

abbrev Payloads := NameMap ByteArray

structure Announcement where
  space : String
  name : String
  deriving DecidableEq, Repr

/-- The bundles of each namespace, all announcements so far from the oldest
on, and whether the store is open. -/
structure Store where
  spaces : NameMap (NameMap Payloads)
  history : List Announcement
  isOpen : Bool

namespace Store

def empty : Store := ⟨.empty, [], true⟩

def bundles (s : Store) (space : String) : NameMap Payloads :=
  (s.spaces.get? space).getD .empty

def names (s : Store) (space : String) : List String := (s.bundles space).keys

def contains (s : Store) (space name : String) : Bool :=
  (s.bundles space).contains name

/-- Announces a bundle, whether or not there is one. -/
def announce (s : Store) (space name : String) : Store :=
  if s.isOpen then { s with history := s.history ++ [⟨space, name⟩] } else s

def announceAll (s : Store) (space : String) (names : List String) : Store :=
  names.foldl (fun s n => s.announce space n) s

/-- Puts in a bundle, in the stead of one of the same name, and announces
it. -/
def insert (s : Store) (space name : String) (p : Payloads) : Store :=
  let bundles := (s.bundles space).insert name p
  ({ s with spaces := s.spaces.insert space bundles } : Store).announce
    space name

def close (s : Store) : Store := { s with isOpen := false }

def fetch (s : Store) (space name : String) : Except Error Payloads :=
  match (s.bundles space).get? name with
  | some p => .ok p
  | none => .error (.notFound ("bundle " ++ space ++ "/" ++ name))

end Store

end PlaneAccess.Bundle
