import PlaneAccess.Api.Base64
import PlaneAccess.Api.Watch
import PlaneAccess.Bundle.Wait

/-!
# The API server

A server holds the secrets of each namespace and is asked for one secret,
for all of them, or for a watch. Bundles are secrets, and their payloads are
written in base 64.
-/

namespace PlaneAccess.Api

open PlaneAccess.Bundle

/-- A secret: its name, if it has one, and its data in base 64. -/
structure Secret where
  name : Option String
  data : NameMap String

namespace Secret

def decodeEntries : List (String × String) →
    Option (List (String × ByteArray))
  | [] => some []
  | (k, v) :: es =>
    match Base64.decode v.toList, decodeEntries es with
    | some os, some es => some ((k, ⟨os.toArray⟩) :: es)
    | _, _ => none

def payloads (s : Secret) : Option Payloads :=
  (decodeEntries s.data.toList).map NameMap.ofList

end Secret

/-- A namespace on the server: its secrets, the statuses that are answered
instead of them, and what each of its watches will report. -/
structure Space where
  secrets : List Secret
  getError : Option Status
  listError : Option Status
  reports : List (List Event)

namespace Space

def empty : Space := ⟨[], none, none, []⟩

/-- The reason of a status that says that something is not there. -/
def missingReason : String := "NotFound"

def get (s : Space) (name : String) : Except Error (Option Secret) :=
  match s.getError with
  | some status =>
    if status.reason = missingReason then .ok none
    else .error (.status status)
  | none => .ok (s.secrets.find? (fun t => t.name == some name))

/-- All secrets, or as many of the first as are asked for. -/
def list (s : Space) (limit : Option Nat) : Except Error (List Secret) :=
  match s.listError with
  | some status => .error (.status status)
  | none =>
    let secrets := limit.elim s.secrets s.secrets.take
    if secrets.all (fun t => t.payloads.isSome) then .ok secrets
    else .error .unreadable

/-- The items that a watch yields from now on. A listing that fails is tried
again, and fails again. -/
def items (s : Space) : List Watch.Item :=
  match s.list none with
  | .error e => [.listing, .failed e]
  | .ok secrets => Watch.items (secrets.map Secret.name) s.reports

/-- The namespace after some items of a watch. The next watch starts with
the reports that have not been asked for. -/
def after (s : Space) (items : List Watch.Item) : Space :=
  { s with reports := s.reports.drop (Watch.reportsAsked items) }

end Space

structure Server where
  spaces : NameMap Space

namespace Server

/-- A namespace. One that was never made is empty. -/
def space (s : Server) (name : String) : Space :=
  (s.spaces.get? name).getD .empty

def after (s : Server) (space : String) (items : List Watch.Item) : Server :=
  ⟨s.spaces.insert space ((s.space space).after items)⟩

end Server

inductive Connection where
  | server (s : Server)
  | unreachable

namespace Connection

def get (c : Connection) (space name : String) :
    Except Error (Option Secret) :=
  match c with
  | server s => (s.space space).get name
  | unreachable => .error .unreachable

def list (c : Connection) (space : String) (limit : Option Nat) :
    Except Error (List Secret) :=
  match c with
  | server s => (s.space space).list limit
  | unreachable => .error .unreachable

def items (c : Connection) (space : String) : List Watch.Item :=
  match c with
  | server s => (s.space space).items
  | unreachable => [.listing, .failed .unreachable]

def after (c : Connection) (space : String) (items : List Watch.Item) :
    Connection :=
  match c with
  | server s => server (s.after space items)
  | unreachable => unreachable

def fetch (c : Connection) (space name : String) :
    Except PlaneAccess.Error Payloads :=
  match c.get space name with
  | .error e => .error (.api e)
  | .ok none => .error (.notFound ("secret " ++ space ++ "/" ++ name))
  | .ok (some secret) =>
    match secret.payloads with
    | none => .error (.api .unreadable)
    | some p => .ok p

/-- Whether a watch of a namespace can start. That is tried by asking for one
secret, since a watch itself never gives up. -/
def probe (c : Connection) (space : String) :
    Except PlaneAccess.Error Unit :=
  match c.list space (some 1) with
  | .error e =>
    .error (.subscription ("namespace " ++ space ++ ": " ++ e.message))
  | .ok _ => .ok ()

end Connection

end PlaneAccess.Api
