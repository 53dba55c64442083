import PlaneAccess.Json.Read
import PlaneAccess.Json.Write
import PlaneAccess.Settings

/-!
# Settings in JSON

Settings are an object of a path and a duration, and a duration is one of
seconds and nanoseconds.
-/

namespace PlaneAccess

open PlaneAccess.Json

namespace Duration

def recordName : String := "struct Duration"

/-- The duration of seconds and nanoseconds, of which there may be more than
make up a second. The seconds must fit into 64 bits. -/
def ofParts (secs nanos : Nat) : Except Problem Duration :=
  let d := ofNanos (secs * 1000000000 + nanos)
  if d.secs ≤ maxNat then .ok d
  else .error (.refused "overflow deserializing Duration")

def readSecs : Reader Nat := natural maxNat "u64"

def readNanos : Reader Nat := natural 4294967295 "u32"

def finish (secs nanos : Nat) : Reader Duration :=
  match ofParts secs nanos with
  | .ok d => return d
  | .error p => wrong p

/-- Reads the value of one key. There are no other keys. -/
def readMember (key : String) (s : Option Nat × Option Nat) :
    Reader (Option Nat × Option Nat) := do
  if key == "secs" then
    if s.1.isSome then wrong (.repeatedField key)
    return (some (← memberValue readSecs), s.2)
  else if key == "nanos" then
    if s.2.isSome then wrong (.repeatedField key)
    return (s.1, some (← memberValue readNanos))
  else wrong (.unknownField key "\x60secs\x60 or \x60nanos\x60")

def ofJson : Reader Duration :=
  record recordName
    (do
      let secs ← element 0 recordName readSecs
      let nanos ← element 1 recordName readNanos
      finish secs nanos)
    (do
      match ← object (none, none) readMember with
      | (none, _) => wrong (.missingField "secs")
      | (some _, none) => wrong (.missingField "nanos")
      | (some secs, some nanos) => finish secs nanos)

def toJson (d : Duration) : String :=
  objectText [("secs", toString d.secs), ("nanos", toString d.nanos)]

end Duration

namespace Settings

def recordName : String := "struct KubeconfigConfig"

def readPath : Reader (List UInt8) := return octets (← string "path string")

def readMember (key : String)
    (s : Option (List UInt8) × Option (Option Duration)) :
    Reader (Option (List UInt8) × Option (Option Duration)) := do
  if key == "aggregate_path" then
    if s.1.isSome then wrong (.repeatedField key)
    return (some (← memberValue readPath), s.2)
  else if key == "wait_timeout" then
    if s.2.isSome then wrong (.repeatedField key)
    return (s.1, some (← memberValue (optional Duration.ofJson)))
  else
    skipMember
    return s

/-- Reads settings. Without a duration there is no limit. -/
def ofJson : Reader Settings :=
  let fields := recordName ++ " with 2 elements"
  record recordName
    (do
      let path ← element 0 fields readPath
      let timeout ← element 1 fields (optional Duration.ofJson)
      return ⟨path, timeout⟩)
    (do
      match ← object (none, none) readMember with
      | (none, _) => wrong (.missingField "aggregate_path")
      | (some path, timeout) => return ⟨path, timeout.getD none⟩)

def toJson? (s : Settings) : Option String :=
  (textOf? s.aggregatePath).map fun path =>
    objectText [("aggregate_path", quoted path),
      ("wait_timeout",
        match s.waitTimeout with
        | none => "null"
        | some d => d.toJson)]

end Settings

end PlaneAccess
