import PlaneAccess.Yaml.Read.Scalar

/-!
# Reading values

Reads data that is kept without being looked at. A value of its own keeps
its tags, and no mapping in it may repeat a key. The values among the fields
of a record have no tags, and their keys are compared only when the whole
record has been read, so that errors in it come first.
-/

namespace PlaneAccess.Yaml

/-- The place of a value: on its own, or among the fields of a record. -/
inductive ValuePlace where
  | alone
  | inRecord
  deriving DecidableEq, Repr

/-- The tag of a value of one's own making, which starts with an exclamation
mark. -/
def ownTag (tag : Option String) : Option String :=
  match tag with
  | none => none
  | some tag =>
    if tag.toList.head? == some '!' then
      some (Value.bareTag (Value.bareTag tag))
    else none

def withTag (tag : Option String) (v : Value) : Value :=
  match tag with
  | none => v
  | some tag => .tagged tag v

def valueOf (place : ValuePlace) (path : Path) (m : Meaning) (text : String) :
    Except ReadError Value :=
  match m with
  | .null => .ok .null
  | .bool b => .ok (.bool b)
  | .int i => .ok (.int i)
  | .float x => .ok (.float x)
  | .string => .ok (.string text)
  | .wideInt i =>
    let expected := match place with
      | .alone => "any YAML value"
      | .inRecord => "any value"
    .error (.problem path (.wrongType (.wideInt i) expected))

/-- The tag that a value keeps. There is none among the fields of a
record. -/
def readTag (place : ValuePlace) (path : Path) (tag : Option String) :
    Except ReadError (Option String) :=
  match ownTag tag, place with
  | none, _ => .ok none
  | some tag, .alone => .ok (some tag)
  | some _, .inRecord => .error (.problem path .taggedValue)

mutual

def readValue (place : ValuePlace) (path : Path) :
    Tree → Except ReadError Value
  | .scalar tag form text => do
    match ← readTag place path tag with
    | some own =>
      return .tagged own
        (← valueOf place path (Meaning.ofUntagged form text) text)
    | none =>
      match Meaning.ofScalar tag form text with
      | .ok m => valueOf place path m text
      | .error wanted => throw (.problem path (.wrongText text wanted))
  | .sequence tag items => do
    let own ← readTag place path tag
    return withTag own (.sequence (← readItems place path 0 items))
  | .mapping tag entries => do
    let own ← readTag place path tag
    return withTag own (.mapping (← readEntries place path [] entries))
  | .reference t => readValue place path t
  | .fault f => throw (.fault f)

/-- Reads the items of a sequence from an index on. -/
def readItems (place : ValuePlace) (path : Path) (i : Nat) :
    List Tree → Except ReadError (List Value)
  | [] => .ok []
  | t :: ts => do
    let v ← readValue place (.index i :: path) t
    return v :: (← readItems place path (i + 1) ts)

/-- Reads the entries of a mapping, given those before them. -/
def readEntries (place : ValuePlace) (path : Path)
    (before : List (Value × Value)) :
    List (Tree × Tree) → Except ReadError (List (Value × Value))
  | [] => .ok before
  | (k, v) :: es => do
    let key ← readValue place path k
    if place == .alone && Value.hasKey key before then
      throw (.problem path (.repeatedKey key))
    let value ← readValue place (stepOf k :: path) v
    readEntries place path (before ++ [(key, value)]) es

end

namespace Value

mutual

/-- The first key of a mapping within a value that is there a second
time. -/
def repeatedKey? : Value → Option Value
  | sequence items => repeatedInItems items
  | mapping entries => repeatedInEntries [] entries
  | tagged _ v => repeatedKey? v
  | _ => none

def repeatedInItems : List Value → Option Value
  | [] => none
  | v :: vs => (repeatedKey? v).or (repeatedInItems vs)

/-- The first repeated key within the entries of a mapping, given those
before them. -/
def repeatedInEntries (before : List (Value × Value)) :
    List (Value × Value) → Option Value
  | [] => none
  | (k, v) :: es =>
    (repeatedKey? k).or <|
      if hasKey k before then some k
      else (repeatedKey? v).or (repeatedInEntries ((k, v) :: before) es)

end

end Value

end PlaneAccess.Yaml
