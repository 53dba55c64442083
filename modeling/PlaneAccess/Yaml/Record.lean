import PlaneAccess.NameMap
import PlaneAccess.Yaml.Read.Value
import PlaneAccess.Yaml.Write

/-!
# Records

A record is a mapping with known fields. Its schema lists the fields, each
with the way it is read and written. What other keys there are is either
kept beside the fields or ignored.
-/

namespace PlaneAccess.Yaml

/-- A field of a record: its key, what is looked at in its value, how the
record is changed by its value (given the paths of the record and of the
value), and the tree it is written as, unless it is left out. -/
structure RecordField (α : Type) where
  key : String
  interest : Interest
  read : Path → Path → Tree → α → Except ReadError α
  write : α → Option Tree

/-- Where a record keeps the values of keys that are no fields. -/
structure Extra (α : Type) where
  get : α → NameMap Value
  set : α → NameMap Value → α

/-- The form of a record: its name in messages, the record without fields,
its fields in the order of writing, and its other keys if they are kept. -/
structure Schema (α : Type) where
  name : String
  empty : α
  fields : List (RecordField α)
  extra : Option (Extra α)

namespace RecordField

variable {α : Type}

/-- A field that holds a text and is always written. -/
def text (key : String) (get : α → String) (set : α → String → α) :
    RecordField α where
  key
  interest := .everything
  read _ here t a := (readText here t).map (set a)
  write a := some (.ofString (get a))

/-- A field that holds the same text in every record that is written. -/
def constant (key value : String) : RecordField α where
  key
  interest := .everything
  read _ here t a := (readText here t).map (fun _ => a)
  write _ := some (.ofString value)

def optionalText (key : String) (get : α → Option String)
    (set : α → Option String → α) : RecordField α where
  key
  interest := .everything
  read around here t a := (readOptional around t (readText here)).map (set a)
  write a := (get a).map .ofString

def optionalFlag (key : String) (get : α → Option Bool)
    (set : α → Option Bool → α) : RecordField α where
  key
  interest := .everything
  read around here t a := (readOptional around t (readFlag here)).map (set a)
  write a := (get a).map .ofBool

def optionalValue (key : String) (get : α → Option Value)
    (set : α → Option Value → α) : RecordField α where
  key
  interest := .everything
  read around here t a :=
    (readOptional around t (readValue .alone here)).map (set a)
  write a := (get a).map Value.toTree

end RecordField

namespace Schema

variable {α : Type}

/-- A record of which some entries have been read. -/
structure Partial (α : Type) where
  value : α
  seen : List String
  extra : List (String × Value)

def field? (s : Schema α) (key : String) : Option (RecordField α) :=
  s.fields.find? (fun f => f.key == key)

/-- Reads one entry of a record. No field may be there twice. -/
def readEntry (s : Schema α) (path : Path) (p : Partial α) (e : Tree × Tree) :
    Except ReadError (Partial α) := do
  let key ← readKey path e.1
  let here := stepOf e.1 :: path
  match s.field? key with
  | some f =>
    if p.seen.contains key then throw (.problem path (.repeatedField key))
    let value ← f.read path here e.2 p.value
    return { p with value, seen := key :: p.seen }
  | none =>
    match s.extra with
    | some _ =>
      let v ← readValue .inRecord here e.2
      return { p with extra := p.extra ++ [(key, v)] }
    | none =>
      match e.2 with
      | .fault f => throw (.fault f)
      | _ => return p

/-- Fails if a key is there twice in a mapping among the other keys of a
record. -/
def checkKeys (path : Path) : List (String × Value) → Except ReadError Unit
  | [] => .ok ()
  | (_, v) :: vs =>
    match v.repeatedKey? with
    | some key => .error (.problem path (.repeatedKey key))
    | none => checkKeys path vs

/-- Reads a record from the entries of a mapping. Of other keys that are
there twice the last one counts. -/
def readEntries (s : Schema α) (path : Path) (es : List (Tree × Tree)) :
    Except ReadError α := do
  let p ← es.foldlM (s.readEntry path) ⟨s.empty, [], []⟩
  match s.extra with
  | none => return p.value
  | some x => do
    checkKeys path p.extra
    return x.set p.value (NameMap.ofList p.extra)

def read (s : Schema α) (path : Path) (t : Tree) : Except ReadError α := do
  s.readEntries path (← readMapping path t s.name)

def interest (s : Schema α) : Interest :=
  if s.extra.isSome then .everything
  else .fields (s.fields.map (fun f => (f.key, f.interest)))

/-- The entries of a record: the fields, and then the other keys in order. -/
def toEntries (s : Schema α) (a : α) : List (Tree × Tree) :=
  s.fields.filterMap
      (fun f => (f.write a).map (fun t => (Tree.ofString f.key, t))) ++
    match s.extra with
    | none => []
    | some x =>
      (x.get a).toList.map (fun e => (Tree.ofString e.1, e.2.toTree))

def write (s : Schema α) (a : α) : Tree := .mapping none (s.toEntries a)

end Schema

def readListFrom {α : Type} (path : Path)
    (read : Path → Tree → Except ReadError α) (i : Nat) :
    List Tree → Except ReadError (List α)
  | [] => .ok []
  | t :: ts => do
    let a ← read (.index i :: path) t
    return a :: (← readListFrom path read (i + 1) ts)

def readList {α : Type} (path : Path)
    (read : Path → Tree → Except ReadError α) (t : Tree) :
    Except ReadError (List α) := do
  readListFrom path read 0 (← readSequence path t)

namespace RecordField

/-- A field that may hold a sequence. It is always written. -/
def list {α β : Type} (key : String) (interest : Interest)
    (read : Path → Tree → Except ReadError β) (write : β → Tree)
    (get : α → List β) (set : α → List β → α) : RecordField α where
  key
  interest := .items interest
  read around here t a :=
    (readOptional around t (readList here read)).map
      (fun l => set a (l.getD []))
  write a := some (.sequence none ((get a).map write))

def optionalRecord {α β : Type} (key : String) (s : Schema β)
    (get : α → Option β) (set : α → Option β → α) : RecordField α where
  key
  interest := s.interest
  read around here t a := (readOptional around t (s.read here)).map (set a)
  write a := (get a).map s.write

end RecordField

end PlaneAccess.Yaml
