import PlaneAccess.Yaml.Meaning
import PlaneAccess.Yaml.ReadError

/-!
# Reading scalars

Readers for texts, booleans and values that may be left out. Each is told
the path of the value for its errors.
-/

namespace PlaneAccess.Yaml

open PlaneAccess.Text

def boolTag : String := "tag:yaml.org,2002:bool"

def intTag : String := "tag:yaml.org,2002:int"

def floatTag : String := "tag:yaml.org,2002:float"

def nullTag : String := "tag:yaml.org,2002:null"

namespace Meaning

def ofUntagged (form : Form) (text : String) : Meaning :=
  if form == .plain then ofPlain text else string

/-- The meaning of a scalar. Where the tag asks for a type that the text does
not have, the result is what was expected. -/
def ofScalar (tag : Option String) (form : Form) (text : String) :
    Except String Meaning :=
  match tag with
  | none => .ok (ofUntagged form text)
  | some tag =>
    if tag == boolTag then
      match boolWord text with
      | some b => .ok (bool b)
      | none => .error "a boolean"
    else if tag == intTag then
      match ofInteger? text with
      | some m => .ok m
      | none => .error "an integer"
    else if tag == floatTag then
      match floatOf text with
      | some x => .ok (float x)
      | none => .error "a float"
    else if tag == nullTag then
      if isNullWord text then .ok null else .error "null"
    else if tag.toList.head? == some '!' then .ok (ofUntagged form text)
    else .ok string

def found (m : Meaning) (text : String) : Found :=
  match m with
  | null => .unit
  | bool b => .bool b
  | int i => .int i.val
  | wideInt i => .wideInt i
  | float x => .float x
  | string => .string text

end Meaning

def mismatch (path : Path) (t : Tree) (expected : String) : ReadError :=
  match t with
  | .scalar tag form text =>
    match Meaning.ofScalar tag form text with
    | .ok m => .problem path (.wrongType (m.found text) expected)
    | .error wanted => .problem path (.wrongText text wanted)
  | .sequence _ _ => .problem path (.wrongType .sequence expected)
  | .mapping _ _ => .problem path (.wrongType .map expected)
  | .reference t => mismatch path t expected
  | .fault f => .fault f

/-- Reads a text. Every scalar is one. -/
def readText (path : Path) (t : Tree) : Except ReadError String :=
  match t.target with
  | .scalar _ _ text => .ok text
  | t => .error (mismatch path t "a string")

def readKey (path : Path) (t : Tree) : Except ReadError String :=
  match t.target with
  | .scalar _ _ text => .ok text
  | t => .error (mismatch path t "field identifier")

/-- Reads a boolean. It is written plain, or as a literal with its tag. -/
def readFlag (path : Path) (t : Tree) : Except ReadError Bool :=
  let wrong := Except.error (mismatch path t "a boolean")
  match t.target with
  | .scalar tag form text =>
    if form == .plain || (form == .literal && tag == some boolTag) then
      match Meaning.boolWord text with
      | some b => .ok b
      | none => wrong
    else wrong
  | _ => wrong

/-- Reads a value that is left out if it is null. A scalar with the tag of
null must be null; otherwise the error is one of the record around it. -/
def readOptional {α : Type} (around : Path) (t : Tree)
    (read : Tree → Except ReadError α) : Except ReadError (Option α) :=
  match t.target with
  | .scalar none .plain text =>
    if text.isEmpty || Meaning.isNullWord text then .ok none
    else (read t).map some
  | .scalar (some tag) .plain text =>
    if tag == nullTag then
      if Meaning.isNullWord text then .ok none
      else .error (.problem around (.wrongText text "null"))
    else (read t).map some
  | _ => (read t).map some

/-- The items of a sequence. An empty plain scalar has none. -/
def readSequence (path : Path) (t : Tree) : Except ReadError (List Tree) :=
  match t.target with
  | .sequence _ items => .ok items
  | .scalar tag form text =>
    if form == .plain && text.isEmpty then .ok []
    else .error (mismatch path (.scalar tag form text) "a sequence")
  | t => .error (mismatch path t "a sequence")

/-- The entries of a mapping. An empty plain scalar has none. -/
def readMapping (path : Path) (t : Tree) (expected : String) :
    Except ReadError (List (Tree × Tree)) :=
  match t.target with
  | .mapping _ entries => .ok entries
  | .scalar tag form text =>
    if form == .plain && text.isEmpty then .ok []
    else .error (mismatch path (.scalar tag form text) expected)
  | t => .error (mismatch path t expected)

def stepOf : Tree → PathStep
  | .scalar _ _ text => .key text
  | _ => .hiddenKey

end PlaneAccess.Yaml
