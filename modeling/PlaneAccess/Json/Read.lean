import PlaneAccess.Json.Number
import PlaneAccess.Json.Quoted

/-!
# Reading JSON

Reads data of a known shape from JSON text.
-/

namespace PlaneAccess.Json

open PlaneAccess.Text

def wrongType {α : Type} (expected : String) : Reader α := do
  let fail (f : Found) : Reader α := wrong (.wrongType f expected)
  match (← get).head? with
  | some 'n' => takeText "null".toList; fail .null
  | some 't' => takeText "true".toList; fail (.bool true)
  | some 'f' => takeText "false".toList; fail (.bool false)
  | some '"' => fail (.string (← takeString))
  | some '[' => fail .sequence
  | some '\x7b' => fail .map
  | some c => if startsNumber c then fail (← takeNumber).found else malformed
  | none => malformed

def string (expected : String) : Reader String := do
  if (← peekSome) == '"' then takeString else wrongType expected

/-- Reads a natural number up to a limit. -/
def natural (limit : Nat) (expected : String) : Reader Nat := do
  if startsNumber (← peekSome) then
    match ← takeNumber with
    | .nat n => if n ≤ limit then return n else wrong (.wrongInt n expected)
    | .negative n => wrong (.wrongInt (-(n : Int)) expected)
    | .float x => wrong (.wrongType (.float x) expected)
  else wrongType expected

def unit : Reader Unit := do
  if (← peekSome) == 'n' then takeText "null".toList else wrongType "unit"

def optional {α : Type} (read : Reader α) : Reader (Option α) := do
  if (← peek) == some 'n' then
    takeText "null".toList
    return none
  else return some (← read)

def nextElement (first : Bool) : Reader Bool := do
  match ← peekSome with
  | ']' => return false
  | ',' =>
    if first then return true
    else
      take
      if (← peekSome) == ']' then malformed else return true
  | _ => if first then return true else malformed

def nextMember (first : Bool) : Reader Bool := do
  match ← peekSome with
  | '\x7d' => return false
  | ',' =>
    if first then malformed
    else
      take
      if (← peekSome) == '"' then return true else malformed
  | c => if first && c == '"' then return true else malformed

/-- Reads the members of an object from one on, each with its key. A text
has fewer members than characters. -/
def members {σ : Type} (member : String → σ → Reader σ) :
    Nat → Bool → σ → Reader σ
  | 0, _, _ => malformed
  | fuel + 1, first, s => do
    if ← nextMember first then
      members member fuel false (← member (← takeString) s)
    else return s

/-- Reads an object whose opening brace has been seen. -/
def object {σ : Type} (start : σ) (member : String → σ → Reader σ) :
    Reader σ := do
  take
  let s ← members member ((← get).length + 1) true start
  return s

/-- Skips a value that nobody looks at. Each step takes a character. -/
def skipValue : Nat → Reader Unit
  | 0 => malformed
  | fuel + 1 => do
    match ← peekSome with
    | 'n' => takeText "null".toList
    | 't' => takeText "true".toList
    | 'f' => takeText "false".toList
    | '"' =>
      match skipBody (← get).tail with
      | some rest => set rest
      | none => malformed
    | '[' =>
      take
      let rec elements : Nat → Bool → Reader Unit
        | 0, _ => malformed
        | n + 1, first => do
          if ← nextElement first then
            skipValue fuel
            elements n false
          else take
      elements ((← get).length + 1) true
    | '\x7b' =>
      take
      let rec entries : Nat → Bool → Reader Unit
        | 0, _ => malformed
        | n + 1, first => do
          if ← nextMember first then
            match skipBody (← get).tail with
            | some rest => set rest
            | none => malformed
            takeMark ':'
            skipValue fuel
            entries n false
          else take
      entries ((← get).length + 1) true
    | '-' => take; let _ ← takeParts
    | c => if c.isDigit then let _ ← takeParts else malformed

def skipMember : Reader Unit := do
  takeMark ':'
  skipValue ((← get).length + 1)

def memberValue {α : Type} (read : Reader α) : Reader α := do
  takeMark ':'
  read

/-- Reads a record, which is an object or an array of its fields. -/
def record {α : Type} (expected : String) (fromArray fromObject : Reader α) :
    Reader α := do
  match ← peekSome with
  | '[' =>
    take
    let a ← fromArray
    takeMark ']'
    return a
  | '\x7b' =>
    let a ← fromObject
    takeMark '\x7d'
    return a
  | _ => wrongType expected

/-- Reads an element of an array that should have one more. -/
def element {α : Type} (i : Nat) (expected : String) (read : Reader α) :
    Reader α := do
  if ← nextElement (i == 0) then read else wrong (.wrongLength i expected)

/-- Reads one of several words: a text, or an object with null under the
word. -/
def variant {α : Type} (ofWord : String → Except Problem α) : Reader α := do
  let word : Reader α := do
    match ofWord (← string "variant identifier") with
    | .ok a => return a
    | .error p => wrong p
  match ← peekSome with
  | '\x7b' =>
    take
    let a ← word
    takeMark ':'
    unit
    takeMark '\x7d'
    return a
  | '"' => word
  | _ => malformed

/-- The data in a text, which must hold nothing else. -/
def read {α : Type} (r : Reader α) (s : String) : Except Error α := do
  let (a, rest) ← r s.toList
  if rest.all isSpace then return a else throw .malformed

end PlaneAccess.Json
