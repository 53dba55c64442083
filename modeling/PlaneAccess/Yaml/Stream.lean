import PlaneAccess.Yaml.Token.Lexer
import PlaneAccess.Yaml.Tree

/-!
# The document of a text

A text should hold one document. Directives in front of it may name a
version and declare handles for tags.
-/

namespace PlaneAccess.Yaml

/-- How a text ends after its first document: properly, in something that
makes no sense, or with more documents. -/
inductive Ending where
  | proper
  | broken
  | moreDocuments
  deriving DecidableEq, Repr

/-- The first document of a text, unless there is none, and what follows. -/
structure Stream where
  content : Option Content
  ending : Ending

namespace Stream

/-- Reads directives up to the start of a document. Gives the declared
handles. A version must be 1.1 or 1.2 and may be given only once, and so may
each handle. -/
def directives (version : Bool) (declared : List (String × String)) :
    List Token → Option (List (String × String) × List Token)
  | .version major minor :: ts =>
    if version || major != 1 || !(minor == 1 || minor == 2) then none
    else directives true declared ts
  | .tagPrefix handle body :: ts =>
    if (declared.lookup handle).isSome then none
    else directives version ((handle, body) :: declared) ts
  | .documentStart :: ts => some (declared, ts)
  | _ => none

/-- How a text ends that goes on with some tokens. -/
def endingOf : List Token → Ending
  | .documentEnd :: ts => endingOf ts
  | .streamEnd :: _ => .proper
  | [] => .broken
  | _ => .moreDocuments

def unreadable : Stream := ⟨some ⟨.cut, [], 0⟩, .broken⟩

/-- The first document from the events of its node and the tokens that come
after it. -/
def ofEvents (es : List Event) (left : Option (List Token)) : Stream :=
  let (content, complete) := Content.ofEvents es left.isSome
  match complete, left with
  | true, some ts => ⟨some content, endingOf ts⟩
  | _, _ => ⟨some content, .broken⟩

/-- Whether a document without content ends in front of a token. -/
def endsEmpty : Token → Bool
  | .version _ _ => true
  | .tagPrefix _ _ => true
  | .documentStart => true
  | .documentEnd => true
  | .streamEnd => true
  | _ => false

def ofBody (declared : List (String × String)) (ts : List Token) : Stream :=
  match ts with
  | [] => unreadable
  | t :: _ =>
    if endsEmpty t then ofEvents [Event.blank] (some ts)
    else
      let (es, left) := Event.ofTokens declared ts
      ofEvents es left

def ofTokens (ts : List Token) : Stream :=
  match ts with
  | .streamEnd :: _ => ⟨none, .proper⟩
  | .version _ _ :: _ | .tagPrefix _ _ :: _ | .documentStart :: _ =>
    match directives false [] ts with
    | none => unreadable
    | some (declared, ts) => ofBody declared ts
  | ts =>
    let (es, left) := Event.ofTokens [] ts
    ofEvents es left

def ofText (cs : List Char) : Stream := ofTokens (Tokens.ofText cs).tokens

/-- The first document of the text with some octets in UTF-8. -/
def ofBytes (bytes : ByteArray) : Stream :=
  match String.fromUTF8? bytes with
  | none => unreadable
  | some s => ofText s.toList

/-- Whether a text has at most one document and makes sense to its end. -/
def isWellFormed (s : Stream) : Bool := s.ending == .proper

end Stream

end PlaneAccess.Yaml
