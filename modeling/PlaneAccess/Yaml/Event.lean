import PlaneAccess.Yaml.Token

/-!
# Events

What a sequence of tokens says: scalars and references one after the other,
and where collections start and end. The tokens are read by a stack of what
has still to come. If they stop making sense the events before that stand.
-/

namespace PlaneAccess.Yaml

inductive Event where
  | scalar (anchor tag : Option String) (style : ScalarStyle) (text : String)
  | reference (name : String)
  | sequence (anchor tag : Option String)
  | mapping (anchor tag : Option String)
  | close
  deriving DecidableEq, Repr

inductive Expected where
  /-- A node. Block collections may start only if `inBlock`, and a sequence
  without an indentation of its own only if `unindented`. -/
  | node (inBlock unindented : Bool)
  | blockEntry
  | unindentedEntry
  | blockKey
  | blockValue
  | flowEntry (first : Bool)
  | pairKey
  | pairValue
  | pairEnd
  | flowKey (first : Bool)
  | flowValue
  | noFlowValue
  deriving DecidableEq, Repr

namespace Event

def blank : Event := scalar none none .plain ""

/-- What a handle stands for, given the declared ones. -/
def prefixOf (declared : List (String × String)) (handle : String) :
    Option String :=
  match declared.lookup handle with
  | some body => some body
  | none =>
    if handle == "!" then some "!"
    else if handle == "!!" then some "tag:yaml.org,2002:"
    else none

def fullTag (declared : List (String × String)) (handle suffix : String) :
    Option String :=
  if handle.isEmpty then some suffix
  else (prefixOf declared handle).map (· ++ suffix)

/-- The anchor and the tag in front of a node, in either order, and the
tokens after them. Fails if the tag has an unknown handle. -/
def properties (declared : List (String × String)) (ts : List Token) :
    Option (Option String × Option String × List Token) :=
  match ts with
  | .anchor a :: .tag h s :: ts =>
    (fullTag declared h s).map (fun t => (some a, some t, ts))
  | .tag h s :: .anchor a :: ts =>
    (fullTag declared h s).map (fun t => (some a, some t, ts))
  | .anchor a :: ts => some (some a, none, ts)
  | .tag h s :: ts => (fullTag declared h s).map (fun t => (none, some t, ts))
  | ts => some (none, none, ts)

/-- The result of one step: the event that was read if there is one, what to
expect next, and the remaining tokens. -/
structure Step where
  event : Option Event
  expected : List Expected
  tokens : List Token

/-- Reads a node. A node may be left out after its properties. -/
def readNode (declared : List (String × String)) (inBlock unindented : Bool)
    (below : List Expected) (ts : List Token) : Option Step :=
  match ts with
  | .reference a :: ts => some ⟨some (.reference a), below, ts⟩
  | _ =>
    match properties declared ts with
    | none => none
    | some (a, t, ts) =>
      match ts with
      | .scalar style text :: ts =>
        some ⟨some (.scalar a t style text), below, ts⟩
      | .flowSequence :: ts =>
        some ⟨some (.sequence a t), .flowEntry true :: below, ts⟩
      | .flowMapping :: ts =>
        some ⟨some (.mapping a t), .flowKey true :: below, ts⟩
      | .blockSequence :: rest =>
        if inBlock then
          some ⟨some (.sequence a t), .blockEntry :: below, rest⟩
        else left a t below ts
      | .blockMapping :: rest =>
        if inBlock then
          some ⟨some (.mapping a t), .blockKey :: below, rest⟩
        else left a t below ts
      | .blockEntry :: _ =>
        if unindented then
          some ⟨some (.sequence a t), .unindentedEntry :: below, ts⟩
        else left a t below ts
      | _ => left a t below ts
where
  /-- A node of which only properties are written. -/
  left (a t : Option String) (below : List Expected) (ts : List Token) :
      Option Step :=
    if ts.isEmpty then none
    else if a.isSome || t.isSome then
      some ⟨some (.scalar a t .plain ""), below, ts⟩
    else none

/-- A node if one starts here, and an empty scalar otherwise. -/
def nodeUnless (absent : Token → Bool) (inBlock unindented : Bool)
    (below : List Expected) (ts : List Token) : Option Step :=
  match ts with
  | [] => none
  | t :: _ =>
    if absent t then some ⟨some blank, below, ts⟩
    else some ⟨none, .node inBlock unindented :: below, ts⟩

/-- Reads what is expected first. -/
def step (declared : List (String × String)) (e : Expected)
    (below : List Expected) (ts : List Token) : Option Step :=
  match e, ts with
  | _, [] => none
  | .node inBlock unindented, ts =>
    readNode declared inBlock unindented below ts
  | .blockEntry, .blockEntry :: ts =>
    nodeUnless (fun t => t == .blockEntry || t == .blockEnd) true false
      (.blockEntry :: below) ts
  | .blockEntry, .blockEnd :: ts => some ⟨some .close, below, ts⟩
  | .blockEntry, _ => none
  | .unindentedEntry, .blockEntry :: ts =>
    nodeUnless
      (fun t => t == .blockEntry || t == .key || t == .value || t == .blockEnd)
      true false (.unindentedEntry :: below) ts
  | .unindentedEntry, ts => some ⟨some .close, below, ts⟩
  | .blockKey, .key :: ts =>
    nodeUnless (fun t => t == .key || t == .value || t == .blockEnd) true true
      (.blockValue :: below) ts
  | .blockKey, .blockEnd :: ts => some ⟨some .close, below, ts⟩
  | .blockKey, _ => none
  | .blockValue, .value :: ts =>
    nodeUnless (fun t => t == .key || t == .value || t == .blockEnd) true true
      (.blockKey :: below) ts
  | .blockValue, ts => some ⟨some blank, .blockKey :: below, ts⟩
  | .flowEntry _, .flowSequenceEnd :: ts => some ⟨some .close, below, ts⟩
  | .flowEntry true, ts => flowEntry below ts
  | .flowEntry false, .flowEntry :: ts => flowEntry below ts
  | .flowEntry false, _ => none
  | .pairKey, t :: rest =>
    if t == .value || t == .flowEntry || t == .flowSequenceEnd then
      some ⟨some blank, .pairValue :: below, rest⟩
    else some ⟨none, .node false false :: .pairValue :: below, ts⟩
  | .pairValue, .value :: ts =>
    nodeUnless (fun t => t == .flowEntry || t == .flowSequenceEnd) false false
      (.pairEnd :: below) ts
  | .pairValue, ts => some ⟨some blank, .pairEnd :: below, ts⟩
  | .pairEnd, ts => some ⟨some .close, .flowEntry false :: below, ts⟩
  | .flowKey _, .flowMappingEnd :: ts => some ⟨some .close, below, ts⟩
  | .flowKey true, ts => flowKey below ts
  | .flowKey false, .flowEntry :: ts => flowKey below ts
  | .flowKey false, _ => none
  | .flowValue, .value :: ts =>
    nodeUnless (fun t => t == .flowEntry || t == .flowMappingEnd) false false
      (.flowKey false :: below) ts
  | .flowValue, ts => some ⟨some blank, .flowKey false :: below, ts⟩
  | .noFlowValue, ts => some ⟨some blank, .flowKey false :: below, ts⟩
where
  /-- The entry of a flow sequence that starts here, if any. A key makes it a
  mapping of one entry. -/
  flowEntry (below : List Expected) (ts : List Token) : Option Step :=
    match ts with
    | [] => none
    | .flowSequenceEnd :: ts => some ⟨some .close, below, ts⟩
    | .key :: ts => some ⟨some (.mapping none none), .pairKey :: below, ts⟩
    | ts => some ⟨none, .node false false :: .flowEntry false :: below, ts⟩
  /-- The entry of a flow mapping that starts here, if any. -/
  flowKey (below : List Expected) (ts : List Token) : Option Step :=
    match ts with
    | [] => none
    | .flowMappingEnd :: ts => some ⟨some .close, below, ts⟩
    | .key :: ts =>
      nodeUnless
        (fun t => t == .value || t == .flowEntry || t == .flowMappingEnd)
        false false (.flowValue :: below) ts
    | ts => some ⟨none, .node false false :: .noFlowValue :: below, ts⟩

/-- Reads until nothing is expected any more. Gives the events, and the
tokens after them unless the events end early. A token leads to five steps
at most. -/
def readAll (declared : List (String × String)) :
    Nat → List Expected → List Token → List Event × Option (List Token)
  | _, [], ts => ([], some ts)
  | 0, _ :: _, _ => ([], none)
  | fuel + 1, e :: below, ts =>
    match step declared e below ts with
    | none => ([], none)
    | some s =>
      let (es, left) := readAll declared fuel s.expected s.tokens
      (s.event.toList ++ es, left)

def ofTokens (declared : List (String × String)) (ts : List Token) :
    List Event × Option (List Token) :=
  readAll declared (5 * ts.length + 5) [.node true false] ts

end Event

end PlaneAccess.Yaml
