import PlaneAccess.Yaml.Event

/-!
# Nodes

The content of a document as it is written: scalars, collections, and
references to anchored nodes by number. An anchor name may be used again. A
reference means the last node before it with that name, and its number is
the count of different names at that node, so nodes can come to share a
number. The last node of a number is the one that references lead to.
-/

namespace PlaneAccess.Yaml

/-- A piece of a document as written. `cut` stands where the text stopped
making sense. -/
inductive Node where
  | scalar (tag : Option String) (style : ScalarStyle) (text : String)
  | sequence (tag : Option String) (items : List Node)
  | mapping (tag : Option String) (entries : List (Node × Node))
  | reference (number : Nat)
  | cut

/-- A collection that has been opened: where it started if it is anchored,
whether it is a mapping, its tag, and its children so far in reverse. -/
structure OpenNode where
  anchored : Option Nat
  isMapping : Bool
  tag : Option String
  children : List Node

/-- The state of putting nodes together: the number of events read, the
number of each anchor name, where the last node of each number starts, the
anchored nodes by where they start, the open collections, and the node that
was completed outside of all of them. -/
structure Composer where
  position : Nat
  numbers : List (String × Nat)
  places : List (Nat × Nat)
  anchored : List (Nat × Node)
  opened : List OpenNode
  root : Option Node

namespace Node

/-- Children taken two at a time. A key without a value is cut off. -/
def pairUp : List Node → List (Node × Node)
  | [] => []
  | [k] => [(k, cut)]
  | k :: v :: rest => (k, v) :: pairUp rest

end Node

def OpenNode.toNode (o : OpenNode) : Node :=
  if o.isMapping then .mapping o.tag (Node.pairUp o.children.reverse)
  else .sequence o.tag o.children.reverse

namespace Composer

def start : Composer := ⟨0, [], [], [], [], none⟩

def addAnchor (c : Composer) : Option String → Composer
  | none => c
  | some name =>
    let number := c.numbers.length
    { c with
      numbers := (name, number) :: c.numbers.filter (fun e => e.1 != name)
      places := (number, c.position) :: c.places }

def addNode (c : Composer) (anchored : Option Nat) (n : Node) : Composer :=
  let c :=
    match anchored with
    | none => c
    | some p => { c with anchored := (p, n) :: c.anchored }
  match c.opened with
  | [] => { c with root := some n }
  | o :: os => { c with opened := { o with children := n :: o.children } :: os }

def openNode (c : Composer) (isMapping : Bool) (anchor tag : Option String) :
    Composer :=
  let c := c.addAnchor anchor
  let place := anchor.map (fun _ => c.position)
  { c with opened := ⟨place, isMapping, tag, []⟩ :: c.opened }

def closeNode (c : Composer) : Composer :=
  match c.opened with
  | [] => c
  | o :: os => addNode { c with opened := os } o.anchored o.toNode

/-- Reads one event. Fails at a reference to an unknown anchor. -/
def read (c : Composer) (e : Event) : Option Composer := do
  let c ← match e with
    | .scalar anchor tag style text =>
      let place := anchor.map (fun _ => c.position)
      pure ((c.addAnchor anchor).addNode place (.scalar tag style text))
    | .reference name => do
      pure (c.addNode none (.reference (← c.numbers.lookup name)))
    | .sequence anchor tag => pure (c.openNode false anchor tag)
    | .mapping anchor tag => pure (c.openNode true anchor tag)
    | .close => pure c.closeNode
  return { c with position := c.position + 1 }

/-- Reads events as far as they make sense, and says whether all do. -/
def readAll (c : Composer) : List Event → Composer × Bool
  | [] => (c, true)
  | e :: es =>
    match c.read e with
    | none => (c, false)
    | some c => c.readAll es

/-- Closes the open collections, from the innermost out, where the events
break off. -/
def closeAll : List OpenNode → Composer → Composer
  | [], c => c
  | _ :: os, c => closeAll os c.closeNode

def cutOff (c : Composer) : Composer :=
  let c := c.addNode none .cut
  closeAll c.opened c

end Composer

/-- The content of a document: its outermost node, the anchored nodes by
their numbers, and the number of its events. -/
structure Content where
  root : Node
  anchored : List (Nat × Node)
  events : Nat

def Composer.content (c : Composer) : Content :=
  let places := c.places.filterMap
    (fun (n, p) => (c.anchored.lookup p).map (fun node => (n, node)))
  ⟨c.root.getD .cut, places, c.position⟩

/-- The content that some events describe, and whether they all make sense.
If the events break off, or make no sense, the content is cut off there. -/
def Content.ofEvents (es : List Event) (complete : Bool) : Content × Bool :=
  let (c, sound) := Composer.start.readAll es
  let complete := complete && sound
  (if complete then c.content else c.cutOff.content, complete)

end PlaneAccess.Yaml
