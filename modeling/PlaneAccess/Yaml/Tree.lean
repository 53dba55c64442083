import PlaneAccess.Yaml.Node

/-!
# Trees

The content of a document with its references followed. How deep collections
may be nested and how many references may be followed is limited. What a
reader does not look at is neither followed nor limited.
-/

namespace PlaneAccess.Yaml

/-- How a scalar of a tree is written, as far as its meaning depends on it.
Quoted and folded scalars mean the same. -/
inductive Form where
  | plain
  | literal
  | quoted
  deriving DecidableEq, Repr

def ScalarStyle.form : ScalarStyle → Form
  | plain => .plain
  | literal => .literal
  | _ => .quoted

/-- Why a part of a document cannot be read. -/
inductive Fault where
  | cutOff
  | tooDeep
  | tooManyAliases
  deriving DecidableEq, Repr

/-- A document with references followed. `reference` keeps the place where one
stood. -/
inductive Tree where
  | scalar (tag : Option String) (form : Form) (text : String)
  | sequence (tag : Option String) (items : List Tree)
  | mapping (tag : Option String) (entries : List (Tree × Tree))
  | reference (target : Tree)
  | fault (cause : Fault)

namespace Tree

/-- The tree that a reference leads to, and any other tree itself. -/
def target : Tree → Tree
  | reference t => t.target
  | t => t

/-- The text of a scalar, also behind a reference. -/
def text? (t : Tree) : Option String :=
  match t.target with
  | scalar _ _ text => some text
  | _ => none

/-- What stands for a value that nobody looks at. -/
def unread : Tree := scalar none .plain ""

end Tree

/-- Which parts of a value a reader looks at. -/
inductive Interest where
  | nothing
  | everything
  /-- The values of some keys of a mapping. -/
  | fields (fields : List (String × Interest))
  /-- The items of a sequence. -/
  | items (item : Interest)

def Interest.ofItem : Interest → Interest
  | items i => i
  | everything => everything
  | _ => nothing

def Interest.ofKey (i : Interest) (key : Option String) : Interest :=
  match i with
  | fields fs => (key.bind (List.lookup · fs)).getD nothing
  | everything => everything
  | _ => nothing

mutual

/-- Whether the text stopped making sense within a node. -/
def Node.isCut : Node → Bool
  | .sequence _ items => Node.anyCut items
  | .mapping _ entries => Node.anyCutEntry entries
  | .cut => true
  | _ => false

def Node.anyCut : List Node → Bool
  | [] => false
  | n :: ns => n.isCut || Node.anyCut ns

def Node.anyCutEntry : List (Node × Node) → Bool
  | [] => false
  | (k, v) :: es => k.isCut || v.isCut || Node.anyCutEntry es

end

namespace Tree

def depthLimit : Nat := 128

/-- A tree of a node that is not a reference, given the trees of its
children. `depth` counts the collections that may still be entered. -/
def ofContent (child : Option (Interest → Node → StateM Nat Tree))
    (i : Interest) : Node → StateM Nat Tree
  | .scalar tag style text => return scalar tag style.form text
  | .sequence tag items =>
    match child with
    | none => return fault .tooDeep
    | some child => return sequence tag (← items.mapM (child i.ofItem))
  | .mapping tag entries =>
    match child with
    | none => return fault .tooDeep
    | some child => do
      let entries ← entries.mapM (fun (k, v) => do
        let key ← child .everything k
        let value ← child (i.ofKey key.text?) v
        return (key, value))
      return mapping tag entries
  | .reference _ => return fault .cutOff
  | .cut => return fault .cutOff

/-- The tree of a node. The state is the number of references that may still
be followed; a reference leads to the anchored node of its number. -/
def ofNode (anchored : List (Nat × Node)) :
    Nat → Interest → Node → StateM Nat Tree
  | depth, i, n => do
    let child := match depth with
      | 0 => none
      | depth + 1 => some (ofNode anchored depth)
    match i, n with
    | .nothing, n => return if n.isCut then fault .cutOff else unread
    | i, .reference number =>
      match ← get with
      | 0 => return fault .tooManyAliases
      | left + 1 =>
        set left
        match anchored.lookup number with
        | none => return fault .cutOff
        | some n => return reference (← ofContent child i n)
    | i, n => ofContent child i n

/-- The tree of the content of a document, as far as a reader looks at it. A
hundred references may be followed for each event. -/
def ofContentOf (c : Content) (i : Interest) : Tree :=
  (ofNode c.anchored depthLimit i c.root (100 * c.events)).1

end Tree

end PlaneAccess.Yaml
