import PlaneAccess.Yaml.Scalar.Style

/-!
# Trees of values

The tree in which a value is written, and which values cannot be written at
all.
-/

namespace PlaneAccess.Yaml

def Tree.ofString (s : String) : Tree := .scalar none (Style.formOf s) s

def Tree.ofWord (s : String) : Tree := .scalar none .plain s

def Tree.ofBool (b : Bool) : Tree := ofWord (if b then "true" else "false")

def Tree.withTag (tag : String) : Tree → Tree
  | .scalar _ form text => .scalar (some tag) form text
  | .sequence _ items => .sequence (some tag) items
  | .mapping _ entries => .mapping (some tag) entries
  | t => t

namespace Value

def markedTag (tag : String) : String :=
  if tag.toList.head? == some '!' then tag else "!" ++ tag

mutual

def toTree : Value → Tree
  | null => .ofWord "null"
  | bool b => .ofBool b
  | int i => .ofWord (toString i.val)
  | float x => .ofWord (floatNotation.write x)
  | string s => .ofString s
  | sequence items => .sequence none (toTrees items)
  | mapping entries => .mapping none (toTreeEntries entries)
  | tagged tag v => v.toTree.withTag (markedTag tag)

def toTrees : List Value → List Tree
  | [] => []
  | v :: vs => v.toTree :: toTrees vs

def toTreeEntries : List (Value × Value) → List (Tree × Tree)
  | [] => []
  | (k, v) :: es => (k.toTree, v.toTree) :: toTreeEntries es

end

/-- Whether a value is a tagged one or a mapping of one entry. -/
def isSingle : Value → Bool
  | tagged _ _ => true
  | mapping [_] => true
  | _ => false

/-- Whether there is one entry, with a key that is tagged or a mapping of one
entry. -/
def isKeyedBySingle : List (Value × Value) → Bool
  | [(k, _)] => isSingle k
  | _ => false

mutual

/-- Whether a value can be written, under a tag or not. There is no way to
write two tags on one value, nor a mapping of one entry with a key that is
tagged or such a mapping itself, unless it has a tag. -/
def isWritable (underTag : Bool) : Value → Bool
  | tagged _ v => !underTag && isWritable true v
  | sequence items => areWritable items
  | mapping entries =>
    (underTag || !isKeyedBySingle entries) && areWritableEntries entries
  | _ => true

def areWritable : List Value → Bool
  | [] => true
  | v :: vs => isWritable false v && areWritable vs

def areWritableEntries : List (Value × Value) → Bool
  | [] => true
  | (k, v) :: es =>
    isWritable false k && isWritable false v && areWritableEntries es

end

end Value

end PlaneAccess.Yaml
