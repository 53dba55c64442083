import PlaneAccess.Decimal.Notation

/-!
# Values

Data that is kept without being looked at: null, booleans, numbers, strings,
sequences, mappings with their entries in order, and values with a tag.
-/

namespace PlaneAccess.Yaml

structure Integer where
  val : Int
  low : -9223372036854775808 ≤ val
  high : val < 18446744073709551616
  deriving DecidableEq

namespace Integer

def ofInt? (i : Int) : Option Integer :=
  if h : -9223372036854775808 ≤ i ∧ i < 18446744073709551616 then
    some ⟨i, h.1, h.2⟩
  else none

end Integer

/-- A value. A tag is kept without the exclamation mark in front of it. -/
inductive Value where
  | null
  | bool (b : Bool)
  | int (i : Integer)
  | float (x : Binary64)
  | string (s : String)
  | sequence (items : List Value)
  | mapping (entries : List (Value × Value))
  | tagged (tag : String) (value : Value)

def floatNotation : Decimal.Notation where
  bounds := some (-5, 16)
  plusSign := false
  nanText := ".nan"
  infinityText := ".inf"
  negativeInfinityText := "-.inf"

namespace Value

/-- A tag without the exclamation mark in front. A lone mark is kept. -/
def bareTag (tag : String) : String :=
  match tag.toList with
  | '!' :: c :: cs => String.ofList (c :: cs)
  | _ => tag

mutual

/-- Whether two values say the same. Numbers are compared as numbers, and
the entries of mappings may come in any order. -/
def same : Value → Value → Bool
  | null, null => true
  | bool a, bool b => a == b
  | int a, int b => a.val == b.val
  | float a, float b => a.same b
  | string a, string b => a == b
  | sequence as, sequence bs => sameItems as bs
  | mapping as, mapping bs => as.length == bs.length && sameEntries as bs
  | tagged s a, tagged t b => s == t && same a b
  | _, _ => false

def sameItems : List Value → List Value → Bool
  | [], [] => true
  | a :: as, b :: bs => same a b && sameItems as bs
  | _, _ => false

/-- Whether each entry has one in the other mapping that says the same. -/
def sameEntries : List (Value × Value) → List (Value × Value) → Bool
  | [], _ => true
  | (k, v) :: as, bs =>
    bs.any (fun (k', v') => same k k' && same v v') && sameEntries as bs

end

def hasKey (k : Value) (entries : List (Value × Value)) : Bool :=
  entries.any (fun e => same e.1 k)

end Value

end PlaneAccess.Yaml
