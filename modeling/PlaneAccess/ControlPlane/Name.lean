import PlaneAccess.Text.Quoted

/-!
# Names of control planes

A control plane has a DNS label as its name: up to 63 lower-case letters,
digits and dashes, with no dash at either end.
-/

namespace PlaneAccess.ControlPlane

inductive NameFault where
  | empty
  | tooLong
  | badCharacter
  | badEnd
  deriving DecidableEq, Repr

namespace NameFault

def message : NameFault → String
  | empty => "name must not be empty"
  | tooLong => "name must be at most 63 characters"
  | badCharacter => "name may only contain lowercase alphanumerics and '-'"
  | badEnd => "name must start and end with an alphanumeric character"

end NameFault

/-- Whether a character is a lower-case letter or a digit of ASCII. -/
def isLabelAlnum (c : Char) : Bool := c.isLower || c.isDigit

def isLabelChar (c : Char) : Bool := isLabelAlnum c || c == '-'

/-- What is wrong with a name, if anything. Its length counts in octets. -/
def nameFault? (s : String) : Option NameFault :=
  if s.isEmpty then some .empty
  else if 63 < s.utf8ByteSize then some .tooLong
  else if !s.toList.all isLabelChar then some .badCharacter
  else if s.toList.head? == some '-' || s.toList.getLast? == some '-' then
    some .badEnd
  else none

structure Name where
  text : String
  sound : nameFault? text = none
  deriving DecidableEq

namespace Name

def parse (s : String) : Except NameFault Name :=
  match h : nameFault? s with
  | none => .ok ⟨s, h⟩
  | some f => .error f

end Name

end PlaneAccess.ControlPlane
