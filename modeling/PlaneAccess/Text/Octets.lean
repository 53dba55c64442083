/-!
# Octets

Lists cut at separators, and the text that is shown for octets which need not
be one.
-/

namespace PlaneAccess.Text

def splitAt {α : Type} [BEq α] (separator : α) : List α → List (List α)
  | [] => [[]]
  | a :: as =>
    if a == separator then [] :: splitAt separator as
    else
      match splitAt separator as with
      | [] => [[a]]
      | p :: ps => (a :: p) :: ps

/-- What stands for octets that are no text. -/
def replacement : Char := '\ufffd'

/-- The octets that can follow one with which a character of several octets
begins, each as a range. No octet follows one that begins no such character. -/
def followers (o : UInt8) : List (UInt8 × UInt8) :=
  let any := (0x80, 0xbf)
  if o < 0xc2 then []
  else if o < 0xe0 then [any]
  else if o = 0xe0 then [(0xa0, 0xbf), any]
  else if o = 0xed then [(0x80, 0x9f), any]
  else if o < 0xf0 then [any, any]
  else if o = 0xf0 then [(0x90, 0xbf), any, any]
  else if o < 0xf4 then [any, any, any]
  else if o = 0xf4 then [(0x80, 0x8f), any, any]
  else []

/-- The bits of a first octet that belong to the code point. -/
def leadingBits (o : UInt8) : Nat :=
  if o < 0xe0 then o.toNat % 32 else if o < 0xf0 then o.toNat % 16 else o.toNat % 8

/-- The characters from an octet on that begins one. The others follow with
the ranges for what belongs to it and its bits so far. -/
def lossyStart (next : List (UInt8 × UInt8) → Nat → List Char) (o : UInt8) :
    List Char :=
  if o < 0x80 then Char.ofNat o.toNat :: next [] 0
  else if (followers o).isEmpty then replacement :: next [] 0
  else next (followers o) (leadingBits o)

/-- The characters of octets in the midst of one. What is cut short becomes
one replacement, and the octet after it begins anew. -/
def lossyFrom : List (UInt8 × UInt8) → Nat → List UInt8 → List Char
  | [], _, [] => []
  | _ :: _, _, [] => [replacement]
  | [], _, o :: os => lossyStart (fun ranges bits => lossyFrom ranges bits os) o
  | (low, high) :: ranges, bits, o :: os =>
    if low ≤ o && o ≤ high then
      let bits := bits * 64 + o.toNat % 64
      if ranges.isEmpty then Char.ofNat bits :: lossyFrom [] 0 os
      else lossyFrom ranges bits os
    else replacement :: lossyStart (fun ranges bits => lossyFrom ranges bits os) o

def lossy (os : List UInt8) : String := String.ofList (lossyFrom [] 0 os)

end PlaneAccess.Text
