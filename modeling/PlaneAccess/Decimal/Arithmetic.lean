import PlaneAccess.Decimal.Binary64

/-!
# Products and quotients of binary numbers

The exact product or quotient of two positive numbers, rounded to the
nearest number of the format.
-/

namespace PlaneAccess.Binary64

/-- The absolute value of a finite number as a fraction. -/
def toFraction? : Binary64 → Option (Nat × Nat)
  | finite _ m e _ => some (fractionOf m e)
  | _ => none

/-- The number nearest to a fraction that may be zero. -/
def ofRatio (num den : Nat) : Binary64 :=
  if num = 0 then zero false else ofFraction false num den

def mulAbs (x y : Binary64) : Binary64 :=
  match x.toFraction?, y.toFraction? with
  | some (a, b), some (c, d) => ofRatio (a * c) (b * d)
  | _, _ => infinity false

def divAbs (x y : Binary64) : Binary64 :=
  match x.toFraction?, y.toFraction? with
  | some (a, b), some (c, d) => ofRatio (a * d) (b * c)
  | _, _ => zero false

def withSign (negative : Bool) : Binary64 → Binary64
  | finite _ m e h => finite negative m e h
  | infinity _ => infinity negative
  | nan => nan

end PlaneAccess.Binary64
