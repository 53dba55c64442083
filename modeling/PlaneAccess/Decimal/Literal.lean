import PlaneAccess.Decimal.Binary64

/-!
# Number literals

Digits of a base, and decimals with a fraction or an exponent, read from
text.
-/

namespace PlaneAccess.Decimal

def digitValue (c : Char) : Option Nat :=
  if c.isDigit then some (c.toNat - '0'.toNat)
  else if 'a' ≤ c && c ≤ 'f' then some (c.toNat - 'a'.toNat + 10)
  else if 'A' ≤ c && c ≤ 'F' then some (c.toNat - 'A'.toNat + 10)
  else none

/-- The number that some digits of a base stand for. There must be at least
one digit, and nothing else. -/
def natural (base : Nat) (cs : List Char) : Option Nat :=
  if cs.isEmpty then none
  else
    cs.foldlM
      (fun n c => do
        let d ← digitValue c
        if d < base then some (base * n + d) else none)
      0

/-- The number that some digits stand for with an optional sign in front. -/
def signed (base : Nat) (cs : List Char) : Option Int :=
  match cs with
  | '-' :: ds => (natural base ds).map (fun n => -(n : Int))
  | '+' :: ds => (natural base ds).map Int.ofNat
  | ds => (natural base ds).map Int.ofNat

/-- The exponent at the end of a decimal: nothing, or the letter `e` with an
integer. -/
def exponent (cs : List Char) : Option Int :=
  match cs with
  | [] => some 0
  | c :: ds => if c == 'e' || c == 'E' then signed 10 ds else none

/-- The number nearest to a decimal with an optional sign, an optional
fraction and an optional exponent. It needs a digit beside the point. -/
def float (cs : List Char) : Option Binary64 := do
  let (negative, cs) :=
    match cs with
    | '-' :: ds => (true, ds)
    | '+' :: ds => (false, ds)
    | ds => (false, ds)
  let (whole, cs) := cs.span Char.isDigit
  let (part, cs) :=
    match cs with
    | '.' :: ds => ds.span Char.isDigit
    | ds => ([], ds)
  let e ← exponent cs
  let n ← natural 10 (whole ++ part)
  return Binary64.ofDecimal negative n (e - part.length)

end PlaneAccess.Decimal
