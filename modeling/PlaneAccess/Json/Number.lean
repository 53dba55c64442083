import PlaneAccess.Decimal.Arithmetic
import PlaneAccess.Decimal.Literal
import PlaneAccess.Json.Reader

/-!
# Numbers in JSON

A number keeps its value if it is an integer of 64 bits. Any other is scaled
by powers of ten in binary arithmetic, so it may not be the nearest one.
-/

namespace PlaneAccess.Json

open PlaneAccess.Text

/-- A number: a natural, a negative integer, or any other. Integers beyond
64 bits, and zero with a sign, count as numbers of the last kind. -/
inductive Number where
  | nat (n : Nat)
  | negative (n : Nat)
  | float (x : Binary64)

def maxNat : Nat := 18446744073709551615

/-- Digits put behind a significand as long as it fits into 64 bits, and the
number of digits left over. -/
def significand : Nat → List Char → Nat × Nat
  | n, [] => (n, 0)
  | n, d :: ds =>
    let n' := 10 * n + (d.toNat - '0'.toNat)
    if maxNat < n' then (n, ds.length + 1) else significand n' ds

def powerOfTen (k : Nat) : Binary64 := Binary64.ofDecimal false 1 k

/-- A significand scaled by a power of ten, in steps of at most 308 powers.
Each step is rounded. There is no result beyond the range of the format. -/
def scale : Nat → Binary64 → Int → Option Binary64
  | 0, _, _ => none
  | fuel + 1, x, e =>
    if e.natAbs ≤ 308 then
      if 0 ≤ e then
        match x.mulAbs (powerOfTen e.natAbs) with
        | .infinity _ => none
        | y => some y
      else some (x.divAbs (powerOfTen e.natAbs))
    else if x.same (.zero false) then some x
    else if 0 ≤ e then none
    else scale fuel (x.divAbs (powerOfTen 308)) (e + 308)

def floatOf (n : Nat) (e : Int) : Option Binary64 :=
  scale (e.natAbs / 308 + 2) (Binary64.ofDecimal false n 0) e

/-- An exponent so large that its sign alone decides. -/
def hugeExponent : Nat := 2147483647

structure Parts where
  whole : List Char
  part : Option (List Char)
  exponent : Option Int

def takeParts : Reader Parts := do
  let (whole, rest) := (← get).span Char.isDigit
  if whole.isEmpty || (whole.head? == some '0' && 1 < whole.length) then
    malformed
  set rest
  let part ← match rest with
    | '.' :: rest => do
      let (ds, rest) := rest.span Char.isDigit
      if ds.isEmpty then malformed
      set rest
      pure (some ds)
    | _ => pure none
  let exponent ← match ← get with
    | c :: rest =>
      if c == 'e' || c == 'E' then do
        let (negative, rest) := match rest with
          | '-' :: rest => (true, rest)
          | '+' :: rest => (false, rest)
          | rest => (false, rest)
        let (ds, rest) := rest.span Char.isDigit
        match Decimal.natural 10 ds with
        | none => malformed
        | some n =>
          set rest
          pure (some (if negative then -(n : Int) else (n : Int)))
      else pure none
    | [] => pure none
  return ⟨whole, part, exponent⟩

def Parts.number (p : Parts) (negative : Bool) : Option Number :=
  let (n, excess) := significand 0 p.whole
  let fine := p.part.isNone && p.exponent.isNone && excess == 0
  if fine && !negative then some (.nat n)
  else if fine && 0 < n && n ≤ 9223372036854775808 then some (.negative n)
  else
    let ds := p.part.getD []
    let (n, left) := significand n ds
    let e := (excess : Int) + left - ds.length + p.exponent.getD 0
    if n = 0 then some (.float (.zero negative))
    else if hugeExponent < e.natAbs then
      if e < 0 then some (.float (.zero negative)) else none
    else (floatOf n e).map (fun x => .float (x.withSign negative))

def takeNumber : Reader Number := do
  let negative := (← get).head? == some '-'
  if negative then take
  match (← takeParts).number negative with
  | some n => return n
  | none => malformed

def startsNumber (c : Char) : Bool := c == '-' || c.isDigit

/-- How a message names a number. -/
def Number.found : Number → Found
  | nat n => .int n
  | negative n => .int (-(n : Int))
  | float x => .float x

end PlaneAccess.Json
