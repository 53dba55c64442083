import PlaneAccess.Decimal.Binary64

/-!
# The shortest decimal of a binary number

The fewest digits whose nearest number of the format is the given one, and
of several such decimals the nearest.
-/

namespace PlaneAccess.Decimal

/-- A positive decimal `digits * 10 ^ exponent`. -/
structure Digits where
  digits : List Char
  exponent : Int
  deriving DecidableEq, Repr

/-- The numerator and denominator of `num / den / 10 ^ p`. -/
def scaleTen (num den : Nat) (p : Int) : Nat × Nat :=
  match p with
  | .ofNat n => (num, den * Nat.pow 10 n)
  | .negSucc n => (num * Nat.pow 10 (n + 1), den)

/-- Whether `m * 2 ^ e` is the number of the format nearest to
`c * 10 ^ p`. -/
def readsAs (m : Nat) (e : Int) (c : Nat) (p : Int) : Bool :=
  match Binary64.ofDecimal false c p with
  | .finite _ m' e' _ => m' == m && e' == e
  | _ => false

/-- The multiple of `10 ^ p` that reads as `m * 2 ^ e` and is nearest to it,
if there is one. Only the two neighbours of the number come into question;
of two equally near the even one is taken. -/
def nearest (m : Nat) (e : Int) (p : Int) : Option Nat :=
  let (num, den) := Binary64.fractionOf m e
  let (num, den) := scaleTen num den p
  let c := num / den
  let r := num % den
  match readsAs m e c p, readsAs m e (c + 1) p with
  | true, true =>
    if 2 * r < den then some c
    else if den < 2 * r then some (c + 1)
    else if c % 2 = 0 then some c else some (c + 1)
  | true, false => some c
  | false, true => some (c + 1)
  | false, false => none

/-- The exponent of ten of the leading digit of a fraction. -/
def magnitude (num den : Nat) : Int :=
  if den ≤ num then ((Nat.toDigits 10 (num / den)).length : Int) - 1
  else
    -- the least `k` with `den ≤ num * 10 ^ k`, negated
    let guess := (Nat.toDigits 10 (den / num)).length
    if den ≤ num * Nat.pow 10 (guess - 1) then 1 - (guess : Int)
    else - (guess : Int)

/-- The first of `n` grids, from coarse to fine, that has a point which reads
as `m * 2 ^ e`. -/
def search (m : Nat) (e : Int) : Nat → Int → Option (Nat × Int)
  | 0, _ => none
  | n + 1, p =>
    match nearest m e p with
    | some c => some (c, p)
    | none => search m e n (p - 1)

def exact (m : Nat) (e : Int) : Nat × Int :=
  match e with
  | .ofNat n => (m * Nat.pow 2 n, 0)
  | .negSucc n => (m * Nat.pow 5 (n + 1), .negSucc n)

/-- The shortest decimal of the number `m * 2 ^ e`, with no zeros at the end
of its digits. Seventeen digits suffice, and all of them always do. -/
def shortest (m : Nat) (e : Int) : Digits :=
  let (num, den) := Binary64.fractionOf m e
  let (c, p) := (search m e 18 (magnitude num den)).getD (exact m e)
  let ds := Nat.toDigits 10 c
  let kept := (ds.reverse.dropWhile (· == '0')).reverse
  ⟨kept, p + ((ds.length - kept.length : Nat) : Int)⟩

end PlaneAccess.Decimal
