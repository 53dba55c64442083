/-!
# Binary floating point

The numbers of the 64-bit binary format, as a mantissa and an exponent of
two, and the number of the format nearest to a decimal. All arithmetic is
on exact naturals.
-/

namespace PlaneAccess

/-- Whether `m * 2 ^ e` is the form in which the format holds a number: a
mantissa of 53 bits, of which the first is set unless the exponent is
least. -/
def Binary64.IsNormal (m : Nat) (e : Int) : Prop :=
  m < Nat.pow 2 53 ∧ -1074 ≤ e ∧ e ≤ 971 ∧
    (Nat.pow 2 52 ≤ m ∨ e = -1074)

instance (m : Nat) (e : Int) : Decidable (Binary64.IsNormal m e) := by
  unfold Binary64.IsNormal
  infer_instance

/-- A number of the 64-bit binary format. `finite s m e` stands for
`m * 2 ^ e`, negated if `s`. There is one value that is no number. -/
inductive Binary64 where
  | nan
  | infinity (negative : Bool)
  | finite (negative : Bool) (mantissa : Nat) (exponent : Int)
      (normal : Binary64.IsNormal mantissa exponent)
  deriving DecidableEq

namespace Binary64

def zero (negative : Bool) : Binary64 :=
  finite negative 0 (-1074) (by decide)

def fractionOf (m : Nat) (e : Int) : Nat × Nat :=
  match e with
  | .ofNat n => (m * Nat.pow 2 n, 1)
  | .negSucc n => (m, Nat.pow 2 (n + 1))

/-- The quotient rounded to the nearest natural, a half to the even one. -/
def divNearest (num den : Nat) : Nat :=
  let q := num / den
  let r := num % den
  if 2 * r < den then q
  else if den < 2 * r then q + 1
  else if q % 2 = 0 then q else q + 1

/-- The numerator and denominator of `num / den / 2 ^ e`. -/
def scaleTwo (num den : Nat) (e : Int) : Nat × Nat :=
  match e with
  | .ofNat n => (num, den * Nat.pow 2 n)
  | .negSucc n => (num * Nat.pow 2 (n + 1), den)

/-- The exponent at which the mantissa of `num / den` fills 53 bits, but no
less than the format's least. -/
def exponentFor (num den : Nat) : Int :=
  let guess : Int := (num.log2 : Int) - (den.log2 : Int) - 52
  let (n, d) := scaleTwo num den guess
  let e := if n / d < Nat.pow 2 52 then guess - 1 else guess
  max e (-1074)

/-- The number `m * 2 ^ e`. Mantissas that outgrew the format by rounding
are halved, and numbers beyond the format are infinite. -/
def ofRounded (negative : Bool) (m : Nat) (e : Int) : Binary64 :=
  let (m, e) := if m = Nat.pow 2 53 then (Nat.pow 2 52, e + 1) else (m, e)
  if h : IsNormal m e then finite negative m e h else infinity negative

/-- The number nearest to a positive fraction. -/
def ofFraction (negative : Bool) (num den : Nat) : Binary64 :=
  let e := exponentFor num den
  let (n, d) := scaleTwo num den e
  ofRounded negative (divNearest n d) e

/-- The number nearest to `digits * 10 ^ exponent`. Decimals beyond the
format's range are settled by their size alone. -/
def ofDecimal (negative : Bool) (digits : Nat) (exponent : Int) : Binary64 :=
  if digits = 0 then zero negative
  else
    let size : Int := (Nat.toDigits 10 digits).length + exponent
    if 310 < size then infinity negative
    else if size < -330 then zero negative
    else match exponent with
      | .ofNat k => ofFraction negative (digits * Nat.pow 10 k) 1
      | .negSucc k => ofFraction negative digits (Nat.pow 10 (k + 1))

/-- Whether two values count as the same number: zero has no sign, and the
value that is no number is the same as itself. -/
def same : Binary64 → Binary64 → Bool
  | nan, nan => true
  | infinity s, infinity t => s == t
  | finite s m e _, finite t n f _ =>
    (m == 0 && n == 0) || (s, m, e) == (t, n, f)
  | _, _ => false

end Binary64

end PlaneAccess
