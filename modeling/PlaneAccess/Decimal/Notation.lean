import PlaneAccess.Decimal.Shortest

/-!
# Notations for binary numbers

How the shortest decimal of a number is written out: with a point among its
digits, or with an exponent of ten.
-/

namespace PlaneAccess.Decimal

/-- A way of writing numbers. With the point after `k` digits, counted from
the first digit and negative in front of it, a number is written without an
exponent if `low < k` and `k ≤ high`; no bounds mean always. -/
structure Notation where
  bounds : Option (Int × Int)
  plusSign : Bool
  nanText : String
  infinityText : String
  negativeInfinityText : String

/-- The digits with the point after `k` of them. -/
def positional (ds : List Char) (k : Int) : List Char :=
  match k with
  | .ofNat n =>
    let whole := ds.take n ++ List.replicate (n - ds.length) '0'
    let whole := if whole.isEmpty then ['0'] else whole
    let part := ds.drop n
    whole ++ '.' :: (if part.isEmpty then ['0'] else part)
  | .negSucc n => '0' :: '.' :: (List.replicate (n + 1) '0' ++ ds)

/-- The digits with the point after the first and the exponent `e`. -/
def scientific (ds : List Char) (e : Int) (plusSign : Bool) : List Char :=
  let lead := match ds with
    | [] => []
    | [d] => [d]
    | d :: rest => d :: '.' :: rest
  let sign := if e < 0 then ['-'] else if plusSign then ['+'] else []
  lead ++ 'e' :: (sign ++ Nat.toDigits 10 e.natAbs)

/-- The text of a number in a notation. -/
def Notation.write (w : Notation) : Binary64 → String
  | .nan => w.nanText
  | .infinity false => w.infinityText
  | .infinity true => w.negativeInfinityText
  | .finite s m e _ =>
    let sign := if s then ['-'] else []
    let body :=
      if m = 0 then ['0', '.', '0']
      else
        let d := shortest m e
        let k : Int := d.digits.length + d.exponent
        let inside := match w.bounds with
          | none => true
          | some (low, high) => low < k && k ≤ high
        if inside then positional d.digits k
        else scientific d.digits (k - 1) w.plusSign
    String.ofList (sign ++ body)

end PlaneAccess.Decimal
