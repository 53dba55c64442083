/-!
# Durations

A span of time in whole seconds and nanoseconds, and its text: the largest
unit of which it holds at least one, with as many decimals as are needed.
-/

namespace PlaneAccess

/-- A span of time. The nanoseconds make up less than one second. -/
structure Duration where
  secs : Nat
  nanos : Nat
  nanos_lt : nanos < 1000000000
  deriving DecidableEq, Repr

namespace Duration

def ofNanos (n : Nat) : Duration :=
  ⟨n / 1000000000, n % 1000000000, Nat.mod_lt _ (by decide)⟩

def ofMillis (n : Nat) : Duration := ofNanos (n * 1000000)

def ofSecs (n : Nat) : Duration := ⟨n, 0, by decide⟩

def toNanos (d : Duration) : Nat := d.secs * 1000000000 + d.nanos

/-- The decimals of `part` out of `unit = 10 ^ places`, without trailing
zeros and with the point in front. Nothing is left of a zero part. -/
def decimals (places part : Nat) : List Char :=
  let digits := Nat.toDigits 10 part
  let padded := List.replicate (places - digits.length) '0' ++ digits
  match (padded.reverse.dropWhile (· == '0')).reverse with
  | [] => []
  | ds => '.' :: ds

def textIn (whole places part : Nat) (unit : String) : String :=
  toString whole ++ String.ofList (decimals places part) ++ unit

/-- The text of a span, such as `0ns`, `12.345µs`, `1.5s`. -/
def toText (d : Duration) : String :=
  if 0 < d.secs then textIn d.secs 9 d.nanos "s"
  else if 1000000 ≤ d.nanos then
    textIn (d.nanos / 1000000) 6 (d.nanos % 1000000) "ms"
  else if 1000 ≤ d.nanos then
    textIn (d.nanos / 1000) 3 (d.nanos % 1000) "µs"
  else textIn d.nanos 0 0 "ns"

end Duration

end PlaneAccess
