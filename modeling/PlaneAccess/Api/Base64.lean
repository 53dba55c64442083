/-!
# Base 64

Octets written as characters that stand for six bits each. Four characters
hold three octets, and the last group is filled up with equals signs. What
is written is read back (`decode_encode`).
-/

namespace PlaneAccess.Api.Base64

/-- The six bits that a character stands for. -/
def sextet (c : Char) : Option Nat :=
  if 'A' ≤ c ∧ c ≤ 'Z' then some (c.toNat - 'A'.toNat)
  else if 'a' ≤ c ∧ c ≤ 'z' then some (c.toNat - 'a'.toNat + 26)
  else if '0' ≤ c ∧ c ≤ '9' then some (c.toNat - '0'.toNat + 52)
  else if c = '+' then some 62
  else if c = '/' then some 63
  else none

/-- The bits of some characters, taken together as one number. -/
def bits : List Char → Option Nat
  | [] => some 0
  | c :: cs =>
    match sextet c, bits cs with
    | some n, some m => some (n * Nat.pow 64 cs.length + m)
    | _, _ => none

/-- The octets of a last group of so many characters, whose unused bits must
be zero. -/
def lastGroup (cs : List Char) : Option (List UInt8) :=
  match cs.length, bits cs with
  | 2, some n => if n % 16 = 0 then some [(n / 16).toUInt8] else none
  | 3, some n =>
    if n % 4 = 0 then some [(n / 1024).toUInt8, (n / 4).toUInt8] else none
  | _, _ => none

def decode : List Char → Option (List UInt8)
  | [] => some []
  | [a, b, '=', '='] => lastGroup [a, b]
  | [a, b, c, '='] => lastGroup [a, b, c]
  | a :: b :: c :: d :: cs =>
    match bits [a, b, c, d], decode cs with
    | some n, some os =>
      some ((n / 65536).toUInt8 :: (n / 256).toUInt8 :: n.toUInt8 :: os)
    | _, _ => none
  | _ => none

def letter (n : Nat) : Char :=
  if n < 26 then Char.ofNat ('A'.toNat + n)
  else if n < 52 then Char.ofNat ('a'.toNat + (n - 26))
  else if n < 62 then Char.ofNat ('0'.toNat + (n - 52))
  else if n = 62 then '+'
  else '/'

def encode : List UInt8 → List Char
  | [] => []
  | [a] =>
    let n := a.toNat * 16
    [letter (n / 64), letter (n % 64), '=', '=']
  | [a, b] =>
    let n := (a.toNat * 256 + b.toNat) * 4
    [letter (n / 4096), letter (n / 64 % 64), letter (n % 64), '=']
  | a :: b :: c :: os =>
    let n := a.toNat * 65536 + b.toNat * 256 + c.toNat
    letter (n / 262144) :: letter (n / 4096 % 64) :: letter (n / 64 % 64) ::
      letter (n % 64) :: encode os

theorem sextet_letter {n : Nat} (h : n < 64) :
    sextet (letter n) = some n := by
  have : ∀ m : Fin 64, sextet (letter m) = some m.val := by decide
  exact this ⟨n, h⟩

theorem sextet_fill : sextet '=' = none := by decide

theorem letter_ne_fill {n : Nat} (h : n < 64) : letter n ≠ '=' := by
  intro he
  have := sextet_letter h
  rw [he, sextet_fill] at this
  cases this

theorem toUInt8_eq_of_add (a : UInt8) {n m : Nat}
    (h : n = a.toNat + 256 * m) : n.toUInt8 = a := by
  apply UInt8.toNat_inj.1
  have := a.toNat_lt
  rw [Nat.toUInt8, UInt8.toNat_ofNat', h]
  omega

theorem bits_letters {a b c d : Nat} (ha : a < 64) (hb : b < 64)
    (hc : c < 64) (hd : d < 64) :
    bits [letter a, letter b, letter c, letter d] =
      some (a * 262144 + b * 4096 + c * 64 + d) := by
  simp [bits, sextet_letter, ha, hb, hc, hd]
  omega

/-- What is written is read back. -/
theorem decode_encode (os : List UInt8) :
    decode (encode os) = some os := by
  fun_induction encode os with
  | case1 => rfl
  | case2 a n =>
    have ha := a.toNat_lt
    have hb : bits [letter (n / 64), letter (n % 64)] = some n := by
      rw [bits, bits, bits, sextet_letter (by omega),
        sextet_letter (by omega)]
      simp
      omega
    rw [decode, lastGroup, hb]
    simp [n, toUInt8_eq_of_add a (Nat.mul_div_cancel a.toNat (by decide))]
  | case3 a b n =>
    have ha := a.toNat_lt
    have hb := b.toNat_lt
    have hbits : bits [letter (n / 4096), letter (n / 64 % 64),
        letter (n % 64)] = some n := by
      rw [bits, bits, bits, bits, sextet_letter (by omega),
        sextet_letter (by omega), sextet_letter (by omega)]
      simp
      omega
    rw [decode, lastGroup, hbits]
    · have h₁ : (n / 1024).toUInt8 = a :=
        toUInt8_eq_of_add a (by omega : n / 1024 = a.toNat + 256 * 0)
      have h₂ : (n / 4).toUInt8 = b :=
        toUInt8_eq_of_add b (by omega : n / 4 = b.toNat + 256 * a.toNat)
      have hm : n % 4 = 0 := by omega
      simp [hm, h₁, h₂]
    · exact fun h => letter_ne_fill (by omega) h
  | case4 a b c os n ih =>
    have ha := a.toNat_lt
    have hb := b.toNat_lt
    have hc := c.toNat_lt
    have hbits : bits [letter (n / 262144), letter (n / 4096 % 64),
        letter (n / 64 % 64), letter (n % 64)] = some n := by
      rw [bits_letters (by omega) (by omega) (by omega) (by omega)]
      exact congrArg some (by omega)
    rw [decode, hbits, ih]
    · have h₁ : (n / 65536).toUInt8 = a :=
        toUInt8_eq_of_add a (by omega : n / 65536 = a.toNat + 256 * 0)
      have h₂ : (n / 256).toUInt8 = b :=
        toUInt8_eq_of_add b
          (by omega : n / 256 = b.toNat + 256 * a.toNat)
      have h₃ : n.toUInt8 = c :=
        toUInt8_eq_of_add c
          (by omega : n = c.toNat + 256 * (a.toNat * 256 + b.toNat))
      simp [h₁, h₂, h₃]
    · exact fun _ h _ => letter_ne_fill (by omega) h
    · exact fun h _ => letter_ne_fill (by omega) h

end PlaneAccess.Api.Base64
