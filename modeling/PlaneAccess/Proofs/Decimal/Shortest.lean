import PlaneAccess.Decimal.Arithmetic
import PlaneAccess.Proofs.Decimal.Digits
import PlaneAccess.Proofs.Decimal.Nearest

/-!
# The shortest decimal reads back

The number nearest to the shortest decimal of a number is the number itself
(`ofDecimal_shortest`), whichever way the decimal was found.
-/

namespace PlaneAccess

namespace Binary64

open Decimal

/-! ## Decimals of one value -/

theorem ofDecimal_withSign (s : Bool) (c : Nat) (p : Int) :
    ofDecimal s c p = (ofDecimal false c p).withSign s := by
  have hrounded : ∀ m e, ofRounded s m e = (ofRounded false m e).withSign s := by
    intro m e
    simp only [ofRounded]
    by_cases h : IsNormal (if m = Nat.pow 2 53 then (Nat.pow 2 52, e + 1) else (m, e)).1
        (if m = Nat.pow 2 53 then (Nat.pow 2 52, e + 1) else (m, e)).2
    · rw [dif_pos h, dif_pos h]
      rfl
    · rw [dif_neg h, dif_neg h]
      rfl
  have hfraction : ∀ num den, ofFraction s num den = (ofFraction false num den).withSign s :=
    fun num den => hrounded _ _
  unfold ofDecimal
  split
  · rfl
  · simp only
    split
    · rfl
    · split
      · rfl
      · split
        · exact hfraction _ _
        · exact hfraction _ _

/-- A zero behind the digits counts as much as a power of ten. -/
theorem ofDecimal_mul_ten (s : Bool) {c : Nat} (hc : c ≠ 0) (p : Int) :
    ofDecimal s (c * 10) p = ofDecimal s c (p + 1) := by
  have hsize : ((Nat.toDigits 10 (c * 10)).length : Int) + p =
      (Nat.toDigits 10 c).length + (p + 1) := by
    rw [toDigits_mul_ten hc, List.length_append, List.length_singleton]
    push_cast
    ring
  unfold ofDecimal
  rw [if_neg (Nat.mul_ne_zero hc (by decide)), if_neg hc]
  simp only [hsize]
  split
  · rfl
  · split
    · rfl
    · cases p with
      | ofNat k =>
        show ofFraction s (c * 10 * 10 ^ k) 1 = ofFraction s (c * 10 ^ (k + 1)) 1
        rw [Nat.pow_succ, Nat.mul_assoc, Nat.mul_comm 10]
      | negSucc k =>
        cases k with
        | zero =>
          show ofFraction s (c * 10) (1 * 10) = ofFraction s (c * 1) 1
          rw [ofFraction_mul_right s hc Nat.one_ne_zero (by decide), Nat.mul_one]
        | succ k =>
          show ofFraction s (c * 10) (10 ^ (k + 1) * 10) = ofFraction s c (10 ^ (k + 1))
          exact ofFraction_mul_right s hc (Nat.pow_pos (by decide)).ne' (by decide)

theorem ofDecimal_mul_pow (s : Bool) {c : Nat} (hc : c ≠ 0) (j : Nat) (p : Int) :
    ofDecimal s (c * 10 ^ j) p = ofDecimal s c (p + j) := by
  induction j generalizing p with
  | zero => simp
  | succ j ih =>
    rw [Nat.pow_succ, ← Nat.mul_assoc,
      ofDecimal_mul_ten s (Nat.mul_ne_zero hc (Nat.pow_pos (by decide)).ne'), ih]
    congr 1
    push_cast
    ring

/-! ## The exact decimal -/

theorem ofDecimal_of_bounds (s : Bool) {c : Nat} {p : Int} (hc : c ≠ 0)
    (hhigh : ((Nat.toDigits 10 c).length : Int) + p ≤ 310)
    (hlow : -330 ≤ ((Nat.toDigits 10 c).length : Int) + p) :
    ofDecimal s c p =
      match p with
      | .ofNat k => ofFraction s (c * Nat.pow 10 k) 1
      | .negSucc k => ofFraction s c (Nat.pow 10 (k + 1)) := by
  unfold ofDecimal
  simp only
  rw [if_neg hc, if_neg (Int.not_lt.mpr hhigh), if_neg (Int.not_lt.mpr hlow)]
  cases p with
  | ofNat k => rfl
  | negSucc k => rfl

/-- A multiple of a power of five has the digits of that power of ten, but for
those of the power of two. -/
theorem le_length_toDigits_add {m n k : Nat} (h : 2 ^ n ≤ 10 ^ k) (hm : m ≠ 0) :
    n ≤ (Nat.toDigits 10 (m * 5 ^ n)).length + k := by
  by_contra hlong
  have hless : m * 5 ^ n < 10 ^ (n - k) := by
    refine (Nat.length_toDigits_le_iff (by decide) ?_).mp ?_
    · omega
    · omega
  have hle : 2 ^ n * 5 ^ n ≤ 10 ^ k * (m * 5 ^ n) :=
    Nat.mul_le_mul h (Nat.le_mul_of_pos_left _ (Nat.pos_of_ne_zero hm))
  have hgt : 10 ^ k * (m * 5 ^ n) < 10 ^ k * 10 ^ (n - k) :=
    Nat.mul_lt_mul_of_pos_left hless (Nat.pow_pos (by decide))
  rw [← Nat.mul_pow, ← Nat.pow_add] at *
  rw [Nat.add_sub_cancel' (by omega)] at hgt
  exact absurd hle (Nat.not_le.mpr hgt)

theorem mul_two_pow_lt {m n : Nat} (hm : m < 2 ^ 53) (hn : n ≤ 971) : m * 2 ^ n < 10 ^ 310 := by
  calc m * 2 ^ n ≤ 2 ^ 53 * 2 ^ 971 :=
        Nat.mul_le_mul (Nat.le_of_lt hm) (Nat.pow_le_pow_right (by decide) hn)
    _ < 10 ^ 310 := by decide +kernel

theorem mul_five_pow_lt {m : Nat} (hm : m < 2 ^ 53) (n : Nat) : m * 5 ^ n < 10 ^ (n + 310) := by
  have hfive : (5 : Nat) ^ n ≤ 10 ^ n := Nat.pow_le_pow_left (by decide) _
  calc m * 5 ^ n ≤ 2 ^ 53 * 10 ^ n := Nat.mul_le_mul (Nat.le_of_lt hm) hfive
    _ < 10 ^ 310 * 10 ^ n :=
        Nat.mul_lt_mul_of_pos_right (by decide +kernel) (Nat.pow_pos (by decide))
    _ = 10 ^ (n + 310) := by rw [Nat.pow_add 10 n 310, Nat.mul_comm]

theorem ofDecimal_exact (s : Bool) {m : Nat} {e : Int} (h : IsNormal m e) (hm : m ≠ 0) :
    ofDecimal s (exact m e).1 (exact m e).2 = finite s m e h := by
  obtain ⟨hlt, hlow, hhigh, -⟩ := id h
  rw [← ofFraction_fractionOf s h hm]
  cases e with
  | ofNat n =>
    have hn : n ≤ 971 := Int.ofNat_le.mp hhigh
    have hc : m * 2 ^ n ≠ 0 := Nat.mul_ne_zero hm (Nat.pow_pos (by decide)).ne'
    have hbound : m * 2 ^ n < 10 ^ 310 := mul_two_pow_lt hlt hn
    have hlength := (Nat.length_toDigits_le_iff (by decide) (by decide)).mpr hbound
    show ofDecimal s (m * 2 ^ n) 0 = ofFraction s (m * 2 ^ n) 1
    rw [ofDecimal_of_bounds s hc (by omega) (by omega)]
    show ofFraction s (m * 2 ^ n * 1) 1 = _
    rw [Nat.mul_one]
  | negSucc n =>
    have hn : n + 1 ≤ 1074 := by omega
    have hc : m * 5 ^ (n + 1) ≠ 0 := Nat.mul_ne_zero hm (Nat.pow_pos (by decide)).ne'
    have hten : (10 : Nat) ^ (n + 1) = 2 ^ (n + 1) * 5 ^ (n + 1) := by
      rw [← Nat.mul_pow]
    have hlow' : (2 : Nat) ^ (n + 1) ≤ 10 ^ 330 := by
      calc (2 : Nat) ^ (n + 1) ≤ 2 ^ 1074 := Nat.pow_le_pow_right (by decide) hn
        _ ≤ 10 ^ 330 := by decide +kernel
    -- there are neither too many digits in front of the point nor too many zeros behind it
    have hlength := (Nat.length_toDigits_le_iff (by decide) (by omega)).mpr
      (mul_five_pow_lt hlt (n + 1))
    have hshort := le_length_toDigits_add hlow' hm
    show ofDecimal s (m * 5 ^ (n + 1)) (.negSucc n) = ofFraction s m (2 ^ (n + 1))
    rw [ofDecimal_of_bounds s hc (by omega) (by omega)]
    show ofFraction s (m * 5 ^ (n + 1)) (10 ^ (n + 1)) = _
    rw [hten, ofFraction_mul_right s hm (Nat.pow_pos (by decide)).ne'
      (Nat.pow_pos (by decide)).ne']

end Binary64

namespace Decimal

open Binary64

/-! ## The shortest decimal -/

theorem ofDecimal_of_readsAs (s : Bool) {m : Nat} {e : Int} (h : IsNormal m e) {c : Nat}
    {p : Int} (hr : readsAs m e c p = true) : ofDecimal s c p = finite s m e h := by
  rw [ofDecimal_withSign]
  unfold readsAs at hr
  split at hr
  · rename_i t m' e' h' heq
    simp only [Bool.and_eq_true, beq_iff_eq] at hr
    obtain ⟨rfl, rfl⟩ := hr
    rw [heq]
    rfl
  · cases hr

theorem readsAs_of_nearest {m : Nat} {e p : Int} {c : Nat} (h : nearest m e p = some c) :
    readsAs m e c p = true := by
  unfold nearest at h
  simp only at h
  split at h
  · rename_i hlow hhigh
    split at h
    · exact Option.some.inj h ▸ hlow
    · split at h
      · exact Option.some.inj h ▸ hhigh
      · split at h
        · exact Option.some.inj h ▸ hlow
        · exact Option.some.inj h ▸ hhigh
  · rename_i hlow _
    exact Option.some.inj h ▸ hlow
  · rename_i _ hhigh
    exact Option.some.inj h ▸ hhigh
  · cases h

/-- Whatever the search finds reads as the number. -/
theorem readsAs_of_search {m : Nat} {e p q : Int} {n c : Nat}
    (h : search m e n p = some (c, q)) : readsAs m e c q = true := by
  induction n generalizing p with
  | zero => cases h
  | succ n ih =>
    rw [search] at h
    cases hn : nearest m e p with
    | none =>
      rw [hn] at h
      exact ih h
    | some c' =>
      rw [hn] at h
      obtain ⟨rfl, rfl⟩ := Prod.mk.inj (Option.some.inj h)
      exact readsAs_of_nearest hn

def withoutZeros (c : Nat) : List Char :=
  ((Nat.toDigits 10 c).reverse.dropWhile (· == '0')).reverse

theorem shortest_eq {m : Nat} {e : Int} (h : IsNormal m e) (hm : m ≠ 0) :
    ∃ c p, shortest m e =
        ⟨withoutZeros c,
          p + (((Nat.toDigits 10 c).length - (withoutZeros c).length : Nat) : Int)⟩ ∧
      ∀ s, ofDecimal s c p = finite s m e h := by
  cases hs : search m e 18 (magnitude (fractionOf m e).1 (fractionOf m e).2) with
  | none =>
    refine ⟨(exact m e).1, (exact m e).2, ?_, fun s => ofDecimal_exact s h hm⟩
    simp only [shortest, hs, Option.getD_none]
    rfl
  | some r =>
    obtain ⟨c, p⟩ := r
    refine ⟨c, p, ?_, fun s => ofDecimal_of_readsAs s h (readsAs_of_search hs)⟩
    simp only [shortest, hs, Option.getD_some]
    rfl

/-- The shortest decimal is a decimal that reads as the number, without the
zeros behind its digits. -/
theorem shortest_spec {m : Nat} {e : Int} (h : IsNormal m e) (hm : m ≠ 0) :
    ∃ (c j : Nat) (p : Int), c ≠ 0 ∧ (∀ s, ofDecimal s c p = finite s m e h) ∧
      Nat.toDigits 10 c = (shortest m e).digits ++ List.replicate j '0' ∧
      (shortest m e).exponent = p + j := by
  obtain ⟨c, p, heq, hreads⟩ := shortest_eq h hm
  rw [heq]
  refine ⟨c, _, p, ?_, hreads, eq_dropZeros_append _, rfl⟩
  rintro rfl
  have hzero := hreads false
  simp only [ofDecimal, if_pos, zero, finite.injEq] at hzero
  exact hm hzero.2.1.symm

theorem shortest_digits {m : Nat} {e : Int} (h : IsNormal m e) (hm : m ≠ 0) :
    AllDigits (shortest m e).digits ∧
      ∃ d ds, (shortest m e).digits = d :: ds ∧ d ≠ '0' := by
  obtain ⟨c, j, p, hc, -, hdigits, -⟩ := shortest_spec h hm
  refine ⟨fun d hd => allDigits_toDigits c d ?_, ?_⟩
  · rw [hdigits]
    exact List.mem_append_left _ hd
  · obtain ⟨d, ds, hcons, hd⟩ := toDigits_eq_cons hc
    rw [hdigits] at hcons
    cases hshort : (shortest m e).digits with
    | nil =>
      rw [hshort, List.nil_append] at hcons
      refine absurd (List.eq_of_mem_replicate (n := j) ?_) hd
      rw [hcons]
      exact List.mem_cons_self
    | cons d' ds' =>
      rw [hshort] at hcons
      obtain ⟨rfl, -⟩ := List.cons.inj hcons
      exact ⟨d', ds', rfl, hd⟩

/-- The shortest decimal of a number reads as that number. -/
theorem ofDecimal_shortest (s : Bool) {m : Nat} {e : Int} (h : IsNormal m e) (hm : m ≠ 0) :
    ofDecimal s (value (shortest m e).digits) (shortest m e).exponent = finite s m e h := by
  obtain ⟨c, j, p, hc, hreads, hdigits, hexponent⟩ := shortest_spec h hm
  have hvalue : c = value (shortest m e).digits * 10 ^ j := by
    rw [← value_append_zeros, ← hdigits, value_toDigits]
  have hne : value (shortest m e).digits ≠ 0 := by
    intro hzero
    rw [hzero, Nat.zero_mul] at hvalue
    exact hc hvalue
  rw [hexponent, ← ofDecimal_mul_pow s hne, ← hvalue, hreads]

end Decimal

end PlaneAccess
