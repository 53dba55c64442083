import Mathlib.Algebra.Group.Nat.Defs
import Mathlib.Data.List.TakeDrop
import PlaneAccess.Decimal.Literal

/-!
# Runs of digits

What the reader of numbers makes of a run of decimal digits, and which runs
the writer of naturals produces. A run stands for `value`, and the writer
never puts a zero in front.
-/

namespace PlaneAccess.Decimal

def value (ds : List Char) : Nat := Nat.ofDigitChars 10 ds 0

def AllDigits (ds : List Char) : Prop := ∀ c ∈ ds, c.isDigit = true

theorem AllDigits.append {as bs : List Char} (ha : AllDigits as) (hb : AllDigits bs) :
    AllDigits (as ++ bs) := by
  intro c hc
  rcases List.mem_append.mp hc with h | h
  · exact ha c h
  · exact hb c h

theorem allDigits_zeros (n : Nat) : AllDigits (List.replicate n '0') := by
  intro c hc
  rw [List.eq_of_mem_replicate hc]
  decide

theorem allDigits_toDigits (n : Nat) : AllDigits (Nat.toDigits 10 n) :=
  fun _ hc => Nat.isDigit_of_mem_toDigits (by decide) (by decide) hc

theorem value_toDigits (n : Nat) : value (Nat.toDigits 10 n) = n :=
  Nat.ofDigitChars_ten_toDigits

theorem value_append_zeros (ds : List Char) (n : Nat) :
    value (ds ++ List.replicate n '0') = value ds * 10 ^ n := by
  rw [value, Nat.ofDigitChars_append, Nat.ofDigitChars_replicate_zero, Nat.mul_comm]
  rfl

theorem value_zeros_append (n : Nat) (ds : List Char) :
    value (List.replicate n '0' ++ ds) = value ds := by
  rw [value, Nat.ofDigitChars_append, Nat.ofDigitChars_replicate_zero]
  rfl

theorem value_zero_cons (ds : List Char) : value ('0' :: ds) = value ds :=
  value_zeros_append 1 ds

/-! ## Reading -/

theorem toNat_of_isDigit {c : Char} (h : c.isDigit = true) : 48 ≤ c.toNat ∧ c.toNat ≤ 57 := by
  simp only [Char.isDigit, Bool.and_eq_true, decide_eq_true_eq, ge_iff_le, UInt32.le_iff_toNat_le]
    at h
  exact h

theorem ne_sign_of_isDigit {c : Char} (h : c.isDigit = true) : c ≠ '-' ∧ c ≠ '+' := by
  constructor
  · rintro rfl
    exact absurd h (by decide)
  · rintro rfl
    exact absurd h (by decide)

theorem digitValue_of_isDigit {c : Char} (h : c.isDigit = true) :
    digitValue c = some (c.toNat - '0'.toNat) := by
  simp [digitValue, h]

/-- The reader of naturals goes on with the digits of a run. -/
theorem foldlM_digits {ds : List Char} (h : AllDigits ds) (n : Nat) :
    ds.foldlM
        (fun n c => do
          let d ← digitValue c
          if d < 10 then some (10 * n + d) else none)
        n = some (Nat.ofDigitChars 10 ds n) := by
  induction ds generalizing n with
  | nil => rfl
  | cons c ds ih =>
    have hc := h c List.mem_cons_self
    have hlt : c.toNat - '0'.toNat < 10 := by
      have := toNat_of_isDigit hc
      have : '0'.toNat = 48 := rfl
      omega
    rw [List.foldlM_cons, digitValue_of_isDigit hc]
    simp only [bind, Option.bind, if_pos hlt]
    rw [Nat.ofDigitChars_cons]
    exact ih (fun x hx => h x (List.mem_cons_of_mem c hx)) _

theorem natural_digits {ds : List Char} (h : AllDigits ds) (hne : ds ≠ []) :
    natural 10 ds = some (value ds) := by
  have hempty : ds.isEmpty = false := by simpa using hne
  rw [natural, hempty, if_neg (by simp)]
  exact foldlM_digits h 0

theorem natural_eq_none {base : Nat} {cs : List Char} {c : Char} (hc : c ∈ cs)
    (hbad : digitValue c = none ∨ ∃ d, digitValue c = some d ∧ base ≤ d) :
    natural base cs = none := by
  have hfold : ∀ (cs : List Char) (n : Nat), c ∈ cs →
      cs.foldlM
        (fun n c => do
          let d ← digitValue c
          if d < base then some (base * n + d) else none)
        n = none := by
    intro cs
    induction cs with
    | nil => simp
    | cons x xs ih =>
      intro n hmem
      rw [List.foldlM_cons]
      rcases List.mem_cons.mp hmem with rfl | hmem
      · rcases hbad with h | ⟨d, h, hle⟩
        · simp [h]
        · simp [h, Nat.not_lt.mpr hle]
      · cases hx : digitValue x with
        | none => rfl
        | some d =>
          by_cases hd : d < base
          · simp only [bind, Option.bind, if_pos hd]
            exact ih _ hmem
          · simp [hd]
  unfold natural
  split
  · rfl
  · exact hfold cs 0 hc

theorem span_digits {ds rest : List Char} (hd : AllDigits ds)
    (hr : ∀ c, rest.head? = some c → c.isDigit = false) :
    (ds ++ rest).span Char.isDigit = (ds, rest) := by
  rw [List.span_eq_takeWhile_dropWhile, List.takeWhile_append_of_pos hd,
    List.dropWhile_append_of_pos hd]
  cases rest with
  | nil => simp
  | cons c cs => simp [hr c rfl]

/-! ## Writing -/

theorem value_lt_pow {ds : List Char} (h : AllDigits ds) : value ds < 10 ^ ds.length := by
  induction ds with
  | nil => decide
  | cons d ds ih =>
    have hd := toNat_of_isDigit (h d List.mem_cons_self)
    have hds := ih (fun c hc => h c (List.mem_cons_of_mem _ hc))
    rw [value, Nat.ofDigitChars_cons, Nat.ofDigitChars_eq_ofDigitChars_zero]
    have h48 : '0'.toNat = 48 := rfl
    have hle : 10 ^ ds.length * (10 * 0 + (d.toNat - '0'.toNat)) ≤ 10 ^ ds.length * 9 :=
      Nat.mul_le_mul_left _ (by omega)
    rw [List.length_cons, Nat.pow_succ]
    unfold value at hds
    omega

/-- No zero comes first, save for zero itself. -/
theorem toDigits_head_ne_zero {n : Nat} {c d : Char} {ds : List Char}
    (h : Nat.toDigits 10 n = c :: d :: ds) : c ≠ '0' := by
  rintro rfl
  -- without the zero the digits stand for the same number, which then needs fewer
  have hvalue : n = value (d :: ds) := by
    rw [← value_zero_cons, ← h, value_toDigits]
  have hall : AllDigits (d :: ds) := by
    intro x hx
    exact allDigits_toDigits n x (by rw [h]; exact List.mem_cons_of_mem _ hx)
  have hbound : n < 10 ^ (d :: ds).length := by
    rw [hvalue]
    exact value_lt_pow hall
  have hlen := (Nat.length_toDigits_le_iff (by decide) (by simp)).mpr hbound
  rw [h] at hlen
  simp only [List.length_cons] at hlen
  omega

theorem toDigits_eq_cons {n : Nat} (hn : n ≠ 0) :
    ∃ d ds, Nat.toDigits 10 n = d :: ds ∧ d ≠ '0' := by
  cases h : Nat.toDigits 10 n with
  | nil => exact absurd h Nat.toDigits_ne_nil
  | cons d ds =>
    refine ⟨d, ds, rfl, ?_⟩
    cases ds with
    | nil =>
      rintro rfl
      refine hn ?_
      rw [← value_toDigits n, h]
      rfl
    | cons d' ds => exact toDigits_head_ne_zero h

theorem eq_dropZeros_append (ds : List Char) :
    ds = (ds.reverse.dropWhile (· == '0')).reverse ++
      List.replicate (ds.length - (ds.reverse.dropWhile (· == '0')).reverse.length) '0' := by
  have hsplit := List.takeWhile_append_dropWhile (p := (· == '0')) (l := ds.reverse)
  have hzeros : ds.reverse.takeWhile (· == '0') =
      List.replicate (ds.reverse.takeWhile (· == '0')).length '0' := by
    refine List.eq_replicate_of_mem fun c hc => ?_
    have := List.all_eq_true.mp List.all_takeWhile c hc
    simpa using this
  have hlength : ds.length - (ds.reverse.dropWhile (· == '0')).reverse.length =
      (ds.reverse.takeWhile (· == '0')).length := by
    have := congrArg List.length hsplit
    rw [List.length_append, List.length_reverse] at this
    rw [List.length_reverse]
    omega
  rw [hlength]
  have hreverse := congrArg List.reverse hsplit
  rw [List.reverse_append, List.reverse_reverse, hzeros, List.reverse_replicate] at hreverse
  exact hreverse.symm

theorem toDigits_mul_ten {n : Nat} (hn : n ≠ 0) :
    Nat.toDigits 10 (n * 10) = Nat.toDigits 10 n ++ ['0'] := by
  rw [Nat.toDigits_of_base_le (by decide) (by omega), Nat.mul_div_cancel _ (by decide),
    Nat.mul_mod_left]
  rfl

end PlaneAccess.Decimal
