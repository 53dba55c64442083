import PlaneAccess.Decimal.Literal
import PlaneAccess.Decimal.Notation
import PlaneAccess.Proofs.Decimal.Shortest

/-!
# Written numbers read back

A finite number is written as digits, a point or an `e`, and more, whatever
the notation. Reading that text gives the number (`float_write`).
-/

namespace PlaneAccess.Decimal

open Binary64

def Notation.body (w : Notation) (m : Nat) (e : Int) : List Char :=
  if m = 0 then ['0', '.', '0']
  else
    let d := shortest m e
    let k : Int := d.digits.length + d.exponent
    let inside := match w.bounds with
      | none => true
      | some (low, high) => low < k && k ≤ high
    if inside then positional d.digits k
    else scientific d.digits (k - 1) w.plusSign

def signOf (negative : Bool) : List Char := if negative then ['-'] else []

theorem Notation.body_cases (w : Notation) {m : Nat} (e : Int) (hm : m ≠ 0) :
    w.body m e = positional (shortest m e).digits
        ((shortest m e).digits.length + (shortest m e).exponent) ∨
      w.body m e = scientific (shortest m e).digits
        ((shortest m e).digits.length + (shortest m e).exponent - 1) w.plusSign := by
  have hchoice : ∀ (inside : Bool) (as bs : List Char),
      (if inside then as else bs) = as ∨ (if inside then as else bs) = bs := by
    intro inside as bs
    cases inside with
    | true => exact Or.inl rfl
    | false => exact Or.inr rfl
  unfold Notation.body
  rw [if_neg hm]
  exact hchoice _ _ _

theorem Notation.write_finite (w : Notation) (s : Bool) {m : Nat} {e : Int}
    (h : IsNormal m e) : w.write (.finite s m e h) = String.ofList (signOf s ++ w.body m e) :=
  rfl

/-! ## Reading the parts -/

def afterSign : List Char → Bool × List Char
  | '-' :: cs => (true, cs)
  | '+' :: cs => (false, cs)
  | cs => (false, cs)

def afterPoint : List Char → List Char × List Char
  | '.' :: cs => cs.span Char.isDigit
  | cs => ([], cs)

theorem float_eq (cs : List Char) :
    float cs =
      (exponent (afterPoint ((afterSign cs).2.span Char.isDigit).2).2).bind fun e =>
        (natural 10 (((afterSign cs).2.span Char.isDigit).1 ++
          (afterPoint ((afterSign cs).2.span Char.isDigit).2).1)).bind fun n =>
          some (ofDecimal (afterSign cs).1 n
            (e - (afterPoint ((afterSign cs).2.span Char.isDigit).2).1.length)) :=
  rfl

theorem afterSign_signOf (s : Bool) {d : Char} (hd : d.isDigit = true) (cs : List Char) :
    afterSign (signOf s ++ d :: cs) = (s, d :: cs) := by
  cases s with
  | true => rfl
  | false =>
    show afterSign (d :: cs) = _
    unfold afterSign
    split
    · rename_i heq
      exact absurd (List.cons.inj heq).1 (ne_sign_of_isDigit hd).1
    · rename_i heq
      exact absurd (List.cons.inj heq).1 (ne_sign_of_isDigit hd).2
    · rfl

/-- What may come behind the digits of a number. -/
def Stops (tail : List Char) : Prop :=
  ∀ c, tail.head? = some c → c.isDigit = false ∧ c ≠ '.'

theorem stops_nil : Stops [] := fun c h => by cases h

theorem afterPoint_of_stops {tail : List Char} (h : Stops tail) : afterPoint tail = ([], tail) := by
  unfold afterPoint
  split
  · exact absurd rfl (h '.' rfl).2
  · rfl

theorem float_point (s : Bool) (whole part tail : List Char) {e : Int} (hw : AllDigits whole)
    (hne : whole ≠ []) (hp : AllDigits part) (ht : Stops tail) (he : exponent tail = some e) :
    float (signOf s ++ (whole ++ '.' :: (part ++ tail))) =
      some (ofDecimal s (value (whole ++ part)) (e - part.length)) := by
  obtain ⟨d, ds, rfl⟩ := List.exists_cons_of_ne_nil hne
  have hsign := afterSign_signOf s (hw d List.mem_cons_self) (ds ++ '.' :: (part ++ tail))
  have hspan : (d :: (ds ++ '.' :: (part ++ tail))).span Char.isDigit =
      (d :: ds, '.' :: (part ++ tail)) := by
    refine span_digits hw fun c hc => ?_
    obtain rfl := Option.some.inj hc
    decide
  have hpoint : afterPoint ('.' :: (part ++ tail)) = (part, tail) :=
    span_digits hp fun c hc => (ht c hc).1
  rw [List.cons_append, float_eq, hsign, hspan, hpoint, he,
    natural_digits (hw.append hp) (List.cons_ne_nil _ _)]
  rfl

theorem float_no_point (s : Bool) {whole tail : List Char} {e : Int} (hw : AllDigits whole)
    (hne : whole ≠ []) (ht : Stops tail) (he : exponent tail = some e) :
    float (signOf s ++ (whole ++ tail)) = some (ofDecimal s (value whole) e) := by
  obtain ⟨d, ds, rfl⟩ := List.exists_cons_of_ne_nil hne
  have hsign := afterSign_signOf s (hw d List.mem_cons_self) (ds ++ tail)
  have hspan : (d :: (ds ++ tail)).span Char.isDigit = (d :: ds, tail) :=
    span_digits hw fun c hc => (ht c hc).1
  rw [List.cons_append, float_eq, hsign, hspan, afterPoint_of_stops ht, List.append_nil, he,
    natural_digits hw (List.cons_ne_nil _ _)]
  simp

theorem signed_minus (cs : List Char) :
    signed 10 ('-' :: cs) = Option.map (fun n : Nat => -(n : Int)) (natural 10 cs) := by
  rw [signed]
  cases natural 10 cs with
  | none => rfl
  | some n => rfl

theorem signed_plus (cs : List Char) :
    signed 10 ('+' :: cs) = (natural 10 cs).map Int.ofNat := rfl

theorem signed_of_digit {d : Char} (hd : d.isDigit = true) (cs : List Char) :
    signed 10 (d :: cs) = (natural 10 (d :: cs)).map Int.ofNat := by
  unfold signed
  split
  · rename_i heq
    exact absurd (List.cons.inj heq).1 (ne_sign_of_isDigit hd).1
  · rename_i heq
    exact absurd (List.cons.inj heq).1 (ne_sign_of_isDigit hd).2
  · rfl

theorem exponent_written (e : Int) (plusSign : Bool) :
    exponent ('e' :: ((if e < 0 then ['-'] else if plusSign then ['+'] else []) ++
      Nat.toDigits 10 e.natAbs)) = some e := by
  have hnatural : natural 10 (Nat.toDigits 10 e.natAbs) = some e.natAbs := by
    rw [natural_digits (allDigits_toDigits _) Nat.toDigits_ne_nil, value_toDigits]
  obtain ⟨d, ds, hds⟩ := List.exists_cons_of_ne_nil (Nat.toDigits_ne_nil (n := e.natAbs) (b := 10))
  have hd : d.isDigit = true := by
    refine allDigits_toDigits e.natAbs d ?_
    rw [hds]
    exact List.mem_cons_self
  rw [exponent, if_pos (by decide)]
  by_cases he : e < 0
  · rw [if_pos he, List.singleton_append, signed_minus, hnatural, Option.map_some]
    congr 1
    omega
  · have habs : Int.ofNat e.natAbs = e := Int.natAbs_of_nonneg (Int.not_lt.mp he)
    rw [if_neg he]
    cases plusSign with
    | true => rw [if_pos rfl, List.singleton_append, signed_plus, hnatural, Option.map_some, habs]
    | false =>
      rw [if_neg (by decide), List.nil_append, hds, signed_of_digit hd, ← hds, hnatural,
        Option.map_some, habs]

/-! ## Reading the whole -/

section

variable (s : Bool) {ds : List Char} {n : Nat}

/-- The point stands among the digits, or in front of them. -/
theorem float_positional_among (hd : AllDigits ds) (hn : n < ds.length) :
    float (signOf s ++ positional ds (.ofNat n)) =
      some (ofDecimal s (value ds) ((n : Int) - ds.length)) := by
  have hdrop : ds.drop n ≠ [] := by
    rw [ne_eq, List.drop_eq_nil_iff]
    omega
  have hpart : AllDigits (ds.drop n) := fun c hc => hd c (List.mem_of_mem_drop hc)
  have hshift : (0 : Int) - (ds.drop n).length = (n : Int) - ds.length := by
    rw [List.length_drop]
    omega
  rw [positional, Nat.sub_eq_zero_of_le (Nat.le_of_lt hn), List.replicate_zero, List.append_nil,
    if_neg (show ¬ (ds.drop n).isEmpty = true by simpa using hdrop)]
  cases n with
  | zero =>
    have h := float_point s ['0'] _ [] (allDigits_zeros 1) (by simp) hpart stops_nil rfl
    rw [List.append_nil, hshift] at h
    exact h.trans (by rw [List.singleton_append, value_zero_cons, List.drop_zero])
  | succ n =>
    have htake : ds.take (n + 1) ≠ [] := by
      intro hnil
      have hlength := congrArg List.length hnil
      rw [List.length_take, List.length_nil] at hlength
      omega
    have hwhole : AllDigits (ds.take (n + 1)) := fun c hc => hd c (List.mem_of_mem_take hc)
    have h := float_point s _ _ [] hwhole htake hpart stops_nil rfl
    rw [List.append_nil, hshift, List.take_append_drop] at h
    rw [if_neg (show ¬ (ds.take (n + 1)).isEmpty = true by simpa using htake)]
    exact h

theorem float_positional_behind (hd : AllDigits ds) (hne : ds ≠ []) (hv : value ds ≠ 0)
    (hn : ds.length ≤ n) :
    float (signOf s ++ positional ds (.ofNat n)) =
      some (ofDecimal s (value ds) ((n : Int) - ds.length)) := by
  have hwhole : AllDigits (ds ++ List.replicate (n - ds.length) '0') :=
    hd.append (allDigits_zeros _)
  have hne' : ds ++ List.replicate (n - ds.length) '0' ≠ [] := by
    simp [hne]
  have h := float_point s _ ['0'] [] hwhole hne' (allDigits_zeros 1) stops_nil rfl
  have hvalue : value (ds ++ List.replicate (n - ds.length) '0' ++ ['0']) =
      value ds * 10 ^ (n - ds.length + 1) := by
    rw [List.append_assoc, ← List.replicate_succ', value_append_zeros]
  rw [hvalue, ofDecimal_mul_pow s hv] at h
  rw [positional, List.take_of_length_le hn, List.drop_eq_nil_of_le hn,
    if_neg (show ¬ (ds ++ List.replicate (n - ds.length) '0').isEmpty = true by
      simpa using hne')]
  refine h.trans ?_
  congr 2
  push_cast
  simp only [List.length_singleton]
  omega

theorem float_positional_before (hd : AllDigits ds) :
    float (signOf s ++ positional ds (.negSucc n)) =
      some (ofDecimal s (value ds) (.negSucc n - ds.length)) := by
  have hzeros : AllDigits (List.replicate (n + 1) '0' ++ ds) := (allDigits_zeros _).append hd
  have h := float_point s ['0'] (List.replicate (n + 1) '0' ++ ds) [] (allDigits_zeros 1)
    (by simp) hzeros stops_nil rfl
  rw [List.append_nil] at h
  rw [positional]
  refine h.trans ?_
  rw [List.singleton_append, value_zero_cons, value_zeros_append, List.length_append,
    List.length_replicate]
  congr 2
  push_cast
  omega

end

theorem float_positional (s : Bool) {ds : List Char} (hd : AllDigits ds) (hne : ds ≠ [])
    (p : Int) (hv : value ds ≠ 0) :
    float (signOf s ++ positional ds (ds.length + p)) = some (ofDecimal s (value ds) p) := by
  have hp : p = (ds.length : Int) + p - ds.length := by omega
  generalize (ds.length : Int) + p = k at hp ⊢
  rw [hp]
  cases k with
  | ofNat n =>
    rcases Nat.lt_or_ge n ds.length with hn | hn
    · exact float_positional_among s hd hn
    · exact float_positional_behind s hd hne hv hn
  | negSucc n => exact float_positional_before s hd

theorem float_scientific (s : Bool) {ds : List Char} (hd : AllDigits ds) (hne : ds ≠ [])
    (p : Int) (plusSign : Bool) :
    float (signOf s ++ scientific ds (ds.length + p - 1) plusSign) =
      some (ofDecimal s (value ds) p) := by
  have hstop : ∀ cs, Stops ('e' :: cs) := by
    intro cs c hc
    obtain rfl := Option.some.inj hc
    decide
  have hexponent := exponent_written (ds.length + p - 1) plusSign
  cases ds with
  | nil => exact absurd rfl hne
  | cons d rest =>
    cases rest with
    | nil =>
      refine (float_no_point s hd (by simp) (hstop _) hexponent).trans ?_
      simp
    | cons d' rest =>
      have hfirst : AllDigits [d] := by
        intro c hc
        rw [List.mem_singleton.mp hc]
        exact hd d List.mem_cons_self
      have hrest : AllDigits (d' :: rest) := fun c hc => hd c (List.mem_cons_of_mem d hc)
      refine (float_point s [d] (d' :: rest) _ hfirst (by simp) hrest (hstop _) hexponent).trans ?_
      simp only [List.singleton_append, List.length_cons]
      congr 2
      push_cast
      omega

/-- A finite number that is written in a notation reads as itself. -/
theorem float_write (w : Notation) (s : Bool) {m : Nat} {e : Int} (h : IsNormal m e) :
    float (signOf s ++ w.body m e) = some (finite s m e h) := by
  by_cases hm : m = 0
  · subst hm
    obtain ⟨-, -, -, hfull⟩ := id h
    obtain rfl : e = -1074 := hfull.resolve_left (by decide)
    have hzero := float_point s ['0'] ['0'] [] (allDigits_zeros 1) (by simp) (allDigits_zeros 1)
      stops_nil rfl
    rw [Notation.body, if_pos rfl]
    exact hzero
  · obtain ⟨hd, d, ds, hcons, -⟩ := shortest_digits h hm
    have hne : (shortest m e).digits ≠ [] := by
      rw [hcons]
      exact List.cons_ne_nil _ _
    have hv : value (shortest m e).digits ≠ 0 := by
      intro hzero
      have hshort := ofDecimal_shortest s h hm
      rw [hzero] at hshort
      simp only [ofDecimal, if_pos, zero, finite.injEq] at hshort
      exact hm hshort.2.1.symm
    rw [← ofDecimal_shortest s h hm]
    rcases w.body_cases e hm with hbody | hbody
    · rw [hbody]
      exact float_positional s hd hne _ hv
    · rw [hbody]
      exact float_scientific s hd hne _ _

/-! ## The shape of the text -/

theorem Notation.body_shape (w : Notation) {m : Nat} {e : Int} (h : IsNormal m e) :
    ∃ ds c rest, w.body m e = ds ++ c :: rest ∧ AllDigits ds ∧ ds ≠ [] ∧
      (c = '.' ∨ c = 'e') := by
  by_cases hm : m = 0
  · subst hm
    exact ⟨['0'], '.', ['0'], rfl, allDigits_zeros 1, by simp, Or.inl rfl⟩
  · obtain ⟨hd, d, ds, hcons, -⟩ := shortest_digits h hm
    have hfirst : AllDigits [d] := by
      intro c hc
      rw [List.mem_singleton.mp hc]
      exact hd d (by rw [hcons]; exact List.mem_cons_self)
    rcases w.body_cases e hm with hbody | hbody
    · rw [hbody]
      generalize ((shortest m e).digits.length : Int) + (shortest m e).exponent = k
      cases k with
      | ofNat n =>
        rw [positional]
        refine ⟨_, '.', _, rfl, ?_, ?_, Or.inl rfl⟩
        · split
          · exact allDigits_zeros 1
          · exact AllDigits.append (fun c hc => hd c (List.mem_of_mem_take hc)) (allDigits_zeros _)
        · split
          · simp
          · rename_i hempty
            simpa using hempty
      | negSucc n => exact ⟨['0'], '.', _, rfl, allDigits_zeros 1, by simp, Or.inl rfl⟩
    · rw [hbody, hcons]
      cases ds with
      | nil => exact ⟨[d], 'e', _, rfl, hfirst, by simp, Or.inr rfl⟩
      | cons d' ds => exact ⟨[d], '.', _, rfl, hfirst, by simp, Or.inl rfl⟩

end PlaneAccess.Decimal
