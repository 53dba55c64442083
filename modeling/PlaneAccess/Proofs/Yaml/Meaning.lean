import PlaneAccess.Proofs.Decimal.Notation
import PlaneAccess.Yaml.Meaning

/-!
# Written numbers keep their meaning

The plain text of a number means that number (`ofPlain_integer`,
`ofPlain_float`). It is no word, for it begins with a digit or a minus sign,
and what comes behind its digits tells integers from other numbers.
-/

namespace PlaneAccess.Yaml.Meaning

open Decimal

/-! ## Telling texts apart -/

/-- A character that the text of a finite number may begin with. -/
def IsNumberHead (c : Char) : Prop := c.isDigit = true ∨ c = '-'

instance (c : Char) : Decidable (IsNumberHead c) :=
  inferInstanceAs (Decidable (c.isDigit = true ∨ c = '-'))

theorem beq_eq_false_of_head {s w : String} {c d : Char} {cs ds : List Char}
    (hs : s.toList = c :: cs) (hc : IsNumberHead c) (hw : w.toList = d :: ds)
    (hd : ¬ IsNumberHead d) : (s == w) = false := by
  refine beq_eq_false_iff_ne.mpr ?_
  rintro rfl
  obtain ⟨rfl, -⟩ := List.cons.inj (hs.symm.trans hw)
  exact hd hc

theorem no_word {s : String} {c : Char} {cs : List Char} (hs : s.toList = c :: cs)
    (hc : IsNumberHead c) : s.isEmpty = false ∧ isNullWord s = false ∧ boolWord s = none := by
  have hne : ∀ w d ds, w.toList = d :: ds → ¬ IsNumberHead d → (s == w) = false :=
    fun w d ds hw hd => beq_eq_false_of_head hs hc hw hd
  have hempty : s.isEmpty = false := by
    rw [String.isEmpty_eq_false_iff]
    rintro rfl
    simp at hs
  refine ⟨hempty, ?_, ?_⟩
  · rw [isNullWord, hne "null" _ _ rfl (by decide), hne "Null" _ _ rfl (by decide),
      hne "NULL" _ _ rfl (by decide), hne "~" _ _ rfl (by decide)]
    rfl
  · rw [boolWord, hne "true" _ _ rfl (by decide), hne "True" _ _ rfl (by decide),
      hne "TRUE" _ _ rfl (by decide), hne "false" _ _ rfl (by decide),
      hne "False" _ _ rfl (by decide), hne "FALSE" _ _ rfl (by decide)]
    rfl

/-! ## Signs and bases -/

/-- The text of a finite number: a sign or none, and then a digit. -/
theorem signOf_append_cons (s : Bool) {d : Char} (hd : d.isDigit = true) (cs : List Char) :
    ∃ c rest, signOf s ++ d :: cs = c :: rest ∧ IsNumberHead c := by
  cases s with
  | true => exact ⟨'-', d :: cs, rfl, Or.inr rfl⟩
  | false => exact ⟨d, cs, rfl, Or.inl hd⟩

theorem basedNatural_eq_none {ds : List Char} (h : ∀ d, ds[1]? = some d → d ∉ ['x', 'o', 'b']) :
    basedNatural ds = none := by
  unfold basedNatural
  split
  · exact absurd (h 'x' rfl) (by decide)
  · exact absurd (h 'o' rfl) (by decide)
  · exact absurd (h 'b' rfl) (by decide)
  · rfl

def isZeroPadded : List Char → Bool
  | '0' :: d :: ds => (d :: ds).all Char.isDigit
  | _ => false

theorem isPadded_signOf (s : Bool) {d : Char} (hd : d.isDigit = true) (cs : List Char) :
    isPadded (signOf s ++ d :: cs) = isZeroPadded (d :: cs) := by
  obtain ⟨hminus, hplus⟩ := ne_sign_of_isDigit hd
  cases s with
  | true => rfl
  | false =>
    show isPadded (d :: cs) = _
    simp [isPadded, hminus, hplus]
    rfl

theorem integer_signOf (s : Bool) {d : Char} {cs : List Char} (hd : d.isDigit = true)
    (hb : basedNatural (d :: cs) = none) :
    integer (signOf s ++ d :: cs) =
      if isZeroPadded (d :: cs) then none
      else Option.map (fun n : Nat => if s then -(n : Int) else n) (natural 10 (d :: cs)) := by
  obtain ⟨hminus, hplus⟩ := ne_sign_of_isDigit hd
  have hpadded := isPadded_signOf s hd cs
  cases s with
  | true =>
    have hp : isPadded ('-' :: d :: cs) = isZeroPadded (d :: cs) := hpadded
    show integer ('-' :: d :: cs) = _
    simp only [integer, hb, hp]
    cases natural 10 (d :: cs) with
    | none => rfl
    | some n => rfl
  | false =>
    have hp : isPadded (d :: cs) = isZeroPadded (d :: cs) := hpadded
    show integer (d :: cs) = _
    simp [integer, hminus, hplus, hb, hp]
    rfl

/-! ## Integers -/

/-- The text of an integer is a sign, if it is negative, and digits. -/
theorem toList_toString (i : Int) :
    (toString i).toList = signOf (i < 0) ++ Nat.toDigits 10 i.natAbs := by
  rw [Int.toString_eq_repr, Int.repr_eq_if]
  by_cases hi : 0 ≤ i
  · have habs : i.toNat = i.natAbs := by omega
    rw [if_pos hi, Nat.toList_repr, decide_eq_false (Int.not_lt.mpr hi), habs]
    rfl
  · have habs : (-i).toNat = i.natAbs := by omega
    rw [if_neg hi, String.toList_append, Nat.toList_repr, decide_eq_true (Int.not_le.mp hi), habs]
    rfl

theorem isZeroPadded_toDigits (n : Nat) : isZeroPadded (Nat.toDigits 10 n) = false := by
  unfold isZeroPadded
  split
  · rename_i heq
    exact absurd rfl (toDigits_head_ne_zero heq)
  · rfl

theorem not_base_of_isDigit {d : Char} (hd : d.isDigit = true) : d ∉ ['x', 'o', 'b'] := by
  intro hbase
  simp only [List.mem_cons, List.not_mem_nil, or_false] at hbase
  rcases hbase with rfl | rfl | rfl
  · exact absurd hd (by decide)
  · exact absurd hd (by decide)
  · exact absurd hd (by decide)

theorem basedNatural_digits {ds : List Char} (hd : AllDigits ds) : basedNatural ds = none := by
  refine basedNatural_eq_none fun d hmem => ?_
  exact not_base_of_isDigit (hd d (List.mem_of_getElem? hmem))

theorem integer_toString (i : Int) : integer (toString i).toList = some i := by
  obtain ⟨d, ds, hds⟩ := List.exists_cons_of_ne_nil (Nat.toDigits_ne_nil (n := i.natAbs) (b := 10))
  have hall := allDigits_toDigits i.natAbs
  have hb := basedNatural_digits hall
  have hz := isZeroPadded_toDigits i.natAbs
  have hn := natural_digits hall Nat.toDigits_ne_nil
  rw [value_toDigits] at hn
  rw [toList_toString]
  rw [hds] at hall hb hz hn ⊢
  rw [integer_signOf _ (hall d List.mem_cons_self) hb, hz, hn, if_neg (by decide),
    Option.map_some]
  congr 1
  by_cases hi : i < 0
  · rw [if_pos (decide_eq_true hi)]
    omega
  · rw [if_neg (by simpa using hi)]
    omega

theorem ofInt?_val (i : Integer) : ofInt? i.val = some (int i) := by
  rw [ofInt?, Integer.ofInt?, dif_pos ⟨i.low, i.high⟩]

/-- The text of an integer means that integer. -/
theorem ofPlain_integer (i : Integer) : ofPlain (toString i.val) = int i := by
  obtain ⟨d, ds, hds⟩ :=
    List.exists_cons_of_ne_nil (Nat.toDigits_ne_nil (n := i.val.natAbs) (b := 10))
  have hd : d.isDigit = true :=
    allDigits_toDigits i.val.natAbs d (by rw [hds]; exact List.mem_cons_self)
  obtain ⟨c, rest, hcons, hc⟩ := signOf_append_cons (i.val < 0) hd ds
  have hs : (toString i.val).toList = c :: rest := by
    rw [toList_toString, hds, hcons]
  obtain ⟨hempty, hnull, hbool⟩ := no_word hs hc
  have hinteger : ofInteger? (toString i.val) = some (int i) := by
    rw [ofInteger?, integer_toString]
    exact ofInt?_val i
  simp only [ofPlain, hempty, hnull, hbool, hinteger]
  rfl

/-! ## Numbers with a fraction or an exponent -/

def afterPlus : List Char → List Char
  | '+' :: cs => cs
  | cs => cs

theorem afterPlus_signOf (s : Bool) {d : Char} (hd : d.isDigit = true) (cs : List Char) :
    afterPlus (signOf s ++ d :: cs) = signOf s ++ d :: cs := by
  cases s with
  | true => rfl
  | false =>
    show afterPlus (d :: cs) = d :: cs
    unfold afterPlus
    split
    · rename_i heq
      exact absurd (List.cons.inj heq).1 (ne_sign_of_isDigit hd).2
    · rfl

theorem floatOf_eq {s : String} {cs : List Char} (hs : s.toList = cs)
    (hplus : afterPlus cs = cs) :
    floatOf s =
      if [".inf", ".Inf", ".INF"].contains (String.ofList cs) then some (.infinity false)
      else if ["-.inf", "-.Inf", "-.INF"].contains s then some (.infinity true)
      else if [".nan", ".NaN", ".NAN"].contains s then some .nan
      else match Decimal.float cs with
        | some (.finite n m e h) => some (.finite n m e h)
        | _ => none := by
  subst hs
  have hunfold : floatOf s =
      if (afterPlus s.toList).length < s.toList.length &&
          (afterPlus s.toList).head?.any (fun c => c == '+' || c == '-') then none
      else if [".inf", ".Inf", ".INF"].contains (String.ofList (afterPlus s.toList)) then
        some (.infinity false)
      else if ["-.inf", "-.Inf", "-.INF"].contains s then some (.infinity true)
      else if [".nan", ".NaN", ".NAN"].contains s then some .nan
      else match Decimal.float (afterPlus s.toList) with
        | some (.finite n m e h) => some (.finite n m e h)
        | _ => none := rfl
  rw [hunfold, hplus, if_neg (by simp)]

theorem floatOf_number (s : Bool) {d : Char} {cs : List Char} {t : Bool} {m : Nat} {e : Int}
    {h : Binary64.IsNormal m e} (hd : d.isDigit = true)
    (hf : Decimal.float (signOf s ++ d :: cs) = some (Binary64.finite t m e h)) :
    floatOf (String.ofList (signOf s ++ d :: cs)) = some (Binary64.finite t m e h) := by
  have hminus := (ne_sign_of_isDigit hd).1
  have hdot : d ≠ '.' := by
    rintro rfl
    exact absurd hd (by decide)
  -- neither a point nor a minus sign and a point come first
  have hne : ∀ w : String, w.toList.head? = some '.' ∨ w.toList.take 2 = ['-', '.'] →
      (String.ofList (signOf s ++ d :: cs) == w) = false := by
    intro w hw
    refine beq_eq_false_iff_ne.mpr ?_
    rintro rfl
    rw [String.toList_ofList] at hw
    cases s with
    | true =>
      rcases hw with hw | hw
      · exact absurd (Option.some.inj hw) (by decide)
      · exact hdot (by simpa [signOf] using hw)
    | false =>
      rcases hw with hw | hw
      · exact hdot (Option.some.inj hw)
      · exact hminus (by simpa [signOf] using congrArg List.head? hw)
  rw [floatOf_eq String.toList_ofList (afterPlus_signOf s hd cs), hf]
  simp only [List.contains_cons, List.contains_nil,
    hne ".inf" (Or.inl rfl), hne ".Inf" (Or.inl rfl), hne ".INF" (Or.inl rfl),
    hne "-.inf" (Or.inr rfl), hne "-.Inf" (Or.inr rfl), hne "-.INF" (Or.inr rfl),
    hne ".nan" (Or.inl rfl), hne ".NaN" (Or.inl rfl), hne ".NAN" (Or.inl rfl)]
  rfl

section

variable {d c : Char} {ds rest : List Char}

theorem basedNatural_fraction (hall : AllDigits (d :: ds)) (hc : c = '.' ∨ c = 'e') :
    basedNatural (d :: (ds ++ c :: rest)) = none := by
  refine basedNatural_eq_none fun x hx => ?_
  cases ds with
  | nil =>
    obtain rfl : c = x := by simpa using hx
    rcases hc with rfl | rfl
    · decide
    · decide
  | cons d' ds =>
    obtain rfl : d' = x := by simpa using hx
    exact not_base_of_isDigit (hall d' (List.mem_cons_of_mem _ List.mem_cons_self))

theorem isZeroPadded_fraction (hc : c = '.' ∨ c = 'e') :
    isZeroPadded (d :: (ds ++ c :: rest)) = false := by
  have hdigit : c.isDigit = false := by
    rcases hc with rfl | rfl
    · decide
    · decide
  unfold isZeroPadded
  split
  · rename_i heq
    obtain ⟨-, heq⟩ := List.cons.inj heq
    rw [← heq]
    refine Bool.eq_false_iff.mpr fun hdigits => ?_
    have hthere := List.all_eq_true.mp hdigits c (by simp)
    rw [hdigit] at hthere
    cases hthere
  · rfl

theorem integer_fraction (s : Bool) (hall : AllDigits (d :: ds)) (hc : c = '.' ∨ c = 'e') :
    integer (signOf s ++ d :: (ds ++ c :: rest)) = none := by
  have hnatural : natural 10 (d :: (ds ++ c :: rest)) = none := by
    refine natural_eq_none (c := c) (by simp) ?_
    rcases hc with rfl | rfl
    · exact Or.inl (by decide)
    · exact Or.inr ⟨14, by decide, by decide⟩
  rw [integer_signOf s (hall d List.mem_cons_self) (basedNatural_fraction hall hc),
    isZeroPadded_fraction hc, hnatural]
  rfl

end

/-- The text of a number means that number. -/
theorem ofPlain_float (x : Binary64) : ofPlain (floatNotation.write x) = float x := by
  cases x with
  | nan => rfl
  | infinity negative =>
    cases negative with
    | false => rfl
    | true => rfl
  | finite s m e h =>
    obtain ⟨ds, c, rest, hbody, hall, hne, hc⟩ := floatNotation.body_shape h
    obtain ⟨d, ds, rfl⟩ := List.exists_cons_of_ne_nil hne
    have hd := hall d List.mem_cons_self
    have hread := float_write floatNotation s h
    rw [floatNotation.write_finite]
    rw [hbody, List.cons_append] at hread ⊢
    obtain ⟨c', rest', hcons, hc'⟩ := signOf_append_cons s hd (ds ++ c :: rest)
    have hs : (String.ofList (signOf s ++ d :: (ds ++ c :: rest))).toList = c' :: rest' := by
      rw [String.toList_ofList, hcons]
    obtain ⟨hempty, hnull, hbool⟩ := no_word hs hc'
    have hinteger : ofInteger? (String.ofList (signOf s ++ d :: (ds ++ c :: rest))) = none := by
      rw [ofInteger?, String.toList_ofList, integer_fraction s hall hc]
      rfl
    have hfloat := floatOf_number s hd hread
    simp only [ofPlain, hempty, hnull, hbool, hinteger, String.toList_ofList,
      isPadded_signOf s hd, isZeroPadded_fraction hc, hfloat]
    rfl

end PlaneAccess.Yaml.Meaning
