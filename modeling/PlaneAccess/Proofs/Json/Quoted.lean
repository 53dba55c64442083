import PlaneAccess.Json.Quoted
import PlaneAccess.Json.Write

/-!
# Text between quotes comes back

A text written between quotes is read as it was, whatever characters it has
(`stringBody_quoted`).
-/

namespace PlaneAccess.Json

/-! ## One character -/

theorem stringBody_letter {c x : Char} (h : escaped c = some x) (cs : List Char) :
    stringBody ('\\' :: c :: cs) = (stringBody cs).map fun p => (x :: p.1, p.2) := by
  have hu : c ≠ 'u' := by
    rintro rfl
    cases h
  rw [stringBody.eq_5 c cs (fun _ _ _ _ _ _ _ _ _ h _ => hu h) (fun _ _ _ _ _ h _ => hu h), h]
  cases stringBody cs <;> rfl

/-- An escape of four digits stands for its character if they are the number of
one, also before another escape. -/
theorem stringBody_hexFour {a b c d : Char} {n : Nat} (h : hexFour a b c d = some n)
    (hn : n.isValidChar) (cs : List Char) :
    stringBody ('\\' :: 'u' :: a :: b :: c :: d :: cs) =
      (stringBody cs).map fun p => (Char.ofNat n :: p.1, p.2) := by
  by_cases hpair : ∃ e f g i rest, cs = '\\' :: 'u' :: e :: f :: g :: i :: rest
  · obtain ⟨e, f, g, i, rest, rfl⟩ := hpair
    rw [stringBody.eq_3, h]
    simp only [Option.bind_eq_bind, Option.bind_some, if_pos hn]
    cases stringBody ('\\' :: 'u' :: e :: f :: g :: i :: rest) <;> rfl
  · rw [stringBody.eq_4 a b c d cs fun e f g i rest hcs => hpair ⟨e, f, g, i, rest, hcs⟩, h]
    simp only [Option.bind_eq_bind, Option.bind_some, if_pos hn]
    cases stringBody cs <;> rfl

theorem stringBody_plain {c : Char} (hquote : c ≠ '"') (hslash : c ≠ '\\')
    (hcontrol : ¬c.toNat < 0x20) (cs : List Char) :
    stringBody (c :: cs) = (stringBody cs).map fun p => (c :: p.1, p.2) := by
  rw [stringBody.eq_6 c cs hquote (fun _ _ _ _ _ _ _ _ _ h _ => hslash h)
    (fun _ _ _ _ _ h _ => hslash h) (fun _ _ h _ => hslash h), if_neg hcontrol]
  cases stringBody cs <;> rfl

theorem exists_controlDigits {n : Nat} (h : n < 0x20) :
    ∃ c d, controlDigits n = ['0', '0', c, d] ∧ hexFour '0' '0' c d = some n := by
  have hall : ∀ n < 0x20,
      controlDigits n = ['0', '0', Nat.digitChar (n / 16), Nat.digitChar (n % 16)] ∧
        hexFour '0' '0' (Nat.digitChar (n / 16)) (Nat.digitChar (n % 16)) = some n := by
    decide +kernel
  exact ⟨_, _, hall n h⟩

/-- Whatever a character is written as stands for the character. -/
theorem stringBody_quotedChar (c : Char) (cs : List Char) :
    stringBody (quotedChar c ++ cs) = (stringBody cs).map fun p => (c :: p.1, p.2) := by
  have hletter : ∀ l, escaped l = some c →
      stringBody (['\\', l] ++ cs) = (stringBody cs).map fun p => (c :: p.1, p.2) :=
    fun l hl => stringBody_letter hl cs
  rw [quotedChar]
  split
  · rename_i hc
    rw [Bool.or_eq_true, beq_iff_eq, beq_iff_eq] at hc
    obtain rfl | rfl := hc
    · exact hletter '"' rfl
    · exact hletter '\\' rfl
  rename_i hc
  rw [Bool.or_eq_true, beq_iff_eq, beq_iff_eq, not_or] at hc
  obtain ⟨hquote, hslash⟩ := hc
  split
  · rename_i hc
    obtain rfl := beq_iff_eq.mp hc
    exact hletter 'b' rfl
  split
  · rename_i hc
    obtain rfl := beq_iff_eq.mp hc
    exact hletter 't' rfl
  split
  · rename_i hc
    obtain rfl := beq_iff_eq.mp hc
    exact hletter 'n' rfl
  split
  · rename_i hc
    obtain rfl := beq_iff_eq.mp hc
    exact hletter 'f' rfl
  split
  · rename_i hc
    obtain rfl := beq_iff_eq.mp hc
    exact hletter 'r' rfl
  split
  · rename_i hcontrol
    obtain ⟨x, y, hdigits, hhex⟩ := exists_controlDigits hcontrol
    have hvalid : c.toNat.isValidChar := c.valid
    rw [hdigits]
    exact (stringBody_hexFour hhex hvalid cs).trans (by rw [Char.ofNat_toNat])
  · rename_i hcontrol
    exact stringBody_plain hquote hslash hcontrol cs

/-! ## Texts -/

/-- A text between quotes is read as it was, and the rest is left. -/
theorem stringBody_quoted (w rest : List Char) :
    stringBody (w.flatMap quotedChar ++ '"' :: rest) = some (w, rest) := by
  induction w with
  | nil => rfl
  | cons c w ih =>
    rw [List.flatMap_cons, List.append_assoc, stringBody_quotedChar, ih]
    rfl

theorem toList_quoted (s : String) :
    (quoted s).toList = '"' :: (s.toList.flatMap quotedChar ++ ['"']) := by
  simp [quoted]

end PlaneAccess.Json
