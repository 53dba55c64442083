import Mathlib.Computability.RegularExpressions
import PlaneAccess.ControlPlane.Name

/-!
# Names as labels

The check of names rule by rule accepts the same texts as the regular expression
for DNS labels, with their limit on the length (`nameFault?_eq_none_iff`).
-/

namespace PlaneAccess.ControlPlane

/-! ## The grammar of labels -/

def oneOf (cs : List Char) : RegularExpression Char :=
  cs.foldr (fun c r => .char c + r) 0

def labelAlnums : List Char := "abcdefghijklmnopqrstuvwxyz0123456789".toList

/-- The grammar of labels, `[a-z0-9]([-a-z0-9]*[a-z0-9])?`. -/
def labelGrammar : RegularExpression Char :=
  oneOf labelAlnums * (1 + (oneOf ('-' :: labelAlnums)).star * oneOf labelAlnums)

/-- A text is a DNS label: it has 1 to 63 octets and follows the grammar. -/
structure IsLabel (s : String) : Prop where
  pos : 1 ≤ s.utf8ByteSize
  le : s.utf8ByteSize ≤ 63
  grammar : s.toList ∈ labelGrammar.matches'

theorem mem_oneOf {cs w : List Char} : w ∈ (oneOf cs).matches' ↔ ∃ c ∈ cs, w = [c] := by
  induction cs with
  | nil => simp [oneOf, Language.notMem_zero]
  | cons c cs ih =>
    have hchar : w ∈ (RegularExpression.char c).matches' ↔ w = [c] := Set.mem_singleton_iff
    change w ∈ (RegularExpression.char c + oneOf cs).matches' ↔ _
    rw [RegularExpression.matches'_add, Language.mem_add, ih, hchar]
    simp

theorem mem_star_oneOf {cs w : List Char} :
    w ∈ (oneOf cs).star.matches' ↔ ∀ c ∈ w, c ∈ cs := by
  rw [RegularExpression.matches'_star, Language.mem_kstar]
  constructor
  · rintro ⟨ws, rfl, hws⟩ c hc
    obtain ⟨v, hv, hcv⟩ := List.mem_flatten.mp hc
    obtain ⟨d, hd, rfl⟩ := mem_oneOf.mp (hws v hv)
    rw [List.mem_singleton.mp hcv]
    exact hd
  · intro h
    -- the characters one by one
    refine ⟨w.map fun c => [c], ?_, ?_⟩
    · induction w with
      | nil => rfl
      | cons c w ih =>
        rw [List.map_cons, List.flatten_cons, ← ih fun d hd => h d (List.mem_cons_of_mem c hd)]
        rfl
    · intro v hv
      obtain ⟨c, hc, rfl⟩ := List.mem_map.mp hv
      exact mem_oneOf.mpr ⟨c, h c hc, rfl⟩

/-! ## Characters -/

theorem mem_labelAlnums {c : Char} : c ∈ labelAlnums ↔ isLabelAlnum c = true := by
  have hall : labelAlnums.all isLabelAlnum = true := by decide +kernel
  have hsome : ∀ n < 123, isLabelAlnum (Char.ofNat n) = true → Char.ofNat n ∈ labelAlnums := by
    decide +kernel
  refine ⟨List.all_eq_true.mp hall c, fun h => ?_⟩
  have hlt : c.toNat < 123 := by
    change (decide ('a'.val ≤ c.val) && decide (c.val ≤ 'z'.val) ||
      decide ('0'.val ≤ c.val) && decide (c.val ≤ '9'.val)) = true at h
    simp only [Bool.or_eq_true, Bool.and_eq_true, decide_eq_true_eq,
      UInt32.le_iff_toNat_le] at h
    change c.val.toNat < 123
    rcases h with ⟨-, h⟩ | ⟨-, h⟩
    · exact Nat.lt_succ_of_le h
    · exact Nat.lt_of_le_of_lt h (by decide)
  rw [← Char.ofNat_toNat c] at h ⊢
  exact hsome c.toNat hlt h

theorem mem_labelChars {c : Char} : c ∈ '-' :: labelAlnums ↔ isLabelChar c = true := by
  rw [List.mem_cons, mem_labelAlnums, isLabelChar, Bool.or_eq_true, beq_iff_eq, or_comm]

theorem isLabelAlnum_iff {c : Char} :
    isLabelAlnum c = true ↔ isLabelChar c = true ∧ c ≠ '-' := by
  rw [isLabelChar, Bool.or_eq_true, beq_iff_eq]
  constructor
  · intro h
    refine ⟨Or.inl h, ?_⟩
    rintro rfl
    exact absurd h (by decide)
  · rintro ⟨h | h, hne⟩
    · exact h
    · exact absurd h hne

/-! ## The check of names -/

/-- The grammar in terms of the characters of a text and those at its ends. -/
theorem mem_labelGrammar {w : List Char} :
    w ∈ labelGrammar.matches' ↔
      w ≠ [] ∧ (∀ c ∈ w, isLabelChar c = true) ∧ w.head? ≠ some '-' ∧ w.getLast? ≠ some '-' := by
  rw [labelGrammar, RegularExpression.matches'_mul, Language.mem_mul]
  constructor
  · rintro ⟨u, hu, v, hv, rfl⟩
    obtain ⟨a, ha, rfl⟩ := mem_oneOf.mp hu
    obtain ⟨hachar, hadash⟩ := isLabelAlnum_iff.mp (mem_labelAlnums.mp ha)
    rw [RegularExpression.matches'_add, Language.mem_add, RegularExpression.matches'_epsilon,
      Language.mem_one, RegularExpression.matches'_mul, Language.mem_mul] at hv
    rcases hv with rfl | ⟨m, hm, e, he, rfl⟩
    · -- a single character
      simp [hachar, hadash]
    · obtain ⟨z, hz, rfl⟩ := mem_oneOf.mp he
      obtain ⟨hzchar, hzdash⟩ := isLabelAlnum_iff.mp (mem_labelAlnums.mp hz)
      have hmchar : ∀ c ∈ m, isLabelChar c = true :=
        fun c hc => mem_labelChars.mp (mem_star_oneOf.mp hm c hc)
      refine ⟨by simp, ?_, by simp [hadash], ?_⟩
      · intro c hc
        simp only [List.singleton_append, List.mem_cons, List.mem_append, List.not_mem_nil,
          or_false] at hc
        rcases hc with rfl | hc | rfl
        · exact hachar
        · exact hmchar c hc
        · exact hzchar
      · rw [← List.append_assoc, List.getLast?_concat]
        simpa using hzdash
  · rintro ⟨hne, hchar, hhead, hlast⟩
    obtain ⟨a, rest, rfl⟩ := List.exists_cons_of_ne_nil hne
    have ha : isLabelAlnum a = true :=
      isLabelAlnum_iff.mpr ⟨hchar a List.mem_cons_self, by simpa using hhead⟩
    refine ⟨[a], mem_oneOf.mpr ⟨a, mem_labelAlnums.mpr ha, rfl⟩, rest, ?_, rfl⟩
    rw [RegularExpression.matches'_add, Language.mem_add, RegularExpression.matches'_epsilon,
      Language.mem_one, RegularExpression.matches'_mul, Language.mem_mul]
    rcases List.eq_nil_or_concat rest with rfl | ⟨m, z, rfl⟩
    · exact Or.inl rfl
    · rw [List.concat_eq_append] at hchar hlast ⊢
      have hzdash : z ≠ '-' := by
        rw [← List.cons_append, List.getLast?_concat] at hlast
        simpa using hlast
      have hz : isLabelAlnum z = true := isLabelAlnum_iff.mpr ⟨hchar z (by simp), hzdash⟩
      refine Or.inr ⟨m, mem_star_oneOf.mpr fun c hc => mem_labelChars.mpr (hchar c ?_), [z],
        mem_oneOf.mpr ⟨z, mem_labelAlnums.mpr hz, rfl⟩, rfl⟩
      simp [hc]

/-- Nothing is wrong with a name just if it is a label. -/
theorem nameFault?_eq_none_iff {s : String} : nameFault? s = none ↔ IsLabel s := by
  have hempty : s.isEmpty = true ↔ s.toList = [] := by
    rw [String.isEmpty_iff, String.toList_eq_nil_iff]
  have hsize : s.toList ≠ [] → 1 ≤ s.utf8ByteSize := by
    intro h
    refine Nat.pos_of_ne_zero fun hzero => h ?_
    rw [String.toList_eq_nil_iff, ← String.utf8ByteSize_eq_zero_iff]
    exact hzero
  rw [nameFault?]
  constructor
  · intro h
    split at h
    · cases h
    rename_i hne
    split at h
    · cases h
    rename_i hle
    split at h
    · cases h
    rename_i hchar
    split at h
    · cases h
    rename_i hends
    rw [Bool.not_eq_true', Bool.not_eq_false, List.all_eq_true] at hchar
    rw [Bool.or_eq_true, not_or, beq_iff_eq, beq_iff_eq] at hends
    rw [hempty] at hne
    exact ⟨hsize hne, Nat.le_of_not_lt hle, mem_labelGrammar.mpr ⟨hne, hchar, hends⟩⟩
  · intro h
    obtain ⟨hne, hchar, hhead, hlast⟩ := mem_labelGrammar.mp h.grammar
    rw [if_neg (mt hempty.mp hne), if_neg (Nat.not_lt_of_le h.le), if_neg, if_neg]
    · rw [Bool.or_eq_true, not_or, beq_iff_eq, beq_iff_eq]
      exact ⟨hhead, hlast⟩
    · rw [Bool.not_eq_true', Bool.not_eq_false, List.all_eq_true]
      exact hchar

end PlaneAccess.ControlPlane
