import PlaneAccess.Bundle.Source
import PlaneAccess.Proofs.ControlPlane.Label
import PlaneAccess.Proofs.Except

/-!
# Namespaces of control planes

The namespace that hosts a control plane has its name with something after it.
That keeps the grammar of labels, but not the limit on their length: the names
of the last few lengths have a namespace that no cluster takes
(`isLabel_space_iff`).
-/

namespace PlaneAccess.ControlPlane

open PlaneAccess.Bundle

theorem mem_labelGrammar_append {w v : List Char} (hw : w ∈ labelGrammar.matches')
    (hv : ∀ c ∈ v, isLabelChar c = true) (hne : v ≠ []) (hlast : v.getLast? ≠ some '-') :
    w ++ v ∈ labelGrammar.matches' := by
  obtain ⟨hwne, hwchar, hhead, -⟩ := mem_labelGrammar.mp hw
  refine mem_labelGrammar.mpr ⟨fun h => hwne (List.append_eq_nil_iff.mp h).1, ?_, ?_, ?_⟩
  · intro c hc
    rcases List.mem_append.mp hc with hc | hc
    · exact hwchar c hc
    · exact hv c hc
  · rw [List.head?_append_of_ne_nil w hwne]
    exact hhead
  · rw [List.getLast?_append_of_ne_nil w hne]
    exact hlast

/-- The namespace of a control plane is its name with seven more octets. -/
theorem utf8ByteSize_space (i : Identity) :
    (Source.of i .standard).space.utf8ByteSize = i.name.text.utf8ByteSize + 7 := by
  change ("" ++ i.name.text ++ "-system").utf8ByteSize = _
  rw [String.utf8ByteSize_append, String.utf8ByteSize_append, String.utf8ByteSize_empty,
    Nat.zero_add]
  rfl

theorem toList_space (i : Identity) :
    (Source.of i .standard).space.toList = i.name.text.toList ++ "-system".toList := by
  change ("" ++ i.name.text ++ "-system").toList = _
  rw [String.toList_append, String.toList_append]
  rfl

/-- The namespace of a control plane follows the grammar of labels. It is a
label just if the name has at most 56 octets, seven fewer than names can have. -/
theorem isLabel_space_iff (i : Identity) :
    (Source.of i .standard).space.toList ∈ labelGrammar.matches' ∧
      (IsLabel (Source.of i .standard).space ↔ i.name.text.utf8ByteSize ≤ 56) := by
  have hgrammar : (Source.of i .standard).space.toList ∈ labelGrammar.matches' := by
    rw [toList_space]
    exact mem_labelGrammar_append (nameFault?_eq_none_iff.mp i.name.sound).grammar
      (List.all_eq_true.mp (by decide +kernel)) (by decide +kernel) (by decide +kernel)
  have hsize := utf8ByteSize_space i
  refine ⟨hgrammar, fun h => ?_, fun h => ⟨?_, ?_, hgrammar⟩⟩
  · have := h.le
    omega
  · omega
  · omega

/-- A name of 57 letters is accepted, but its namespace is too long. -/
theorem not_isLabel_space :
    ∃ n, Name.parse "aaaaaaaaaaaaaaaaaaaaaaaaaaaaaaaaaaaaaaaaaaaaaaaaaaaaaaaaa" = .ok n ∧
      ¬ IsLabel (Source.of ⟨n, .k8s⟩ .standard).space := by
  obtain ⟨n, hn, hsize⟩ := exists_of_toOption_any (fun n => n.text.utf8ByteSize = 57)
    (r := Name.parse "aaaaaaaaaaaaaaaaaaaaaaaaaaaaaaaaaaaaaaaaaaaaaaaaaaaaaaaaa") (by decide +kernel)
  refine ⟨n, hn, fun h => ?_⟩
  have hle := h.le
  rw [utf8ByteSize_space, of_decide_eq_true hsize] at hle
  exact absurd hle (by decide)

end PlaneAccess.ControlPlane
