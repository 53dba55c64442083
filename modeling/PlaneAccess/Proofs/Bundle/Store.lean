import PlaneAccess.Bundle.Store
import PlaneAccess.NameMap.Lemmas

/-!
# What is in a store of bundles

Each operation on a store by the bundles and the announcements that are
there after it.
-/

namespace PlaneAccess.Bundle.Store

theorem mem_names {s : Store} {space name : String} :
    name ∈ s.names space ↔ s.contains space name = true :=
  NameMap.mem_keys

/-! ## Announcements -/

theorem announce_eq (s : Store) (space name : String) :
    s.announce space name =
      { s with
        history :=
          if s.isOpen then s.history ++ [⟨space, name⟩] else s.history } := by
  unfold announce
  split
  · rfl
  · rfl

theorem announceAll_eq (s : Store) (space : String) (names : List String) :
    s.announceAll space names =
      { s with
        history :=
          if s.isOpen then s.history ++ names.map (Announcement.mk space)
          else s.history } := by
  induction names generalizing s with
  | nil => simp [announceAll]
  | cons n names ih =>
    rw [announceAll, List.foldl_cons]
    change (s.announce space n).announceAll space names = _
    rw [ih, announce_eq]
    cases s.isOpen with
    | true => simp
    | false => simp

/-! ## Bundles -/

theorem bundles_insert (s : Store) (space name space' : String) (p : Payloads) :
    (s.insert space name p).bundles space' =
      if space = space' then (s.bundles space').insert name p
      else s.bundles space' := by
  simp only [insert, announce_eq, bundles, NameMap.get?_insert]
  by_cases h : space = space'
  · subst h
    simp
  · simp [h]

theorem contains_insert (s : Store) (space name space' name' : String) (p : Payloads) :
    (s.insert space name p).contains space' name' =
      (decide (space = space' ∧ name = name') || s.contains space' name') := by
  rw [contains, contains, bundles_insert]
  by_cases h : space = space'
  · by_cases h' : name = name'
    · simp [h, h', NameMap.contains, NameMap.get?_insert]
    · simp [h, h', NameMap.contains, NameMap.get?_insert]
  · simp [h]

theorem history_insert (s : Store) (space name : String) (p : Payloads) :
    (s.insert space name p).history =
      if s.isOpen then s.history ++ [⟨space, name⟩] else s.history := by
  rw [insert, announce_eq]

theorem isOpen_insert (s : Store) (space name : String) (p : Payloads) :
    (s.insert space name p).isOpen = s.isOpen := by
  rw [insert, announce_eq]

theorem names_subset_insert (s : Store) (space name space' : String) (p : Payloads) :
    s.names space' ⊆ (s.insert space name p).names space' := by
  intro n hn
  rw [mem_names, contains_insert, mem_names.mp hn, Bool.or_true]

end PlaneAccess.Bundle.Store
