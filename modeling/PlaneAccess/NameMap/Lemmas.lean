import PlaneAccess.NameMap

/-!
# Lemmas on maps from names

What each operation on a map does to the values that the map gives. The view
of a map is `get?`: maps that give the same values are equal (`ext_get?`),
and each operation has one equation through it.
-/

namespace PlaneAccess.NameMap

variable {α β : Type}

/-! ## Lists of entries -/

theorem lookup_insertEntry (k k' : String) (v : α) (es : List (String × α)) :
    lookup k' (insertEntry k v es) =
      if k = k' then some v else lookup k' es := by
  induction es with
  | nil => rfl
  | cons e es ih =>
    obtain ⟨k₀, v₀⟩ := e
    simp only [insertEntry]
    split
    · rfl
    · split
      · rename_i h
        subst h
        by_cases hk : k = k' <;> simp [lookup, hk]
      · rename_i h
        by_cases hk : k₀ = k' <;> by_cases hk' : k = k' <;>
          simp_all [lookup]

theorem perm_insertEntry {k : String} {es : List (String × α)}
    (h : lookup k es = none) (v : α) :
    (insertEntry k v es).Perm ((k, v) :: es) := by
  induction es with
  | nil => exact .refl _
  | cons e es ih =>
    obtain ⟨k', v'⟩ := e
    simp only [insertEntry]
    split
    · exact .refl _
    · split
      · rename_i heq
        subst heq
        simp [lookup] at h
      · rename_i hne
        rw [lookup, if_neg (fun heq => hne heq.symm)] at h
        exact ((ih h).cons _).trans (.swap _ _ _)

theorem lookup_filter_ne (k k' : String) (es : List (String × α)) :
    lookup k' (es.filter (fun e => e.1 ≠ k)) =
      if k = k' then none else lookup k' es := by
  induction es with
  | nil => simp [lookup]
  | cons e es ih =>
    obtain ⟨k₀, v₀⟩ := e
    by_cases h : k₀ = k <;> by_cases hk : k₀ = k' <;>
      by_cases hk' : k = k' <;> simp_all [lookup]

theorem lookup_map (f : α → β) (k : String) (es : List (String × α)) :
    lookup k (es.map (fun e => (e.1, f e.2))) = (lookup k es).map f := by
  induction es with
  | nil => rfl
  | cons e es ih => by_cases h : e.1 = k <;> simp [lookup, h, ih]

theorem lookup_append (k : String) (as bs : List (String × α)) :
    lookup k (as ++ bs) = (lookup k as).or (lookup k bs) := by
  induction as with
  | nil => rfl
  | cons e as ih => by_cases h : e.1 = k <;> simp [lookup, h, ih]

theorem mem_of_lookup {k : String} {v : α} {es : List (String × α)}
    (h : lookup k es = some v) : (k, v) ∈ es := by
  induction es with
  | nil => simp [lookup] at h
  | cons e es ih =>
    obtain ⟨k₀, v₀⟩ := e
    by_cases hk : k₀ = k
    · simp_all [lookup]
    · rw [lookup, if_neg hk] at h
      exact List.mem_cons_of_mem _ (ih h)

theorem lookup_eq_none_iff {k : String} {es : List (String × α)} :
    lookup k es = none ↔ ∀ e ∈ es, e.1 ≠ k := by
  induction es with
  | nil => simp [lookup]
  | cons e es ih => by_cases h : e.1 = k <;> simp [lookup, h, ih]

theorem ne_of_lt_name {a b : String} (h : a < b) : a ≠ b := by
  rintro rfl
  exact String.lt_irrefl a h

theorem lookup_of_mem {k : String} {v : α} {es : List (String × α)}
    (hs : Increasing es) (h : (k, v) ∈ es) : lookup k es = some v := by
  induction es with
  | nil => simp at h
  | cons e es ih =>
    obtain ⟨hhead, htail⟩ := List.pairwise_cons.1 hs
    rcases List.mem_cons.1 h with rfl | h
    · simp [lookup]
    · rw [lookup, if_neg (ne_of_lt_name (hhead _ h)), ih htail h]

theorem lookup_eq_none_of_lt {k : String} {es : List (String × α)}
    (h : ∀ e ∈ es, k < e.1) : lookup k es = none :=
  lookup_eq_none_iff.2 fun e he => (ne_of_lt_name (h e he)).symm

/-- Lists of entries in order that give the same values are equal. -/
theorem eq_of_lookup : ∀ {as bs : List (String × α)}, Increasing as →
    Increasing bs → (∀ k, lookup k as = lookup k bs) → as = bs
  | [], [], _, _, _ => rfl
  | [], b :: bs, _, _, h => by
    have := h b.1
    simp [lookup] at this
  | a :: as, [], _, _, h => by
    have := h a.1
    simp [lookup] at this
  | (k, v) :: as, (k', v') :: bs, ha, hb, h => by
    obtain ⟨hka, hta⟩ := List.pairwise_cons.1 ha
    obtain ⟨hkb, htb⟩ := List.pairwise_cons.1 hb
    have hk : k = k' := by
      rcases Decidable.em (k < k') with hlt | hlt
      · have := h k
        rw [lookup, if_pos rfl, lookup_eq_none_of_lt] at this
        · cases this
        · intro e he
          rcases List.mem_cons.1 he with rfl | he
          · exact hlt
          · exact String.lt_trans hlt (hkb e he)
      · rcases Decidable.em (k = k') with heq | hne
        · exact heq
        · have hgt : k' < k := lt_of_not_lt_of_ne hlt hne
          have := h k'
          rw [lookup_eq_none_of_lt, lookup, if_pos rfl] at this
          · cases this
          · intro e he
            rcases List.mem_cons.1 he with rfl | he
            · exact hgt
            · exact String.lt_trans hgt (hka e he)
    subst hk
    have hv : v = v' := by
      have := h k
      simpa [lookup] using this
    subst hv
    have ht : as = bs := by
      refine eq_of_lookup hta htb fun j => ?_
      by_cases hj : k = j
      · subst hj
        rw [lookup_eq_none_of_lt hka, lookup_eq_none_of_lt hkb]
      · have := h j
        rwa [lookup, if_neg hj, lookup, if_neg hj] at this
    rw [ht]

/-! ## Maps -/

theorem ext_get? {m n : NameMap α} (h : ∀ k, m.get? k = n.get? k) :
    m = n := by
  obtain ⟨as, ha⟩ := m
  obtain ⟨bs, hb⟩ := n
  have : as = bs := eq_of_lookup ha hb h
  subst this
  rfl

theorem get?_empty (k : String) : (empty : NameMap α).get? k = none := rfl

theorem get?_insert (m : NameMap α) (k k' : String) (v : α) :
    (m.insert k v).get? k' = if k = k' then some v else m.get? k' :=
  lookup_insertEntry k k' v m.entries

theorem get?_erase (m : NameMap α) (k k' : String) :
    (m.erase k).get? k' = if k = k' then none else m.get? k' :=
  lookup_filter_ne k k' m.entries

theorem get?_map (f : α → β) (m : NameMap α) (k : String) :
    (m.map f).get? k = (m.get? k).map f :=
  lookup_map f k m.entries

theorem mem_toList {m : NameMap α} {k : String} {v : α} :
    (k, v) ∈ m.toList ↔ m.get? k = some v :=
  ⟨lookup_of_mem m.increasing, mem_of_lookup⟩

theorem mem_keys {m : NameMap α} {k : String} :
    k ∈ m.keys ↔ m.contains k = true := by
  constructor
  · intro h
    obtain ⟨⟨k', v⟩, he, rfl⟩ := List.mem_map.1 h
    simp [contains, get?, lookup_of_mem m.increasing he]
  · intro h
    obtain ⟨v, hv⟩ := Option.isSome_iff_exists.1 h
    exact List.mem_map.2 ⟨(k, v), mem_of_lookup hv, rfl⟩

/-- Of entries with one name that are put in, the last one counts. -/
theorem get?_foldl_insert_last (m : NameMap α) (es : List (String × α)) (k : String) :
    (es.foldl (fun m e => m.insert e.1 e.2) m).get? k =
      (lookup k es.reverse).or (m.get? k) := by
  induction es generalizing m with
  | nil => rfl
  | cons e es ih =>
    rw [List.foldl_cons, ih, get?_insert, List.reverse_cons, lookup_append, Option.or_assoc]
    by_cases h : e.1 = k
    · simp [lookup, h]
    · simp [lookup, h]

/-- Where no name is repeated the order does not count. -/
theorem lookup_reverse {es : List (String × α)} (hs : (es.map Prod.fst).Nodup) (k : String) :
    lookup k es.reverse = lookup k es := by
  induction es with
  | nil => rfl
  | cons e es ih =>
    obtain ⟨hhead, htail⟩ := List.nodup_cons.1 hs
    rw [List.reverse_cons, lookup_append, ih htail]
    by_cases h : e.1 = k
    · have hnone : lookup k es = none := lookup_eq_none_iff.2 fun f hf heq =>
        hhead (List.mem_map.2 ⟨f, hf, heq.trans h.symm⟩)
      simp [lookup, h, hnone]
    · simp [lookup, h]

theorem get?_foldl_insert_of_nodup (m : NameMap α) {es : List (String × α)}
    (hs : (es.map Prod.fst).Nodup) (k : String) :
    (es.foldl (fun m e => m.insert e.1 e.2) m).get? k =
      (lookup k es).or (m.get? k) := by
  rw [get?_foldl_insert_last, lookup_reverse hs]

theorem perm_foldl_insert {es : List (String × α)}
    (hs : (es.map Prod.fst).Nodup) (m : NameMap α)
    (hm : ∀ e ∈ es, m.get? e.1 = none) :
    (es.foldl (fun m e => m.insert e.1 e.2) m).toList.Perm
      (es ++ m.toList) := by
  induction es generalizing m with
  | nil => exact .refl _
  | cons e es ih =>
    obtain ⟨hhead, htail⟩ := List.nodup_cons.1 hs
    have hnew : ∀ f ∈ es, (m.insert e.1 e.2).get? f.1 = none := by
      intro f hf
      have hne : e.1 ≠ f.1 := fun heq => hhead (heq ▸ List.mem_map_of_mem hf)
      rw [get?_insert, if_neg hne]
      exact hm f (List.mem_cons_of_mem _ hf)
    have hput : (m.insert e.1 e.2).toList.Perm (e :: m.toList) :=
      perm_insertEntry (hm e List.mem_cons_self) e.2
    exact (ih htail _ hnew).trans
      ((hput.append_left es).trans List.perm_middle)

theorem perm_toList_ofList {es : List (String × α)}
    (hs : (es.map Prod.fst).Nodup) : (ofList es).toList.Perm es := by
  have h := perm_foldl_insert hs empty fun _ _ => rfl
  rwa [show (empty : NameMap α).toList = [] from rfl, List.append_nil] at h

theorem nodup_of_increasing {es : List (String × α)} (hs : Increasing es) :
    (es.map Prod.fst).Nodup :=
  List.pairwise_map.2 (hs.imp ne_of_lt_name)

theorem get?_foldl_insert (m : NameMap α) {es : List (String × α)}
    (hs : Increasing es) (k : String) :
    (es.foldl (fun m e => m.insert e.1 e.2) m).get? k =
      (lookup k es).or (m.get? k) :=
  get?_foldl_insert_of_nodup m (nodup_of_increasing hs) k

theorem get?_ofList_last (es : List (String × α)) (k : String) :
    (ofList es).get? k = lookup k es.reverse := by
  rw [ofList, get?_foldl_insert_last, get?_empty, Option.or_none]

theorem mem_of_get?_ofList {es : List (String × α)} {k : String} {v : α}
    (h : (ofList es).get? k = some v) : (k, v) ∈ es := by
  rw [get?_ofList_last] at h
  exact List.mem_reverse.mp (mem_of_lookup h)

theorem get?_ofList {es : List (String × α)} (hs : (es.map Prod.fst).Nodup)
    (k : String) : (ofList es).get? k = lookup k es := by
  rw [get?_ofList_last, lookup_reverse hs]

/-- Where both maps give a value, the second one's counts. -/
theorem get?_union (m n : NameMap α) (k : String) :
    (m.union n).get? k = (n.get? k).or (m.get? k) :=
  get?_foldl_insert m n.increasing k

/-- Maps that give no name a value both can be added in either order. -/
theorem union_right_comm {m a b : NameMap α}
    (h : ∀ k, a.get? k = none ∨ b.get? k = none) :
    (m.union a).union b = (m.union b).union a := by
  refine ext_get? fun k => ?_
  simp only [get?_union]
  rcases h k with hk | hk
  · rw [hk, Option.none_or, Option.none_or]
  · rw [hk, Option.none_or, Option.none_or]

theorem union_union_self (m n : NameMap α) :
    (m.union n).union n = m.union n := by
  refine ext_get? fun k => ?_
  rw [get?_union, get?_union, ← Option.or_assoc, Option.or_self]

theorem ofList_toList (m : NameMap α) : ofList m.toList = m := by
  refine ext_get? fun k => ?_
  rw [ofList, toList, get?_foldl_insert empty m.increasing, get?_empty,
    Option.or_none]
  rfl

/-! ## Renaming -/

theorem get?_rename (m : NameMap α) (old new k : String) :
    (m.rename old new).get? k =
      if m.contains old then
        if new = k then m.get? old else if old = k then none else m.get? k
      else m.get? k := by
  unfold rename contains
  cases h : m.get? old with
  | none => rfl
  | some v => simp [get?_insert, get?_erase]

theorem rename_of_none {m : NameMap α} {old : String} (h : m.get? old = none)
    (new : String) : m.rename old new = m := by
  rw [rename, h]

theorem rename_self (m : NameMap α) (k : String) : m.rename k k = m := by
  refine ext_get? fun k' => ?_
  rw [get?_rename]
  by_cases hk : k = k'
  · subst hk
    simp
  · simp [hk]

theorem get?_rename_old (m : NameMap α) {old new : String} (h : new ≠ old) :
    (m.rename old new).get? old = none := by
  rw [get?_rename]
  by_cases hold : m.contains old = true
  · simp [hold, h]
  · rw [if_neg hold]
    simpa [contains] using hold

/-- A name is moved once and for all, if it is moved to itself as well. -/
theorem rename_rename (m : NameMap α) (old new : String) :
    (m.rename old new).rename old new = m.rename old new := by
  by_cases h : new = old
  · subst h
    rw [rename_self, rename_self]
  · rw [rename_of_none (m.get?_rename_old h)]

theorem insert_insert (m : NameMap α) (k : String) (v w : α) :
    (m.insert k v).insert k w = m.insert k w := by
  refine ext_get? fun k' => ?_
  simp only [get?_insert]
  by_cases hk : k = k'
  · rw [if_pos hk, if_pos hk]
  · rw [if_neg hk, if_neg hk, if_neg hk]

/-- What is at a name does not count when it is overwritten after another one
has been moved there. -/
theorem get?_insert_rename (m : NameMap α) (old new k : String) (v : α) :
    ((m.rename old new).insert new v).get? k =
      if new = k then some v else if old = k then none else m.get? k := by
  rw [get?_insert, get?_rename]
  by_cases hnew : new = k
  · rw [if_pos hnew, if_pos hnew]
  · rw [if_neg hnew, if_neg hnew, if_neg hnew]
    by_cases hold : m.contains old = true
    · rw [if_pos hold]
    · rw [if_neg hold]
      by_cases hk : old = k
      · subst hk
        simpa [contains] using hold
      · rw [if_neg hk]

theorem insert_rename_again (m : NameMap α) (old new : String) (v : α) :
    (((m.rename old new).insert new v).rename old new).insert new v =
      (m.rename old new).insert new v := by
  by_cases h : new = old
  · subst h
    rw [rename_self, rename_self, insert_insert]
  · -- the old name is free by now, so the second move finds nothing
    have hnone : ((m.rename old new).insert new v).get? old = none := by
      rw [get?_insert, if_neg h, m.get?_rename_old h]
    rw [rename_of_none hnone, insert_insert]

/-! ## Entries one by one -/

theorem flatMap_erase {m : NameMap α} {k : String} {f : String × α → List β}
    (h : ∀ v, m.get? k = some v → f (k, v) = []) :
    (m.erase k).toList.flatMap f = m.toList.flatMap f := by
  have hfilter : ∀ es : List (String × α), (∀ e ∈ es, e.1 = k → f e = []) →
      (es.filter (fun e => e.1 ≠ k)).flatMap f = es.flatMap f := by
    intro es hes
    induction es with
    | nil => rfl
    | cons e es ih =>
      have hrest := ih fun e' he' => hes e' (List.mem_cons_of_mem e he')
      by_cases he : e.1 = k
      · rw [List.filter_cons_of_neg (by simpa using he), hrest, List.flatMap_cons,
          hes e List.mem_cons_self he, List.nil_append]
      · rw [List.filter_cons_of_pos (by simpa using he), List.flatMap_cons, List.flatMap_cons,
          hrest]
  refine hfilter m.toList fun e he hk => ?_
  obtain ⟨k', v⟩ := e
  obtain rfl : k' = k := hk
  exact h v (mem_toList.mp he)

/-! ## How many entries there are -/

theorem nodup_keys (m : NameMap α) : m.keys.Nodup := nodup_of_increasing m.increasing

theorem length_eq_size {m : NameMap α} {l : List String} (hl : l.Nodup)
    (h : ∀ k, k ∈ l ↔ m.contains k = true) : l.length = m.size := by
  have hperm : l.Perm m.keys :=
    (List.perm_ext_iff_of_nodup hl m.nodup_keys).2 fun k => (h k).trans mem_keys.symm
  rw [hperm.length_eq, keys, List.length_map, size]

theorem size_insert (m : NameMap α) (k : String) (v : α) :
    (m.insert k v).size = m.size + if m.contains k then 0 else 1 := by
  cases hk : m.contains k with
  | true =>
    rw [← length_eq_size m.nodup_keys (m := m.insert k v), keys, List.length_map]
    · rfl
    · intro k'
      rw [mem_keys, contains, contains, get?_insert]
      by_cases heq : k = k'
      · subst heq
        simpa [contains] using hk
      · rw [if_neg heq]
  | false =>
    have hnew : (k :: m.keys).Nodup := by
      refine List.nodup_cons.2 ⟨fun hmem => ?_, m.nodup_keys⟩
      rw [mem_keys, hk] at hmem
      cases hmem
    rw [← length_eq_size hnew (m := m.insert k v), List.length_cons, keys, List.length_map]
    · rfl
    · intro k'
      rw [List.mem_cons, mem_keys, contains, contains, get?_insert]
      by_cases heq : k = k'
      · simp [heq]
      · rw [if_neg heq]
        exact or_iff_right fun h => heq h.symm

theorem size_erase (m : NameMap α) (k : String) :
    m.size = (m.erase k).size + if m.contains k then 1 else 0 := by
  have hkeys : ∀ k', k' ∈ (m.erase k).keys ↔ k ≠ k' ∧ m.contains k' = true := by
    intro k'
    rw [mem_keys, contains, get?_erase, contains]
    by_cases heq : k = k'
    · simp [heq]
    · simp [heq]
  cases hk : m.contains k with
  | true =>
    have hnew : (k :: (m.erase k).keys).Nodup :=
      List.nodup_cons.2 ⟨fun hmem => ((hkeys k).1 hmem).1 rfl, (m.erase k).nodup_keys⟩
    rw [← length_eq_size hnew, List.length_cons, keys, List.length_map]
    · rfl
    · intro k'
      rw [List.mem_cons, hkeys]
      by_cases heq : k = k'
      · subst heq
        simpa using hk
      · simp [heq, Ne.symm heq]
  | false =>
    rw [← length_eq_size (m.erase k).nodup_keys, keys, List.length_map]
    · rfl
    · intro k'
      rw [hkeys]
      refine and_iff_right_of_imp fun hk' heq => ?_
      rw [heq, hk'] at hk
      cases hk

end PlaneAccess.NameMap
