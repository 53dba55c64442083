import PlaneAccess.Proofs.Yaml.Tree
import PlaneAccess.Proofs.Yaml.Value

/-!
# What can be read

A document is not looked into deeper than the limit (`Tree.depth_ofContentOf`),
and a value that has been read is no deeper than its tree, has no tags among
the fields of a record, and repeats no key on its own (`Sound`).
-/

namespace PlaneAccess.Yaml

/-! ## Trees of documents -/

namespace Tree

theorem forall_mapM {α β : Type} {f : α → StateM Nat β} {P : β → Prop}
    (h : ∀ a s, P ((f a).run s).1) :
    ∀ (as : List α) (s : Nat), ∀ b ∈ ((as.mapM f).run s).1, P b := by
  intro as
  induction as with
  | nil => exact fun s b hb => absurd hb List.not_mem_nil
  | cons a as ih =>
    intro s b hb
    rw [List.mapM_cons] at hb
    rcases List.mem_cons.mp hb with rfl | hb
    · exact h a s
    · exact ih _ b hb

theorem depth_ofContent {child : Option (Interest → Node → StateM Nat Tree)} {d : Nat}
    (h : ∀ c, child = some c → 0 < d ∧ ∀ i n s, ((c i n).run s).1.depth + 1 ≤ d) :
    ∀ (i : Interest) (n : Node) (s : Nat), ((ofContent child i n).run s).1.depth ≤ d := by
  intro i n s
  cases n with
  | scalar tag style text => exact Nat.zero_le d
  | sequence tag items =>
    cases child with
    | none => exact Nat.zero_le d
    | some c =>
      obtain ⟨hpos, hc⟩ := h c rfl
      have hitems := forall_mapM (f := c i.ofItem) (P := fun t => t.depth ≤ d - 1)
        (fun n s => by have := hc i.ofItem n s; omega) items s
      have hdepth := depthOfItems_le.mpr hitems
      show depthOfItems ((items.mapM (c i.ofItem)).run s).1 + 1 ≤ d
      omega
  | mapping tag entries =>
    cases child with
    | none => exact Nat.zero_le d
    | some c =>
      obtain ⟨hpos, hc⟩ := h c rfl
      have hentries := forall_mapM (f := ofEntry c i)
        (P := fun e => e.1.depth ≤ d - 1 ∧ e.2.depth ≤ d - 1) (by
          rintro ⟨k, v⟩ s
          have hkey := hc .everything k s
          have hvalue := hc (i.ofKey ((c .everything k).run s).1.text?) v
            ((c .everything k).run s).2
          constructor
          · show ((c .everything k).run s).1.depth ≤ d - 1
            omega
          · show ((c (i.ofKey ((c .everything k).run s).1.text?) v).run
              ((c .everything k).run s).2).1.depth ≤ d - 1
            omega) entries s
      have hdepth := depthOfEntries_le.mpr hentries
      show depthOfEntries ((entries.mapM (ofEntry c i)).run s).1 + 1 ≤ d
      omega
  | reference number => exact Nat.zero_le d
  | cut => exact Nat.zero_le d

/-- What is looked at in a content with children for a number of levels. -/
def children (anchored : List (Nat × Node)) : Nat → Option (Interest → Node → StateM Nat Tree)
  | 0 => none
  | d + 1 => some (ofNode anchored d)

theorem ofNode_reference (anchored : List (Nat × Node)) (d : Nat) {i : Interest}
    (hi : i ≠ .nothing) (number : Nat) :
    ofNode anchored d i (.reference number) = (do
      match ← get with
      | 0 => return fault .tooManyAliases
      | left + 1 =>
        set left
        match anchored.lookup number with
        | none => return fault .cutOff
        | some n => return reference (← ofContent (children anchored d) i n)) := by
  cases i with
  | nothing => exact absurd rfl hi
  | _ => cases d <;> rfl

theorem ofNode_of_ne_reference (anchored : List (Nat × Node)) (d : Nat) {i : Interest} {n : Node}
    (hi : i ≠ .nothing) (hn : ∀ number, n ≠ .reference number) :
    ofNode anchored d i n = ofContent (children anchored d) i n := by
  cases n with
  | reference number => exact absurd rfl (hn number)
  | _ =>
    cases i with
    | nothing => exact absurd rfl hi
    | _ => cases d <;> rfl

theorem depth_ofNode_of_ofContent (anchored : List (Nat × Node)) {d : Nat}
    (h : ∀ i n s, ((ofContent (children anchored d) i n).run s).1.depth ≤ d) (i : Interest)
    (n : Node) (s : Nat) : ((ofNode anchored d i n).run s).1.depth ≤ d := by
  by_cases hi : i = .nothing
  · subst hi
    have hskip : ((ofNode anchored d .nothing n).run s).1 =
        if n.isCut then fault .cutOff else unread := by
      cases d <;> rfl
    rw [hskip]
    split
    · exact Nat.zero_le d
    · exact Nat.zero_le d
  · by_cases hn : ∃ number, n = .reference number
    · obtain ⟨number, rfl⟩ := hn
      rw [ofNode_reference anchored d hi]
      -- one more reference is followed, if there may be any more
      cases s with
      | zero => exact Nat.zero_le d
      | succ left =>
        show ((match anchored.lookup number with
          | none => return fault .cutOff
          | some n => return reference (← ofContent (children anchored d) i n) :
            StateM Nat Tree).run left).1.depth ≤ d
        split
        · exact Nat.zero_le d
        · rename_i n _
          show (((ofContent (children anchored d) i n).run left).1).reference.depth ≤ d
          rw [depth]
          exact h i n left
    · rw [ofNode_of_ne_reference anchored d hi (fun number heq => hn ⟨number, heq⟩)]
      exact h i n s

/-- A tree is no deeper than the reader may go, with references followed. -/
theorem depth_ofNode (anchored : List (Nat × Node)) :
    ∀ (d : Nat) (i : Interest) (n : Node) (s : Nat),
      ((ofNode anchored d i n).run s).1.depth ≤ d := by
  intro d
  induction d with
  | zero => exact depth_ofNode_of_ofContent anchored (depth_ofContent fun _ h => by cases h)
  | succ d ih =>
    refine depth_ofNode_of_ofContent anchored (depth_ofContent ?_)
    intro c hc
    obtain rfl := Option.some.inj hc
    exact ⟨Nat.succ_pos d, fun i n s => Nat.succ_le_succ (ih i n s)⟩

theorem depth_ofContentOf (c : Content) (i : Interest) : (ofContentOf c i).depth ≤ depthLimit :=
  depth_ofNode c.anchored depthLimit i c.root _

theorem depth_target (t : Tree) : t.target.depth = t.depth := by
  fun_induction target t with
  | case1 t ih => rw [depth, ih]
  | case2 t _ => rfl

theorem depth_withTag (tag : String) (t : Tree) : (t.withTag tag).depth = t.depth := by
  cases t with
  | _ => rfl

end Tree

theorem Value.toTrees_eq_map (vs : List Value) : toTrees vs = vs.map toTree := by
  induction vs with
  | nil => rfl
  | cons v vs ih => rw [toTrees, ih, List.map_cons]

theorem Value.toTreeEntries_eq_map (es : List (Value × Value)) :
    toTreeEntries es = es.map (fun e => (e.1.toTree, e.2.toTree)) := by
  induction es with
  | nil => rfl
  | cons e es ih => rw [toTreeEntries, ih, List.map_cons]

/-! ## Values that have been read -/

/-- What a reader makes sure of in a value: there are no tags in it among the
fields of a record, no mapping in it repeats a key where it is on its own,
and it is not nested too deep. -/
structure Sound (place : ValuePlace) (d : Nat) (v : Value) : Prop where
  untagged : place = .inRecord → v.isUntagged = true
  keys : place = .alone → v.repeatedKey? = none
  depth : v.toTree.depth ≤ d

namespace Sound

variable {place : ValuePlace} {d : Nat}

theorem mono {v : Value} {e : Nat} (h : Sound place d v) (hle : d ≤ e) : Sound place e v :=
  ⟨h.untagged, h.keys, Nat.le_trans h.depth hle⟩

theorem withTag {v : Value} (own : Option String) (hown : place = .inRecord → own = none)
    (h : Sound place d v) : Sound place d (withTag own v) := by
  cases own with
  | none => exact h
  | some tag =>
    refine ⟨(fun hp => by cases hown hp), fun hp => h.keys hp, ?_⟩
    show (v.toTree.withTag (Value.markedTag tag)).depth ≤ d
    rw [Tree.depth_withTag]
    exact h.depth

theorem sequence {vs : List Value} (h : ∀ v ∈ vs, Sound place d v) :
    Sound place (d + 1) (.sequence vs) := by
  refine ⟨fun hp => ?_, fun hp => ?_, ?_⟩
  · show Value.areUntagged vs = true
    induction vs with
    | nil => rfl
    | cons v vs ih =>
      rw [Value.areUntagged, (h v List.mem_cons_self).untagged hp,
        ih (fun w hw => h w (List.mem_cons_of_mem _ hw))]
      rfl
  · show Value.repeatedInItems vs = none
    induction vs with
    | nil => rfl
    | cons v vs ih =>
      rw [Value.repeatedInItems, (h v List.mem_cons_self).keys hp,
        ih (fun w hw => h w (List.mem_cons_of_mem _ hw))]
      rfl
  · show Tree.depthOfItems (Value.toTrees vs) + 1 ≤ d + 1
    rw [Value.toTrees_eq_map, Nat.add_le_add_iff_right, Tree.depthOfItems_le]
    intro t ht
    obtain ⟨v, hv, rfl⟩ := List.mem_map.mp ht
    exact (h v hv).depth

theorem mapping {es : List (Value × Value)}
    (h : ∀ e ∈ es, Sound place d e.1 ∧ Sound place d e.2)
    (hkeys : place = .alone → Value.repeatedInEntries [] es = none) :
    Sound place (d + 1) (.mapping es) := by
  refine ⟨fun hp => ?_, hkeys, ?_⟩
  · show Value.areUntaggedEntries es = true
    clear hkeys
    induction es with
    | nil => rfl
    | cons e es ih =>
      obtain ⟨hk, hv⟩ := h e List.mem_cons_self
      rw [Value.areUntaggedEntries, hk.untagged hp, hv.untagged hp,
        ih (fun f hf => h f (List.mem_cons_of_mem _ hf))]
      rfl
  · show Tree.depthOfEntries (Value.toTreeEntries es) + 1 ≤ d + 1
    rw [Value.toTreeEntries_eq_map, Nat.add_le_add_iff_right, Tree.depthOfEntries_le]
    intro t ht
    obtain ⟨e, he, rfl⟩ := List.mem_map.mp ht
    exact ⟨(h e he).1.depth, (h e he).2.depth⟩

end Sound

theorem eq_none_of_readTag {place : ValuePlace} {path : Path} {tag own : Option String}
    (h : readTag place path tag = .ok own) (hp : place = .inRecord) : own = none := by
  subst hp
  unfold readTag at h
  split at h
  · exact (Except.ok.inj h).symm
  · rename_i hplace
    cases hplace
  · cases h

theorem sound_valueOf {place : ValuePlace} {path : Path} {m : Meaning} {text : String} {v : Value}
    (h : valueOf place path m text = .ok v) (d : Nat) : Sound place d v := by
  cases m with
  | wideInt i => cases h
  | _ =>
    obtain rfl := Except.ok.inj h
    exact ⟨fun _ => rfl, fun _ => rfl, Nat.zero_le d⟩

mutual

theorem sound_readValue (place : ValuePlace) :
    ∀ (t : Tree) (path : Path) (v : Value), readValue place path t = .ok v →
      Sound place t.depth v
  | .scalar tag form text, path, v, h => by
    rw [readValue] at h
    obtain ⟨own, hown, h⟩ := bind_eq_ok.mp h
    cases own with
    | some own =>
      obtain ⟨w, hw, h⟩ := bind_eq_ok.mp h
      obtain rfl := Except.ok.inj h
      exact Sound.withTag (some own) (eq_none_of_readTag hown) (sound_valueOf hw _)
    | none =>
      dsimp only at h
      split at h
      · exact sound_valueOf h _
      · cases h
  | .sequence tag items, path, v, h => by
    rw [readValue] at h
    obtain ⟨own, hown, h⟩ := bind_eq_ok.mp h
    obtain ⟨vs, hvs, h⟩ := bind_eq_ok.mp h
    obtain rfl := Except.ok.inj h
    refine Sound.withTag own (eq_none_of_readTag hown) (Sound.sequence ?_)
    exact sound_readItems place items path 0 vs hvs
  | .mapping tag entries, path, v, h => by
    rw [readValue] at h
    obtain ⟨own, hown, h⟩ := bind_eq_ok.mp h
    obtain ⟨es, hes, h⟩ := bind_eq_ok.mp h
    obtain rfl := Except.ok.inj h
    obtain ⟨new, rfl, hnew, hkeys⟩ := sound_readEntries place entries path [] es hes
    exact Sound.withTag own (eq_none_of_readTag hown) (Sound.mapping hnew hkeys)
  | .reference t, path, v, h => by
    rw [readValue] at h
    exact sound_readValue place t path v h
  | .fault f, path, v, h => by
    rw [readValue] at h
    cases h

theorem sound_readItems (place : ValuePlace) :
    ∀ (ts : List Tree) (path : Path) (i : Nat) (vs : List Value),
      readItems place path i ts = .ok vs →
      ∀ v ∈ vs, Sound place (Tree.depthOfItems ts) v
  | [], path, i, vs, h => by
    rw [readItems] at h
    obtain rfl := Except.ok.inj h
    exact fun _ h => absurd h List.not_mem_nil
  | t :: ts, path, i, vs, h => by
    rw [readItems] at h
    obtain ⟨v, hv, h⟩ := bind_eq_ok.mp h
    obtain ⟨ws, hws, h⟩ := bind_eq_ok.mp h
    obtain rfl := Except.ok.inj h
    intro w hw
    rcases List.mem_cons.mp hw with rfl | hw
    · exact (sound_readValue place t _ w hv).mono (Nat.le_max_left _ _)
    · exact (sound_readItems place ts path (i + 1) ws hws w hw).mono (Nat.le_max_right _ _)

/-- The entries come behind those before them, whose keys they do not
repeat. -/
theorem sound_readEntries (place : ValuePlace) :
    ∀ (ts : List (Tree × Tree)) (path : Path) (before all : List (Value × Value)),
      readEntries place path before ts = .ok all →
      ∃ new, all = before ++ new ∧
        (∀ e ∈ new, Sound place (Tree.depthOfEntries ts) e.1 ∧
          Sound place (Tree.depthOfEntries ts) e.2) ∧
        (place = .alone → Value.repeatedInEntries before.reverse new = none)
  | [], path, before, all, h => by
    rw [readEntries] at h
    obtain rfl := Except.ok.inj h
    exact ⟨[], (List.append_nil _).symm, fun _ h => absurd h List.not_mem_nil, fun _ => rfl⟩
  | (k, v) :: ts, path, before, all, h => by
    rw [readEntries] at h
    obtain ⟨key, hkey, h⟩ := bind_eq_ok.mp h
    dsimp only at h
    split at h
    · cases h
    rename_i hnew
    obtain ⟨value, hvalue, h⟩ := bind_eq_ok.mp h
    obtain ⟨new, rfl, hall, hkeys⟩ := sound_readEntries place ts path _ all h
    have hk := sound_readValue place k path key hkey
    have hv := sound_readValue place v _ value hvalue
    refine ⟨(key, value) :: new, List.append_assoc _ _ _, ?_, ?_⟩
    · intro e he
      rw [Tree.depthOfEntries]
      rcases List.mem_cons.mp he with rfl | he
      · exact ⟨hk.mono (by omega), hv.mono (by omega)⟩
      · exact ⟨(hall e he).1.mono (by omega), (hall e he).2.mono (by omega)⟩
    · intro hp
      -- the key was looked for among those before
      have hfirst : Value.hasKey key before.reverse = false := by
        have hany : Value.hasKey key before.reverse = Value.hasKey key before := List.any_reverse
        rw [hany]
        simpa [hp] using hnew
      have hrest := hkeys hp
      rw [List.reverse_append] at hrest
      rw [Value.repeatedInEntries, hk.keys hp, hfirst, if_neg (by decide), hv.keys hp]
      exact hrest

end

end PlaneAccess.Yaml
