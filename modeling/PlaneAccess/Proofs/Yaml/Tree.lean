import PlaneAccess.Yaml.Layout
import PlaneAccess.Yaml.Stream

/-!
# From trees to text and back

`Tree.readsBack` says of one tree that the text it is written as holds that
tree again, each scalar with its form and its text. Then a reader that looks
at the whole of a tree that is not too deep gets the tree itself
(`ofContentOf_of_shows`).
-/

namespace PlaneAccess.Yaml

/-! ## Nodes that show trees -/

mutual

/-- Whether a node is a tree written out, without references. -/
def Node.shows : Node → Tree → Bool
  | .scalar tag style text, .scalar tag' form text' =>
    tag == tag' && style.form == form && text == text'
  | .sequence tag items, .sequence tag' trees => tag == tag' && Node.showItems items trees
  | .mapping tag entries, .mapping tag' trees => tag == tag' && Node.showEntries entries trees
  | _, _ => false

def Node.showItems : List Node → List Tree → Bool
  | [], [] => true
  | n :: ns, t :: ts => n.shows t && Node.showItems ns ts
  | _, _ => false

def Node.showEntries : List (Node × Node) → List (Tree × Tree) → Bool
  | [], [] => true
  | (k, v) :: ns, (k', v') :: ts => k.shows k' && v.shows v' && Node.showEntries ns ts
  | _, _ => false

end

theorem Node.shows_cases {n : Node} {t : Tree} (h : n.shows t = true) :
    (∃ tag style text, n = .scalar tag style text ∧ t = .scalar tag style.form text) ∨
      (∃ tag ns ts, n = .sequence tag ns ∧ t = .sequence tag ts ∧ Node.showItems ns ts = true) ∨
      ∃ tag ns es, n = .mapping tag ns ∧ t = .mapping tag es ∧ Node.showEntries ns es = true := by
  unfold Node.shows at h
  split at h
  · simp only [Bool.and_eq_true, beq_iff_eq] at h
    obtain ⟨⟨rfl, hform⟩, rfl⟩ := h
    exact Or.inl ⟨_, _, _, rfl, hform ▸ rfl⟩
  · rw [Bool.and_eq_true, beq_iff_eq] at h
    obtain ⟨rfl, hitems⟩ := h
    exact Or.inr (Or.inl ⟨_, _, _, rfl, rfl, hitems⟩)
  · rw [Bool.and_eq_true, beq_iff_eq] at h
    obtain ⟨rfl, hentries⟩ := h
    exact Or.inr (Or.inr ⟨_, _, _, rfl, rfl, hentries⟩)
  · cases h

/-- Whether the text of a tree holds that tree and nothing else. -/
def Tree.readsBack (t : Tree) : Bool :=
  match Stream.ofText t.render with
  | ⟨some c, .proper⟩ => c.root.shows t
  | _ => false

theorem Tree.stream_of_readsBack {t : Tree} (h : t.readsBack = true) :
    ∃ c, Stream.ofText t.render = ⟨some c, .proper⟩ ∧ c.root.shows t = true := by
  unfold readsBack at h
  split at h
  · rename_i c hc
    exact ⟨c, hc, h⟩
  · cases h

/-! ## How deep a tree is -/

namespace Tree

mutual

def depth : Tree → Nat
  | scalar _ _ _ => 0
  | sequence _ items => depthOfItems items + 1
  | mapping _ entries => depthOfEntries entries + 1
  | reference t => t.depth
  | fault _ => 0

def depthOfItems : List Tree → Nat
  | [] => 0
  | t :: ts => max t.depth (depthOfItems ts)

def depthOfEntries : List (Tree × Tree) → Nat
  | [] => 0
  | (k, v) :: es => max (max k.depth v.depth) (depthOfEntries es)

end

theorem depthOfItems_le {ts : List Tree} {d : Nat} :
    depthOfItems ts ≤ d ↔ ∀ t ∈ ts, t.depth ≤ d := by
  induction ts with
  | nil => simp [depthOfItems]
  | cons t ts ih => rw [depthOfItems, Nat.max_le, ih, List.forall_mem_cons]

theorem depthOfEntries_le {es : List (Tree × Tree)} {d : Nat} :
    depthOfEntries es ≤ d ↔ ∀ e ∈ es, e.1.depth ≤ d ∧ e.2.depth ≤ d := by
  induction es with
  | nil => simp [depthOfEntries]
  | cons e es ih =>
    obtain ⟨k, v⟩ := e
    rw [depthOfEntries, Nat.max_le, Nat.max_le, ih, List.forall_mem_cons]

end Tree

/-! ## Looking at a whole tree -/

/-- A reader with an interest looks at the whole of a tree. -/
inductive Interest.Covers : Interest → Tree → Prop where
  | everything (t : Tree) : Covers .everything t
  | items {i : Interest} {tag : Option String} {ts : List Tree} :
    (∀ t ∈ ts, Covers i t) → Covers (.items i) (.sequence tag ts)
  | fields {fs : List (String × Interest)} {tag : Option String} {es : List (Tree × Tree)} :
    (∀ e ∈ es, Covers ((Interest.fields fs).ofKey e.1.text?) e.2) →
      Covers (.fields fs) (.mapping tag es)

theorem Interest.Covers.ne_nothing {i : Interest} {t : Tree} (h : i.Covers t) : i ≠ .nothing := by
  rintro rfl
  cases h

namespace Tree

theorem bind_of_eq {α β : Type} {x : StateM Nat α} {f : α → StateM Nat β} {a : α} {s s' : Nat}
    (h : x s = (a, s')) : (x >>= f) s = f a s' := by
  show f (x s).1 (x s).2 = f a s'
  rw [h]

/-- Going through a list without following references. -/
theorem mapM_cons_of_eq {α β : Type} {read : α → StateM Nat β} {a : α} {as : List α} {b : β}
    {bs : List β} {s : Nat} (ha : read a s = (b, s)) (has : (as.mapM read) s = (bs, s)) :
    ((a :: as).mapM read) s = (b :: bs, s) := by
  rw [List.mapM_cons]
  refine (bind_of_eq ha).trans ?_
  exact bind_of_eq has

theorem mapM_items (read : Node → StateM Nat Tree) (s : Nat) :
    ∀ {ns : List Node} {ts : List Tree}, Node.showItems ns ts = true →
      (∀ n, ∀ t ∈ ts, n.shows t = true → read n s = (t, s)) → (ns.mapM read) s = (ts, s)
  | [], [], _, _ => rfl
  | n :: ns, t :: ts, h, hread => by
    rw [Node.showItems, Bool.and_eq_true] at h
    refine mapM_cons_of_eq (hread n t List.mem_cons_self h.1) ?_
    exact mapM_items read s h.2 (fun n t ht hn => hread n t (List.mem_cons_of_mem _ ht) hn)
  | [], _ :: _, h, _ => absurd h Bool.false_ne_true
  | _ :: _, [], h, _ => absurd h Bool.false_ne_true

theorem mapM_entries (read : Node × Node → StateM Nat (Tree × Tree)) (s : Nat) :
    ∀ {ns : List (Node × Node)} {es : List (Tree × Tree)}, Node.showEntries ns es = true →
      (∀ n, ∀ e ∈ es, n.1.shows e.1 = true → n.2.shows e.2 = true → read n s = (e, s)) →
      (ns.mapM read) s = (es, s)
  | [], [], _, _ => rfl
  | (k, v) :: ns, (k', v') :: es, h, hread => by
    rw [Node.showEntries, Bool.and_eq_true, Bool.and_eq_true] at h
    refine mapM_cons_of_eq (hread (k, v) (k', v') List.mem_cons_self h.1.1 h.1.2) ?_
    exact mapM_entries read s h.2 (fun n e he hk hv => hread n e (List.mem_cons_of_mem _ he) hk hv)
  | [], _ :: _, h, _ => absurd h Bool.false_ne_true
  | _ :: _, [], h, _ => absurd h Bool.false_ne_true

def ofEntry (child : Interest → Node → StateM Nat Tree) (i : Interest) (e : Node × Node) :
    StateM Nat (Tree × Tree) := do
  let key ← child .everything e.1
  let value ← child (i.ofKey key.text?) e.2
  return (key, value)

/-- Whoever looks at the whole of a tree that is not too deep gets that tree
from each node that shows it, and follows no references. -/
theorem ofNode_eq_of_shows (anchored : List (Nat × Node)) :
    ∀ (d : Nat) (i : Interest) (n : Node) (t : Tree) (s : Nat), i.Covers t → n.shows t = true →
      t.depth ≤ d → ofNode anchored d i n s = (t, s) := by
  intro d
  induction d with
  | zero =>
    intro i n t s hi hn hd
    have hne := hi.ne_nothing
    rcases n.shows_cases hn with ⟨tag, style, text, rfl, rfl⟩ | ⟨tag, ns, ts, -, rfl, -⟩ |
      ⟨tag, ns, es, -, rfl, -⟩
    · cases i with
      | nothing => exact absurd rfl hne
      | _ => rfl
    · exact absurd hd (by rw [depth]; omega)
    · exact absurd hd (by rw [depth]; omega)
  | succ d ih =>
    intro i n t s hi hn hd
    have hne := hi.ne_nothing
    rcases n.shows_cases hn with ⟨tag, style, text, rfl, rfl⟩ | ⟨tag, ns, ts, rfl, rfl, hitems⟩ |
      ⟨tag, ns, es, rfl, rfl, hentries⟩
    · cases i with
      | nothing => exact absurd rfl hne
      | _ => rfl
    · rw [depth, Nat.add_le_add_iff_right, depthOfItems_le] at hd
      have hcover : ∀ t ∈ ts, i.ofItem.Covers t := by
        cases hi with
        | everything => exact fun t _ => .everything t
        | items h => exact h
      have hread := mapM_items (ofNode anchored d i.ofItem) s hitems
        (fun n t ht hn => ih i.ofItem n t s (hcover t ht) hn (hd t ht))
      have hunfold : ofNode anchored (d + 1) i (.sequence tag ns) s =
          (do let ts ← ns.mapM (ofNode anchored d i.ofItem); pure (sequence tag ts) :
            StateM Nat Tree) s := by
        cases i with
        | nothing => exact absurd rfl hne
        | _ => rfl
      rw [hunfold]
      exact bind_of_eq hread
    · -- a key is looked at as a whole, a value as far as its key says
      rw [depth, Nat.add_le_add_iff_right, depthOfEntries_le] at hd
      have hcover : ∀ e ∈ es, (i.ofKey e.1.text?).Covers e.2 := by
        cases hi with
        | everything => exact fun e _ => .everything e.2
        | fields h => exact h
      have hread := mapM_entries (ofEntry (ofNode anchored d) i) s hentries (by
        rintro ⟨k, v⟩ ⟨k', v'⟩ he hk hv
        have hkey := ih .everything k k' s (.everything k') hk (hd _ he).1
        have hvalue := ih (i.ofKey k'.text?) v v' s (hcover _ he) hv (hd _ he).2
        refine (bind_of_eq hkey).trans ?_
        exact bind_of_eq hvalue)
      have hunfold : ofNode anchored (d + 1) i (.mapping tag ns) s =
          (do let es ← ns.mapM (ofEntry (ofNode anchored d) i); pure (mapping tag es) :
            StateM Nat Tree) s := by
        cases i with
        | nothing => exact absurd rfl hne
        | _ => rfl
      rw [hunfold]
      exact bind_of_eq hread

/-- A document that shows a tree holds that tree. -/
theorem ofContentOf_of_shows {c : Content} {i : Interest} {t : Tree} (hi : i.Covers t)
    (hc : c.root.shows t = true) (hd : t.depth ≤ depthLimit) : ofContentOf c i = t := by
  rw [ofContentOf, ofNode_eq_of_shows c.anchored depthLimit i c.root t _ hi hc hd]

end Tree

end PlaneAccess.Yaml
