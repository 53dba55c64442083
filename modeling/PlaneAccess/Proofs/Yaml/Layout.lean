import PlaneAccess.Yaml.Layout

/-!
# The text of a tree

Laying out a node only adds to the text so far (`Layout.suffix_node`), so
the text of a mapping begins with its first key (`Tree.render_of_first_key`).
-/

namespace PlaneAccess.Yaml

namespace Layout

/-! ## What is added to the text so far -/

theorem suffix_append (out more : List Char) : out <:+ append out more :=
  List.suffix_append more.reverse out

theorem suffix_word (out : List Char) (start : Start) (w : List Char) :
    out <:+ word out start w := by
  unfold word
  split
  · exact suffix_append out w
  · exact (List.suffix_cons ' ' out).trans (suffix_append _ w)

theorem suffix_newLine (out : List Char) : out <:+ newLine out := by
  cases out with
  | nil => exact List.suffix_rfl
  | cons c out =>
    rw [newLine]
    split
    · exact List.suffix_rfl
    · exact List.suffix_cons '\n' (c :: out)

theorem suffix_nextLine (out : List Char) (indent : Nat) : out <:+ nextLine out indent :=
  (suffix_newLine out).trans (suffix_append _ _)

theorem suffix_firstLine (out : List Char) (start : Start) (indent : Nat) :
    out <:+ firstLine out start indent := by
  cases start with
  | line => exact List.suffix_rfl
  | mark => exact List.suffix_cons ' ' out
  | word => exact suffix_nextLine out indent

theorem suffix_tagged (t : Option String) (start : Start) (out : List Char) :
    out <:+ (node.tagged t start out).1 := by
  cases t with
  | none => exact List.suffix_rfl
  | some t => exact suffix_word out start (tag t)

mutual

theorem suffix_node (indent : Option Nat) (underKey : Bool) (start : Start) (out : List Char) :
    ∀ t : Tree, out <:+ node indent underKey start out t
  | .scalar t form text => by
    rw [node]
    exact (suffix_tagged t start out).trans (suffix_word _ _ _)
  | .sequence t [] => by
    rw [node]
    exact (suffix_tagged t start out).trans (suffix_word _ _ _)
  | .sequence t (i :: is) => by
    rw [node]
    exact (suffix_tagged t start out).trans
      ((suffix_firstLine _ _ _).trans (suffix_items _ _ (i :: is)))
  | .mapping t [] => by
    rw [node]
    exact (suffix_tagged t start out).trans (suffix_word _ _ _)
  | .mapping t (e :: es) => by
    rw [node]
    exact (suffix_tagged t start out).trans
      ((suffix_firstLine _ _ _).trans (suffix_entries _ _ (e :: es)))
  | .reference t => by
    rw [node]
    exact suffix_node indent underKey start out t
  | .fault _ => ⟨[], by rw [node, List.nil_append]⟩

theorem suffix_items (indent : Nat) (out : List Char) :
    ∀ ts : List Tree, out <:+ items indent out ts
  | [] => ⟨[], by rw [items, List.nil_append]⟩
  | [t] => by
    rw [items]
    exact (List.suffix_cons '-' out).trans (suffix_node _ _ _ _ t)
  | t :: u :: ts => by
    rw [items]
    exact (List.suffix_cons '-' out).trans ((suffix_node _ _ _ _ t).trans
      ((suffix_nextLine _ _).trans (suffix_items _ _ (u :: ts))))
    exact fun h => by cases h

theorem suffix_entries (indent : Nat) (out : List Char) :
    ∀ es : List (Tree × Tree), out <:+ entries indent out es
  | [] => ⟨[], by rw [entries, List.nil_append]⟩
  | (k, v) :: es => by
    have hsimple : out <:+ node (some indent) true .word
        (':' :: node (some indent) true .line out k) v :=
      (suffix_node _ _ _ _ k).trans ((List.suffix_cons ':' _).trans (suffix_node _ _ _ _ v))
    have hother : out <:+ node (some indent) true .mark
        (':' :: nextLine (node (some indent) true .mark ('?' :: out) k) indent) v :=
      (List.suffix_cons '?' out).trans ((suffix_node _ _ _ _ k).trans
        ((suffix_nextLine _ _).trans ((List.suffix_cons ':' _).trans (suffix_node _ _ _ _ v))))
    have hentry : out <:+ (if isSimpleKey k then
        node (some indent) true .word (':' :: node (some indent) true .line out k) v
      else
        node (some indent) true .mark
          (':' :: nextLine (node (some indent) true .mark ('?' :: out) k) indent) v) := by
      split
      · exact hsimple
      · exact hother
    rw [entries]
    dsimp only
    split
    · exact hentry
    · exact hentry.trans ((suffix_nextLine _ _).trans (suffix_entries _ _ es))

end

end Layout

/-- The text of a mapping begins with its first key, if that stands in front
of its colon. -/
theorem Tree.render_of_first_key {k v : Tree} (es : List (Tree × Tree))
    (hk : Layout.isSimpleKey k = true) :
    (Layout.node (some 0) true .line [] k).reverse <+:
      (Tree.mapping none ((k, v) :: es)).render := by
  have hkey : Layout.node (some 0) true .line [] k <:+
      Layout.entries 0 [] ((k, v) :: es) := by
    rw [Layout.entries, if_pos hk]
    have hentry : Layout.node (some 0) true .line [] k <:+ Layout.node (some 0) true .word
        (':' :: Layout.node (some 0) true .line [] k) v :=
      (List.suffix_cons ':' _).trans (Layout.suffix_node _ _ _ _ v)
    dsimp only
    split
    · exact hentry
    · exact hentry.trans ((Layout.suffix_nextLine _ _).trans (Layout.suffix_entries _ _ es))
  have hnode : Layout.node none false .line [] (.mapping none ((k, v) :: es)) =
      Layout.entries 0 [] ((k, v) :: es) := by
    rw [Layout.node]
    rfl
  rw [Tree.render, hnode, List.reverse_prefix]
  exact hkey.trans (Layout.suffix_newLine _)

end PlaneAccess.Yaml
