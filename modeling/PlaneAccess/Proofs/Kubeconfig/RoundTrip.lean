import PlaneAccess.Proofs.Kubeconfig.Tree
import PlaneAccess.Proofs.Text.Utf8
import PlaneAccess.Proofs.Yaml.Layout

/-!
# Kubeconfigs written and read

Reading the text of a kubeconfig gives the kubeconfig
(`Kubeconfig.Faithful.decode_render`). There is no text for a mapping whose
only key is a mapping of one entry itself (`Value.hasPairKey`); what else a
kubeconfig can hold is written and comes back (`Kubeconfig.written_is_read`).
-/

namespace PlaneAccess

open PlaneAccess.Yaml

/-! ## Values that cannot be written -/

namespace Yaml.Value

def isKeyedByPair : List (Value × Value) → Bool
  | [(mapping [_], _)] => true
  | _ => false

mutual

def hasPairKey : Value → Bool
  | sequence items => anyPairKey items
  | mapping entries => isKeyedByPair entries || anyPairKeyInEntries entries
  | tagged _ v => hasPairKey v
  | _ => false

def anyPairKey : List Value → Bool
  | [] => false
  | v :: vs => hasPairKey v || anyPairKey vs

def anyPairKeyInEntries : List (Value × Value) → Bool
  | [] => false
  | (k, v) :: es => hasPairKey k || hasPairKey v || anyPairKeyInEntries es

end

theorem isKeyedBySingle_of_areUntaggedEntries {es : List (Value × Value)}
    (h : areUntaggedEntries es = true) : isKeyedBySingle es = isKeyedByPair es := by
  match es with
  | [] => rfl
  | [(k, v)] =>
    rw [areUntaggedEntries, Bool.and_eq_true, Bool.and_eq_true] at h
    cases k with
    | tagged tag k => cases h.1.1
    | mapping entries =>
      match entries with
      | [] => rfl
      | [_] => rfl
      | _ :: _ :: _ => rfl
    | _ => rfl
  | _ :: _ :: _ => simp [isKeyedBySingle, isKeyedByPair]

mutual

/-- Among the values without tags those with such a key are the ones that
cannot be written. -/
theorem isWritable_of_isUntagged :
    ∀ v : Value, v.isUntagged = true → v.isWritable false = !v.hasPairKey
  | .tagged _ _, h => absurd h Bool.false_ne_true
  | .sequence items, h => by
    rw [isUntagged] at h
    rw [isWritable, hasPairKey, areWritable_of_areUntagged items h]
  | .mapping entries, h => by
    rw [isUntagged] at h
    rw [isWritable, hasPairKey, areWritableEntries_of_areUntaggedEntries entries h,
      isKeyedBySingle_of_areUntaggedEntries h, Bool.not_or, Bool.false_or]
  | .null, _ => rfl
  | .bool _, _ => rfl
  | .int _, _ => rfl
  | .float _, _ => rfl
  | .string _, _ => rfl

theorem areWritable_of_areUntagged :
    ∀ vs : List Value, areUntagged vs = true → areWritable vs = !anyPairKey vs
  | [], _ => rfl
  | v :: vs, h => by
    rw [areUntagged, Bool.and_eq_true] at h
    rw [areWritable, anyPairKey, isWritable_of_isUntagged v h.1,
      areWritable_of_areUntagged vs h.2, Bool.not_or]

theorem areWritableEntries_of_areUntaggedEntries :
    ∀ es : List (Value × Value), areUntaggedEntries es = true →
      areWritableEntries es = !anyPairKeyInEntries es
  | [], _ => rfl
  | (k, v) :: es, h => by
    rw [areUntaggedEntries, Bool.and_eq_true, Bool.and_eq_true] at h
    rw [areWritableEntries, anyPairKeyInEntries, isWritable_of_isUntagged k h.1.1,
      isWritable_of_isUntagged v h.1.2, areWritableEntries_of_areUntaggedEntries es h.2,
      Bool.not_or, Bool.not_or]

end

end Yaml.Value

namespace Kubeconfig

/-! ## The text of a kubeconfig -/

theorem render_toTree (k : Kubeconfig) : ∃ cs, k.toTree.render = 'a' :: cs := by
  obtain ⟨es, hes⟩ : ∃ es, k.toTree =
      .mapping none ((Tree.ofString "apiVersion", Tree.ofString "v1") :: es) := ⟨_, rfl⟩
  rw [hes]
  obtain ⟨more, hmore⟩ := Tree.render_of_first_key (v := Tree.ofString "v1") es
    (k := Tree.ofString "apiVersion") (by decide +kernel)
  have hkey : (Layout.node (some 0) true .line [] (Tree.ofString "apiVersion")).reverse =
      "apiVersion".toList := by decide +kernel
  rw [hkey] at hmore
  exact ⟨_, hmore.symm⟩

theorem all_isBlankOctet_render (k : Kubeconfig) :
    ((String.ofList k.toTree.render).toUTF8.toList.all isBlankOctet) = false := by
  obtain ⟨cs, hcs⟩ := k.render_toTree
  have hmem : (97 : UInt8) ∈ (String.ofList k.toTree.render).toUTF8.toList := by
    rw [hcs]
    exact Text.mem_toUTF8 cs (by decide)
  exact List.all_eq_false.mpr ⟨97, hmem, by decide⟩

/-- The text of a kubeconfig is one document, and holds its tree. -/
theorem stream_render {k : Kubeconfig} (hdepth : k.toTree.depth ≤ Tree.depthLimit)
    (hread : k.toTree.readsBack = true) :
    ∃ c, Stream.ofBytes (String.ofList k.toTree.render).toUTF8 = ⟨some c, .proper⟩ ∧
      Tree.ofContentOf c Listing.schema.interest = k.toTree := by
  obtain ⟨c, hstream, hshows⟩ := Tree.stream_of_readsBack hread
  refine ⟨c, ?_, Tree.ofContentOf_of_shows k.covers_toTree hshows hdepth⟩
  rw [Stream.ofBytes, Text.fromUTF8?_toUTF8]
  show Stream.ofText (String.ofList k.toTree.render).toList = _
  rw [String.toList_ofList, hstream]

theorem Carried.decode_render {k : Kubeconfig} (h : k.Carried)
    (hdepth : k.toTree.depth ≤ Tree.depthLimit) (hread : k.toTree.readsBack = true) :
    decode (String.ofList k.toTree.render).toUTF8 = .ok k.withoutNulls := by
  obtain ⟨c, hbytes, htree⟩ := stream_render hdepth hread
  rw [decode, k.all_isBlankOctet_render, if_neg (by decide), hbytes, ofStream]
  simp only [htree, h.ofTree_toTree]
  rfl

theorem eq_of_encode {k : Kubeconfig} {text : String} (h : k.encode = some text) :
    text = String.ofList k.toTree.render := by
  unfold encode at h
  split at h
  · exact (Option.some.inj h).symm
  · cases h

/-- Reading the text of a kubeconfig gives the kubeconfig. -/
theorem Faithful.decode_render {k : Kubeconfig} (h : k.Faithful)
    (hdepth : k.toTree.depth ≤ Tree.depthLimit) (hread : k.toTree.readsBack = true) :
    decode (String.ofList k.toTree.render).toUTF8 = .ok k := by
  rw [h.toCarried.decode_render hdepth hread, h.nulls.withoutNulls_eq]

/-! ## What a kubeconfig keeps -/

def extras {α : Type} (get : α → NameMap Value) (m : NameMap α) : List Value :=
  m.toList.flatMap (fun e => (get e.2).toList.map Prod.snd)

def values (k : Kubeconfig) : List Value :=
  k.preferences.toList ++ k.extensions.toList ++ extras Cluster.extra k.clusters ++
    extras User.extra k.users ++ extras Context.extra k.contexts

theorem mem_extras {α : Type} {get : α → NameMap Value} {m : NameMap α} {n key : String} {a : α}
    {v : Value} (ha : m.get? n = some a) (hv : (get a).get? key = some v) : v ∈ extras get m :=
  List.mem_flatMap.mpr ⟨(n, a), NameMap.mem_toList.mpr ha,
    List.mem_map.mpr ⟨(key, v), NameMap.mem_toList.mpr hv, rfl⟩⟩

theorem isWritable_eq (k : Kubeconfig) : k.isWritable = k.values.all (·.isWritable false) := by
  have hextras : ∀ {α : Type} (get : α → NameMap Value) (m : NameMap α),
      m.toList.all (fun e => areWritable (get e.2)) =
        (extras get m).all (·.isWritable false) := by
    intro α get m
    rw [extras, List.all_flatMap]
    simp only [areWritable, List.all_map]
    rfl
  have hoption : ∀ o : Option Value,
      o.all (·.isWritable false) = o.toList.all (·.isWritable false) := by
    intro o
    cases o with
    | none => rfl
    | some v => exact (Bool.and_true _).symm
  rw [isWritable, values, List.all_append, List.all_append, List.all_append, List.all_append,
    ← hextras, ← hextras, ← hextras, ← hoption, ← hoption]

/-- Of the kubeconfigs without tags those are written in which no only key of a
mapping is a mapping of one entry. -/
theorem encode_of_isUntagged {k : Kubeconfig} (h : ∀ v ∈ k.values, v.isUntagged = true) :
    k.encode = if k.values.any Value.hasPairKey then none
      else some (String.ofList k.toTree.render) := by
  have hwritable : k.isWritable = !k.values.any Value.hasPairKey := by
    rw [isWritable_eq, List.not_any_eq_all_not, Bool.eq_iff_iff, List.all_eq_true,
      List.all_eq_true]
    refine forall_congr' fun v => forall_congr' fun hv => ?_
    rw [Value.isWritable_of_isUntagged v (h v hv)]
  rw [encode, hwritable]
  cases k.values.any Value.hasPairKey with
  | true => rfl
  | false => rfl

/-! ## Reading what was written -/

def AvoidsFields {α : Type} (s : Schema α) (m : NameMap Value) : Prop :=
  ∀ key ∈ m.keys, s.field? key = none

instance {α : Type} (s : Schema α) (m : NameMap Value) : Decidable (AvoidsFields s m) :=
  inferInstanceAs (Decidable (∀ key ∈ m.keys, s.field? key = none))

/-- A kubeconfig as it can be held, with other keys that are no fields, with
values without tags and no value that is null, and not nested too deep. No
mapping repeats a key. -/
structure Regular (k : Kubeconfig) : Prop where
  clusters : ∀ e ∈ k.clusters.toList, AvoidsFields Cluster.schema e.2.extra
  users : ∀ e ∈ k.users.toList, AvoidsFields User.schema e.2.extra
  contexts : ∀ e ∈ k.contexts.toList, AvoidsFields Context.schema e.2.extra
  untagged : ∀ v ∈ k.values, v.isUntagged = true
  preferences : k.preferences ≠ some .null
  extensions : k.extensions ≠ some .null
  depth : k.toTree.depth ≤ Tree.depthLimit
  keys : ∀ v ∈ k.values, v.repeatedKey? = none

theorem keeps_of_avoidsFields {α β : Type} {s : Schema α} {get : β → NameMap Value}
    {m : NameMap β} (havoids : ∀ e ∈ m.toList, AvoidsFields s (get e.2))
    (hvalues : ∀ v ∈ extras get m, v.isUntagged = true ∧ v.repeatedKey? = none) :
    ∀ n b, m.get? n = some b → s.Keeps (get b) := by
  intro n b hb key v hv
  have hkey : key ∈ (get b).keys :=
    List.mem_map.mpr ⟨(key, v), NameMap.mem_toList.mpr hv, rfl⟩
  exact ⟨havoids (n, b) (NameMap.mem_toList.mpr hb) key hkey, hvalues v (mem_extras hb hv)⟩

theorem Regular.faithful {k : Kubeconfig} (h : k.Regular) : k.Faithful := by
  have hvalue : ∀ v ∈ k.values, v.isUntagged = true ∧ v.repeatedKey? = none :=
    fun v hv => ⟨h.untagged v hv, h.keys v hv⟩
  simp only [values, List.mem_append, Option.mem_toList] at hvalue
  have hreadable : ∀ v : Value, v.isUntagged = true ∧ v.repeatedKey? = none →
      Readable .alone false v := by
    rintro v ⟨huntagged, hkeys⟩
    exact ⟨Value.keepsTags_of_isUntagged false v huntagged, (fun h => by cases h), fun _ => hkeys⟩
  exact {
    clusters := keeps_of_avoidsFields h.clusters
      (fun v hv => hvalue v (Or.inl (Or.inl (Or.inr hv))))
    users := keeps_of_avoidsFields h.users (fun v hv => hvalue v (Or.inl (Or.inr hv)))
    contexts := keeps_of_avoidsFields h.contexts (fun v hv => hvalue v (Or.inr hv))
    preferences := fun v hv => hreadable v (hvalue v (Or.inl (Or.inl (Or.inl (Or.inl hv)))))
    extensions := fun v hv => hreadable v (hvalue v (Or.inl (Or.inl (Or.inl (Or.inr hv)))))
    nulls := ⟨h.preferences, h.extensions⟩ }

/-- Reading what was written gives the kubeconfig, if the text of its tree
holds that tree. Only where the only key of a mapping is a mapping of one
entry there is no text. -/
theorem written_is_read {k : Kubeconfig} (h : k.Regular) (hread : k.toTree.readsBack = true) :
    ((∀ v ∈ k.values, v.hasPairKey = false) →
      ∃ text, k.encode = some text ∧ decode text.toUTF8 = .ok k) ∧
    ((∃ v ∈ k.values, v.hasPairKey = true) → k.encode = none) := by
  have hencode := encode_of_isUntagged h.untagged
  constructor
  · intro hpairs
    have hnone : k.values.any Value.hasPairKey = false :=
      List.any_eq_false.mpr fun v hv => Bool.eq_false_iff.mp (hpairs v hv)
    rw [hnone, if_neg (by decide)] at hencode
    exact ⟨String.ofList k.toTree.render, hencode, h.faithful.decode_render h.depth hread⟩
  · intro hpair
    rw [hencode, if_pos (List.any_eq_true.mpr hpair)]

def ofUser (u : User) : Kubeconfig := { empty with users := .ofList [("u", u)] }

/-- An empty token and what is nested under another key of a user. -/
theorem written_is_read_nested :
    let k := ofUser { User.empty with
      token := some ""
      extra := .ofList [("exec", .mapping [
        (.string "args", .sequence [.string "get-token", .null, .bool true]),
        (.mapping [], .int ⟨7, by decide, by decide⟩)])] }
    k.Regular ∧ k.toTree.readsBack = true ∧
      ∃ text, k.encode = some text ∧ decode text.toUTF8 = .ok k := by
  intro k
  have hregular : k.Regular := {
    clusters := by decide +kernel
    users := by decide +kernel
    contexts := by decide +kernel
    untagged := by decide +kernel
    preferences := fun h => by cases h
    extensions := fun h => by cases h
    depth := by decide +kernel
    keys := by decide +kernel }
  have hread : k.toTree.readsBack = true := by decide +kernel
  exact ⟨hregular, hread, (written_is_read hregular hread).1 (by decide +kernel)⟩

/-- A value under another key of a user that is keyed by a mapping of one
entry keeps the whole kubeconfig from being written. -/
theorem encode_pair_key :
    let k := ofUser { User.empty with
      extra := .ofList [("exec", .mapping [
        (.mapping [(.string "a", .string "b")], .string "c")])] }
    k.Regular ∧ k.toTree.readsBack = true ∧ k.encode = none := by
  intro k
  have hregular : k.Regular := {
    clusters := by decide +kernel
    users := by decide +kernel
    contexts := by decide +kernel
    untagged := by decide +kernel
    preferences := fun h => by cases h
    extensions := fun h => by cases h
    depth := by decide +kernel
    keys := by decide +kernel }
  exact ⟨hregular, by decide +kernel, by decide +kernel⟩

end Kubeconfig

end PlaneAccess
