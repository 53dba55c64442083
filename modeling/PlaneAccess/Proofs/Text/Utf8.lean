
/-!
# Octets of a text

A text comes back from its octets (`fromUTF8?_toUTF8`), and its first
character is among them (`mem_toUTF8`).
-/

namespace PlaneAccess.Text

theorem mem_toList_loop {bs : ByteArray} {b : UInt8} (i : Nat) (r : List UInt8) (h : b ∈ r) :
    b ∈ ByteArray.toList.loop bs i r := by
  fun_induction ByteArray.toList.loop bs i r with
  | case1 i r _ ih => exact ih (List.mem_cons_of_mem _ h)
  | case2 i r _ => exact List.mem_reverse.mpr h

theorem get!_zero_mem_toList {bs : ByteArray} (h : 0 < bs.size) : bs.get! 0 ∈ bs.toList := by
  rw [ByteArray.toList, ByteArray.toList.loop, if_pos h]
  exact mem_toList_loop _ _ List.mem_cons_self

theorem toUTF8_ofList_cons (c : Char) (cs : List Char) :
    (String.ofList (c :: cs)).toUTF8 = (String.utf8EncodeChar c).toByteArray ++ cs.utf8Encode := by
  rw [String.toUTF8_eq_toByteArray, String.toByteArray_ofList, List.utf8Encode_cons,
    List.utf8Encode_singleton]

theorem mem_toUTF8 {c : Char} (cs : List Char) {b : UInt8} (h : String.utf8EncodeChar c = [b]) :
    b ∈ (String.ofList (c :: cs)).toUTF8.toList := by
  have hsize : 0 < ([b].toByteArray ++ cs.utf8Encode).size := by
    rw [ByteArray.size_append, List.size_toByteArray, List.length_singleton]
    omega
  have hfirst : ([b].toByteArray ++ cs.utf8Encode).get! 0 = b := rfl
  have hmem := get!_zero_mem_toList hsize
  rwa [hfirst, ← h, ← toUTF8_ofList_cons] at hmem

theorem toList_loop (bs : ByteArray) (i : Nat) (r : List UInt8) :
    ByteArray.toList.loop bs i r = r.reverse ++ bs.data.toList.drop i := by
  fun_induction ByteArray.toList.loop bs i r with
  | case1 i r hlt ih =>
    have hget : bs.get! i = bs.data.toList[i] := getElem!_pos bs.data i hlt
    rw [ih, List.reverse_cons, List.append_assoc, List.singleton_append, hget,
      List.getElem_cons_drop]
  | case2 i r hle =>
    rw [List.drop_eq_nil_of_le (Nat.le_of_not_lt hle), List.append_nil]

theorem mk_toList (bs : ByteArray) : ByteArray.mk bs.toList.toArray = bs := by
  rw [ByteArray.toList, toList_loop]
  rfl

theorem fromUTF8?_toUTF8 (s : String) : String.fromUTF8? s.toUTF8 = some s := by
  rw [String.fromUTF8?, dif_pos (by exact s.isValidUTF8)]
  rfl

end PlaneAccess.Text
