import PlaneAccess.Api.Server
import PlaneAccess.Loader
import PlaneAccess.NameMap.Lemmas

/-!
# Bundles from either store

A loader does the same with the bundles of a store as with the secrets of a
server that hold them in base 64 (`Loader.sameFor_of_serves`). They are told
apart only by what they call a bundle that is not there.
-/

namespace PlaneAccess

open PlaneAccess.Bundle PlaneAccess.ControlPlane

/-! ## Bundles as secrets -/

namespace Api

def Base64.text (bs : ByteArray) : String := String.ofList (encode bs.data.toList)

namespace Secret

def ofBundle (name : String) (p : Payloads) : Secret := ⟨some name, p.map Base64.text⟩

theorem decodeEntries_text (es : List (String × ByteArray)) :
    decodeEntries (es.map (fun e => (e.1, Base64.text e.2))) = some es := by
  induction es with
  | nil => rfl
  | cons e es ih =>
    obtain ⟨k, bs⟩ := e
    rw [List.map_cons, decodeEntries, Base64.text, String.toList_ofList, Base64.decode_encode, ih]

theorem payloads_of_data {t : Secret} {p : Payloads} (h : t.data = p.map Base64.text) :
    t.payloads = some p := by
  have hentries : t.data.toList = p.toList.map (fun e => (e.1, Base64.text e.2)) := by
    rw [h]
    rfl
  rw [payloads, hentries, decodeEntries_text, Option.map_some, NameMap.ofList_toList]

end Secret

/-- A server answers for each bundle of a store with a secret whose data are
the payloads in base 64, and says of every other one that it is not there. -/
structure Connection.Serves (c : Connection) (s : Store) : Prop where
  present : ∀ space name p, (s.bundles space).get? name = some p →
    ∃ t, c.get space name = .ok (some t) ∧ t.data = p.map Base64.text
  absent : ∀ space name, (s.bundles space).get? name = none → c.get space name = .ok none

theorem Connection.Serves.fetch {c : Connection} {s : Store} (h : c.Serves s)
    (space name : String) :
    c.fetch space name =
      match (s.bundles space).get? name with
      | some p => .ok p
      | none => .error (.notFound ("secret " ++ space ++ "/" ++ name)) := by
  rw [Connection.fetch]
  cases hb : (s.bundles space).get? name with
  | some p =>
    obtain ⟨t, hget, hdata⟩ := h.present space name p hb
    simp only [hget, Secret.payloads_of_data hdata]
  | none => simp only [h.absent space name hb]

/-- The server whose secrets are the bundles of a store. -/
def Server.ofStore (s : Store) : Server :=
  ⟨s.spaces.map fun m => { Space.empty with secrets := m.toList.map fun e => .ofBundle e.1 e.2 }⟩

theorem find?_ofBundle (name : String) (es : List (String × Payloads)) :
    (es.map fun e => Secret.ofBundle e.1 e.2).find? (fun t => t.name == some name) =
      (NameMap.lookup name es).map (Secret.ofBundle name) := by
  induction es with
  | nil => rfl
  | cons e es ih =>
    obtain ⟨k, p⟩ := e
    rw [List.map_cons, NameMap.lookup]
    by_cases hk : k = name
    · subst hk
      rw [if_pos rfl, List.find?_cons_of_pos (by simp [Secret.ofBundle])]
      rfl
    · rw [if_neg hk, List.find?_cons_of_neg (by simp [Secret.ofBundle, hk]), ih]

theorem get_ofStore (s : Store) (space name : String) :
    (Connection.server (.ofStore s)).get space name =
      .ok (((s.bundles space).get? name).map (Secret.ofBundle name)) := by
  rw [Connection.get, Server.space, Server.ofStore, NameMap.get?_map, Store.bundles]
  cases s.spaces.get? space with
  | none => rfl
  | some m => exact congrArg Except.ok (find?_ofBundle name m.toList)

/-- Each store has a server that holds its bundles. -/
theorem serves_ofStore (s : Store) : (Connection.server (.ofStore s)).Serves s where
  present space name p hp := ⟨.ofBundle name p, by rw [get_ofStore, hp]; rfl, rfl⟩
  absent space name hnone := by rw [get_ofStore, hnone]; rfl

end Api

namespace Loader

/-! ## Loaders that fetch alike -/

/-- Two loaders do the same for a control plane: they give the same kubeconfigs
or the same errors, and leave the same behind. -/
structure SameFor (l r : Loader) (i : Identity) : Prop where
  fetched : r.fetchDocument i = l.fetchDocument i
  remapped : r.remappedDocument i = l.remappedDocument i
  merged : ∀ w, r.call w (.merge i) = l.call w (.merge i)
  held : ∀ w, r.call w (.mergeHeld i) = l.call w (.mergeHeld i)

/-- Whatever a loader does for a control plane fails with one error and leaves
all as it was. -/
structure FailsFor (l : Loader) (i : Identity) (e : Error) : Prop where
  fetched : l.fetchDocument i = .error e
  remapped : l.remappedDocument i = .error e
  merged : ∀ w, l.call w (.merge i) = (.error e, w)
  held : ∀ w, l.call w (.mergeHeld i) = (.error e, w)

variable {fetch fetch' : Fetch} {n : Naming} {a : Aggregate} {i : Identity} {e : Error}

theorem sameFor_of_fetch (h : fetch' (Source.of i n).space (Source.of i n).name =
      fetch (Source.of i n).space (Source.of i n).name) :
    SameFor ⟨fetch, n, a⟩ ⟨fetch', n, a⟩ i := by
  have hfetched : fetchDocument ⟨fetch', n, a⟩ i = fetchDocument ⟨fetch, n, a⟩ i := by
    rw [fetchDocument, fetchDocument]
    simp only [source, h]
  have hremapped : remappedDocument ⟨fetch', n, a⟩ i = remappedDocument ⟨fetch, n, a⟩ i := by
    rw [remappedDocument, remappedDocument, hfetched]
  refine ⟨hfetched, hremapped, fun w => ?_, fun w => ?_⟩
  · simp only [call, loadAndMerge, mergedDocument, hremapped]
  · simp only [call, mergeInto, hremapped]

theorem failsFor_of_fetch
    (h : fetch (Source.of i n).space (Source.of i n).name = .error e) :
    FailsFor ⟨fetch, n, a⟩ i e := by
  have hfetched : fetchDocument ⟨fetch, n, a⟩ i = .error e := by
    rw [fetchDocument]
    simp only [source, h]
    rfl
  have hremapped : remappedDocument ⟨fetch, n, a⟩ i = .error e := by
    rw [remappedDocument, hfetched]
    rfl
  have hmerged : ∀ fs, mergedDocument ⟨fetch, n, a⟩ fs i = .error e := by
    intro fs
    rw [mergedDocument, hremapped]
    rfl
  have hheld : ∀ k, mergeInto ⟨fetch, n, a⟩ k i = .error e := by
    intro k
    rw [mergeInto, hremapped]
    rfl
  refine ⟨hfetched, hremapped, fun w => ?_, fun w => ?_⟩
  · simp only [call, loadAndMerge, hmerged]
  · simp only [call, hheld]

/-! ## Either store -/

/-- A loader does the same with the bundles of a store as with a server that
holds them, whatever the naming scheme and the aggregate are. With a bundle
that is not there both fail, and only what they call it is not the same. -/
theorem sameFor_of_serves {s : Store} {c : Api.Connection} (h : c.Serves s) (n : Naming)
    (a : Aggregate) (i : Identity) :
    (s.contains (Source.of i n).space (Source.of i n).name = true →
      SameFor ⟨s.fetch, n, a⟩ ⟨c.fetch, n, a⟩ i) ∧
    (s.contains (Source.of i n).space (Source.of i n).name = false →
      FailsFor ⟨s.fetch, n, a⟩ i (.notFound ("bundle " ++ (Source.of i n).text)) ∧
      FailsFor ⟨c.fetch, n, a⟩ i (.notFound ("secret " ++ (Source.of i n).text))) := by
  generalize hsource : Source.of i n = b
  have hserved := h.fetch b.space b.name
  rw [Store.contains, NameMap.contains]
  cases hb : (s.bundles b.space).get? b.name with
  | some p =>
    rw [hb] at hserved
    refine ⟨fun _ => sameFor_of_fetch ?_, fun hnone => absurd hnone (by simp)⟩
    rw [hsource, hserved, Store.fetch, hb]
  | none =>
    rw [hb] at hserved
    refine ⟨fun hsome => absurd hsome (by simp), fun _ =>
      ⟨failsFor_of_fetch ?_, failsFor_of_fetch ?_⟩⟩
    · simp only [hsource, Store.fetch, hb, Source.text, String.append_assoc]
    · simp only [hsource, hserved, Source.text, String.append_assoc]

/-- A bundle whose payload is no text fails to be read in the same way from
either store, and another control plane has no bundle in either of them. -/
theorem sameFor_of_serves_octets :
    let s := Store.empty.insert "prod-system" "admin-kubeconfig"
      (.ofList [("kubeconfig", ⟨#[0xff, 0xfe, 0x00]⟩)])
    let l : Loader := ⟨s.fetch, .standard, .ofText "/config"⟩
    let r : Loader := ⟨(Api.Connection.server (.ofStore s)).fetch, .standard, .ofText "/config"⟩
    SameFor l r ⟨⟨"prod", by decide +kernel⟩, .k8s⟩ ∧
      FailsFor r ⟨⟨"prod", by decide +kernel⟩, .vcluster⟩
        (.notFound "secret prod-system/vc-vcluster") := by
  intro s l r
  have hserves := Api.serves_ofStore s
  constructor
  · exact (sameFor_of_serves hserves .standard _ ⟨⟨"prod", by decide +kernel⟩, .k8s⟩).1
      (by decide +kernel)
  · exact ((sameFor_of_serves hserves .standard _ ⟨⟨"prod", by decide +kernel⟩, .vcluster⟩).2
      (by decide +kernel)).2

end Loader

end PlaneAccess
