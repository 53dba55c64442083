import PlaneAccess.Aggregate
import PlaneAccess.Bundle.Source
import PlaneAccess.Bundle.Store
import PlaneAccess.Kubeconfig.Merge
import PlaneAccess.Kubeconfig.Remap

/-!
# Loading credentials

The credentials of a control plane are fetched from its bundle, given names
of their own, and merged into the aggregate. The aggregate is written last,
so whatever fails before leaves it as it was.
-/

namespace PlaneAccess

open PlaneAccess.Bundle PlaneAccess.ControlPlane

abbrev Fetch := String → String → Except Error Payloads

/-- How credentials are loaded: where bundles come from, the naming scheme,
and the kubeconfig to merge into. -/
structure Loader where
  fetch : Fetch
  naming : Naming
  aggregate : Aggregate

namespace Loader

def source (l : Loader) (i : Identity) : Source := .of i l.naming

def fetchDocument (l : Loader) (i : Identity) : Except Error Kubeconfig := do
  let s := l.source i
  let payloads ← l.fetch s.space s.name
  match payloads.get? s.key with
  | none => throw (.keyMissing s.text s.key)
  | some bytes => (Kubeconfig.decode bytes).mapError .decode

def remappedDocument (l : Loader) (i : Identity) :
    Except Error Kubeconfig := do
  return (← l.fetchDocument i).remap i l.naming

def mergedDocument (l : Loader) (fs : FileSystem) (i : Identity) :
    Except Error Kubeconfig := do
  let k ← l.remappedDocument i
  return (← l.aggregate.loadOrEmpty fs).merge k

def loadAndMerge (l : Loader) (fs : FileSystem) (i : Identity) :
    Except Error Kubeconfig × FileSystem :=
  match l.mergedDocument fs i with
  | .error e => (.error e, fs)
  | .ok k =>
    match l.aggregate.persist fs k with
    | (.error e, fs) => (.error e, fs)
    | (.ok (), fs) => (.ok k, fs)

/-- The name and the word for the kind are looked at before anything else. -/
def loadAndMergeByName (l : Loader) (fs : FileSystem) (name kind : String) :
    Except Error Kubeconfig × FileSystem :=
  match Identity.parse name kind with
  | .error e => (.error (.identity e), fs)
  | .ok i => l.loadAndMerge fs i

def mergeInto (l : Loader) (k : Kubeconfig) (i : Identity) :
    Except Error Kubeconfig := do
  return k.merge (← l.remappedDocument i)

/-- What the calls of a loader work on: the files, and a kubeconfig that the
caller holds. -/
structure World where
  files : FileSystem
  held : Kubeconfig

/-- What a loader can be called for: to merge the credentials of a control
plane into the aggregate or into the kubeconfig that is held, or to write a
kubeconfig to the aggregate. -/
inductive Call where
  | merge (i : Identity)
  | mergeByName (name kind : String)
  | mergeHeld (i : Identity)
  | persist (k : Kubeconfig)

/-- The kubeconfig that a call gives, and what is there after it. -/
def call (l : Loader) (w : World) : Call → Except Error Kubeconfig × World
  | .merge i =>
    let (r, fs) := l.loadAndMerge w.files i
    (r, { w with files := fs })
  | .mergeByName name kind =>
    let (r, fs) := l.loadAndMergeByName w.files name kind
    (r, { w with files := fs })
  | .mergeHeld i =>
    match l.mergeInto w.held i with
    | .error e => (.error e, w)
    | .ok k => (.ok k, { w with held := k })
  | .persist k =>
    let (r, fs) := l.aggregate.persist w.files k
    (r.map (fun _ => k), { w with files := fs })

end Loader

end PlaneAccess
