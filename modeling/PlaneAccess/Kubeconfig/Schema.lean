import PlaneAccess.Kubeconfig.Listing

/-!
# The fields of a kubeconfig

The schemas of the records that a kubeconfig is made of. The order of the
fields is the order of writing.
-/

namespace PlaneAccess

open PlaneAccess.Yaml

def Cluster.schema : Schema Cluster where
  name := "struct Cluster"
  empty := .empty
  fields := [
    .optionalText "server" (·.server) (fun c v => { c with server := v }),
    .optionalText "certificate-authority-data" (·.authorityData)
      (fun c v => { c with authorityData := v }),
    .optionalText "certificate-authority" (·.authorityFile)
      (fun c v => { c with authorityFile := v }),
    .optionalFlag "insecure-skip-tls-verify" (·.skipVerify)
      (fun c v => { c with skipVerify := v }),
    .optionalText "tls-server-name" (·.serverName)
      (fun c v => { c with serverName := v })]
  extra := some ⟨(·.extra), fun c x => { c with extra := x }⟩

def User.schema : Schema User where
  name := "struct AuthInfo"
  empty := .empty
  fields := [
    .optionalText "client-certificate-data" (·.certificateData)
      (fun u v => { u with certificateData := v }),
    .optionalText "client-key-data" (·.keyData)
      (fun u v => { u with keyData := v }),
    .optionalText "client-certificate" (·.certificateFile)
      (fun u v => { u with certificateFile := v }),
    .optionalText "client-key" (·.keyFile)
      (fun u v => { u with keyFile := v }),
    .optionalText "token" (·.token) (fun u v => { u with token := v }),
    .optionalText "username" (·.username)
      (fun u v => { u with username := v }),
    .optionalText "password" (·.password)
      (fun u v => { u with password := v })]
  extra := some ⟨(·.extra), fun u x => { u with extra := x }⟩

/-- The fields of a context. The names of the cluster and the user are always
written. -/
def Context.schema : Schema Context where
  name := "struct Context"
  empty := .empty
  fields := [
    .text "cluster" (·.cluster) (fun c v => { c with cluster := v }),
    .text "user" (·.user) (fun c v => { c with user := v }),
    .optionalText "namespace" (·.space) (fun c v => { c with space := v })]
  extra := some ⟨(·.extra), fun c x => { c with extra := x }⟩

/-- An entry of a list of which the name may not have been read yet. -/
structure Unnamed (α : Type) where
  name : Option String
  body : Option α

namespace Named

variable {α : Type}

def schema (name key : String) (body : Schema α) : Schema (Unnamed α) where
  name
  empty := ⟨none, none⟩
  fields := [
    .text "name" (fun e => e.name.getD "") (fun e v => { e with name := v }),
    .optionalRecord key body (·.body) (fun e v => { e with body := v })]
  extra := none

/-- Reads an entry. It must have a name. -/
def read (s : Schema (Unnamed α)) (path : Path) (t : Tree) :
    Except ReadError (Named α) := do
  let e ← s.read path t
  match e.name with
  | some name => return ⟨name, e.body⟩
  | none => throw (.problem path (.missingField "name"))

def write (s : Schema (Unnamed α)) (e : Named α) : Tree :=
  s.write ⟨some e.name, e.body⟩

end Named

def Cluster.entrySchema : Schema (Unnamed Cluster) :=
  Named.schema "struct NamedCluster" "cluster" Cluster.schema

def User.entrySchema : Schema (Unnamed User) :=
  Named.schema "struct NamedAuthInfo" "user" User.schema

def Context.entrySchema : Schema (Unnamed Context) :=
  Named.schema "struct NamedContext" "context" Context.schema

def RecordField.entries {α : Type} (key : String) (s : Schema (Unnamed α))
    (get : Listing → List (Named α))
    (set : Listing → List (Named α) → Listing) : RecordField Listing :=
  .list key s.interest (Named.read s) (Named.write s) get set

/-- The field of the current context, which is always written. -/
def RecordField.currentContext : RecordField Listing where
  key := "current-context"
  interest := .everything
  read around here t l :=
    (readOptional around t (readText here)).map
      (fun v => { l with currentContext := v })
  write l := some (.ofString (l.currentContext.getD ""))

def Listing.schema : Schema Listing where
  name := "struct RawKubeconfig"
  empty := .empty
  fields := [
    .constant "apiVersion" "v1",
    .constant "kind" "Config",
    .optionalValue "preferences" (·.preferences)
      (fun l v => { l with preferences := v }),
    RecordField.entries "clusters" Cluster.entrySchema (·.clusters)
      (fun l v => { l with clusters := v }),
    RecordField.entries "users" User.entrySchema (·.users)
      (fun l v => { l with users := v }),
    RecordField.entries "contexts" Context.entrySchema (·.contexts)
      (fun l v => { l with contexts := v }),
    RecordField.currentContext,
    .optionalValue "extensions" (·.extensions)
      (fun l v => { l with extensions := v })]
  extra := none

end PlaneAccess
