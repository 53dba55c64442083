import PlaneAccess.Kubeconfig.Schema
import PlaneAccess.Yaml.Layout
import PlaneAccess.Yaml.Stream

/-!
# Kubeconfig files

Reading a kubeconfig from the content of a file and writing it as text. A
file of nothing but white space is a kubeconfig without entries.
-/

namespace PlaneAccess

open PlaneAccess.Yaml

inductive DecodeError where
  | malformed
  | moreDocuments
  | unreadable (e : ReadError)
  | repeatedName (e : RepeatedName)

namespace DecodeError

def message : DecodeError → String
  | malformed => "malformed document"
  | moreDocuments =>
    "deserializing from YAML containing more than one document is not supported"
  | unreadable e => e.message
  | repeatedName e =>
    "duplicate " ++ e.list.word ++ " entry " ++ Text.quoted e.name

end DecodeError

namespace Kubeconfig

def isBlankOctet (b : UInt8) : Bool :=
  b == 0x20 || b == 0x9 || b == 0xa || b == 0xc || b == 0xd

def ofTree (t : Tree) : Except DecodeError Kubeconfig :=
  match Listing.schema.read [] t with
  | .error e => .error (.unreadable e)
  | .ok l =>
    match l.toKubeconfig with
    | .error e => .error (.repeatedName e)
    | .ok k => .ok k

def toTree (k : Kubeconfig) : Tree :=
  Listing.schema.write (Listing.ofKubeconfig k)

/-- The kubeconfig in the first document of a text, if there is no more in
it. A text without a document has no entries. Errors within the document
come before those after it. -/
def ofStream (s : Stream) : Except DecodeError Kubeconfig := do
  let k ← match s.content with
    | none => pure empty
    | some c => ofTree (Tree.ofContentOf c Listing.schema.interest)
  match s.ending with
  | .proper => return k
  | .broken => throw .malformed
  | .moreDocuments => throw .moreDocuments

def decode (bytes : ByteArray) : Except DecodeError Kubeconfig :=
  if bytes.toList.all isBlankOctet then .ok empty
  else ofStream (Stream.ofBytes bytes)

def areWritable (m : NameMap Value) : Bool :=
  m.toList.all (fun e => e.2.isWritable false)

def isWritable (k : Kubeconfig) : Bool :=
  k.preferences.all (·.isWritable false) &&
    k.extensions.all (·.isWritable false) &&
    k.clusters.toList.all (fun e => areWritable e.2.extra) &&
    k.users.toList.all (fun e => areWritable e.2.extra) &&
    k.contexts.toList.all (fun e => areWritable e.2.extra)

/-- The text of a kubeconfig, if it can be written. -/
def encode (k : Kubeconfig) : Option String :=
  if k.isWritable then some (String.ofList k.toTree.render) else none

end Kubeconfig

end PlaneAccess
