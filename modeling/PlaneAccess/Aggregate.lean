import PlaneAccess.Error
import PlaneAccess.FileSystem.Change
import PlaneAccess.Settings

/-!
# The aggregate

One kubeconfig on disk collects the credentials of all control planes. It is
read and written as a whole.
-/

namespace PlaneAccess

/-- The kubeconfig at a path, which need not be text. -/
structure Aggregate where
  path : List UInt8
  deriving DecidableEq, Repr

namespace Aggregate

def ofSettings (s : Settings) : Aggregate := ⟨s.aggregatePath⟩

def ofText (path : String) : Aggregate := ⟨Settings.octets path⟩

def shown (a : Aggregate) : String :=
  (Settings.textOf? a.path).getD (Text.lossy a.path)

/-- The name in a directory that some octets are. One that is no text starts
with a zero, as no other name does. -/
def nameOf (os : List UInt8) : String :=
  (Settings.textOf? os).getD
    (String.ofList (Char.ofNat 0 :: os.map (fun o => Char.ofNat o.toNat)))

def location (a : Aggregate) : FileSystem.Path :=
  .ofPieces ((Text.splitAt 0x2f a.path).map nameOf)

def load (a : Aggregate) (fs : FileSystem) : Except Error Kubeconfig :=
  match fs.read a.location with
  | .error .missing => .error (.notFound ("kubeconfig " ++ a.shown))
  | .error e =>
    .error (.io ("failed to read " ++ a.shown ++ ": " ++ e.message))
  | .ok bytes => (Kubeconfig.decode bytes).mapError .decode

def loadOrEmpty (a : Aggregate) (fs : FileSystem) :
    Except Error Kubeconfig :=
  match a.load fs with
  | .error (.notFound _) => .ok .empty
  | r => r

def cannotEncode : String :=
  "failed to encode kubeconfig: serializing nested enums in YAML is not " ++
    "supported yet"

def persist (a : Aggregate) (fs : FileSystem) (k : Kubeconfig) :
    Except Error Unit × FileSystem :=
  match k.encode with
  | none => (.error (.persist cannotEncode), fs)
  | some text =>
    match fs.writeFile a.location text.toUTF8 with
    | (.error e, fs) =>
      (.error (.persist (a.shown ++ ": " ++ e.message)), fs)
    | (.ok (), fs) => (.ok (), fs)

end Aggregate

end PlaneAccess
