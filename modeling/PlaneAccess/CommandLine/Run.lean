import PlaneAccess.Api.Wait
import PlaneAccess.CommandLine.Contexts
import PlaneAccess.CommandLine.Failure
import PlaneAccess.CommandLine.Help
import PlaneAccess.CommandLine.Request
import PlaneAccess.Loader

/-!
# Running commands

What the program does for a request: what it prints, how it ends, and the
file system that it leaves behind.
-/

namespace PlaneAccess.CommandLine

open PlaneAccess.Api PlaneAccess.Bundle PlaneAccess.ControlPlane

structure Outcome where
  exitCode : Nat
  output : String
  errors : String
  deriving DecidableEq, Repr

namespace Outcome

def printed (s : String) : Outcome := ⟨0, s, ""⟩

def told (s : String) : Outcome := ⟨0, "", s⟩

def failed (doing : Option String) (e : PlaneAccess.Error) : Outcome :=
  ⟨1, "", Failure.report ⟨doing, e⟩⟩

/-- The end of a wait whose deadline the clock cannot show. The place in the
program that is also printed is left out. -/
def panicked : Outcome :=
  ⟨101, "", "overflow when adding duration to instant\n"⟩

end Outcome

def programVersion : String := "0.1.0"

def shownTimeout (e : Environment) : String :=
  (e.waitTimeout.bind Settings.textOf?).getD ""

structure Workspace where
  settings : Settings
  connection : Connection
  fileSystem : FileSystem

namespace Workspace

def aggregate (w : Workspace) : Aggregate := .ofSettings w.settings

def loader (w : Workspace) : Loader :=
  ⟨w.connection.fetch, .standard, w.aggregate⟩

def await (w : Workspace) (i : Identity) : Option Ending :=
  let source := w.loader.source i
  w.connection.await ⟨source.space, source.name, w.settings.waitTimeout⟩ false

def contexts (w : Workspace) (asJson : Bool) : Outcome :=
  match w.aggregate.loadOrEmpty w.fileSystem with
  | .error e => .failed none e
  | .ok k =>
    let rows := ContextRow.all k
    .printed (if asJson then contextJson rows else contextTable rows)

/-- Prints the aggregate with the credentials of a control plane merged into
it. -/
def mergeDry (w : Workspace) (i : Identity) : Outcome :=
  match w.aggregate.loadOrEmpty w.fileSystem with
  | .error e => .failed none e
  | .ok k =>
    match w.loader.mergeInto k i with
    | .error e => .failed (some ("Loading credentials of " ++ i.text)) e
    | .ok k =>
      match k.encode with
      | none => .failed none (.persist Aggregate.cannotEncode)
      | some text => .printed text

def merge (w : Workspace) (i : Identity) : Outcome × FileSystem :=
  match w.loader.loadAndMerge w.fileSystem i with
  | (.error e, fs) =>
    (.failed (some ("Merging credentials of " ++ i.text)) e, fs)
  | (.ok k, fs) =>
    (.told ("Switched to context \"" ++ k.currentContext ++ "\" in " ++
      w.aggregate.shown ++ "\n"), fs)

/-- Waits for the credentials of a control plane and then goes on. The wait
need not end. -/
def afterWait (w : Workspace) (i : Identity)
    (next : Unit → Outcome × FileSystem) : Option (Outcome × FileSystem) :=
  (w.await i).map fun
    | .found => next ()
    | .failed e =>
      (.failed (some ("Waiting for credentials of " ++ i.text)) e,
        w.fileSystem)
    | .panicked => (.panicked, w.fileSystem)

def run (w : Workspace) : Command → Option (Outcome × FileSystem)
  | .merge i wait dryRun =>
    let merging (_ : Unit) : Outcome × FileSystem :=
      if dryRun then (w.mergeDry i, w.fileSystem) else w.merge i
    if wait then w.afterWait i merging else some (merging ())
  | .wait i =>
    w.afterWait i fun () =>
      (.told ("Credentials for " ++ i.text ++ " are available\n"),
        w.fileSystem)
  | .contexts asJson => some (w.contexts asJson, w.fileSystem)

end Workspace

def Request.run (e : Environment) (c : Connection) (fs : FileSystem) :
    Request → Option (Outcome × FileSystem)
  | .command s what => Workspace.run ⟨s, c, fs⟩ what
  | .version =>
    some (.printed (programName ++ " " ++ programVersion ++ "\n"), fs)
  | .help t atLength =>
    some (.printed (t.page atLength (shownTimeout e)), fs)
  | .misuse => some (⟨2, "", "Usage: " ++ Topic.program.usage ++ "\n"⟩, fs)

/-- What the program does for some arguments in an environment, if it
ends. -/
def run (e : Environment) (args : List String) (c : Connection)
    (fs : FileSystem) : Option (Outcome × FileSystem) :=
  (Request.ofArguments e args).run e c fs

end PlaneAccess.CommandLine
