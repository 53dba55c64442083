import PlaneAccess.CommandLine.Run
import PlaneAccess.FileSystem.Edit

/-!
# The program

Reads the environment and the kubeconfig and runs one command. No server can
be reached, so nothing is ever written.
-/

namespace PlaneAccess

open PlaneAccess.CommandLine

def octetsOf (name : String) : IO (Option (List UInt8)) := do
  return (← IO.getEnv name).map Settings.octets

/-- The file system with nothing but what is at the path of an aggregate. -/
def readAt (a : Aggregate) : IO FileSystem := do
  let p := a.location
  try
    let content ← IO.FS.readBinFile a.shown
    return (FileSystem.empty.overwrite p content).toOption.getD .empty
  catch
    | .inappropriateType .. => return (FileSystem.empty.makeDirectories p).2
    | _ => return .empty

/-- The file system that matters for a request. -/
def fileSystemFor : Request → IO FileSystem
  | .command s _ => readAt (.ofSettings s)
  | _ => return .empty

end PlaneAccess

open PlaneAccess in
def main (args : List String) : IO UInt32 := do
  let e : Environment := ⟨← octetsOf "HOME", ← octetsOf "KUBECONFIG",
    ← octetsOf "KFLEX_WAIT_TIMEOUT_SECS"⟩
  let fs ← fileSystemFor (.ofArguments e args)
  match CommandLine.run e args .unreachable fs with
  | none => return 1
  | some (outcome, _) =>
    IO.print outcome.output
    IO.eprint outcome.errors
    return outcome.exitCode.toUInt32
