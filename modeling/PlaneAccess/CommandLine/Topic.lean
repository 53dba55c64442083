import PlaneAccess.CommandLine.Switch

/-!
# Topics

What there is help on: the whole program, its commands, and help itself. Each
topic has its own switches.
-/

namespace PlaneAccess.CommandLine

inductive CommandName where
  | merge
  | wait
  | contexts
  deriving DecidableEq, Repr

namespace CommandName

def all : List CommandName := [merge, wait, contexts]

def word : CommandName → String
  | merge => "merge"
  | wait => "wait"
  | contexts => "contexts"

def ofText? (s : String) : Option CommandName :=
  all.find? (fun n => n.word == s)

/-- How many words come after the name of a command. -/
def words : CommandName → Nat
  | merge | wait => 1
  | contexts => 0

end CommandName

def helpCommand : String := "help"

inductive Topic where
  | program
  | command (n : CommandName)
  | help
  deriving DecidableEq, Repr

namespace Topic

/-- The switches of a topic, in the order of the help. Those of the program
come before the name of a command. -/
def switches : Topic → List Switch
  | program => [.kubeconfig, .debug, .help, .version]
  | command .merge =>
    [.kubeconfig, .kind, .debug, .wait, .timeout, .dryRun, .help]
  | command .wait => [.kubeconfig, .kind, .debug, .timeout, .help]
  | command .contexts => [.json, .kubeconfig, .debug, .help]
  | help => []

def ofWords? : List String → Option Topic
  | [] => some program
  | [s] =>
    if s = helpCommand then some help
    else (CommandName.ofText? s).map command
  | _ => none

end Topic

end PlaneAccess.CommandLine
