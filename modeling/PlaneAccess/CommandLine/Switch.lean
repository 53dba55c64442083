import PlaneAccess.ControlPlane.Kind
import PlaneAccess.Settings

/-!
# Switches

The switches of the command line, and the arguments that give them: long
names after two dashes, letters after one. The value of a switch is the next
argument, or comes after an equals sign or directly after the letter.
-/

namespace PlaneAccess.CommandLine

open PlaneAccess.ControlPlane

/-- The seconds to wait that a text says, which must be a number as it
is. -/
def secondsOf? (s : String) : Option Nat := Settings.natural64 s.toList

inductive Switch where
  | kubeconfig
  | debug
  | kind
  | wait
  | timeout
  | dryRun
  | json
  | version
  | help
  deriving DecidableEq, Repr

namespace Switch

def name : Switch → String
  | kubeconfig => "kubeconfig"
  | debug => "debug"
  | kind => "type"
  | wait => "wait"
  | timeout => "timeout"
  | dryRun => "dry-run"
  | json => "json"
  | version => "version"
  | help => "help"

def letter? : Switch → Option Char
  | kind => some 't'
  | version => some 'V'
  | help => some 'h'
  | _ => none

/-- What stands for the value of the switch, if it has one. -/
def placeholder? : Switch → Option String
  | kubeconfig => some "KUBECONFIG"
  | kind => some "CP_TYPE"
  | timeout => some "TIMEOUT"
  | _ => none

def takesValue (o : Switch) : Bool := o.placeholder?.isSome

/-- Whether the switch can have this value. A path is never empty. -/
def allows (o : Switch) (value : String) : Bool :=
  match o with
  | kubeconfig => !value.isEmpty
  | kind => (Kind.parse? value).isSome
  | timeout => (secondsOf? value).isSome
  | _ => true

end Switch

inductive Argument where
  | long (name : String) (value : Option String)
  | short (letter : Char) (rest : List Char)
  | separator
  | word (s : String)
  deriving DecidableEq, Repr

namespace Argument

/-- The part of a long switch before an equals sign, and the part after it,
if there is one. -/
def splitValue : List Char → List Char × Option (List Char)
  | [] => ([], none)
  | c :: cs =>
    if c = '=' then ([], some cs)
    else
      let (name, value) := splitValue cs
      (c :: name, value)

/-- What a text looks like as an argument. One dash alone is a word. -/
def ofText (s : String) : Argument :=
  match s.toList with
  | ['-', '-'] => separator
  | '-' :: '-' :: cs =>
    let (name, value) := splitValue cs
    long (String.ofList name) (value.map String.ofList)
  | '-' :: c :: cs => short c cs
  | _ => word s

def valueAfter : List Char → Option String
  | [] => none
  | '=' :: cs => some (String.ofList cs)
  | cs => some (String.ofList cs)

end Argument

end PlaneAccess.CommandLine
