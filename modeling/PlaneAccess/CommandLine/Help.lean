import PlaneAccess.CommandLine.Topic

/-!
# Help

The pages of help. A page names the commands, words and switches of a topic
and what they are for: in short, with one line for each, or at length.
-/

namespace PlaneAccess.CommandLine

open PlaneAccess.ControlPlane

def programName : String := "kflex-ctx"

/-- Something that is explained: how it is given, what it is for, that at
length if there is more to say, and what else to know. -/
structure Entry where
  label : String
  purpose : String
  details : Option String
  remark : Option String
  deriving DecidableEq, Repr

namespace Entry

def plain (label purpose : String) : Entry := ⟨label, purpose, none, none⟩

/-- An entry as one line, with the label filled up to a width. -/
def line (width : Nat) (e : Entry) : String :=
  let pad := String.ofList (List.replicate (width - e.label.length) ' ')
  "  " ++ e.label ++ pad ++ "  " ++
    " ".intercalate (e.purpose :: e.remark.toList) ++ "\n"

def lines (es : List Entry) : String :=
  String.join (es.map (line ((es.map (·.label.length)).foldl max 0)))

def paragraphs (e : Entry) : String :=
  let text := "\n\n".intercalate (e.details.getD e.purpose :: e.remark.toList)
  "  " ++ e.label ++ "\n          " ++
    "\n          ".intercalate (text.splitOn "\n") ++ "\n"

def allParagraphs (es : List Entry) : String :=
  "\n".intercalate (es.map paragraphs)

end Entry

namespace CommandName

def purpose : CommandName → String
  | merge => "Merge a control plane's kubeconfig and switch to its context"
  | wait => "Wait for a control plane's credential bundle to be published"
  | contexts => "List the contexts of the aggregate kubeconfig"

end CommandName

namespace Switch

def purpose (t : Topic) (atLength : Bool) : Switch → String
  | kubeconfig => "Aggregate kubeconfig to read and write"
  | debug => "Enable debug logging"
  | kind => "Control plane type (k8s, ocm, vcluster, host, external)"
  | wait => "Wait for the credential bundle to be published first"
  | timeout =>
    (if t = .command .merge then "Give up waiting" else "Give up") ++
      " after this many seconds (0 waits forever)"
  | dryRun => "Print the merged kubeconfig instead of writing it"
  | json => "Print JSON instead of a table"
  | version => "Print version"
  | help =>
    if atLength then "Print help (see a summary with '-h')"
    else "Print help (see more with '--help')"

def details? : Switch → Option String
  | kubeconfig =>
    some ("Aggregate kubeconfig to read and write.\n\nDefaults to the " ++
      "first entry of \x60KUBECONFIG\x60, then \x60$HOME/.kube/config\x60.")
  | _ => none

/-- What is taken if a switch is not given, with the time-out that the
environment says. -/
def remark? (timeoutText : String) : Switch → Option String
  | kind => some ("[default: " ++ Kind.k8s.word ++ "]")
  | timeout => some ("[env: KFLEX_WAIT_TIMEOUT_SECS=" ++ timeoutText ++ "]")
  | _ => none

def label (o : Switch) : String :=
  let letter := match o.letter? with
    | some c => String.ofList ['-', c, ',', ' ']
    | none => "    "
  letter ++ "--" ++ o.name ++
    (o.placeholder?.elim "" fun s => " <" ++ s ++ ">")

def entry (t : Topic) (atLength : Bool) (timeoutText : String) (o : Switch) :
    Entry :=
  ⟨o.label, o.purpose t atLength, o.details?, o.remark? timeoutText⟩

end Switch

namespace Topic

def purpose : Topic → String
  | program => "Merge kflex control-plane credentials into the local kubeconfig"
  | command n => n.purpose
  | help => "Print this message or the help of the given subcommand(s)"

def usage : Topic → String
  | program => programName ++ " [OPTIONS] <COMMAND>"
  | command n =>
    programName ++ " " ++ n.word ++ " [OPTIONS]" ++
      (if n.words = 0 then "" else " <NAME>")
  | help => programName ++ " " ++ helpCommand ++ " [COMMAND]..."

def commands : Topic → List Entry
  | program =>
    CommandName.all.map (fun n => .plain n.word n.purpose) ++
      [.plain helpCommand help.purpose]
  | _ => []

def words : Topic → List Entry
  | program => []
  | command n =>
    if n.words = 0 then [] else [.plain "<NAME>" "Control plane name"]
  | help => [.plain "[COMMAND]..." "Print help for the subcommand(s)"]

/-- A part of a page, which is left out if it has no entries. -/
def part (heading : String) (layout : List Entry → String)
    (es : List Entry) : String :=
  if es.isEmpty then "" else "\n" ++ heading ++ ":\n" ++ layout es

/-- The page of help on a topic. Commands, and help itself, are always
explained in short. -/
def page (t : Topic) (atLength : Bool) (timeoutText : String) : String :=
  let layout :=
    if atLength && t != help then Entry.allParagraphs else Entry.lines
  t.purpose ++ "\n\nUsage: " ++ t.usage ++ "\n" ++
    part "Commands" Entry.lines t.commands ++
    part "Arguments" layout t.words ++
    part "Options" layout
      (t.switches.map (Switch.entry t atLength timeoutText))

end Topic

end PlaneAccess.CommandLine
