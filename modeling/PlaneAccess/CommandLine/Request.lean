import PlaneAccess.CommandLine.Topic
import PlaneAccess.ControlPlane.Identity

/-!
# Requests

What the arguments of the program and the environment ask for. Arguments are
read from left to right, and the first one that is wrong, or that asks for
the version or for help, decides.
-/

namespace PlaneAccess.CommandLine

open PlaneAccess.ControlPlane

inductive Command where
  | merge (i : Identity) (wait dryRun : Bool)
  | wait (i : Identity)
  | contexts (asJson : Bool)
  deriving DecidableEq

inductive Request where
  | command (s : Settings) (c : Command)
  | version
  | help (t : Topic) (atLength : Bool)
  | misuse
  deriving DecidableEq

def helpOn (words : List String) : Request :=
  match Topic.ofWords? words with
  | some t => .help t true
  | none => .misuse

abbrev Reading := Except Request

/-- What has been given: switches with values that they can have, the switch
whose value must come next, if any, and words, which are names of control
planes. -/
structure Given where
  switches : List (Switch × String)
  awaiting : Option Switch
  words : List String

namespace Given

def empty : Given := ⟨[], none, []⟩

def value? (g : Given) (o : Switch) : Option String := g.switches.lookup o

def has (g : Given) (o : Switch) : Bool := (g.value? o).isSome

/-- Adds a switch and its value. No switch is given twice. -/
def add (g : Given) (o : Switch) (value : String) : Reading Given :=
  if g.has o || !o.allows value then .error .misuse
  else .ok { g with switches := (o, value) :: g.switches, awaiting := none }

/-- Adds a switch without a value, given on the way to a topic by its name
or by its letter. The letter asks for help in short. -/
def addFlag (t : Topic) (byName : Bool) (g : Given) (o : Switch) :
    Reading Given :=
  match o with
  | .version => .error .version
  | .help => .error (.help t byName)
  | o => g.add o ""

/-- Adds a switch that has a value. Without one here, the value must come
next. -/
def addValued (g : Given) (o : Switch) (value : Option String) :
    Reading Given :=
  match value with
  | some v => g.add o v
  | none => .ok { g with awaiting := some o }

/-- Adds an argument that is no word. -/
def addArgument (t : Topic) (g : Given) : Argument → Reading Given
  | .long name value =>
    match t.switches.find? (fun o => o.name == name) with
    | none => .error .misuse
    | some o =>
      if o.takesValue then g.addValued o value
      else if value.isSome then .error .misuse
      else g.addFlag t true o
  | .short letter rest =>
    match t.switches.find? (fun o => o.letter? == some letter) with
    | none => .error .misuse
    | some o =>
      if o.takesValue then g.addValued o (Argument.valueAfter rest)
      else g.addFlag t false o
  | .separator | .word _ => .error .misuse

/-- Adds a word, of which there may be so many. -/
def addWord (limit : Nat) (g : Given) (s : String) : Reading Given :=
  if g.words.length < limit && (nameFault? s).isNone then
    .ok { g with words := g.words ++ [s] }
  else .error .misuse

def readWords (limit : Nat) : Given → List String → Reading Given
  | g, [] => .ok g
  | g, a :: as =>
    match g.addWord limit a with
    | .error r => .error r
    | .ok g => readWords limit g as

/-- Reads the arguments after the name of a command. After a separator there
are only words. -/
def readArguments (n : CommandName) : Given → List String → Reading Given
  | g, [] => if g.awaiting.isSome then .error .misuse else .ok g
  | g, a :: as =>
    match g.awaiting, Argument.ofText a with
    | some o, .word s =>
      match g.add o s with
      | .error r => .error r
      | .ok g => readArguments n g as
    | some _, _ => .error .misuse
    | none, .separator => readWords n.words g as
    | none, .word s =>
      match g.addWord n.words s with
      | .error r => .error r
      | .ok g => readArguments n g as
    | none, b =>
      match g.addArgument (.command n) b with
      | .error r => .error r
      | .ok g => readArguments n g as

/-- Reads the arguments up to the name of a command, and the arguments after
it. -/
def readGlobal : Given → List String → Reading (Given × CommandName × Given)
  | _, [] => .error .misuse
  | g, a :: as =>
    match g.awaiting, Argument.ofText a with
    | some o, .word s =>
      match g.add o s with
      | .error r => .error r
      | .ok g => readGlobal g as
    | some _, _ => .error .misuse
    | none, .word s =>
      match CommandName.ofText? s with
      | some n =>
        match readArguments n .empty as with
        | .error r => .error r
        | .ok h => .ok (g, n, h)
      | none =>
        .error (if s = helpCommand then helpOn as else .misuse)
    | none, b =>
      match g.addArgument .program b with
      | .error r => .error r
      | .ok g => readGlobal g as

def identity? (g : Given) : Option Identity :=
  match g.words with
  | [name] =>
    (Identity.parse name ((g.value? .kind).getD Kind.k8s.word)).toOption
  | _ => none

/-- The seconds to wait that a switch or the environment says, if they
do. Nothing is found where what they say is no number. -/
def seconds? (g : Given) (e : Environment) : Option (Option Nat) :=
  match g.value? .timeout, e.waitTimeout with
  | some s, _ => (secondsOf? s).map some
  | none, some os => ((Settings.textOf? os).bind secondsOf?).map some
  | none, none => some none

def command? (n : CommandName) (g : Given) : Option Command :=
  match n with
  | .merge => g.identity?.map (.merge · (g.has .wait) (g.has .dryRun))
  | .wait => g.identity?.map .wait
  | .contexts => some (.contexts (g.has .json))

/-- The path that has been given, after or before the name of the
command. -/
def path? (g h : Given) : Option String :=
  (h.value? .kubeconfig).or (g.value? .kubeconfig)

end Given

/-- The limit on the time to wait for so many seconds. Zero asks for no
limit. -/
def limitOf (seconds : Nat) : Option Duration :=
  if seconds = 0 then none else some (.ofSecs seconds)

/-- The settings in an environment with those that have been given in their
stead. -/
def settingsWith (e : Environment) (path : Option String)
    (seconds : Option Nat) : Settings :=
  let s := Settings.ofEnvironment e
  ⟨path.elim s.aggregatePath Settings.octets,
    seconds.elim s.waitTimeout limitOf⟩

def requestOf (e : Environment) (g : Given) (n : CommandName) (h : Given) :
    Request :=
  let seconds := if n = .contexts then some none else h.seconds? e
  match h.command? n, seconds with
  | some c, some t => .command (settingsWith e (g.path? h) t) c
  | _, _ => .misuse

def Request.ofArguments (e : Environment) (args : List String) : Request :=
  match Given.readGlobal .empty args with
  | .error r => r
  | .ok (g, n, h) => requestOf e g n h

end PlaneAccess.CommandLine
