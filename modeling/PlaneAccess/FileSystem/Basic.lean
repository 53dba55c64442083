import PlaneAccess.FileSystem.Path

/-!
# File systems

Files, directories and symbolic links, each at its place below the root. A
walk along a path follows the links on the way, but no more than forty of
them. What is asked for can also be refused by the system, whatever the
objects are: a directory cannot be read, a disk is full or broken.
-/

namespace PlaneAccess

/-- The names that lead from the root to an object, through directories
only. -/
abbrev FileSystem.Location := List String

inductive FileSystem.Object where
  | file (content : ByteArray) (mode : Nat)
  | directory
  | link (target : String)

/-- What the system refuses to do, each with its message: to read a file, to
say where a path leads (`resolve`), what is at its end (`inspect`) and what a
link says, to make a directory, and the stages in which a file is written. Of
a write that is refused some octets may have been written. -/
structure FileSystem.Refusals where
  read : Option String
  resolve : Option String
  inspect : Option String
  readLink : Option String
  makeDirectory : FileSystem.Path → Option String
  create : Option String
  write : Option (Nat × String)
  sync : Option String
  move : Option String

def FileSystem.Refusals.none : Refusals :=
  ⟨.none, .none, .none, .none, fun _ => .none, .none, .none, .none, .none⟩

/-- A file system: its objects, the directory that relative paths start from,
and what is refused. The root is always a directory. -/
structure FileSystem where
  objects : List (FileSystem.Location × FileSystem.Object)
  working : FileSystem.Location
  refusals : FileSystem.Refusals

namespace FileSystem

/-- Why something cannot be done with a path. What is refused is never taken
for something that is missing. -/
inductive Fault where
  | missing
  | exists
  | notDirectory
  | isDirectory
  | tooManyLinks
  | busy
  | refused (text : String)
  deriving DecidableEq, Repr

/-- The message for a fault, as the operating system words it. -/
def Fault.message : Fault → String
  | missing => "No such file or directory (os error 2)"
  | busy => "Device or resource busy (os error 16)"
  | «exists» => "File exists (os error 17)"
  | notDirectory => "Not a directory (os error 20)"
  | isDirectory => "Is a directory (os error 21)"
  | tooManyLinks => "Too many levels of symbolic links (os error 40)"
  | refused text => text

/-- The file system that has only a root, and refuses nothing. -/
def empty : FileSystem := ⟨[], [], .none⟩

/-- The same objects where nothing is refused. -/
def freely (fs : FileSystem) : FileSystem := { fs with refusals := .none }

def at? (fs : FileSystem) (l : Location) : Option Object :=
  if l.isEmpty then some .directory else fs.objects.lookup l

/-- The file system with an object put at a location, in the stead of the one
there. -/
def put (fs : FileSystem) (l : Location) (o : Object) : FileSystem :=
  { fs with objects := (l, o) :: fs.objects.filter (fun e => e.1 ≠ l) }

/-- Where a walk ends: at an object, or at a name that a directory does not
have. -/
inductive Place where
  | found (l : Location) (o : Object)
  | free (l : Location)

/-- Walks from a directory along some components. At a link it goes on with
`jump`, from another directory along other components; a link at the end is
followed only if asked for. -/
def walkWith (fs : FileSystem) (followLast : Bool)
    (jump : Location → List String → Except Fault Place) :
    Location → List String → Except Fault Place
  | here, [] => .ok (.found here .directory)
  | here, name :: rest =>
    if name = "." then walkWith fs followLast jump here rest
    else if name = ".." then walkWith fs followLast jump here.dropLast rest
    else
      let l := here ++ [name]
      match fs.at? l with
      | none => if rest.isEmpty then .ok (.free l) else .error .missing
      | some .directory => walkWith fs followLast jump l rest
      | some (.file content mode) =>
        if rest.isEmpty then .ok (.found l (.file content mode))
        else .error .notDirectory
      | some (.link target) =>
        if rest.isEmpty && !followLast then .ok (.found l (.link target))
        else
          let p := Path.ofText target
          jump (if p.isAbsolute then [] else here) (p.steps ++ rest)

/-- Walks from a directory along some components, and follows at most `n`
links. -/
def walkFrom (fs : FileSystem) (followLast : Bool) :
    Nat → Location → List String → Except Fault Place
  | 0 => fs.walkWith followLast (fun _ _ => .error .tooManyLinks)
  | n + 1 => fs.walkWith followLast (walkFrom fs followLast n)

def linkLimit : Nat := 40

def walk (fs : FileSystem) (followLast : Bool) (p : Path) :
    Except Fault Place :=
  if p.isEmpty then .error .missing
  else
    fs.walkFrom followLast linkLimit (if p.isAbsolute then [] else fs.working)
      p.steps

def find (fs : FileSystem) (p : Path) : Except Fault (Location × Object) :=
  match fs.walk true p with
  | .error e => .error e
  | .ok (.free _) => .error .missing
  | .ok (.found l o) => .ok (l, o)

/-- The object that a path leads to, without following a link at its end. -/
def findLast (fs : FileSystem) (p : Path) :
    Except Fault (Location × Object) :=
  match fs.walk false p with
  | .error e => .error e
  | .ok (.free _) => .error .missing
  | .ok (.found l o) => .ok (l, o)

def read (fs : FileSystem) (p : Path) : Except Fault ByteArray :=
  match fs.refusals.read with
  | some text => .error (.refused text)
  | none =>
    match fs.find p with
    | .error e => .error e
    | .ok (_, .file content _) => .ok content
    | .ok (_, _) => .error .isDirectory

def isDirectory (fs : FileSystem) (p : Path) : Bool :=
  match fs.find p with
  | .ok (_, .directory) => true
  | _ => false

def names (fs : FileSystem) (l : Location) : List String :=
  (fs.objects.filterMap (fun e =>
    if e.1.dropLast = l then e.1.getLast? else none)).mergeSort

def pathTo (l : Location) : Path := ⟨true, l, .name⟩

end FileSystem

end PlaneAccess
