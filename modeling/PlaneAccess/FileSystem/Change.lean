import PlaneAccess.FileSystem.Basic

/-!
# Changes of a file system

Making directories and replacing files. A file is written in stages, each of
which can be refused. What fails half way leaves behind only directories.
-/

namespace PlaneAccess.FileSystem

def pathOfReversed (isAbsolute : Bool) (ps : List String) : Path :=
  ⟨isAbsolute, ps.reverse, .name⟩

/-- Makes one directory. A link at the end of the path is not followed. -/
def makeDirectory (fs : FileSystem) (p : Path) : Except Fault FileSystem :=
  match fs.refusals.makeDirectory p with
  | some text => .error (.refused text)
  | none =>
    match fs.walk false p with
    | .error e => .error e
    | .ok (.found _ _) => .error .exists
    | .ok (.free l) => .ok (fs.put l .directory)

/-- Makes the directory of a path with the given components in reverse, and
the directories on the way to it. What is there already is left as it is. -/
def makeDirectoriesReversed (fs : FileSystem) (isAbsolute : Bool) :
    List String → Except Fault Unit × FileSystem
  | [] => (.ok (), fs)
  | name :: before =>
    let p := pathOfReversed isAbsolute (name :: before)
    match fs.makeDirectory p with
    | .ok fs => (.ok (), fs)
    | .error .missing =>
      match makeDirectoriesReversed fs isAbsolute before with
      | (.error e, fs) => (.error e, fs)
      | (.ok (), fs) =>
        match fs.makeDirectory p with
        | .ok fs => (.ok (), fs)
        | .error e => (if fs.isDirectory p then .ok () else .error e, fs)
    | .error e => (if fs.isDirectory p then .ok () else .error e, fs)

def makeDirectories (fs : FileSystem) (p : Path) :
    Except Fault Unit × FileSystem :=
  fs.makeDirectoriesReversed p.isAbsolute p.parts.reverse

def clear (fs : FileSystem) (l : Location) : FileSystem :=
  { fs with objects := fs.objects.filter (fun e => e.1 ≠ l) }

/-- A name that no object has, since it is longer than all their names. -/
def freshName (fs : FileSystem) : String :=
  let lengths := fs.objects.map (fun e => (e.1.getLast?.getD "").length)
  String.ofList ('.' :: List.replicate (lengths.foldr Nat.add 0) 't')

/-- Writes some content into the file at a location and makes sure of it. -/
def fill (fs : FileSystem) (l : Location) (content : ByteArray) (mode : Nat) :
    Except Fault Unit × FileSystem :=
  match fs.refusals.write with
  | some (n, text) =>
    (.error (.refused text), fs.put l (.file (content.extract 0 n) mode))
  | none =>
    let fs := fs.put l (.file content mode)
    match fs.refusals.sync with
    | some text => (.error (.refused text), fs)
    | none => (.ok (), fs)

/-- Moves a file from a location to where a path leads. A link at the end of
the path is replaced and not followed, and a directory is never replaced. -/
def moveFile (fs : FileSystem) (l : Location) (content : ByteArray) (mode : Nat)
    (p : Path) : Except Fault FileSystem :=
  match fs.refusals.move with
  | some text => .error (.refused text)
  | none =>
    if p.isEmpty then .error .missing
    else
      match fs.find p.holder with
      | .error e => .error e
      | .ok _ =>
        if !p.endsInEntry then .error .busy
        else if p.asDirectory then .error .notDirectory
        else
          match fs.walk false p with
          | .error e => .error e
          | .ok (.found _ .directory) => .error .isDirectory
          | .ok (.found k _) => .ok ((fs.clear l).put k (.file content mode))
          | .ok (.free k) => .ok ((fs.clear l).put k (.file content mode))

/-- Writes a file of another name into the directory of a path, and moves it to
the path when it is finished. If it cannot be finished or moved it is
removed. -/
def install (fs : FileSystem) (p : Path) (content : ByteArray) (mode : Nat) :
    Except Fault Unit × FileSystem :=
  match fs.find p.directory with
  | .error e => (.error e, fs)
  | .ok (d, _) =>
    match fs.refusals.create with
    | some text => (.error (.refused text), fs)
    | none =>
      let temporary := d ++ [fs.freshName]
      let created := fs.put temporary (.file .empty mode)
      match created.fill temporary content mode with
      | (.error e, fs) => (.error e, fs.clear temporary)
      | (.ok (), fs) =>
        match fs.moveFile temporary content mode p with
        | .error e => (.error e, fs.clear temporary)
        | .ok fs => (.ok (), fs)

/-- The path at which a write to a path to nothing puts its file: that path,
or else, if it is a link, where the link says. -/
def missingTarget (fs : FileSystem) (p : Path) : Except Fault Path :=
  match fs.refusals.inspect with
  | some _ => .ok p
  | none =>
    match fs.findLast p with
    | .ok (_, .link target) =>
      match fs.refusals.readLink with
      | some text => .error (.refused text)
      | none => .ok (p.parent.join (Path.ofText target))
    | _ => .ok p

/-- The path at which a write to another path puts its file: where that one
leads to, if it leads anywhere. -/
def writeTarget (fs : FileSystem) (p : Path) : Except Fault Path :=
  match fs.refusals.resolve with
  | some text => .error (.refused text)
  | none =>
    match fs.find p with
    | .ok (l, _) => .ok (pathTo l)
    | .error .missing => fs.missingTarget p
    | .error e => .error e

def privateMode : Nat := 0o600

/-- Writes a file through links, with the directories on the way to it. The
file is put in place as a whole. -/
def writeFile (fs : FileSystem) (p : Path) (content : ByteArray) :
    Except Fault Unit × FileSystem :=
  match fs.writeTarget p with
  | .error e => (.error e, fs)
  | .ok target =>
    match fs.makeDirectories target.parent with
    | (.error e, fs) => (.error e, fs)
    | (.ok (), fs) => fs.install target content privateMode

end PlaneAccess.FileSystem
