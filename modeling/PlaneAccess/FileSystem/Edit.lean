import PlaneAccess.FileSystem.Change

/-!
# Editing a file system

What others do to a file system: they overwrite files in place, make links,
and remove what is there.
-/

namespace PlaneAccess.FileSystem

def publicMode : Nat := 0o644

def withParents (fs : FileSystem) (p : Path)
    (next : FileSystem → Except Fault FileSystem) : Except Fault FileSystem :=
  match fs.makeDirectories p.parent with
  | (.error e, _) => .error e
  | (.ok (), fs) => next fs

/-- Writes a file in place. A link at the end of the path is followed, to
nothing too. -/
def overwrite (fs : FileSystem) (p : Path) (content : ByteArray) :
    Except Fault FileSystem :=
  fs.withParents p fun fs =>
    match fs.walk true p with
    | .error e => .error e
    | .ok (.found _ .directory) => .error .isDirectory
    | .ok (.found l _) => .ok (fs.put l (.file content publicMode))
    | .ok (.free l) => .ok (fs.put l (.file content publicMode))

def makeLink (fs : FileSystem) (p : Path) (target : String) :
    Except Fault FileSystem :=
  fs.withParents p fun fs =>
    match fs.walk false p with
    | .error e => .error e
    | .ok (.found _ _) => .error .exists
    | .ok (.free l) => .ok (fs.put l (.link target))

/-- Removes what a path leads to, with all that is below it. A link at its
end is removed itself. -/
def remove (fs : FileSystem) (p : Path) : Except Fault FileSystem :=
  match fs.findLast p with
  | .error e => .error e
  | .ok (l, _) =>
    .ok { fs with objects := fs.objects.filter (fun e => !l.isPrefixOf e.1) }

end PlaneAccess.FileSystem
