import PlaneAccess.Decimal.Literal
import PlaneAccess.Duration
import PlaneAccess.Text.Blank
import PlaneAccess.Text.Octets

/-!
# Settings

Which kubeconfig collects the credentials, and how long to wait for them.
Both can be taken from the environment. Paths and the values of variables
are octets, which need not be text.
-/

namespace PlaneAccess

structure Environment where
  home : Option (List UInt8)
  kubeconfig : Option (List UInt8)
  waitTimeout : Option (List UInt8)
  deriving DecidableEq, Repr

/-- The path of the kubeconfig that collects credentials, and how long to
wait for them, unless without limit. -/
structure Settings where
  aggregatePath : List UInt8
  waitTimeout : Option Duration
  deriving DecidableEq, Repr

namespace Settings

def octets (s : String) : List UInt8 := s.toUTF8.toList

def textOf? (os : List UInt8) : Option String :=
  String.fromUTF8? (ByteArray.mk os.toArray)

def join (dir path : List UInt8) : List UInt8 :=
  if dir.isEmpty then path
  else if dir.getLast? == some 0x2f then dir ++ path
  else dir ++ 0x2f :: path

def inHome (home : Option (List UInt8)) : List UInt8 :=
  join (home.getD []) (octets ".kube/config")

/-- The first entry of a list of paths that is not empty. -/
def firstPath (paths : List UInt8) : Option (List UInt8) :=
  (Text.splitAt 0x3a paths).find? (fun e => !e.isEmpty)

/-- A natural number of 64 bits, which may have a plus sign. -/
def natural64 (cs : List Char) : Option Nat :=
  let ds := match cs with
    | '+' :: ds => ds
    | ds => ds
  (Decimal.natural 10 ds).filter (· < Nat.pow 2 64)

/-- The time to wait that a text asks for in seconds. Blanks around it do not
count. Zero, and anything that is no number, asks for no limit. -/
def parseTimeout (s : String) : Option Duration :=
  match natural64 (Text.trimBlanks s.toList) with
  | none => none
  | some 0 => none
  | some n => some (Duration.ofSecs n)

def ofEnvironment (e : Environment) : Settings where
  aggregatePath := (e.kubeconfig.bind firstPath).getD (inHome e.home)
  waitTimeout := (e.waitTimeout.bind textOf?).bind parseTimeout

def ofPath (path : List UInt8) : Settings := ⟨path, none⟩

end Settings

end PlaneAccess
