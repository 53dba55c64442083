/-!
# Writing JSON

Text between quotes, the marks of compact objects, and arrays of objects
laid out on lines.
-/

namespace PlaneAccess.Json

def controlDigits (n : Nat) : List Char :=
  let ds := Nat.toDigits 16 n
  List.replicate (4 - ds.length) '0' ++ ds

def quotedChar (c : Char) : List Char :=
  if c == '"' || c == '\\' then ['\\', c]
  else if c == '\x08' then ['\\', 'b']
  else if c == '\t' then ['\\', 't']
  else if c == '\n' then ['\\', 'n']
  else if c == '\x0c' then ['\\', 'f']
  else if c == '\r' then ['\\', 'r']
  else if c.toNat < 0x20 then '\\' :: 'u' :: controlDigits c.toNat
  else [c]

def quoted (s : String) : String :=
  "\"" ++ String.ofList (s.toList.flatMap quotedChar) ++ "\""

def objectText (members : List (String × String)) : String :=
  "\x7b" ++
    ",".intercalate (members.map (fun m => quoted m.1 ++ ":" ++ m.2)) ++ "\x7d"

/-- An object on lines of their own, with members that are already
written. -/
def objectLines (members : List (String × String)) : String :=
  "  \x7b\n" ++
    ",\n".intercalate
      (members.map (fun m => "    " ++ quoted m.1 ++ ": " ++ m.2)) ++
    "\n  \x7d"

def arrayLines (objects : List (List (String × String))) : String :=
  if objects.isEmpty then "[]"
  else "[\n" ++ ",\n".intercalate (objects.map objectLines) ++ "\n]"

end PlaneAccess.Json
