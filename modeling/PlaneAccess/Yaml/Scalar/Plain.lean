import PlaneAccess.Yaml.Scalar.Gap

/-!
# Plain scalars

Words without quotes. A colon with white space after it ends the scalar, and
so does a number sign with white space in front; within a flow collection
the marks of the collection end it too.
-/

namespace PlaneAccess.Yaml.Plain

/-- The word that starts here, and what follows it. Within a flow collection
a colon right in front of a mark is refused. -/
def word (inFlow : Bool) : List Char → Option (List Char × List Char)
  | [] => some ([], [])
  | c :: cs =>
    if endsWord (some c) then some ([], c :: cs)
    else if inFlow && c == ':' &&
        cs.head?.any (fun d => d == '?' || isFlowMark d) then none
    else if (c == ':' && endsWord cs.head?) || (inFlow && isFlowMark c) then
      some ([], c :: cs)
    else (word inFlow cs).map (fun (w, r) => (c :: w, r))

/-- A plain scalar, whether its last gap led to another line, and the place
after that gap. -/
structure Scanned where
  text : List Char
  broken : Bool
  after : Cursor

/-- Reads the words of a scalar. `parts` holds what has been read, in
reverse, and `gap` the white space before this place. Each round but the
last takes some white space, so `fuel` as long as the text is enough. -/
def words (inFlow : Bool) (indent : Nat) :
    Nat → List (List Char) → Gap → Cursor → Option Scanned
  | 0, _, _, _ => none
  | fuel + 1, parts, gap, place =>
    let stop : Scanned := ⟨parts.reverse.flatten, gap.isBroken, place⟩
    if place.atDocumentBound || place.here == some '#' then some stop
    else match word inFlow place.rest with
      | none => none
      | some ([], _) => some stop
      | some (w, rest) =>
        let parts := w :: gap.text :: parts
        let after : Cursor := ⟨rest, place.line, place.column + w.length⟩
        match Gap.empty.scan indent after.line after.column rest with
        | none => none
        | some (gap, next) =>
          if gap == Gap.empty then
            some ⟨parts.reverse.flatten, false, after⟩
          else if !inFlow && next.column < indent then
            some ⟨parts.reverse.flatten, gap.isBroken, next⟩
          else words inFlow indent fuel parts gap next

def scan (inFlow : Bool) (indent : Nat) (c : Cursor) : Option Scanned :=
  words inFlow indent (c.rest.length + 1) [] Gap.empty c

end PlaneAccess.Yaml.Plain
