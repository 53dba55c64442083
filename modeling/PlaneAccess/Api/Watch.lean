import PlaneAccess.Api.Error

/-!
# Watching secrets

A watch of a namespace first lists the secrets that are there and then
reports their changes. When the server can no longer go on from where it
was, the secrets are listed anew. The names of bundles are those of the
secrets that are listed or changed (`created`).
-/

namespace PlaneAccess.Api

/-- What the server reports of a secret, which may lack a name. A change
that lacks a version leaves the watch with no place to go on from. -/
inductive Event where
  | added (name : Option String)
  | modified (name : Option String)
  | deleted (name : Option String)
  | unversioned
  | bookmark
  | failed (s : Status)
  deriving DecidableEq, Repr

namespace Watch

inductive Item where
  | listing
  | listed (name : Option String)
  | listedAll
  | applied (name : Option String)
  | deleted (name : Option String)
  | failed (e : Error)
  deriving DecidableEq, Repr

def Item.created? : Item → Option String
  | .listed name | .applied name => name
  | .listing | .listedAll | .deleted _ | .failed _ => none

def created (items : List Item) : List String :=
  items.filterMap Item.created?

def listingItems (names : List (Option String)) : List Item :=
  .listing :: names.map .listed ++ [.listedAll]

/-- The code of a status that says that the server cannot go on. -/
def goneCode : Nat := 410

/-- The items for what the server reports, and the given ones in the stead
of all that follows once it cannot go on. -/
def reportItems (relisted : List Item) : List Event → List Item
  | [] => []
  | .added name :: es | .modified name :: es =>
    .applied name :: reportItems relisted es
  | .deleted name :: es => .deleted name :: reportItems relisted es
  | .unversioned :: _ => .failed .unreadable :: relisted
  | .bookmark :: es => reportItems relisted es
  | .failed s :: es =>
    .failed (.status s) ::
      if s.code = goneCode then relisted else reportItems relisted es

/-- The items of a watch, for the secrets that are listed every time and the
reports from one listing to the next. After the last report the server is
silent. -/
def items (names : List (Option String)) : List (List Event) → List Item
  | [] => listingItems names
  | es :: reports =>
    listingItems names ++ reportItems (items names reports) es

/-- How many times reports have been asked for, by the items so far. -/
def reportsAsked (items : List Item) : Nat := items.count .listedAll

/-- The items up to the first one that tells of a bundle. -/
def upTo (name : String) : List Item → List Item
  | [] => []
  | i :: is => i :: if i.created? = some name then [] else upTo name is

end Watch

end PlaneAccess.Api
