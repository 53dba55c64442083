import PlaneAccess.Text.Quoted

/-!
# Errors of the API server

A request fails if the server answers with a status instead of an object,
with something that cannot be read, or if it cannot be reached.
-/

namespace PlaneAccess.Api

structure Status where
  message : String
  reason : String
  code : Nat
  deriving DecidableEq, Repr

namespace Status

def text (s : Status) : String := s.message ++ ": " ++ s.reason

def details (s : Status) : String :=
  "ErrorResponse \x7b status: \"Failure\", message: " ++
    Text.quoted s.message ++ ", reason: " ++ Text.quoted s.reason ++
    ", code: " ++ toString s.code ++ " \x7d"

end Status

/-- Why a request failed. -/
inductive Error where
  | status (s : Status)
  | unreadable
  | unreachable
  deriving DecidableEq, Repr

namespace Error

def message : Error → String
  | status s => "ApiError: " ++ s.text ++ " (" ++ s.details ++ ")"
  | unreadable => "Error deserializing response"
  | unreachable => "ServiceError: client error (Connect)"

/-- The causes of an error, each the cause of the one before it. -/
def causes : Error → List String
  | status s => [s.text]
  | unreadable => []
  | unreachable =>
    ["client error (Connect)", "tcp connect error",
      "Network is unreachable (os error 101)"]

end Error

end PlaneAccess.Api
