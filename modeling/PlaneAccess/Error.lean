import PlaneAccess.Api.Error
import PlaneAccess.ControlPlane.Identity
import PlaneAccess.Duration
import PlaneAccess.Kubeconfig.Codec

/-!
# Errors

Why credentials cannot be found, awaited, read or written.
-/

namespace PlaneAccess

inductive Error where
  | identity (e : ControlPlane.IdentityError)
  | notFound (what : String)
  | keyMissing (bundle key : String)
  | decode (e : DecodeError)
  | subscription (text : String)
  | subscriptionClosed
  | io (text : String)
  | persist (text : String)
  | cancelled
  | timedOut (after : Duration)
  | api (e : Api.Error)

namespace Error

def message : Error → String
  | identity e => e.message
  | notFound what => "not found: " ++ what
  | keyMissing bundle key =>
    "bundle " ++ bundle ++ " has no key " ++ Text.quoted key
  | decode e => "failed to decode kubeconfig: " ++ e.message
  | subscription text => "failed to subscribe to bundle events: " ++ text
  | subscriptionClosed =>
    "bundle event stream closed before the bundle appeared"
  | io text => "failed to read kubeconfig: " ++ text
  | persist text => "failed to persist kubeconfig: " ++ text
  | cancelled => "wait cancelled"
  | timedOut after =>
    "timed out after " ++ after.toText ++ " waiting for bundle"
  | api e => "Kubernetes API error: " ++ e.message

def isRetriable : Error → Bool
  | api _ | subscription _ | subscriptionClosed | timedOut _ => true
  | _ => false

def isNotFound : Error → Bool
  | notFound _ => true
  | _ => false

/-- The causes of an error, each the cause of the one before it. -/
def causes : Error → List String
  | api e => e.message :: e.causes
  | _ => []

end Error

end PlaneAccess
