import ModelDepot.Artifact.Error
import ModelDepot.Deployment.Credentials
import ModelDepot.Time.Span

/-! # Faults of deployment

A call may return an error, or it may panic: then it comes to no result, and what it works on is left as it was at
that moment.
-/

namespace ModelDepot

namespace Deployment

/-- Why an exchange with the platform's server did not come about. -/
inductive TransportFault where
  /-- The request could not be made up. -/
  | builder (url : Option String) (cause : String)
  /-- The request could not be sent. -/
  | request (url cause : String)
  /-- The server sent the client elsewhere too often. -/
  | redirect (url cause : String)
  /-- The body of the response is not what it should be. -/
  | decode (cause : String)
  deriving DecidableEq, Repr

namespace TransportFault

def text : TransportFault → String
  | builder none cause => "builder error: " ++ cause
  | builder (some url) cause => "builder error for url (" ++ url ++ "): " ++ cause
  | request url cause => "error sending request for url (" ++ url ++ "): " ++ cause
  | redirect url cause => "error following redirect for url (" ++ url ++ "): " ++ cause
  | decode cause => "error decoding response body: " ++ cause

end TransportFault

/-- Why a deployment operation failed. -/
inductive Error where
  | config (fault : ConfigFault)
  | notFound (endpoint : String)
  | rejected (status : Nat) (message : String)
  | endpointFailed (endpoint message : String)
  | timeout (endpoint : String) (after : Span)
  | transport (fault : TransportFault)
  | artifact (e : Artifact.Error)
  | unreadable
  deriving DecidableEq, Repr

namespace Error

/-- The text of an error, the system's words for a fault of the file system given by `words`. -/
def messageWith (words : Files.Errno → String) : Error → String
  | config fault => "Invalid deployer configuration: " ++ fault.text
  | notFound endpoint => "Inference endpoint not found: " ++ endpoint
  | rejected status message =>
    "Hosting API request failed with status " ++ toString status ++ ": " ++ message
  | endpointFailed endpoint message => "Inference endpoint " ++ endpoint ++ " failed: " ++ message
  | timeout endpoint after =>
    "Timed out after " ++ after.text ++ " waiting for inference endpoint " ++ endpoint
  | transport fault => "HTTP transport error: " ++ fault.text
  | artifact e => "Artifact error: " ++ e.message words
  | unreadable => "Serialization error"

def message (e : Error) : String := e.messageWith Files.Errno.text

end Error

/-- What takes a call down. -/
inductive Panic where
  /-- A variable of the process environment was to be set to a text that it cannot hold. -/
  | unsettable (name : String)
  /-- The deadline of a wait is later than any time that the clock can tell. -/
  | untellable
  deriving DecidableEq, Repr

/-- How a call ends that did not succeed. -/
inductive Failure where
  | fault (e : Error)
  | panic (p : Panic)
  deriving DecidableEq, Repr

end Deployment

end ModelDepot
