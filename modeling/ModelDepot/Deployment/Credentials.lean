import ModelDepot.Text.Blank

/-! # Credentials

A token and the namespace of its owner, neither of them blank. Nothing else is asked of their texts.
-/

namespace ModelDepot

namespace Deployment

/-- What is wrong with a configuration. -/
inductive ConfigFault where
  | missingToken
  | missingOwner
  | blankToken
  | blankOwner
  | other (text : String)
  deriving DecidableEq, Repr

namespace ConfigFault

def text : ConfigFault → String
  | missingToken => "Hugging Face token is not configured"
  | missingOwner => "Hugging Face namespace is not configured"
  | blankToken => "Hugging Face token is empty"
  | blankOwner => "Hugging Face namespace is empty"
  | other t => t

end ConfigFault

/-- A token and the namespace that it is used in. -/
structure Credentials where
  token : String
  owner : String
  token_notBlank : Text.allBlank token = false
  owner_notBlank : Text.allBlank owner = false
  deriving DecidableEq

namespace Credentials

/-- Credentials from a token and a namespace. The token is looked at first. -/
def of (token owner : String) : Except ConfigFault Credentials :=
  if ht : Text.allBlank token = false then
    if ho : Text.allBlank owner = false then .ok ⟨token, owner, ht, ho⟩ else .error .blankOwner
  else .error .blankToken

/-- Credentials from settings that may be missing. -/
def ofSettings (token owner : Option String) : Except ConfigFault Credentials :=
  match token, owner with
  | none, _ => .error .missingToken
  | some _, none => .error .missingOwner
  | some t, some o => of t o

/-- The value of the header that authorizes a request. -/
def bearer (c : Credentials) : String := "Bearer " ++ c.token

end Credentials

end Deployment

end ModelDepot
