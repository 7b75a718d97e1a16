import ModelDepot.Deployment.Error

/-! # The environment of the process

While a remote call runs, its credentials are also set in two variables of the process environment. A variable holds
any text without a zero character; whoever sets it to another text panics.
-/

namespace ModelDepot

namespace Deployment

/-- The two variables of the process environment that remote calls set. -/
structure Environment where
  token : Option String
  owner : Option String
  deriving DecidableEq, Repr

namespace Environment

/-- The name of the variable that holds the token. -/
def tokenVariable : String := "HF_TOKEN"

/-- The name of the variable that holds the namespace. -/
def ownerVariable : String := "HF_NAMESPACE"

def cleared : Environment := ⟨none, none⟩

def exporting (c : Credentials) : Environment := ⟨some c.token, some c.owner⟩

/-- Whether a variable can be set to a text. -/
def holds (text : String) : Bool := text.toList.all (· ≠ '\x00')

/-- Sets both variables, the token first. A panic leaves what was set before it. -/
def acquire (c : Credentials) (e : Environment) : Except Panic Unit × Environment :=
  if holds c.token then
    if holds c.owner then (.ok (), exporting c)
    else (.error (.unsettable ownerVariable), { e with token := some c.token })
  else (.error (.unsettable tokenVariable), e)

end Environment

/-- Whether the process environment can hold the credentials. -/
def Credentials.exportable (c : Credentials) : Bool := Environment.holds c.token && Environment.holds c.owner

end Deployment

end ModelDepot
