import ModelDepot.Deployment.Api
import ModelDepot.Text.Base64
import ModelDepot.Url.Reading

/-! # The platform over HTTP

A `Client` is a platform that asks a server. It makes up the requests and reads the responses; a
`Transport` brings the one to the server and the other back. An endpoint is addressed by two segments
after the base: its namespace and its name.
-/

namespace ModelDepot

namespace Deployment

/-- The method of a request. -/
inductive Method where
  | get
  | post
  | delete
  deriving DecidableEq, Repr

namespace Method

def name : Method → String
  | get => "GET"
  | post => "POST"
  | delete => "DELETE"

end Method

/-- A request as it is sent, with the lines of its header that say who asks. -/
structure Message where
  method : Method
  url : Url
  authorization : List String
  body : Option Json

/-- A response as it comes back. -/
structure Response where
  status : Nat
  body : List UInt8

namespace Response

/-- The server did what it was asked. -/
def isSuccess (r : Response) : Bool := 200 ≤ r.status && r.status < 300

/-- The bytes that may mark the beginning of a text. -/
def mark : List UInt8 := [0xef, 0xbb, 0xbf]

def text (r : Response) : String :=
  Text.lossy (if mark.isPrefixOf r.body then r.body.drop mark.length else r.body)

end Response

/-- What brings requests to a server. -/
structure Transport (σ : Type) where
  exchange (m : Message) (s : σ) : Except TransportFault Response × σ

/-- A client: the base that all addresses begin with. -/
structure Client where
  base : String
  deriving DecidableEq, Repr

namespace Client

variable {σ : Type}

/-- A client for a base; slashes at its end do not count. -/
def new (base : String) : Client := ⟨Text.trimEnd base '/'⟩

/-- The method of a call and the address that it goes to. -/
def route (c : Client) (owner : String) : Call → Method × String
  | .create _ => (.post, c.base ++ "/" ++ owner)
  | .get name => (.get, c.base ++ "/" ++ owner ++ "/" ++ name)
  | .pause name => (.post, c.base ++ "/" ++ owner ++ "/" ++ name ++ "/pause")
  | .resume name => (.post, c.base ++ "/" ++ owner ++ "/" ++ name ++ "/resume")
  | .delete name => (.delete, c.base ++ "/" ++ owner ++ "/" ++ name)

def body : Call → Option Json
  | .create request => some request.toJson
  | _ => none

/-- A header can hold the character: it holds no controls but tabs. -/
def fits (c : Char) : Bool := c = '\t' || (0x20 ≤ c.toNat && c.toNat ≠ 0x7f)

def fitsHeader (s : String) : Bool := s.toList.all fits

def schemes : List String := ["http", "https"]

/-! ## Who asks -/

/-- The name and the password that a URL gives for its host, as far as they are text. -/
def login? (u : Url) : Option (String × Option String) := do
  let user ← u.user
  let name ← Text.ofUtf8? (Url.unescape user.name)
  let password := user.password.bind fun p => Text.ofUtf8? (Url.unescape p)
  if name = "" ∧ password = none then none else some (name, password)

/-- The line that says a name and a password. -/
def basic (name : String) (password : Option String) : String :=
  "Basic " ++ String.ofList (Text.base64 (Text.utf8 (name ++ ":" ++ password.getD "")))

/-- The lines that say who asks: the user that a URL names for its host, and then who has the credentials. -/
def authorization (u : Url) (c : Credentials) : List String :=
  (login? u).toList.map (fun (name, password) => basic name password) ++ [c.bearer]

/-- A URL without the user who is named in a line instead. -/
def anonymous (u : Url) : Url := if (login? u).isSome then { u with user := none } else u

/-! ## Requests -/

/-- The fault of an address that a client cannot speak to. -/
def wrongScheme (u : Url) : TransportFault := .builder (some u.text) "URL scheme is not allowed"

/-- Makes up the message of a request. -/
def message (c : Client) (r : Request) : Except TransportFault Message :=
  let (method, address) := c.route r.owner r.call
  match Url.ofText address with
  | .error e => .error (.builder none e.text)
  | .ok u =>
    let lines := authorization u r.credentials
    if u.host.isNone then .error (wrongScheme u)
    else if ! lines.all fitsHeader then .error (.builder none "failed to parse header value")
    else if ! schemes.contains (String.ofList u.scheme) then .error (wrongScheme (anonymous u))
    else .ok ⟨method, anonymous u, lines, body r.call⟩

def send (c : Client) (t : Transport σ) (r : Request) (s : σ) : Except TransportFault Response × σ :=
  match c.message r with
  | .error e => (.error e, s)
  | .ok m => t.exchange m s

/-- A response that is no success is an error. -/
def check (endpoint : String) (r : Response) : Except Error Response :=
  if r.isSuccess then .ok r
  else if r.status = 404 then .error (.notFound endpoint)
  else .error (.rejected r.status r.text)

def described (r : Response) : Except Error Endpoint.Info :=
  match Endpoint.Info.decoder.ofBytes? r.body with
  | some info => .ok info
  | none => .error (.transport (.decode "invalid description of an endpoint"))

/-- What a response answers to a call. -/
def read (r : Response) : (call : Call) → Except Error call.Answer
  | .get name =>
    match check name r with
    | .ok r => (described r).map some
    | .error (.notFound _) => .ok none
    | .error e => .error e
  | .create request => (check request.name r).bind described
  | .pause name => (check name r).bind described
  | .resume name => (check name r).bind described
  | .delete name => (check name r).map fun _ => ()

/-- The platform that a client reaches through a transport. -/
def api (c : Client) (t : Transport σ) : Api σ where
  answer r s :=
    match c.send t r s with
    | (.error e, s) => (.error (.transport e), s)
    | (.ok response, s) => (read response r.call, s)

end Client

end Deployment

end ModelDepot
