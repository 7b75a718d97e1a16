import ModelDepot.Url.Host

/-! # URLs

A URL and its written form. All parts are kept escaped, so that writing only puts them together.
-/

namespace ModelDepot

namespace Url

/-- What follows the host: segments that each begin with a slash, or, for schemes without a
hierarchy, any text. -/
inductive Route where
  | segments (list : List (List Char))
  | plain (text : List Char)
  deriving DecidableEq, Repr

namespace Route

def text : Route → List Char
  | segments list => list.flatMap ('/' :: ·)
  | plain text => text

end Route

/-- A name and, if one is written, a password. -/
structure User where
  name : List Char
  password : Option (List Char)
  deriving DecidableEq, Repr

namespace User

/-- The text of a user before a host. -/
def text (u : User) : List Char :=
  u.name ++ (match u.password with
    | some p => ':' :: p
    | none => []) ++ ['@']

end User

end Url

/-- A URL. -/
structure Url where
  scheme : List Char
  user : Option Url.User
  host : Option Url.Host
  portNumber : Option Nat
  route : Url.Route
  query : Option (List Char)
  fragment : Option (List Char)
  deriving DecidableEq, Repr

namespace Url

/-- The number at which servers of a scheme listen, if the scheme has a host of its own. -/
def standardPort? (scheme : String) : Option Nat :=
  match scheme with
  | "http" => some 80
  | "https" => some 443
  | "ws" => some 80
  | "wss" => some 443
  | "ftp" => some 21
  | _ => none

def authorityText (u : Url) : List Char :=
  match u.host with
  | none => if u.scheme = "file".toList then "//".toList else []
  | some h =>
    "//".toList ++ (match u.user with
      | some x => x.text
      | none => []) ++ h.text ++ (match u.portNumber with
      | some n => ':' :: (toString n).toList
      | none => [])

/-- A part with the character that begins it, if it is there. -/
def marked (mark : Char) : Option (List Char) → List Char
  | none => []
  | some cs => mark :: cs

/-- What a server is asked for: the route and the query. -/
def target (u : Url) : List Char := u.route.text ++ marked '?' u.query

def chars (u : Url) : List Char :=
  u.scheme ++ ':' :: u.authorityText ++ u.target ++ marked '#' u.fragment

def text (u : Url) : String := String.ofList u.chars

end Url

end ModelDepot
