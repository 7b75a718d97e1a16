import ModelDepot.Files.Path
import ModelDepot.Url.Basic

/-! # Reading URLs

Blanks and controls around a URL are dropped, tabs and line ends within it too. A scheme that has a
host of its own is followed by that host whatever slashes stand between; after `file` the host may be
missing. Segments that are one or two dots are steps and never become part of a route.
-/

namespace ModelDepot

namespace Url

/-- Removes the characters that a URL may be surrounded by or interrupted with. -/
def cleaned (cs : List Char) : List Char :=
  let outer := fun (c : Char) => c.toNat ≤ 0x20
  let kept := ((cs.dropWhile outer).reverse.dropWhile outer).reverse
  kept.filter fun c => c ≠ '\t' && c ≠ '\n' && c ≠ '\r'

/-- The scheme, in lower case, and what follows its colon. -/
def takeScheme? (cs : List Char) : Option (List Char × List Char) :=
  let isLater := fun (c : Char) => c.isAlphanum || c == '+' || c == '-' || c == '.'
  let name := cs.takeWhile isLater
  match name, cs.dropWhile isLater with
  | c :: _, ':' :: rest => if c.isAlpha then some (name.map Char.toLower, rest) else none
  | _, _ => none

/-- A slash, or the backslash where that counts as one. -/
def isSlash (special : Bool) (c : Char) : Bool := c == '/' || (special && c == '\\')

def endsRoute (c : Char) : Bool := c == '?' || c == '#'

/-! ## Routes -/

/-- A segment that stands for the directory itself. -/
def isSingleDot (s : List Char) : Bool :=
  ["." , "%2e"].contains (String.ofList (s.map Char.toLower))

/-- A segment that stands for the directory above. -/
def isDoubleDot (s : List Char) : Bool :=
  ["..", ".%2e", "%2e.", "%2e%2e"].contains (String.ofList (s.map Char.toLower))

/-- A letter and a colon: the name of a drive. -/
def isDrive : List Char → Bool
  | [c, ':'] => c.isAlpha
  | _ => false

/-- A letter and a colon or a bar, where a host would stand. -/
def isDriveHost : List Char → Bool
  | [c, d] => c.isAlpha && (d == ':' || d == '|')
  | _ => false

/-- The segments after one more piece of a route. A step upward takes the last segment back, but not
the name of a drive. -/
def addPiece (file last : Bool) (segments : List (List Char)) (piece : List Char) :
    List (List Char) :=
  let ending := if last then [[]] else []
  if isDoubleDot piece then
    (match segments.getLast? with
      | some s => if file && isDrive s then segments else segments.dropLast
      | none => segments) ++ ending
  else if isSingleDot piece then segments ++ ending
  else segments ++ [escape inPath piece]

/-- The segments of a route from its pieces. -/
def addPieces (file : Bool) (segments : List (List Char)) : List (List Char) → List (List Char)
  | [] => segments
  | [p] => addPiece file true segments p
  | p :: q :: rest => addPieces file (addPiece file false segments p) (q :: rest)

/-- The segments of a route without its first slash. A file's route begins with no empty segment. -/
def segmentsOf (special file : Bool) (cs : List Char) : List (List Char) :=
  let segments := addPieces file [] (Host.split (isSlash special) cs)
  if file then
    match segments.dropWhile List.isEmpty with
    | [] => [[]]
    | kept => kept
  else segments

/-- A route that may begin with a slash. A scheme with a host of its own always has one. -/
def routeOf (special file : Bool) (cs : List Char) : Route :=
  match cs with
  | [] => if special then .segments [[]] else .segments []
  | c :: rest => .segments (segmentsOf special file (if isSlash special c then rest else c :: rest))

/-! ## Hosts and their numbers -/

/-- The number after a host that digits spell: none if there are no digits or it is the scheme's own. -/
def portOf (scheme : List Char) (cs : List Char) : Except Fault (Option Nat) :=
  if cs.isEmpty then .ok none
  else if cs.all Char.isDigit then
    match Host.number? 10 cs with
    | some n =>
      if 65535 < n then .error .invalidPort
      else if standardPort? (String.ofList scheme) = some n then .ok none
      else .ok (some n)
    | none => .error .invalidPort
  else .error .invalidPort

/-- The host and its number, before and after the first colon that is not in brackets. -/
def splitPort : Bool → List Char → List Char × Option (List Char)
  | _, [] => ([], none)
  | inside, c :: rest =>
    if c = ':' ∧ inside = false then ([], some rest)
    else
      let (host, digits) := splitPort (if c = '[' then true else if c = ']' then false else inside) rest
      (c :: host, digits)

/-- The user and the host around the last at sign. -/
def splitUser (cs : List Char) : Option User × List Char :=
  if cs.contains '@' then
    let host := (cs.reverse.takeWhile (· != '@')).reverse
    let user := cs.take (cs.length - host.length - 1)
    let name := user.takeWhile (· != ':')
    let password := user.drop (name.length + 1)
    if user.isEmpty ∨ user = [':'] then (none, host)
    else
      let password := if password.isEmpty then none else some (escape inUser password)
      (some ⟨escape inUser name, password⟩, host)
  else (none, cs)

/-- What stands between the slashes after a scheme and the route. -/
structure Authority where
  user : Option User
  host : Option Host
  portNumber : Option Nat

def authorityOf (scheme : List Char) (special : Bool) (cs : List Char) : Except Fault Authority :=
  let (user, rest) := splitUser cs
  if cs.contains '@' ∧ rest.isEmpty then .error .emptyHost
  else
    let (name, digits) := splitPort false rest
    if name.isEmpty then
      if special ∨ digits.isSome ∨ user.isSome then .error .emptyHost else .ok ⟨none, none, none⟩
    else
      match (if special then Host.ofChars name else Host.opaqueOfChars name) with
      | .error e => .error e
      | .ok host =>
        match portOf scheme (digits.getD []) with
        | .error e => .error e
        | .ok n => .ok ⟨user, some host, n⟩

/-- The host after `file://`, and the route. The name of a drive is no host but begins the route, and
a route that begins with a drive has no host. -/
def fileOf (cs : List Char) : Except Fault (Option Host × Route) :=
  let name := cs.takeWhile fun c => ! isSlash true c
  let rest := cs.dropWhile fun c => ! isSlash true c
  if isDriveHost name then .ok (none, .segments (segmentsOf true true cs))
  else
    let route := routeOf true true rest
    if name.isEmpty then .ok (none, route)
    else
      match Host.ofChars name with
      | .error e => .error e
      | .ok host =>
        let onDrive := match rest with
          | _ :: more => isDrive (more.takeWhile fun c => ! isSlash true c)
          | [] => false
        .ok (if onDrive || host == .domain "localhost".toList then none else some host, route)

def ofChars (text : List Char) : Except Fault Url :=
  let cs := cleaned text
  match takeScheme? cs with
  | none => .error .relative
  | some (scheme, rest) =>
    let body := rest.takeWhile (! endsRoute ·)
    let tail := rest.dropWhile (! endsRoute ·)
    let file := scheme = "file".toList
    let special := file || (standardPort? (String.ofList scheme)).isSome
    let queryText := match tail with
      | '?' :: more => some (more.takeWhile (· != '#'))
      | _ => none
    let fragmentText := match tail.dropWhile (· != '#') with
      | _ :: more => some more
      | [] => none
    let finish := fun (user : Option User) (host : Option Host) (number : Option Nat) (route : Route) =>
      (⟨scheme, user, host, number, route, queryText.map (escape (inQuery special)),
        fragmentText.map (escape inFragment)⟩ : Url)
    let isBar := isSlash special
    if file then
      match body with
      | a :: b :: more =>
        if isBar a && isBar b then
          match fileOf more with
          | .error e => .error e
          | .ok (host, route) => .ok (finish none host none route)
        else .ok (finish none none none (routeOf true true body))
      | _ => .ok (finish none none none (routeOf true true body))
    else if special || body.take 2 == ['/', '/'] then
      let rest := if special then body.dropWhile isBar else body.drop 2
      match authorityOf scheme special (rest.takeWhile (! isBar ·)) with
      | .error e => .error e
      | .ok a =>
        let route := routeOf special false (rest.dropWhile (! isBar ·))
        .ok (finish a.user a.host a.portNumber route)
    else if body.head? = some '/' then .ok (finish none none none (routeOf false false body))
    else .ok (finish none none none (.plain (escape (fun _ => false) body)))

def ofText (s : String) : Except Fault Url := ofChars s.toList

/-! ## Paths of files -/

/-- The bytes end in the name of a drive. -/
def endsInDrive (bytes : List UInt8) : Bool :=
  match bytes.reverse with
  | d :: c :: _ :: _ => (d == 0x3a || d == 0x7c) && (Char.ofNat c.toNat).isAlpha && c < 0x80
  | _ => false

/-- The path that a URL without a host stands for. A drive at its end is a directory. -/
def filePath? (u : Url) : Option Files.Path :=
  match u.host, u.route with
  | none, .segments list =>
    let bytes := list.flatMap fun s => Files.slash :: unescape s
    some ⟨if endsInDrive bytes then bytes ++ [Files.slash] else bytes⟩
  | _, _ => none

end Url

end ModelDepot
