import ModelDepot.Url.Escape

/-! # Hosts

A host is a domain or an address. A name that ends in a number must be an address of four numbers,
which may be written with fewer parts, in octal or in hexadecimal; one in brackets is an address of
eight pieces.
-/

namespace ModelDepot

namespace Url

/-- What is wrong with a URL. -/
inductive Fault where
  | emptyHost
  | invalidDomain
  | invalidPort
  | invalidIpv4
  | invalidIpv6
  | invalidCharacter
  | relative
  deriving DecidableEq, Repr

namespace Fault

def text : Fault → String
  | emptyHost => "empty host"
  | invalidDomain => "invalid international domain name"
  | invalidPort => "invalid port number"
  | invalidIpv4 => "invalid IPv4 address"
  | invalidIpv6 => "invalid IPv6 address"
  | invalidCharacter => "invalid domain character"
  | relative => "relative URL without a base"

end Fault

/-- A host. -/
inductive Host where
  | domain (name : List Char)
  | ipv4 (address : Nat)
  | ipv6 (pieces : List Nat)
  deriving DecidableEq, Repr

namespace Host

/-- The parts between separators; there is always at least one. -/
def split (isSeparator : Char → Bool) : List Char → List (List Char)
  | [] => [[]]
  | c :: rest =>
    if isSeparator c then [] :: split isSeparator rest
    else
      match split isSeparator rest with
      | [] => [[c]]
      | p :: ps => (c :: p) :: ps

/-! ## Addresses of four numbers -/

/-- A digit's value in a base of at most sixteen. -/
def digitIn? (base : Nat) (c : Char) : Option Nat := (hexValue? c).filter (· < base)

/-- The number that digits of a base spell; no digits spell zero. -/
def number? (base : Nat) (cs : List Char) : Option Nat :=
  cs.foldl (fun n? c => n?.bind fun n => (digitIn? base c).map fun d => n * base + d) (some 0)

def ipv4Number? : List Char → Option Nat
  | [] => none
  | '0' :: 'x' :: cs => number? 16 cs
  | '0' :: 'X' :: cs => number? 16 cs
  | '0' :: c :: cs => number? 8 (c :: cs)
  | cs => number? 10 cs

/-- The parts of a name between dots, without an empty one at the end. -/
def dotParts (cs : List Char) : List (List Char) :=
  let ps := split (· == '.') cs
  if ps.length ≠ 1 ∧ ps.getLast? = some [] then ps.dropLast else ps

def endsInNumber (cs : List Char) : Bool :=
  match (dotParts cs).getLast? with
  | none => false
  | some p => (! p.isEmpty && p.all Char.isDigit) || (ipv4Number? p).isSome

/-- The address that a name ending in a number spells. The last number fills all the places that are
left. -/
def ipv4? (cs : List Char) : Option Nat :=
  let ps := dotParts cs
  if 4 < ps.length then none
  else
    match ps.mapM ipv4Number? with
    | none => none
    | some ns =>
      match ns.getLast? with
      | none => none
      | some last =>
        let first := ns.dropLast
        if Nat.pow 256 (4 - first.length) ≤ last ∨ first.any (255 < ·) then none
        else
          let high := first.foldl (fun n m => n * 256 + m) 0
          some (high * Nat.pow 256 (4 - first.length) + last)

/-- The text of an address of four numbers. -/
def ipv4Text (n : Nat) : List Char :=
  (String.intercalate "." ([n / 0x100_0000, n / 0x1_0000 % 256, n / 256 % 256, n % 256].map toString)).toList

/-! ## Addresses of eight pieces -/

/-- One piece: one to four hexadecimal digits. -/
def ipv6Piece? (cs : List Char) : Option Nat :=
  if cs.isEmpty ∨ 4 < cs.length then none else number? 16 cs

/-- A number of an address in dotted form inside an address of pieces: no leading zero, below 256. -/
def dottedNumber? (cs : List Char) : Option Nat :=
  if cs.isEmpty ∨ 3 < cs.length ∨ (1 < cs.length ∧ cs.head? = some '0') then none
  else (number? 10 cs).filter (· < 256)

/-- The pieces between colons; the last may be an address in dotted form, which counts as two. -/
def ipv6Run? (allowDotted : Bool) (cs : List Char) : Option (List Nat) :=
  if cs.isEmpty then some []
  else
    let ps := split (· == ':') cs
    match ps.getLast? with
    | none => none
    | some last =>
      if allowDotted && last.contains '.' then
        match ps.dropLast.mapM ipv6Piece?, (split (· == '.') last).mapM dottedNumber? with
        | some ns, some [a, b, c, d] => some (ns ++ [a * 256 + b, c * 256 + d])
        | _, _ => none
      else ps.mapM ipv6Piece?

/-- The text before and after the first pair of colons. -/
def splitPair : List Char → Option (List Char × List Char)
  | ':' :: ':' :: rest => some ([], rest)
  | c :: rest => (splitPair rest).map fun (a, b) => (c :: a, b)
  | [] => none

/-- The eight pieces that a text spells; a pair of colons stands for the zeros that are missing. -/
def ipv6? (cs : List Char) : Option (List Nat) :=
  match splitPair cs with
  | none =>
    match ipv6Run? true cs with
    | some ns => if ns.length = 8 then some ns else none
    | none => none
  | some (a, b) =>
    match ipv6Run? false a, ipv6Run? true b with
    | some xs, some ys =>
      if xs.length + ys.length < 8 then
        some (xs ++ List.replicate (8 - xs.length - ys.length) 0 ++ ys)
      else none
    | _, _ => none

/-- The lengths of the runs of zeros that begin at each piece. -/
def zeroRuns : List Nat → List Nat
  | [] => []
  | n :: rest =>
    let runs := zeroRuns rest
    (if n = 0 then runs.headD 0 + 1 else 0) :: runs

/-- Pieces as text, with colons between them. -/
def piecesText (ns : List Nat) : String :=
  String.intercalate ":" (ns.map fun n => String.ofList (Nat.toDigits 16 n))

/-- The text of an address of eight pieces: the first of the longest runs of zeros is left out if it
has more than one. -/
def ipv6Text (ns : List Nat) : List Char :=
  let runs := zeroRuns ns
  let longest := runs.foldl max 0
  let text :=
    if longest < 2 then piecesText ns
    else
      let start := runs.idxOf longest
      piecesText (ns.take start) ++ "::" ++ piecesText (ns.drop (start + longest))
  ('[' :: text.toList) ++ [']']

/-! ## Hosts -/

/-- The characters that no domain can hold. -/
def isForbidden (c : Char) : Bool :=
  c.toNat ≤ 0x20 || c.toNat == 0x7f ||
    ['%', '#', '/', ':', '<', '>', '?', '@', '[', '\\', ']', '^', '|'].contains c

/-- Reads the host of a scheme that knows domains. Names beyond ASCII are taken as they are: they are not mapped to
the ASCII form that international names have. -/
def ofChars (cs : List Char) : Except Fault Host :=
  match cs with
  | '[' :: rest =>
    if rest.getLast? = some ']' then
      match ipv6? rest.dropLast with
      | some ns => .ok (.ipv6 ns)
      | none => .error .invalidIpv6
    else .error .invalidIpv6
  | _ =>
    match Text.ofUtf8? (unescape cs) with
    | none => .error .invalidDomain
    | some s =>
      let name := s.toList.map Char.toLower
      if name.any isForbidden then .error .invalidDomain
      else if name.isEmpty then .error .emptyHost
      else if endsInNumber name then
        match ipv4? name with
        | some n => .ok (.ipv4 n)
        | none => .error .invalidIpv4
      else .ok (.domain name)

/-- Reads the host of a scheme that knows no domains: escapes and case stay. -/
def opaqueOfChars (cs : List Char) : Except Fault Host :=
  match cs with
  | '[' :: _ => ofChars cs
  | _ =>
    if cs.any fun c => c ≠ '%' && c.toNat ≠ 0x7f && (c.toNat = 0 || c == ' ' || c == '\t' ||
        c == '\n' || c == '\r' || (isForbidden c && 0x20 < c.toNat)) then .error .invalidCharacter
    else .ok (.domain (escape (fun _ => false) cs))

def text : Host → List Char
  | domain name => name
  | ipv4 n => ipv4Text n
  | ipv6 ns => ipv6Text ns

end Host

end Url

end ModelDepot
