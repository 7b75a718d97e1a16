/-! # JSON values

A `Json` value keeps the members of an object in a list. Free-form values keep them sorted by key,
each key once; `Members.insert` is the operation that preserves that. Records that are written in a
fixed order use the same type with their members as they come.
-/

namespace ModelDepot

namespace Json

/-- A JSON number: a whole number of 64 bits, or a binary fraction of double or single precision. -/
inductive Number where
  | whole (n : Int)
  | double (x : Float)
  | single (x : Float32)
  deriving DecidableEq, Inhabited

namespace Number

/-- Numbers of one kind are compared by value, so the two zeros are the same. -/
def same : Number → Number → Bool
  | whole a, whole b => a == b
  | double a, double b => a == b
  | single a, single b => a == b
  | _, _ => false

end Number

end Json

/-- A JSON value. -/
inductive Json where
  | null
  | bool (b : Bool)
  | number (n : Json.Number)
  | string (s : String)
  | array (items : List Json)
  | object (members : List (String × Json))
  deriving Inhabited

namespace Json

abbrev Members := List (String × Json)

namespace Members

variable {α : Type}

/-- Sets one member, keeping the keys sorted. -/
def insert (key : String) (value : α) : List (String × α) → List (String × α)
  | [] => [(key, value)]
  | (k, v) :: rest =>
    if key < k then (key, value) :: (k, v) :: rest
    else if key = k then (key, value) :: rest
    else (k, v) :: insert key value rest

/-- Sets members one after the other, so that the last of equal keys wins. -/
def extend (base more : List (String × α)) : List (String × α) :=
  more.foldl (fun ms m => insert m.1 m.2 ms) base

/-- The members sorted by key, the last of equal keys kept. -/
def ofList (ms : List (String × α)) : List (String × α) := extend [] ms

def get? (ms : List (String × α)) (key : String) : Option α := ms.lookup key

end Members

def ofNat (n : Nat) : Json := .number (.whole n)

def ofInt (n : Int) : Json := .number (.whole n)

/-- A single as a value; what is not finite has none and is null. -/
def ofSingle (x : Float32) : Json := if x.isFinite then .number (.single x) else .null

def ofText? : Option String → Json
  | none => .null
  | some s => .string s

mutual

/-- The value with the members of every object in it sorted by key. -/
def sorted : Json → Json
  | .array items => .array (sortedItems items)
  | .object ms => .object (Members.ofList (sortedMembers ms))
  | v => v

def sortedItems : List Json → List Json
  | [] => []
  | v :: rest => v.sorted :: sortedItems rest

/-- `sorted` for each member's value, the order of the members kept. -/
def sortedMembers : List (String × Json) → List (String × Json)
  | [] => []
  | (k, v) :: rest => (k, v.sorted) :: sortedMembers rest

end

mutual

/-- Equality of values, numbers compared by value. -/
def same : Json → Json → Bool
  | .null, .null => true
  | .bool a, .bool b => a == b
  | .number a, .number b => a.same b
  | .string a, .string b => a == b
  | .array xs, .array ys => sameItems xs ys
  | .object xs, .object ys => sameMembers xs ys
  | _, _ => false

def sameItems : List Json → List Json → Bool
  | [], [] => true
  | x :: xs, y :: ys => x.same y && sameItems xs ys
  | _, _ => false

def sameMembers : List (String × Json) → List (String × Json) → Bool
  | [], [] => true
  | (k, x) :: xs, (l, y) :: ys => k == l && x.same y && sameMembers xs ys
  | _, _ => false

end

end Json

end ModelDepot
