import ModelDepot.Json.Value

/-! # JSON documents as read

A `Document` is the tree that a text spells, before anyone has said what it is to mean. Members
keep their order and their repeats, and a token that is well formed but has no value (a number
beyond the range of doubles, a text that is not Unicode) is kept as `unreadable`: it is a fault only
for a reader that needs the value.
-/

namespace ModelDepot

namespace Json

/-- A JSON text as read. -/
inductive Document where
  | null
  | bool (b : Bool)
  | number (n : Number)
  | string (s : String)
  | array (items : List Document)
  | object (members : List (String × Document))
  | unreadable
  deriving Inhabited

namespace Document

/-- How many arrays and objects may be entered one inside the other. -/
def maxDepth : Nat := 127

mutual

/-- The value that a document spells: keys sorted, the last of equal keys kept. Fails on a document
that nests deeper than `depth` or holds something unreadable. -/
def toJson? : Nat → Document → Option Json
  | _, .null => some .null
  | _, .bool b => some (.bool b)
  | _, .number n => some (.number n)
  | _, .string s => some (.string s)
  | depth + 1, .array items => (itemsToJson? depth items).map .array
  | depth + 1, .object ms => (membersToJson? depth ms).map (.object ∘ Members.ofList)
  | 0, .array _ => none
  | 0, .object _ => none
  | _, .unreadable => none

def itemsToJson? : Nat → List Document → Option (List Json)
  | _, [] => some []
  | depth, d :: rest =>
    match toJson? depth d, itemsToJson? depth rest with
    | some v, some vs => some (v :: vs)
    | _, _ => none

/-- `toJson?` of each member's value, order and repeats kept. -/
def membersToJson? : Nat → List (String × Document) → Option (List (String × Json))
  | _, [] => some []
  | depth, (k, d) :: rest =>
    match toJson? depth d, membersToJson? depth rest with
    | some v, some vs => some ((k, v) :: vs)
    | _, _ => none

end

end Document

mutual

def toDocument : Json → Document
  | .null => .null
  | .bool b => .bool b
  | .number n => .number n
  | .string s => .string s
  | .array items => .array (itemsToDocuments items)
  | .object ms => .object (membersToDocuments ms)

def itemsToDocuments : List Json → List Document
  | [] => []
  | v :: rest => v.toDocument :: itemsToDocuments rest

def membersToDocuments : List (String × Json) → List (String × Document)
  | [] => []
  | (k, v) :: rest => (k, v.toDocument) :: membersToDocuments rest

end

mutual

/-- How deep the arrays and objects of a value nest. -/
def depth : Json → Nat
  | .array items => itemsDepth items + 1
  | .object ms => membersDepth ms + 1
  | _ => 0

def itemsDepth : List Json → Nat
  | [] => 0
  | v :: rest => max v.depth (itemsDepth rest)

/-- The greatest depth of the members' values. -/
def membersDepth : List (String × Json) → Nat
  | [] => 0
  | (_, v) :: rest => max v.depth (membersDepth rest)

end

end Json

end ModelDepot
