import ModelDepot.Json.Reader

/-! # Typed readers of documents

A `Decoder` reads a document as a value of a type, or refuses it; it is given how many more levels of
nesting it may enter. A record is read from an object, by name, or from an array, by position. A
known member may not be repeated, an unknown one is skipped unseen.
-/

namespace ModelDepot

namespace Json

/-- Reads a document, given how many levels it may still enter. -/
abbrev Decoder (α : Type) := Nat → Document → Option α

/-- The single nearest to a double, the even one of two. -/
def nearestSingle (x : Float) : Float32 :=
  .ofModel (.pack (match x.toModel.unpack with
    | .finite sign mantissa exponent _ => .round .binary32 sign mantissa exponent
    | other => other))

namespace Decoder

def free : Decoder Json := Document.toJson?

def text : Decoder String
  | _, .string s => some s
  | _, _ => none

def flag : Decoder Bool
  | _, .bool b => some b
  | _, _ => none

/-- A whole number from `low` to `high`. -/
def whole (low high : Int) : Decoder Int
  | _, .number (.whole n) => if low ≤ n ∧ n ≤ high then some n else none
  | _, _ => none

/-- A whole number of 32 bits with sign. -/
def int32 : Decoder Int := whole (-0x8000_0000) 0x7fff_ffff

/-- A whole number from zero and below `size`. -/
def unsigned (size : Nat) : Decoder Nat :=
  fun depth d => (whole 0 (size - 1) depth d).map Int.toNat

/-- A single: a whole number or a double rounded to it. -/
def single : Decoder Float32
  | _, .number (.whole n) => some (Float32.ofInt n)
  | _, .number (.double x) => some (nearestSingle x)
  | _, .number (.single x) => some x
  | _, _ => none

def nullable {α : Type} (item : Decoder α) : Decoder (Option α)
  | _, .null => some none
  | depth, d => (item depth d).map some

/-- An array of items of one kind. -/
def list {α : Type} (item : Decoder α) : Decoder (List α)
  | depth + 1, .array items => items.mapM (item depth)
  | _, _ => none

/-- An object with values of one kind: keys sorted, the last of equal keys kept. -/
def dictionary : Decoder Members
  | depth + 1, .object ms => (Document.membersToJson? depth ms).map Members.ofList
  | _, _ => none

/-- A name, spelled as a text or as an object with that one key and null. -/
def name {α : Type} (read : String → Option α) : Decoder α
  | _, .string s => read s
  | _ + 1, .object [(s, .null)] => read s
  | _, _ => none

/-- What `item` reads, if `accepts` allows it. -/
def filtered {α : Type} (item : Decoder α) (accepts : α → Bool) : Decoder α :=
  fun depth d => (item depth d).filter accepts

def andThen {α β : Type} (item : Decoder α) (next : α → Option β) : Decoder β :=
  fun depth d => (item depth d).bind next

end Decoder

/-- The parts of a record: those of an object by name, or those of an array in the order of the
record's fields. -/
inductive Parts where
  | named (members : List (String × Document))
  | listed (items : List Document)

/-- A record about to be read: the names of its fields in order, its parts, and how many levels
each part may enter. -/
structure Record where
  fields : List String
  parts : Parts
  depth : Nat

def distinctFields (fields : List String) (ms : List (String × Document)) : Bool :=
  fields.all fun f => (ms.filter (·.1 == f)).length ≤ 1

/-- A record that skips unknown members. It may also be an array, with no more items than fields. -/
def record (fields : List String) : Decoder Record
  | depth + 1, .object ms =>
    if distinctFields fields ms then some ⟨fields, .named ms, depth⟩ else none
  | depth + 1, .array items =>
    if items.length ≤ fields.length then some ⟨fields, .listed items, depth⟩ else none
  | _, _ => none

namespace Record

def part? (r : Record) (field : String) : Option Document :=
  match r.parts with
  | .named ms => ms.lookup field
  | .listed items => items[r.fields.idxOf field]?

def required {α : Type} (r : Record) (field : String) (item : Decoder α) : Option α :=
  (r.part? field).bind (item r.depth)

def withDefault {α : Type} (r : Record) (field : String) (default : α) (item : Decoder α) : Option α :=
  match r.part? field with
  | none => some default
  | some d => item r.depth d

/-- A field that may be null, or missing from an object. -/
def optional {α : Type} (r : Record) (field : String) (item : Decoder α) : Option (Option α) :=
  match r.parts, r.part? field with
  | .named _, none => some none
  | .listed _, none => none
  | _, some d => Decoder.nullable item r.depth d

end Record

/-- A record that keeps unknown members: an object, with the unknown members as free-form values. -/
def openRecord (fields : List String) : Decoder (Record × Members)
  | depth + 1, .object ms =>
    if distinctFields fields ms then
      (Document.membersToJson? depth (ms.filter fun m => ! fields.contains m.1)).map fun more =>
        (⟨fields, .named ms, depth⟩, Members.ofList more)
    else none
  | _, _ => none

/-- Reads the bytes of a text with a decoder. -/
def Decoder.ofBytes? {α : Type} (item : Decoder α) (text : List UInt8) : Option α :=
  (Document.ofBytes? text).bind (item Document.maxDepth)

/-- Reads a value with a decoder; values may nest as deep as they do. -/
def Decoder.ofJson? {α : Type} (item : Decoder α) (v : Json) : Option α :=
  item v.depth v.toDocument

end Json

end ModelDepot
