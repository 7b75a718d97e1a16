import ModelDepot.Config.Value

/-! # Keys

A key may be a path into tables and lists: names with dots between them, and numbers of items in
brackets. Setting a value at a path makes the tables and lists on the way. A key that is not a path
is the name of a member as it stands.
-/

namespace ModelDepot

namespace Config

/-- One step of a path: to a member of a table, or to an item of a list, counted from the end if the
number is negative. -/
inductive Step where
  | member (name : String)
  | item (index : Int)
  deriving DecidableEq, Repr

namespace Step

/-- A character of a name in a path. -/
def isNameChar (c : Char) : Bool :=
  c.isAlphanum || c == '_' || c == '-' || c == ' '

def isGap (c : Char) : Bool := c == ' ' || c == '\t'

/-- The number between brackets, which blanks may surround; it has no plus sign. -/
def index? (cs : List Char) : Option Int :=
  let trimmed := ((cs.dropWhile isGap).reverse.dropWhile isGap).reverse
  if trimmed.head? = some '+' then none else plainInt? 64 (String.ofList trimmed)

end Step

/-- The steps that a text spells after the first name, given at most as many as there are characters. -/
def stepsFrom? : Nat → List Char → Option (List Step)
  | _, [] => some []
  | 0, _ => none
  | n + 1, c :: rest =>
    if c = '.' then
      let name := rest.takeWhile Step.isNameChar
      if name.isEmpty then none
      else (stepsFrom? n (rest.drop name.length)).map (.member (String.ofList name) :: ·)
    else if c = '[' then
      let digits := rest.takeWhile (· != ']')
      match Step.index? digits, rest.drop digits.length with
      | some i, _ :: more => (stepsFrom? n more).map (.item i :: ·)
      | _, _ => none
    else none

def stepsOf (key : String) : List Step :=
  let cs := key.toList
  let name := cs.takeWhile Step.isNameChar
  if name.isEmpty then [.member key]
  else
    match stepsFrom? cs.length (cs.drop name.length) with
    | some steps => .member (String.ofList name) :: steps
    | none => [.member key]

/-- The place of an item in a list of a length. -/
def placeOf (index : Int) (length : Nat) : Nat :=
  if 0 ≤ index then index.toNat else length - index.natAbs

/-- Changes one item of a list, which grows if it is too short. -/
def changeItem (place : Nat) (f : Value → Value) (items : List Value) : List Value :=
  (items ++ List.replicate (place + 1 - items.length) Value.nothing).modify place f

mutual

/-- The value of a member after another one was laid over it: members of tables are laid over each
other, all else is replaced. An empty table changes nothing. -/
def overlay (old : Option Value) : Value → Value
  | .table [] => old.getD (.table [])
  | .table (m :: more) => .table (overlayMembers (old.getD (.table [])).members (m :: more))
  | v => v

/-- The members of a table after others were laid over them. -/
def overlayMembers (old : Table) : List (String × Value) → Table
  | [] => old
  | (k, v) :: rest => overlayMembers (Table.set k (overlay (old.lookup k) v) old) rest

end

/-- A value after another one was set at a path inside it. -/
def setAt (new : Value) : List Step → Value → Value
  | [], _ => new
  | [.member k], v => .table (Table.set k (overlay (v.members.lookup k) new) v.members)
  | .member k :: steps, v =>
    .table (Table.set k (setAt new steps ((v.members.lookup k).getD .nothing)) v.members)
  | .item i :: steps, v =>
    let items := match v with
      | .list items => items
      | _ => []
    .list (changeItem (placeOf i items.length) (setAt new steps) items)

/-- A configuration after settings were laid over it, one after the other. -/
def layer (base : Value) (settings : List (String × Value)) : Value :=
  settings.foldl (fun v m => setAt m.2 (stepsOf m.1) v) base

end Config

end ModelDepot
