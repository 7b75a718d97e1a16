import ModelDepot.Json.Document
import ModelDepot.Json.Literal

/-! # Reading a JSON text

The reader is a machine that takes one byte at a time. Its state holds the containers that are open,
innermost first, what may come next, and the token under way; reading is a fold over the bytes.
-/

namespace ModelDepot

namespace Json

namespace Reader

/-- A container that is still open, its parts newest first. The members of an object are absent once a
key was not Unicode. -/
inductive Frame where
  | array (items : List Document)
  | object (members : Option (List (String × Document)))
  | member (members : Option (List (String × Document))) (key : Option String)

/-- What may come next between tokens. -/
inductive Expecting where
  | value
  | valueOrEnd
  | key
  | keyOrEnd
  | colon
  | afterValue
  deriving DecidableEq

/-- How far a quoted text has got into an escape. -/
inductive Escape where
  | none
  | start
  | hex (missing : Nat)
  deriving DecidableEq

/-- The token under way. `bytes` are newest first. -/
inductive Token where
  | none
  | word (rest : List UInt8) (value : Document)
  | number (bytes : List UInt8)
  | text (isKey : Bool) (escape : Escape) (bytes : List UInt8)

/-- The state of the reader; `result` is the value of the whole text once it is complete. -/
structure State where
  frames : List Frame
  expecting : Expecting
  token : Token
  result : Option Document

def start : State := ⟨[], .value, .none, none⟩

def isBlank (b : UInt8) : Bool := b = 0x20 || b = 0x0a || b = 0x0d || b = 0x09

/-- The bytes that a number may be spelled with. -/
def isNumberByte (b : UInt8) : Bool :=
  (0x30 ≤ b && b ≤ 0x39) || b = 0x2b || b = 0x2d || b = 0x2e || b = 0x65 || b = 0x45

/-- A finished value goes to the container around it. -/
def State.put (s : State) (d : Document) : State :=
  match s.frames with
  | [] => { s with token := .none, expecting := .afterValue, result := some d }
  | .array items :: outer =>
    { s with token := .none, expecting := .afterValue, frames := .array (d :: items) :: outer }
  | .member members key :: outer =>
    let members := match members, key with
      | some ms, some k => some ((k, d) :: ms)
      | _, _ => none
    { s with token := .none, expecting := .afterValue, frames := .object members :: outer }
  | .object members :: outer =>
    { s with token := .none, expecting := .afterValue, frames := .object members :: outer }

def State.close (s : State) (d : Document) (outer : List Frame) : State :=
  { s with frames := outer }.put d

def State.open? (s : State) (b : UInt8) : Option State :=
  match b with
  | 0x5b => some { s with frames := .array [] :: s.frames, expecting := .valueOrEnd }
  | 0x7b => some { s with frames := .object (some []) :: s.frames, expecting := .keyOrEnd }
  | 0x22 => some { s with token := .text false .none [] }
  | 0x6e => some { s with token := .word [0x75, 0x6c, 0x6c] .null }
  | 0x74 => some { s with token := .word [0x72, 0x75, 0x65] (.bool true) }
  | 0x66 => some { s with token := .word [0x61, 0x6c, 0x73, 0x65] (.bool false) }
  | _ => if isNumberByte b then some { s with token := .number [b] } else none

def State.between (s : State) (b : UInt8) : Option State :=
  if isBlank b then some s
  else match s.expecting, s.frames with
    | .value, _ => s.open? b
    | .valueOrEnd, .array items :: outer =>
      if b = 0x5d then some (s.close (.array items.reverse) outer) else s.open? b
    | .key, _ => if b = 0x22 then some { s with token := .text true .none [] } else none
    | .keyOrEnd, .object members :: outer =>
      if b = 0x7d then some (s.close (members.elim .unreadable (.object ·.reverse)) outer)
      else if b = 0x22 then some { s with token := .text true .none [] }
      else none
    | .colon, _ => if b = 0x3a then some { s with expecting := .value } else none
    | .afterValue, .array items :: outer =>
      if b = 0x2c then some { s with expecting := .value }
      else if b = 0x5d then some (s.close (.array items.reverse) outer)
      else none
    | .afterValue, .object members :: outer =>
      if b = 0x2c then some { s with expecting := .key }
      else if b = 0x7d then some (s.close (members.elim .unreadable (.object ·.reverse)) outer)
      else none
    | _, _ => none

def State.endText (s : State) (isKey : Bool) (bytes : List UInt8) : State :=
  let text := (unescape? bytes.reverse).bind unicode?
  if isKey then
    match s.frames with
    | .object members :: outer =>
      { s with token := .none, expecting := .colon, frames := .member members text :: outer }
    | _ => { s with token := .none, expecting := .colon }
  else s.put (text.elim .unreadable .string)

/-- One byte inside a quoted text. Control characters must be escaped. -/
def State.inText (s : State) (isKey : Bool) (escape : Escape) (bytes : List UInt8) (b : UInt8) :
    Option State :=
  let more (e : Escape) : Option State := some { s with token := .text isKey e (b :: bytes) }
  match escape with
  | .none =>
    if b = 0x22 then some (s.endText isKey bytes)
    else if b = 0x5c then more .start
    else if b < 0x20 then none
    else more .none
  | .start =>
    if b = 0x75 then more (.hex 3) else if (shortEscape? b).isSome then more .none else none
  | .hex missing =>
    match hexDigit? b, missing with
    | none, _ => none
    | some _, 0 => more .none
    | some _, n + 1 => more (.hex n)

def State.endNumber (s : State) (bytes : List UInt8) : Option State :=
  (NumberToken.ofBytes? bytes.reverse).map fun t => s.put (t.toNumber?.elim .unreadable .number)

def State.step (s : State) (b : UInt8) : Option State :=
  match s.token with
  | .none => s.between b
  | .word [] _ => none
  | .word [c] d => if b = c then some (s.put d) else none
  | .word (c :: rest) d => if b = c then some { s with token := .word rest d } else none
  | .number bytes =>
    if isNumberByte b then some { s with token := .number (b :: bytes) }
    else (s.endNumber bytes).bind (·.between b)
  | .text isKey escape bytes => s.inText isKey escape bytes b

/-- The document, if the text is complete. -/
def State.finish (s : State) : Option Document :=
  let s? := match s.token with
    | .number bytes => s.endNumber bytes
    | .none => some s
    | _ => none
  match s? with
  | some ⟨[], .afterValue, .none, result⟩ => result
  | _ => none

def run : Option State → List UInt8 → Option State
  | s, [] => s
  | none, _ => none
  | some s, b :: rest => run (s.step b) rest

end Reader

def Document.ofBytes? (text : List UInt8) : Option Document :=
  (Reader.run (some Reader.start) text).bind (·.finish)

def ofBytes? (text : List UInt8) : Option Json :=
  (Document.ofBytes? text).bind (·.toJson? Document.maxDepth)

end Json

end ModelDepot
