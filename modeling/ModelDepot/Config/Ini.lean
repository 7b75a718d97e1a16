import ModelDepot.Config.Scan
import ModelDepot.Config.Value
import ModelDepot.Text.Blank

/-! # INI documents

A document has keys with texts, and sections of them. A key goes up to an equals sign or a colon, its
text up to the end of the line. Comments begin at the start of a line.
-/

namespace ModelDepot

namespace Config

namespace Ini

open Scan Text

/-- What an escape stands for; its backslash has been read. An escaped end of a line stands for nothing,
and a letter without a meaning for itself. -/
def escape : Scan (List Char) := do
  let c ← next
  if c = 'x' then return [← charOf (← hexNumber 4 0)]
  if c = '\n' then return []
  return [([('0', '\x00'), ('a', '\x07'), ('b', '\x08'), ('t', '\t'), ('r', '\r'),
    ('n', '\n')].lookup c).getD c]

/-- What precedes the next of some characters, or the end of the text if that will do. -/
def upTo (ends : List Char) (orEnd : Bool) : Nat → Scan (List Char)
  | 0 => failure
  | n + 1 => do
    match ← peek? with
    | none => if orEnd then return [] else failure
    | some c =>
      if ends.contains c then return []
      let _ ← next
      if c = '\\' then
        let cs ← escape
        return cs ++ (← upTo ends orEnd n)
      else return c :: (← upTo ends orEnd n)

def lineRest (n : Nat) : Scan (List Char) := upTo ['\n', '\r'] true n

def trim (cs : List Char) : String :=
  String.ofList (skipBlanks (skipBlanks cs).reverse).reverse

/-- The text of a key, which may stand between marks. Blanks around it do not count, even between
marks. -/
def value (n : Nat) : Scan String := do
  let _ ← span fun c => isBlank c && c != '\n' && c != '\r'
  let quoted ← if ← takes "\"" then upTo ['"'] false n <* take "\""
    else if ← takes "'" then upTo ['\''] false n <* take "'"
    else pure []
  return trim (quoted ++ (← lineRest n))

/-- Sets a key of a section, or of the document. -/
def setKey (inside : Option String) (key text : String) (root : Table) : Table :=
  match inside with
  | none => Table.set key (.text text) root
  | some s =>
    Table.set s (.table (Table.set key (.text text) ((root.lookup s).getD .nothing).members)) root

/-- What follows in a document. A section that comes again replaces the one before; `fresh` says that a
line starts here. -/
def document (n : Nat) : Nat → Bool → Option String → Table → Scan Table
  | 0, _, _, _ => failure
  | k + 1, fresh, inside, root => do
    let blanks ← span isBlank
    match ← peek? with
    | none => return root
    | some c =>
      if c = ';' || c = '#' then
        if (blanks.getLast?.map (· == '\n')).getD fresh then
          let _ ← span (· != '\n')
          let _ ← takes "\n"
          document n k true inside root
        else failure
      else if c = '[' then
        let _ ← next
        let name := trim (← upTo [']'] false n)
        let _ ← next
        document n k false (some name) (Table.set name (.table []) root)
      else
        let key := trim (← upTo ['=', ':'] false n)
        if key.isEmpty then failure
        let _ ← next
        let text ← value n
        document n k false inside (setKey inside key text root)

def ofText? (s : String) : Option Table :=
  let cs := s.toList
  Scan.whole? (document (cs.length + 1) (cs.length + 1) true none []) cs

end Ini

end Config

end ModelDepot
