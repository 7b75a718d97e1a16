import ModelDepot.Config.Ini
import ModelDepot.Config.Json5
import ModelDepot.Config.Ron
import ModelDepot.Config.Toml.Document
import ModelDepot.Config.Yaml.Document
import ModelDepot.Json.Reader
import ModelDepot.Text.Utf8

/-! # Formats of configuration files

A file holds a table in one of several formats. A file that holds something else in its format counts as
an empty table.
-/

namespace ModelDepot

namespace Config

/-- A format of configuration files. -/
inductive Format where
  | toml
  | json
  | yaml
  | ini
  | ron
  | json5
  deriving DecidableEq, Repr

mutual

/-- What a JSON value is in a configuration. -/
def ofJson : Json → Value
  | .null => .nothing
  | .bool b => .flag b
  | .number (.whole n) =>
    (wholeOf? n).getD (.fraction (PlainNumber.finite (n < 0) ⟨n.natAbs, 0⟩).toDouble)
  | .number (.double x) => .fraction x
  | .number (.single x) => .fraction x.toFloat
  | .string s => .text s
  | .array items => .list (ofJsonItems items)
  | .object ms => .table (ofJsonMembers ms)

def ofJsonItems : List Json → List Value
  | [] => []
  | v :: rest => ofJson v :: ofJsonItems rest

def ofJsonMembers : List (String × Json) → Table
  | [] => []
  | (k, v) :: rest => (k, ofJson v) :: ofJsonMembers rest

end

namespace Format

def all : List Format := [toml, json, yaml, ini, ron, json5]

/-- The endings of the names of files in a format. -/
def extensions : Format → List String
  | toml => ["toml"]
  | json => ["json"]
  | yaml => ["yaml", "yml"]
  | ini => ["ini"]
  | ron => ["ron"]
  | json5 => ["json5"]

/-- The format of files with an ending. Case counts. -/
def ofExtension? (ending : String) : Option Format := all.find? (·.extensions.contains ending)

def read? (text : String) : Format → Option Value
  | toml => (Toml.ofText? text).map .table
  | json => (Json.ofBytes? (Text.utf8 text)).map ofJson
  | yaml => Yaml.ofText? text
  | ini => (Ini.ofText? text).map .table
  | ron => Ron.ofText? text
  | json5 => Json5.ofText? text

def table? (f : Format) (text : String) : Option Table := (f.read? text).map (·.members)

end Format

end Config

end ModelDepot
