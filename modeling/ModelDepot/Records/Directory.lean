import ModelDepot.Files.Path
import ModelDepot.Json.Decode
import ModelDepot.Text.Blank

/-! # Directories of records

A data source is a directory whose files are records. Its description is kept as a document.
-/

namespace ModelDepot

open Files (Path)
open Json (Decoder Members record)

namespace Records

/-- The types of the fields of a record, by the name of the field. -/
abbrev Schema := List (String × String)

/-- A description of a directory of records. -/
structure Description where
  name : String
  path : Path
  schema : Option Schema
  deriving DecidableEq, Repr

namespace Description

/-- Reads a schema: keys sorted, the last of equal keys kept. -/
def schemaDecoder : Decoder Schema
  | depth + 1, .object ms =>
    (ms.mapM fun m => (Decoder.text depth m.2).map fun t => (m.1, t)).map Members.ofList
  | _, _ => none

def decoder : Decoder Description := (record ["name", "path", "schema"]).andThen fun r => do
  return {
    name := ← r.required "name" .text
    path := .ofText (← r.required "path" .text)
    schema := ← r.withDefault "schema" none (.nullable schemaDecoder) }

/-- Writes a description. A schema that is absent is left out. -/
def toJson (d : Description) : Json := .object (
  [("name", .string d.name), ("path", .string d.path.text)] ++
  match d.schema with
  | none => []
  | some s => [("schema", .object (s.map fun m => (m.1, .string m.2)))])

end Description

/-- A directory of records. Its name is not blank. -/
structure Directory where
  description : Description
  name_notBlank : Text.allBlank description.name = false

namespace Directory

/-- The text that refuses a blank name. -/
def blankName : String := "datasource name is empty"

/-- The directory of a description, unless its name is blank. -/
def ofDescription? (d : Description) : Option Directory :=
  if h : Text.allBlank d.name = false then some ⟨d, h⟩ else none

def path (d : Directory) : Path := d.description.path

end Directory

end Records

end ModelDepot
