import CanisterShell.Document.Json
import CanisterShell.Document.Toml
import CanisterShell.Document.Yaml
import CanisterShell.Error

/-!
# Documents of plain data

A document is JSON, YAML or TOML.  Its format is told by the extension of its file, or else by how
it begins.
-/

namespace CanisterShell.Document

inductive Format where
  | json | yaml | toml
  deriving DecidableEq

namespace Format

def name : Format → String
  | json => "json"
  | yaml => "yaml"
  | toml => "toml"

def ofName? (name : String) : Option Format := [json, yaml, toml].find? fun f => f.name = name

def ofExtension? (extension : String) : Option Format :=
  if extension = ".json" then some json
  else if extension = ".yaml" || extension = ".yml" then some yaml
  else if extension = ".toml" then some toml
  else none

def ofPath? (path : File.Path) : Option Format :=
  ofExtension? (String.ofList (path.suffix.toList.map Char.toLower))

/-- A line that sets a key as TOML does: an equals sign without a colon before it. -/
def isAssignment (line : String) : Bool :=
  let before := line.toList.takeWhile (· ≠ '=')
  before.length < line.length && !before.contains ':'

/-- The first line that is neither blank nor a comment. -/
def firstLine (text : String) : String :=
  ((Text.lines text).map Text.trim |>.find? fun l => l ≠ "" && l.toList.head? ≠ some '#').getD ""

/-- The format that the beginning of a document tells: a brace or bracket is JSON, a table or an
assignment is TOML, and all else is YAML. -/
def ofText (text : String) : Format :=
  let text := String.ofList (Text.trimLeft text.toList)
  match text.toList.head? with
  | some '\x7b' | some '[' => json
  | _ =>
    let line := firstLine text
    if line.toList.head? = some '[' || isAssignment line then toml else yaml

/-- The format of a document, told by its path, or else by its text. -/
def detect? (path? text? : Option String) : Option Format :=
  let ofPath := path?.bind fun p => if p = "" then none else ofPath? (.ofText p)
  ofPath <|> text?.map ofText

def read? : Format → String → Option Datum
  | json => Json.read?
  | yaml => Yaml.read?
  | toml => Toml.read?

end Format

def readAs (format : Format) (text : String) : Attempt Datum :=
  match format.read? text with
  | some d => .ok d
  | none => .error (.config (.badDocument format.name))

/-- Reads a document of a named format, or of the format that it shows. -/
def read (format? : Option String) (text : String) : Attempt Datum :=
  match format? with
  | none => readAs (.ofText text) text
  | some "" => readAs (.ofText text) text
  | some name =>
    match Format.ofName? name with
    | some format => readAs format text
    | none => .error (.config (.unknownFormat name))

/-- The data that a source means: the file of that name, if it ends like one and is on one line, or
else the document that it is. -/
def load (disk : File.Disk) (base : File.Path) (source : String) : Attempt Datum :=
  match Format.ofPath? (.ofText source) with
  | some format =>
    if source.contains '\n' then read none source
    else
      let path := base.join (.ofText source)
      match disk.read path with
      | .error failure => .error (.config (.cannotReadConfig path failure))
      | .ok bytes =>
        match File.Disk.textOf? bytes with
        | some text => readAs format text
        | none => .error (.fault .notUtf8)
  | none => read none source

end CanisterShell.Document
