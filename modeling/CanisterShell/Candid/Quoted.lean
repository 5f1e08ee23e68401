import CanisterShell.Candid.Label
import CanisterShell.Text.Quote

/-!
# Quoted texts, blobs and names

The written form of texts and byte strings in scripts and interfaces, and of names: a name stands
without quotes when it is an identifier and no keyword.
-/

namespace CanisterShell.Candid

/-- The hexadecimal digits of a number, without leading zeros. -/
def hexText (n : Nat) : List Char := Nat.toDigits 16 n

def quoteChar (c : Char) : List Char :=
  if c = '"' then ['\\', '"']
  else if c = '\\' then ['\\', '\\']
  else if c = '\n' then ['\\', 'n']
  else if c = '\r' then ['\\', 'r']
  else if c = '\t' then ['\\', 't']
  else if c.toNat < 0x20 || c.toNat = 0x7F then '\\' :: 'u' :: '\x7b' :: hexText c.toNat ++ ['\x7d']
  else [c]

def quoteText (text : String) : String :=
  String.ofList ('"' :: text.toList.flatMap quoteChar ++ ['"'])

/-- A byte inside a quoted byte string: printable ASCII stands for itself. -/
def quoteByte (b : UInt8) : List Char :=
  if 0x20 ≤ b && b < 0x7F && b ≠ 0x22 && b ≠ 0x5C then [Char.ofNat b.toNat]
  else '\\' :: Bytes.hexPair b

/-- The quoted part of a blob literal. -/
def quoteBytes (bytes : Bytes) : String :=
  String.ofList ('"' :: bytes.flatMap quoteByte ++ ['"'])

def blobText (bytes : Bytes) : String := "blob " ++ quoteBytes bytes

/-- A character that begins an identifier. -/
def isNameStart (c : Char) : Bool := c.isAlpha || c = '_'

/-- A character inside an identifier. -/
def isNameChar (c : Char) : Bool := c.isAlphanum || c = '_'

/-- An identifier, of ASCII letters, digits and underscores. -/
def isIdentifier (name : String) : Bool :=
  match name.toList with
  | [] => false
  | c :: rest => isNameStart c && rest.all isNameChar

/-- Names that are quoted although they are identifiers. -/
def reservedNames : List String := [
  "null", "true", "false", "opt", "vec", "record", "variant", "func",
  "service", "principal", "blob", "type", "import", "let", "assert",
  "identity", "config", "export", "load", "function", "if", "else",
  "while", "call", "encode", "decode", "as", "fail"]

/-- The written form of a name. -/
def nameText (name : String) : String :=
  if isIdentifier name && !reservedNames.contains name then name else quoteText name

/-- The written form of a label. -/
def labelText : Label → String
  | .named name => nameText name
  | .numbered id => toString id

end CanisterShell.Candid
