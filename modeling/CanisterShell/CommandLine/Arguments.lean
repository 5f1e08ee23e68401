import CanisterShell.Text.Quote

/-!
# The arguments of the command line

Options stand anywhere, with their values behind them, behind an equals sign, or for short ones
right behind the name; a long name may be cut short.  Two dashes end the options.  What is no
option is first the script and then the messages, which have to stand together.
-/

namespace CanisterShell.CommandLine

/-- An option. -/
inductive Flag where
  | help
  | replica
  | offline
  | config
  deriving DecidableEq

namespace Flag

def all : List Flag := [help, replica, offline, config]

def names : Flag → List String
  | help => ["-h", "--help"]
  | replica => ["-r", "--replica"]
  | offline => ["--offline"]
  | config => ["--config"]

def named? (name : String) : Option Flag := all.find? fun f => f.names.contains name

/-- The options one of whose long names begins so, with that name. -/
def beginning (front : String) : List (Flag × String) :=
  all.flatMap fun f =>
    (f.names.filter fun name => front.toList.isPrefixOf name.toList).map (f, ·)

/-- An option, as complaints name it. -/
def title (f : Flag) : String := "argument " ++ "/".intercalate f.names

end Flag

/-- What a command line asks for. -/
structure Arguments where
  replica? : Option String := none
  offline : Bool := false
  config? : Option String := none
  script? : Option String := none
  messages? : Option String := none
  deriving DecidableEq

/-- A command line that has been read. -/
inductive Command where
  | run (arguments : Arguments)
  | help
  | refuse (complaint : String)

/-! ## Words -/

inductive Word where
  | flag (f : Flag) (given? : Option String)
  | unknown (text : String)
  | plain (text : String)
  | separator

/-- What stands in front of the first equals sign, and what behind it if there is one. -/
def cutAtEquals (text : String) : String × Option String :=
  let front := text.toList.takeWhile (· ≠ '=')
  (String.ofList front,
    if front.length = text.length then none
    else some (String.ofList (text.toList.drop (front.length + 1))))

def isNegativeNumber (text : String) : Bool :=
  match text.toList with
  | '-' :: rest =>
    let whole := rest.takeWhile Char.isDigit
    match rest.drop whole.length with
    | [] => !whole.isEmpty
    | '.' :: digits => !digits.isEmpty && digits.all Char.isDigit
    | _ => false
  | _ => false

/-- The options that a word with a dash in front may mean. -/
def candidates (text : String) : List (Flag × String × Option String) :=
  if "--".toList.isPrefixOf text.toList then
    let (front, given?) := cutAtEquals text
    (Flag.beginning front).map fun (f, name) => (f, name, given?)
  else
    let name := String.ofList (text.toList.take 2)
    match Flag.named? name with
    | some f => [(f, name, some (String.ofList (text.toList.drop 2)))]
    | none => []

/-- A word that begins with a dash and is no name of an option as it stands. -/
def dashed (text : String) : Except String Word :=
  let (front, given?) := cutAtEquals text
  match given?, Flag.named? front with
  | some v, some f => .ok (.flag f (some v))
  | _, _ =>
    match candidates text with
    | [(f, _, given?)] => .ok (.flag f given?)
    | [] =>
      if isNegativeNumber text || text.toList.contains ' ' then .ok (.plain text)
      else .ok (.unknown text)
    | several => .error ("ambiguous option: " ++ text ++ " could match "
        ++ ", ".intercalate (several.map fun (_, name, _) => name))

def classify (text : String) : Except String Word :=
  match Flag.named? text with
  | some f => .ok (.flag f none)
  | none =>
    if text.toList.head? = some '-' && text ≠ "-" then dashed text else .ok (.plain text)

def classifyAll : List String → Except String (List Word)
  | [] => .ok []
  | text :: rest =>
    if text = "--" then .ok (.separator :: rest.map .plain)
    else do return (← classify text) :: (← classifyAll rest)

/-! ## Reading -/

/-- What has been read: `places` are left for words that are no options, which are `closed` once an
option stands behind such a word; `extras` have no place, latest first. -/
structure Reading where
  arguments : Arguments := {}
  places : Nat := 2
  closed : Bool := false
  extras : List String := []

namespace Reading

/-- An option ends the words that stand together. -/
def close (r : Reading) : Reading :=
  if r.places < 2 then { r with places := 0, closed := true } else r

/-- Gives a word its place. -/
def place (text : String) (r : Reading) : Reading :=
  match r.places with
  | 2 => { r with arguments := { r.arguments with script? := some text }, places := 1 }
  | 1 => { r with arguments := { r.arguments with messages? := some text }, places := 0 }
  | _ => { r with extras := text :: r.extras }

/-- Gives an option its value. -/
def assign (f : Flag) (v : String) (r : Reading) : Reading :=
  match f with
  | .replica => { r.close with arguments := { r.arguments with replica? := some v } }
  | .config => { r.close with arguments := { r.arguments with config? := some v } }
  | .offline | .help => r.close

/-- What has been read when nothing is left. -/
def finish (r : Reading) : Command :=
  if r.extras.isEmpty then .run r.arguments
  else .refuse ("unrecognized arguments: " ++ " ".intercalate r.extras.reverse)

/-- The complaint about a value that an option does not take. -/
def ignored (f : Flag) (v : String) : Command :=
  .refuse (f.title ++ ": ignored explicit argument " ++ Text.quoted v)

def go (r : Reading) : List Word → Command
  | [] => r.finish
  | .plain text :: rest => go (r.place text) rest
  | .unknown text :: rest => go { r.close with extras := text :: r.extras } rest
  | .separator :: rest => go (if r.closed then { r with extras := "--" :: r.extras } else r) rest
  | .flag .help none :: _ => .help
  | .flag .offline none :: rest =>
    go { r.close with arguments := { r.arguments with offline := true } } rest
  | .flag .help (some v) :: _ => ignored .help v
  | .flag .offline (some v) :: _ => ignored .offline v
  | .flag f (some v) :: rest => go (r.assign f v) rest
  | .flag f none :: .plain v :: .separator :: rest => go (r.assign f v) rest
  | .flag f none :: .separator :: .plain v :: rest => go (r.assign f v) rest
  | .flag f none :: .plain v :: rest => go (r.assign f v) rest
  | .flag f none :: _ => .refuse (f.title ++ ": expected one argument")

end Reading

def Command.ofWords (argv : List String) : Command :=
  match classifyAll argv with
  | .error complaint => .refuse complaint
  | .ok words => Reading.go {} words

/-! ## What users are told -/

def programName : String := "canrepl"

/-- How the program is called. -/
def usage : String :=
  "usage: " ++ programName ++ " [-h] [-r REPLICA] [--offline] [--config CONFIG] [script]\n"

/-- What the program is and takes. -/
def helpText : String := usage ++ "
Scripting REPL for Candid canisters. Use 'canrepl send FILE' to replay offline
messages.

positional arguments:
  script                Script to run; starts the REPL when omitted

options:
  -h, --help            show this help message and exit
  -r REPLICA, --replica REPLICA
                        Replica to talk to: local, ic or a URL
  --offline             Sign calls without sending them; messages are saved as
                        JSON
  --config CONFIG       Random value configuration (toml, yaml or json file)
"

/-- A complaint about a command line. -/
def complaintText (complaint : String) : String :=
  usage ++ programName ++ ": error: " ++ complaint ++ "\n"

end CanisterShell.CommandLine
