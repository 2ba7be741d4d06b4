import BulkPaths.Assoc
import BulkPaths.Decimal.Numeral
import BulkPaths.GraphFile
import BulkPaths.Log

/-!
Command line arguments. Options may be cut short as long as one option fits, and a value may follow
after a space or an equals sign.
-/

namespace BulkPaths

inductive Switch
  | verbose
  | logJson
  | sample
  | parallel
  | stopWhenReached
  deriving DecidableEq, Repr

inductive Setting
  | logLevel
  | edges
  | format
  | source
  | target
  | weightProperty
  | defaultWeight
  | workers
  | maxSupersteps
  | exportJson
  | plot
  deriving DecidableEq, Repr

inductive CommandOption
  | help
  | switch (switch : Switch)
  | setting (setting : Setting)
  deriving DecidableEq, Repr

namespace CommandOption

def names : List (String × CommandOption) :=
  [("-h", .help), ("--help", .help), ("--verbose", .switch .verbose),
    ("--log-json", .switch .logJson), ("--log-level", .setting .logLevel),
    ("--edges", .setting .edges), ("--example", .switch .sample), ("--format", .setting .format),
    ("--source", .setting .source), ("--target", .setting .target),
    ("--weight-property", .setting .weightProperty),
    ("--default-weight", .setting .defaultWeight), ("--workers", .setting .workers),
    ("--parallel", .switch .parallel), ("--max-supersteps", .setting .maxSupersteps),
    ("--stop-when-reached", .switch .stopWhenReached), ("--export-json", .setting .exportJson),
    ("--plot", .setting .plot)]

end CommandOption

inductive Token
  | given (option : CommandOption) (value : Option String)
  | unknown
  | word (text : String)
  | separator
  deriving DecidableEq, Repr

inductive Refusal
  | help
  | usage
  deriving DecidableEq, Repr

def Refusal.exitCode : Refusal → Nat
  | .help => 0
  | .usage => 2

namespace Token

/-- Splits at the first equals sign. -/
def cutValue (cs : List Char) : List Char × Option String :=
  let front := cs.takeWhile (· != '=')
  match cs.drop front.length with
  | [] => (front, none)
  | _ :: value => (front, some (String.ofList value))

/-- A minus sign and digits, perhaps with a point before the last of them. -/
def isNegativeNumber : List Char → Bool
  | '-' :: rest =>
    let tail := (rest.dropWhile Text.isDigit)
    match tail with
    | [] => !rest.isEmpty
    | ['\n'] => rest.length ≠ 1
    | '.' :: digits => VertexId.isUnsigned (VertexId.dropFinalNewline digits)
    | _ => false
  | _ => false

/-- The one long option that begins with the given text. -/
def abbreviated (cs : List Char) : List CommandOption :=
  (CommandOption.names.filter fun entry => cs.isPrefixOf entry.1.toList).map Prod.snd

/-- `-h` may be repeated within one argument, once after an equals sign; anything else after it is a
value that it does not take. -/
def shortHelp (letters : List Char) : Token :=
  let repeated :=
    match letters with
    | '=' :: more => !more.isEmpty && more.all (· == 'h')
    | _ => letters.all (· == 'h')
  .given .help (if repeated then none else some (String.ofList letters))

/-- A text that begins with a minus sign and is no option may still be a word. -/
def wordOrUnknown (text : String) : Token :=
  if isNegativeNumber text.toList ∨ ' ' ∈ text.toList then .word text else .unknown

def ofDashed (text : String) : Except Refusal Token :=
  let (front, value) := cutValue text.toList
  match Assoc.get? text CommandOption.names, text.toList with
  | some option, _ => .ok (.given option none)
  | none, '-' :: 'h' :: letters => .ok (shortHelp letters)
  | none, '-' :: '-' :: _ =>
    match Assoc.get? (String.ofList front) CommandOption.names, abbreviated front with
    | some option, _ | none, [option] => .ok (.given option value)
    | none, _ :: _ :: _ => .error .usage
    | none, [] => .ok (wordOrUnknown text)
  | none, _ => .ok (wordOrUnknown text)

def ofArgument (text : String) : Except Refusal Token :=
  match text.toList with
  | ['-', '-'] => .ok .separator
  | '-' :: _ :: _ => ofDashed text
  | _ => .ok (.word text)

/-- After a separator every argument is a word. -/
def scan : List String → Except Refusal (List Token)
  | [] => .ok []
  | text :: rest => do
    match ← ofArgument text with
    | .separator => .ok (.separator :: rest.map .word)
    | token =>
      let tokens ← scan rest
      .ok (token :: tokens)

end Token

structure Arguments where
  switches : List Switch
  settings : List (Setting × String)
  surplus : Bool
  deriving Repr

namespace Arguments

def start : Arguments := { switches := [], settings := [], surplus := false }

def has (a : Arguments) (switch : Switch) : Bool := a.switches.contains switch

def get? (a : Arguments) (setting : Setting) : Option String := Assoc.get? setting a.settings

def text (a : Arguments) (setting : Setting) (fallback : String) : String :=
  (a.get? setting).getD fallback

def int? (text : String) : Option Int := (Decimal.readInt text.toList).toOption

def int (a : Arguments) (setting : Setting) (fallback : Int) : Int :=
  ((a.get? setting).bind int?).getD fallback

def admits (setting : Setting) (value : String) : Bool :=
  match setting with
  | .logLevel => (LogLevel.ofName? value).isSome
  | .format => (FileFormat.ofName? value).isSome
  | .workers | .maxSupersteps => (int? value).isSome
  | _ => true

/-- Edges and the sample exclude each other. -/
def consistent (a : Arguments) : Bool := !(a.has .sample && (a.get? .edges).isSome)

def addSetting (a : Arguments) (setting : Setting) (value : String) : Except Refusal Arguments :=
  let added := { a with settings := Assoc.put setting value a.settings }
  if admits setting value && added.consistent then .ok added else .error .usage

def addSwitch (a : Arguments) (switch : Switch) : Except Refusal Arguments :=
  let added := { a with switches := switch :: a.switches }
  if added.consistent then .ok added else .error .usage

def collect : List Token → Arguments → Except Refusal Arguments
  | [], a => .ok a
  | .given .help none :: _, _ => .error .help
  | .given .help (some _) :: _, _ => .error .usage
  | .given (.switch switch) none :: rest, a => do
    let a ← a.addSwitch switch
    collect rest a
  | .given (.switch _) (some _) :: _, _ => .error .usage
  | .given (.setting setting) (some value) :: rest, a => do
    let a ← a.addSetting setting value
    collect rest a
  | .given (.setting setting) none :: .word value :: rest, a => do
    let a ← a.addSetting setting value
    collect rest a
  | .given (.setting _) none :: _, _ => .error .usage
  | _ :: rest, a => collect rest { a with surplus := true }

/-- Edges or the sample are needed, and nothing may be left over. -/
def parse (arguments : List String) : Except Refusal Arguments := do
  let a ← collect (← Token.scan arguments) start
  if a.surplus then .error .usage
  else if a.has .sample || (a.get? .edges).isSome then .ok a
  else .error .usage

def usageText : String :=
  "usage: bulk-paths (--edges FILE | --example) --source ID --target IDS [options]\n"

def helpText : String :=
  usageText ++ "\nVertex-centric (BSP) single-source shortest paths\n\n" ++
  "  --edges FILE             edges as CSV, JSONL or GraphML\n" ++
  "  --example                print a sample edge list\n" ++
  "  --format FORMAT          csv, jsonl or graphml; else the file name decides\n" ++
  "  --source ID              source vertex\n" ++
  "  --target IDS             target vertices between commas, or * for all\n" ++
  "  --weight-property NAME   edge property that holds the weight\n" ++
  "  --default-weight NUMBER  weight of edges without that property\n" ++
  "  --workers COUNT          number of workers\n" ++
  "  --parallel               run the workers side by side\n" ++
  "  --max-supersteps COUNT   bound on the supersteps, 0 for none\n" ++
  "  --stop-when-reached      stop once every target has been reached\n" ++
  "  --export-json FILE       write the summary to a file\n" ++
  "  --plot FILE              write a drawing of the shortest paths to a file\n" ++
  "  --log-level LEVEL        debug, info or warning\n" ++
  "  --log-json               log to standard output, as JSON\n" ++
  "  --verbose                say more about the job and its failures\n"

end Arguments

end BulkPaths
