import Workbench.Ordered

/-!
# The command line

A command line names a command and its options. An option that takes a value
takes it behind `=` or as the next word, unless that word looks like an option
itself. No option may be given twice.
-/

namespace Workbench.CommandLine

structure Target where
  root : String
  noIgnore : Bool
deriving DecidableEq, Repr

structure SingleCall where
  method : String
  params : String
  paramsFile : Option String
  id : String
deriving DecidableEq, Repr

inductive Command where
  | serve (target : Target)
  | serveTool (target : Target)
  | request (target : Target) (call : SingleCall)
deriving DecidableEq, Repr

/-- Why a command line does not name a command to run. Asking for help or for the version is one reason. -/
inductive Usage where
  | help | version | nothingGiven
  | unknownCommand | unknownOption | missingOption | repeatedOption
  | badValue | needlessValue
deriving DecidableEq, Repr

/-! ## Options -/

inductive OptionKind where
  | switch
  | text
  | path
deriving DecidableEq, Repr

structure OptionSpec where
  name : String
  kind : OptionKind
deriving DecidableEq, Repr

def targetOptions : List OptionSpec := [⟨"root", .path⟩, ⟨"no-ignore", .switch⟩]

def requestOptions : List OptionSpec :=
  targetOptions ++ [⟨"method", .text⟩, ⟨"params", .text⟩, ⟨"params-file", .path⟩, ⟨"id", .text⟩]

/-! ## Words -/

/-- What a word of the command line is. -/
inductive Word where
  | plain
  /-- `--`, behind which there are no options. -/
  | divider
  | help
  | option (spec : OptionSpec) (value : Option String)
deriving DecidableEq, Repr

/-- A long option as its name and what stands behind the first `=`. -/
def splitValue (cs : List Char) : String × Option String :=
  match cs.dropWhile (· != '=') with
  | _ :: value => (.ofList (cs.takeWhile (· != '=')), some (.ofList value))
  | [] => (.ofList cs, none)

def longWord (specs : List OptionSpec) (name : String) (value : Option String) : Except Usage Word :=
  if name = "help" then if value.isSome then .error .needlessValue else .ok .help
  else
    match specs.find? (·.name == name) with
    | none => .error .unknownOption
    | some s => if s.kind == .switch && value.isSome then .error .needlessValue else .ok (.option s value)

def classify (specs : List OptionSpec) (word : String) : Except Usage Word :=
  match word.toList with
  | ['-', '-'] => .ok .divider
  | '-' :: '-' :: cs =>
    let (name, value) := splitValue cs
    longWord specs name value
  | '-' :: c :: _ => if c == 'h' then .ok .help else .error .unknownOption
  | _ => .ok .plain

/-! ## Reading options -/

abbrev Given := List (String × String)

def give (given : Given) (s : OptionSpec) (value : String) : Except Usage Given :=
  if (given.lookup s.name).isSome then .error .repeatedOption
  else if s.kind == .path && value = "" then .error .badValue
  else .ok ((s.name, value) :: given)

/-- An option that still waits for its value, or whose value has not been looked at. -/
inductive Pending where
  | none
  | waiting (spec : OptionSpec)
  | filled (spec : OptionSpec) (value : String)
deriving DecidableEq, Repr

def settle (given : Given) : Pending → Except Usage Given
  | .none => .ok given
  | .waiting _ => .error .badValue
  | .filled s value => give given s value

/-- Reads options. A word that cannot be read at all is reported before the value that is pending. -/
def readOptions (specs : List OptionSpec) (given : Given) (pending : Pending) : List String → Except Usage Given
  | [] => settle given pending
  | word :: rest => do
    match ← classify specs word, pending with
    | .plain, .waiting s => readOptions specs given (.filled s word) rest
    | .plain, _ => throw .unknownOption
    | .divider, _ => if rest.isEmpty then settle given pending else throw .unknownOption
    | .help, _ =>
      let _ ← settle given pending
      throw .help
    | .option s value, _ =>
      let given ← settle given pending
      match value with
      | some v => readOptions specs (← give given s v) .none rest
      | none =>
        if s.kind = .switch then readOptions specs (← give given s "") .none rest
        else readOptions specs given (.waiting s) rest

/-! ## Commands -/

def target (given : Given) : Target := ⟨(given.lookup "root").getD ".", (given.lookup "no-ignore").isSome⟩

def singleCall (given : Given) : Except Usage SingleCall :=
  match given.lookup "method" with
  | none => .error .missingOption
  | some method =>
    .ok ⟨method, (given.lookup "params").getD "\x7b\x7d", given.lookup "params-file", (given.lookup "id").getD "1"⟩

def readRequest (words : List String) : Except Usage Command := do
  let given ← readOptions requestOptions [] .none words
  return .request (target given) (← singleCall given)

def commandNames : List String := ["serve", "mcp-serve", "request", "help"]

/-- Asks for help on a command, which has to be one; commands have no commands of their own. -/
def readHelp : List String → Usage
  | [] => .help
  | [name] => if commandNames.contains name then .help else .unknownCommand
  | _ => .unknownCommand

/-- A first word that is no command. -/
def notCommand (word : String) (rest : List String) : Usage :=
  match word.toList with
  | ['-', '-'] =>
    match rest with
    | [] => .nothingGiven
    | name :: _ => if commandNames.contains name then .unknownOption else .unknownCommand
  | '-' :: '-' :: cs =>
    let (name, value) := splitValue cs
    if name ≠ "help" ∧ name ≠ "version" then .unknownOption
    else if value.isSome then .needlessValue
    else if name = "help" then .help
    else .version
  | '-' :: c :: _ => if c == 'h' then .help else if c == 'V' then .version else .unknownOption
  | _ => .unknownCommand

def read : List String → Except Usage Command
  | [] => .error .nothingGiven
  | word :: rest =>
    match word with
    | "serve" => (readOptions targetOptions [] .none rest).map fun given => .serve (target given)
    | "mcp-serve" => (readOptions targetOptions [] .none rest).map fun given => .serveTool (target given)
    | "request" => readRequest rest
    | "help" => .error (readHelp rest)
    | _ => .error (notCommand word rest)

end Workbench.CommandLine
