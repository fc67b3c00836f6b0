import ModelHub.Text.Case
import ModelHub.Text.Split

namespace ModelHub.Command

structure ApplyOptions where
  database : String
  event : String
  gitUrl : Option String := none
  checkout : Option String := none
  moderationUrl : Option String := none
  defaultBranch : String := "main"
  deadline : Option Nat := none
  deriving DecidableEq, Repr

inductive Task where
  | load (database file : String)
  | apply (options : ApplyOptions)
  | report (database repository : String)
  deriving DecidableEq, Repr

structure Invocation where
  isDebug : Bool
  hasJsonLogs : Bool
  task : Task
  deriving DecidableEq, Repr

inductive Halt where
  | help
  | misuse (reason : String)
  deriving DecidableEq, Repr

inductive ValueKind where
  | flag
  | text
  | path
  | count
  deriving DecidableEq, Repr

structure OptionSpec where
  name : String
  kind : ValueKind
  variableName : Option String := none
  deriving DecidableEq, Repr

def helpOption : OptionSpec := { name := "help", kind := .flag }

def commonOptions : List OptionSpec :=
  [{ name := "debug", kind := .flag }, { name := "json-logs", kind := .flag }, helpOption]

def letters : List (Char × String) := [('d', "debug"), ('h', "help")]

def databaseOption : OptionSpec :=
  { name := "db", kind := .path, variableName := some "HUBSYNC_DB" }

def gitUrlOption : OptionSpec :=
  { name := "git-url", kind := .text, variableName := some "HUBSYNC_GIT_URL" }

def checkoutOption : OptionSpec := { name := "checkout", kind := .path }

def moderationOption : OptionSpec :=
  { name := "moderation-url", kind := .text, variableName := some "HUBSYNC_MODERATION_URL" }

def branchOption : OptionSpec := { name := "default-branch", kind := .text }

def deadlineOption : OptionSpec := { name := "deadline-secs", kind := .count }

/-- A plus sign may stand before the digits. -/
def count? (text : String) : Option Nat :=
  let digits := match text.toList with
    | '+' :: digits => digits
    | digits => digits
  (Text.readNat? 10 digits).filter fun n =>
    n < UInt64.size && digits.all Text.isDigit

def accepts (kind : ValueKind) (text : String) : Bool :=
  match kind with
  | .flag => true
  | .text => true
  | .path => text ≠ ""
  | .count => (count? text).isSome

structure Given where
  options : List (String × String) := []
  operands : List String := []

namespace Given

def has (given : Given) (name : String) : Bool := (given.options.lookup name).isSome

def addOption (given : Given) (spec : OptionSpec) (value : String) : Except Halt Given :=
  if given.has spec.name then .error (.misuse ("--" ++ spec.name ++ " is given twice"))
  else if accepts spec.kind value then
    .ok { given with options := given.options ++ [(spec.name, value)] }
  else .error (.misuse ("bad value for --" ++ spec.name))

def addFlag (given : Given) (spec : OptionSpec) : Except Halt Given :=
  if spec = helpOption then .error .help else given.addOption spec ""

def addOperand (given : Given) (kind : ValueKind) (value : String) : Except Halt Given :=
  if !given.operands.isEmpty then .error (.misuse ("unexpected argument " ++ value))
  else if accepts kind value then .ok { given with operands := [value] }
  else .error (.misuse "an argument is empty")

end Given

/-- A lone dash is a value like any other. -/
def looksLikeOption (argument : String) : Bool :=
  argument.toList.head? = some '-' && argument ≠ "-"

inductive Reading where
  | divider
  | flags (specs : List OptionSpec)
  | valued (spec : OptionSpec) (value : String)
  | waiting (spec : OptionSpec)
  | operand
  | unknown

def findOption (specs : List OptionSpec) (name : String) : Option OptionSpec :=
  specs.find? fun spec => spec.name = name

def readLong (specs : List OptionSpec) (text : List Char) : Reading :=
  let (name, value) := match Text.splitFirst '=' text with
    | none => (text, none)
    | some (name, value) => (name, some (String.ofList value))
  match findOption specs (String.ofList name), value with
  | none, _ => .unknown
  | some spec, none => if spec.kind = .flag then .flags [spec] else .waiting spec
  | some spec, some value => if spec.kind = .flag then .unknown else .valued spec value

def readLetters (specs : List OptionSpec) (text : List Char) : Reading :=
  match text.mapM fun c => (letters.lookup c).bind (findOption specs) with
  | some found => .flags found
  | none =>
    if text.head? = some 'h' || text.take 2 = ['d', 'h'] then .flags [helpOption] else .unknown

def reading (specs : List OptionSpec) (argument : String) : Reading :=
  match argument.toList with
  | ['-', '-'] => .divider
  | '-' :: '-' :: text => readLong specs text
  | '-' :: c :: text => readLetters specs (c :: text)
  | _ => .operand

def unknownArgument (argument : String) : Halt := .misuse ("unexpected argument " ++ argument)

def scan (specs : List OptionSpec) (operandKind : ValueKind) :
    List String → Given → Except Halt Given
  | [], given => .ok given
  | argument :: rest, given => do
    match reading specs argument with
    | .divider => rest.foldlM (fun given value => given.addOperand operandKind value) given
    | .flags found => scan specs operandKind rest (← found.foldlM Given.addFlag given)
    | .valued spec value => scan specs operandKind rest (← given.addOption spec value)
    | .waiting spec =>
      match rest with
      | [] => .error (.misuse ("--" ++ spec.name ++ " needs a value"))
      | value :: rest =>
        if looksLikeOption value then .error (.misuse ("--" ++ spec.name ++ " needs a value"))
        else scan specs operandKind rest (← given.addOption spec value)
    | .operand => scan specs operandKind rest (← given.addOperand operandKind argument)
    | .unknown => .error (unknownArgument argument)

abbrev Environment := String → Option String

/-- The value of an option, or else of its variable. -/
def value? (environment : Environment) (given : Given) (spec : OptionSpec) :
    Except Halt (Option String) :=
  match given.options.lookup spec.name with
  | some value => .ok (some value)
  | none =>
    match spec.variableName.bind environment with
    | none => .ok none
    | some value =>
      if accepts spec.kind value then .ok (some value)
      else .error (.misuse ("bad value for --" ++ spec.name))

def needed (environment : Environment) (given : Given) (spec : OptionSpec) : Except Halt String := do
  match ← value? environment given spec with
  | some value => .ok value
  | none => .error (.misuse ("--" ++ spec.name ++ " is missing"))

def operand (given : Given) : Except Halt String :=
  match given.operands with
  | [value] => .ok value
  | _ => .error (.misuse "an argument is missing")

def load (environment : Environment) (given : Given) : Except Halt Task := do
  .ok (.load (← needed environment given databaseOption) (← operand given))

def report (environment : Environment) (given : Given) : Except Halt Task := do
  .ok (.report (← needed environment given databaseOption) (← operand given))

/-- Files come from a server or from a checkout, not from both. -/
def apply (environment : Environment) (given : Given) : Except Halt Task := do
  let gitUrl ← value? environment given gitUrlOption
  let checkout ← value? environment given checkoutOption
  if gitUrl.isSome && checkout.isSome then .error (.misuse "--git-url and --checkout are both given")
  else if gitUrl.isNone && checkout.isNone then .error (.misuse "--git-url or --checkout is missing")
  else
    let defaultBranch ← value? environment given branchOption
    let deadline ← value? environment given deadlineOption
    .ok (.apply
      { database := ← needed environment given databaseOption
        event := ← operand given
        gitUrl := gitUrl
        checkout := checkout
        moderationUrl := ← value? environment given moderationOption
        defaultBranch := defaultBranch.getD "main"
        deadline := deadline.bind count? })

structure TaskSpec where
  name : String
  options : List OptionSpec
  operandKind : ValueKind
  task : Environment → Given → Except Halt Task

def taskSpecs : List TaskSpec :=
  [{ name := "catalog", options := databaseOption :: commonOptions, operandKind := .path
     task := load },
    { name := "apply", operandKind := .path, task := apply
      options := [databaseOption, gitUrlOption, checkoutOption, moderationOption, branchOption,
        deadlineOption] ++ commonOptions },
    { name := "show", options := databaseOption :: commonOptions, operandKind := .text
      task := report }]

def helpWord : String := "help"

def help : List String → Halt
  | [] => .help
  | [name] =>
    if name = helpWord || (taskSpecs.map TaskSpec.name).contains name then .help
    else unknownArgument name
  | _ => .misuse "help is given on one task"

/-- Reads what stands before the name of the task, then the rest. -/
def parseFrom (environment : Environment) (before : Given) :
    List String → Except Halt Invocation
  | [] => .error (.misuse "no task is given")
  | argument :: rest => do
    match reading commonOptions argument with
    | .flags found => parseFrom environment (← found.foldlM Given.addFlag before) rest
    | .operand =>
      match taskSpecs.find? fun spec => spec.name = argument with
      | some spec =>
        let given ← scan spec.options spec.operandKind rest {}
        .ok { isDebug := before.has "debug" || given.has "debug"
              hasJsonLogs := before.has "json-logs" || given.has "json-logs"
              task := ← spec.task environment given }
      | none => if argument = helpWord then .error (help rest) else .error (unknownArgument argument)
    | _ => .error (unknownArgument argument)

def parse (environment : Environment) (arguments : List String) : Except Halt Invocation :=
  parseFrom environment {} arguments

def usage : String :=
  "Reconciles repository tags and runtime frameworks from push events\n\n" ++
  "  catalog --db DB FILE\n" ++
  "  apply --db DB EVENT (--git-url URL | --checkout DIR) [--moderation-url URL]\n" ++
  "    [--default-branch B] [--deadline-secs N]\n" ++
  "  show --db DB NAME\n\n" ++
  "  -d, --debug    Enable debug logging\n" ++
  "  --json-logs    Emit logs as JSON lines\n" ++
  "  -h, --help     Print help"

end ModelHub.Command
