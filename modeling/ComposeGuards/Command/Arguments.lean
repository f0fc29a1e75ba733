/-! # Command line arguments

There are two commands: `decode INPUT` and `filter INPUT [--config FILE] [--strict] [--json]`, and
`help` for either. Options may stand anywhere after the command and `--` ends them. A value given to
an option or as the input is taken over only when the next argument is understood, so an unknown
argument is reported before an empty value that stands directly before it.
-/
namespace ComposeGuards.Command

/-- Why the arguments are refused, or that only help is asked for. -/
inductive UsageError
  | missingRequired
  | unknownArgument
  | invalidCommand
  | invalidValue
  | conflict
  | tooManyValues
  | help
  | helpForNothing
  deriving DecidableEq, Repr

structure FilterOptions where
  config : Option String := none
  strict : Bool := false
  json : Bool := false
  deriving DecidableEq, Repr

inductive Invocation
  | decode (input : String)
  | filter (input : String) (options : FilterOptions)
  deriving DecidableEq, Repr

/-- The files that the invocation reads, in the order of reading. -/
def Invocation.paths : Invocation → List String
  | decode input => [input]
  | filter input o => o.config.toList ++ [input]

/-- The options that a command may have. -/
inductive Flag
  | help | strict | json | config
  deriving DecidableEq, Repr

def Flag.name : Flag → String
  | help => "help"
  | strict => "strict"
  | json => "json"
  | config => "config"

/-- The form of one argument. -/
inductive Form
  | escape
  | long (name : String) (value : Option String)
  | short (letter : Char)
  | value (text : String)
  deriving DecidableEq, Repr

/-- A lone `-` is a value, and so is a text that does not start with one. -/
def formOf (arg : String) : Form :=
  match arg.toList with
  | ['-', '-'] => .escape
  | '-' :: '-' :: cs =>
    let name := cs.takeWhile (· ≠ '=')
    match cs.dropWhile (· ≠ '=') with
    | [] => .long (String.ofList name) none
    | _ :: value => .long (String.ofList name) (some (String.ofList value))
  | '-' :: c :: _ => .short c
  | _ => .value arg

/-- A value that is given but not yet taken over. -/
inductive Pending
  | input (path : String)
  | config (path : Option String)
  deriving DecidableEq, Repr

/-- What is known after some of a command's arguments. -/
structure Given where
  input : Option String := none
  options : FilterOptions := {}
  pending : Option Pending := none
  deriving DecidableEq, Repr

namespace Given

/-- Takes over the configuration file. -/
def setConfig (g : Given) (path : String) : Except UsageError Given :=
  if g.options.config.isSome then .error .conflict
  else if path.isEmpty then .error .invalidValue
  else .ok { g with options := { g.options with config := some path }, pending := none }

/-- Takes over the value that is pending, if any. -/
def settle (g : Given) : Except UsageError Given :=
  match g.pending with
  | none => .ok g
  | some (.input path) =>
    if path.isEmpty then .error .invalidValue
    else .ok { g with input := some path, pending := none }
  | some (.config none) => .error .invalidValue
  | some (.config (some path)) => g.setConfig path

def setFlag (g : Given) : Flag → Except UsageError Given
  | .help => .error .help
  | .strict =>
    if g.options.strict then .error .conflict
    else .ok { g with options := { g.options with strict := true } }
  | .json =>
    if g.options.json then .error .conflict
    else .ok { g with options := { g.options with json := true } }
  | .config => .ok { g with pending := some (.config none) }

/-- Whether an input is given, taken over or not. -/
def hasInput (g : Given) : Bool :=
  g.input.isSome || match g.pending with
    | some (.input _) => true
    | _ => false

/-- Takes an argument as the input. -/
def setInput (g : Given) (path : String) : Except UsageError Given :=
  if g.hasInput then .error .unknownArgument
  else do
    let g ← g.settle
    return { g with pending := some (.input path) }

/-- Takes a value: that of the option directly before it, or the input. -/
def setValue (g : Given) (text : String) : Except UsageError Given :=
  match g.pending with
  | some (.config none) => .ok { g with pending := some (.config (some text)) }
  | _ => g.setInput text

/-- Takes a long option with the value that is attached to it. -/
def setLong (g : Given) (flags : List Flag) (name : String) (value : Option String) :
    Except UsageError Given :=
  match flags.find? fun f => f.name = name, value with
  | none, _ => .error .unknownArgument
  | some .config, some path => do (← g.settle).setConfig path
  | some f, none => do (← g.settle).setFlag f
  | some _, some _ => .error .tooManyValues

/-- Takes the arguments of a command that has the given options. -/
def take (flags : List Flag) (g : Given) (escaped : Bool) :
    List String → Except UsageError Given
  | [] => g.settle
  | arg :: args =>
    if escaped then do take flags (← g.setInput arg) true args
    else
      match formOf arg with
      | .escape => take flags g true args
      | .long name value => do take flags (← g.setLong flags name value) false args
      | .short 'h' => do take flags (← (← g.settle).setFlag .help) false args
      | .short _ => .error .unknownArgument
      | .value text => do take flags (← g.setValue text) false args

end Given

inductive Name
  | decode | filter
  deriving DecidableEq, Repr

def Name.ofText? (text : String) : Option Name :=
  if text = "decode" then some .decode else if text = "filter" then some .filter else none

def Name.flags : Name → List Flag
  | decode => [.help]
  | filter => [.help, .config, .strict, .json]

/-- The invocation that the arguments of a command ask for. -/
def Name.invocation (name : Name) (args : List String) : Except UsageError Invocation := do
  let g ← Given.take name.flags {} false args
  match g.input with
  | none => throw .missingRequired
  | some input =>
    match name with
    | .decode => return .decode input
    | .filter => return .filter input g.options

def helpName : String := "help"

/-- The outcome of `help`, which takes the name of a command. -/
def helpFor : List String → UsageError
  | [] => .help
  | [topic] =>
    if (Name.ofText? topic).isSome || topic = helpName then .help else .invalidCommand
  | _ => .invalidCommand

/-- What remains of the arguments once `--` stands before the command. -/
def afterEscape : List String → UsageError
  | [] => .helpForNothing
  | arg :: _ =>
    if (Name.ofText? arg).isSome || arg = helpName then .unknownArgument else .invalidCommand

def parse : List String → Except UsageError Invocation
  | [] => .error .helpForNothing
  | arg :: args =>
    match Name.ofText? arg with
    | some name => name.invocation args
    | none =>
      if arg = helpName then .error (helpFor args)
      else
        match formOf arg with
        | .escape => .error (afterEscape args)
        | .long name value =>
          .error (if name ≠ helpName then .unknownArgument
            else if value.isSome then .tooManyValues else .help)
        | .short 'h' => .error .help
        | .short _ => .error .unknownArgument
        | .value _ => .error .invalidCommand

end ComposeGuards.Command
