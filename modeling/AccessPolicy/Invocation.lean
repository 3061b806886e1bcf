/-! # Invocations

What the arguments of the command line ask for. Options of the program stand
before the name of a command, those of the command after it, each at most once and
with a value of its own. After a lone `--` everything is an argument. Any other
use is refused. That holds of asking for help too, by `--help`, `-h` or the command
`help`, whose text is not covered here.
-/

namespace AccessPolicy

/-- What the program is asked to do. -/
inductive Action where
  | check (rule target credentials : String)
  | parse (text : String)
  | show (name : Option String)

/-- The use of the program. -/
inductive Invocation where
  | version
  | run (configuration : String) (action : Action)

namespace Invocation

/-- Whether an argument can only be an option. A lone hyphen is no option. -/
def isOption (argument : List Char) : Bool :=
  argument.head? == some '-' && argument.length != 1

/-- The name and the value of an option that are joined by an equals sign. -/
def splitAtEquals? : List Char → Option (List Char × List Char)
  | [] => none
  | c :: rest =>
    if c = '=' then some ([], rest)
    else (splitAtEquals? rest).map fun (name, value) => (c :: name, value)

/-- Options with their values, and the other arguments, in order. -/
structure Arguments where
  options : List (String × String)
  positional : List String

/-- The arguments with one more option, unless it is given already. -/
def Arguments.addOption? (arguments : Arguments) (name value : String) : Option Arguments :=
  if (arguments.options.lookup name).isSome then none
  else some { arguments with options := arguments.options ++ [(name, value)] }

def Arguments.addPositional (arguments : Arguments) (texts : List String) : Arguments :=
  { arguments with positional := arguments.positional ++ texts }

/-- The arguments of a command that has the given options, added to those read
before. -/
def readArguments (known : List String) (arguments : Arguments) :
    List String → Option Arguments
  | [] => some arguments
  | "--" :: rest => some (arguments.addPositional rest)
  | first :: rest =>
    if !isOption first.toList then readArguments known (arguments.addPositional [first]) rest
    else
      match splitAtEquals? first.toList with
      | some (name, value) =>
        if known.contains (String.ofList name) then do
          let arguments ← arguments.addOption? (String.ofList name) (String.ofList value)
          readArguments known arguments rest
        else none
      | none =>
        match rest with
        | [] => none
        | value :: rest =>
          if known.contains first && !isOption value.toList then do
            let arguments ← arguments.addOption? first value
            readArguments known arguments rest
          else none

def readAction (command : String) (rest : List String) : Option Action :=
  match command with
  | "check" => do
    let arguments ← readArguments ["--target", "--creds"] ⟨[], []⟩ rest
    match arguments.positional with
    | [rule] =>
      some (.check rule ((arguments.options.lookup "--target").getD "\x7b\x7d")
        ((arguments.options.lookup "--creds").getD "\x7b\x7d"))
    | _ => none
  | "parse" => do
    let arguments ← readArguments [] ⟨[], []⟩ rest
    match arguments.positional with
    | [text] => some (.parse text)
    | _ => none
  | "show" => do
    let arguments ← readArguments [] ⟨[], []⟩ rest
    match arguments.positional with
    | [] => some (.show none)
    | [name] => some (.show (some name))
    | _ => none
  | _ => none

def standardConfiguration : String :=
  "config.toml"

/-- What an argument in front of the command is. -/
inductive Leading where
  | version
  /-- The configuration file is named in the same argument. -/
  | configuration (path : String)
  /-- The configuration file is named in the next argument. -/
  | configurationNext
  | command
  | unknown

/-- What an argument in front of the command is. A short option may be followed by
its value at once, with or without an equals sign. -/
def Leading.ofText (argument : List Char) : Leading :=
  match argument with
  | '-' :: '-' :: name =>
    if name = "version".toList then .version
    else if name = "config".toList then .configurationNext
    else
      match "config=".toList.isPrefixOf? name with
      | some path => .configuration (String.ofList path)
      | none => .unknown
  | '-' :: 'V' :: _ => .version
  | ['-', 'c'] => .configurationNext
  | '-' :: 'c' :: '=' :: path => .configuration (String.ofList path)
  | '-' :: 'c' :: path => .configuration (String.ofList path)
  | '-' :: _ :: _ => .unknown
  | _ => .command

/-- What some arguments ask for, or `none` for wrong usage. The configuration file
may have been named before. -/
def readLeading (configuration : Option String) : List String → Option Invocation
  | [] => none
  | first :: rest =>
    match Leading.ofText first.toList with
    | .version => some .version
    | .configuration path =>
      if configuration.isSome then none else readLeading (some path) rest
    | .configurationNext =>
      match rest with
      | [] => none
      | path :: rest =>
        if configuration.isSome || isOption path.toList then none
        else readLeading (some path) rest
    | .command =>
      (readAction first rest).map (.run (configuration.getD standardConfiguration))
    | .unknown => none

/-- What some arguments ask for, or `none` for wrong usage, which asking for help
counts as here. -/
def ofArguments? (arguments : List String) : Option Invocation :=
  readLeading none arguments

end Invocation

end AccessPolicy
