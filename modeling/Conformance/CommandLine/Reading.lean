import Conformance.CommandLine.Options
import Conformance.Number.Unsigned

/-!
Reading command lines. A value follows its switch, after an equals sign, directly after a short
name, or as the next argument. A switch whose value is the next argument waits for it, and is taken
in only when the next switch is, or at the end; so an unknown argument is found before a fault of
the switch right before it. After two dashes there are no switches.
-/
namespace Conformance.CommandLine

/-- A switch that is not taken in yet, with its value unless that is still to come. -/
structure Waiting where
  switch : Switch
  value : Option String

structure Reading where
  options : RunOptions
  waiting : Option Waiting
  /-- Whether two dashes have been read. -/
  ended : Bool

namespace Reading

def start : Reading := ⟨.none, none, false⟩

/-- Takes in a switch with its value. -/
def takeValue (o : RunOptions) (switch : Switch) (value : String) : Except Stop RunOptions :=
  match switch with
  | .labelFilter =>
    if o.labelFilter.isSome then .error (.repeated switch)
    else .ok { o with labelFilter := some value }
  | .timeout =>
    if o.timeout.isSome then .error (.repeated switch)
    else match Number.parseUnsigned value with
      | .ok seconds => .ok { o with timeout := some seconds }
      | .error _ => .error (.invalidNumber value)
  | .format =>
    if o.format.isSome then .error (.repeated switch)
    else match Render.Format.ofName? value with
      | some format => .ok { o with format := some format }
      | none => .error (.unknownFormat value)
  | .output =>
    if o.output.isSome then .error (.repeated switch)
    else if value.isEmpty then .error (.emptyPath switch)
    else .ok { o with output := some value }
  | .catalog =>
    if o.catalog.isSome then .error (.repeated switch)
    else if value.isEmpty then .error (.emptyPath switch)
    else .ok { o with catalog := some value }
  | .config =>
    if o.config.isSome then .error (.repeated switch)
    else if value.isEmpty then .error (.emptyPath switch)
    else .ok { o with config := some value }
  | _ => .error (.valueForFlag switch)

def takeFlag (o : RunOptions) (switch : Switch) : Except Stop RunOptions :=
  match switch with
  | .noColor => if o.noColor then .error (.repeated switch) else .ok { o with noColor := true }
  | .verbose => if o.verbose then .error (.repeated switch) else .ok { o with verbose := true }
  | .help => .error .help
  | .version => .error .version
  | _ => .error (.missingValue switch)

/-- Takes in the switch that waits, if there is one. -/
def settle (r : Reading) : Except Stop Reading :=
  match r.waiting with
  | none => .ok r
  | some ⟨switch, none⟩ => .error (.missingValue switch)
  | some ⟨switch, some value⟩ => do
    return { r with options := ← takeValue r.options switch value, waiting := none }

def readFlag (r : Reading) (switch : Switch) : Except Stop Reading := do
  let r ← r.settle
  return { r with options := ← takeFlag r.options switch }

/-- A switch with its value attached to it, or else with the value still to come. -/
def readValued (r : Reading) (switch : Switch) (attached : Option String) :
    Except Stop Reading := do
  let r ← r.settle
  match attached with
  | some value => return { r with options := ← takeValue r.options switch value }
  | none => return { r with waiting := some ⟨switch, none⟩ }

/-- The name of a long switch, and the value after its equals sign. -/
def splitValue (text : List Char) : String × Option String :=
  let name := String.ofList (text.takeWhile (· != '='))
  match text.dropWhile (· != '=') with
  | [] => (name, none)
  | _ :: value => (name, some (String.ofList value))

def readLong (switches : List Switch) (r : Reading) (argument : String) (text : List Char) :
    Except Stop Reading :=
  let (name, value) := splitValue text
  match switches.find? (·.long == name) with
  | none => .error (.unknownArgument argument)
  | some switch =>
    if switch.takesValue then r.readValued switch value
    else match value with
      | some _ => .error (.valueForFlag switch)
      | none => r.readFlag switch

/-- The value that is attached to a short switch; an equals sign before it does not belong to it. -/
def attachedValue? : List Char → Option String
  | [] => none
  | '=' :: value => some (String.ofList value)
  | value => some (String.ofList value)

/-- Short switches in one argument; the first that takes a value takes the rest. -/
def readShort (switches : List Switch) (r : Reading) (argument : String) :
    List Char → Except Stop Reading
  | [] => .ok r
  | c :: rest =>
    match switches.find? (·.short? == some c) with
    | none => .error (.unknownArgument argument)
    | some switch =>
      if switch.takesValue then r.readValued switch (attachedValue? rest)
      else do readShort switches (← r.readFlag switch) argument rest

/-- An argument that is no switch, which has to be the value that a switch waits for. -/
def readPlain (r : Reading) (argument : String) : Except Stop Reading :=
  match r.waiting with
  | some ⟨switch, none⟩ => .ok { r with waiting := some ⟨switch, some argument⟩ }
  | _ => .error (.unknownArgument argument)

def read (switches : List Switch) (r : Reading) (argument : String) : Except Stop Reading :=
  if r.ended then .error (.unknownArgument argument)
  else match argument.toList with
    | ['-', '-'] => .ok { r with ended := true }
    | '-' :: '-' :: text => readLong switches r argument text
    | ['-'] => r.readPlain argument
    | '-' :: text => readShort switches r argument text
    | _ => r.readPlain argument

end Reading

def readOptions (switches : List Switch) (arguments : List String) : Except Stop RunOptions := do
  return (← (← arguments.foldlM (Reading.read switches) Reading.start).settle).options

def Action.read (action : Action) (arguments : List String) : Except Stop Command := do
  let o ← readOptions action.switches arguments
  match action with
  | .run => return .run o
  | .list => return .list ⟨o.labelFilter, o.catalog, o.config⟩
  | .version => return .version

def helpName : String := "help"

def commandNames : List String := Action.all.map Action.name ++ [helpName]

def isCommand (name : String) : Bool := commandNames.contains name

/-- The command to give help on has to be there, and no command has a command of its own. -/
def readHelp : List String → Stop
  | [] => .help
  | [name] => if isCommand name then .help else .unknownCommand name
  | name :: other :: _ => .unknownCommand (if isCommand name then other else name)

/-- What comes before a command is help or the version, or else a mistake. -/
def readLeading (arguments : List String) : Stop :=
  match arguments with
  | [] => .missingCommand
  | argument :: rest =>
    match argument.toList with
    | ['-', '-'] =>
      match rest with
      | [] => .missingCommand
      | name :: _ => if isCommand name then .unknownArgument name else .unknownCommand name
    | '-' :: _ :: _ =>
      match Reading.start.read leadingSwitches argument with
      | .error stop => stop
      | .ok _ => .unknownArgument argument
    | _ => .unknownCommand argument

def Command.read (arguments : List String) : Except Stop Command :=
  match arguments with
  | [] => .error .missingCommand
  | name :: rest =>
    match Action.all.find? (·.name == name) with
    | some action => action.read rest
    | none => if name = helpName then .error (readHelp rest) else .error (readLeading arguments)

end Conformance.CommandLine
