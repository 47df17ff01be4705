import Conformance.Render.Format

/-!
The commands of the program and their options. An option has a long name, and some have a short one
as well; the others than the flags take a value.
-/
namespace Conformance.CommandLine

inductive Action where
  | run
  | list
  | version
  deriving DecidableEq, Repr

def Action.name : Action → String
  | run => "run"
  | list => "list"
  | version => "version"

def Action.all : List Action := [run, list, version]

inductive Switch where
  | labelFilter
  | timeout
  | format
  | output
  | catalog
  | config
  | noColor
  | verbose
  | help
  | version
  deriving DecidableEq, Repr

namespace Switch

def long : Switch → String
  | labelFilter => "label-filter"
  | timeout => "timeout"
  | format => "format"
  | output => "output"
  | catalog => "catalog"
  | config => "config"
  | noColor => "no-color"
  | verbose => "verbose"
  | help => "help"
  | version => "version"

def short? : Switch → Option Char
  | labelFilter => some 'l'
  | timeout => some 't'
  | format => some 'f'
  | output => some 'o'
  | config => some 'c'
  | verbose => some 'v'
  | help => some 'h'
  | version => some 'V'
  | catalog => none
  | noColor => none

def takesValue : Switch → Bool
  | noColor => false
  | verbose => false
  | help => false
  | version => false
  | _ => true

end Switch

/-- The switches that may come before a command. -/
def leadingSwitches : List Switch := [.help, .version]

def Action.switches : Action → List Switch
  | run => [.labelFilter, .timeout, .format, .output, .catalog, .config, .noColor, .verbose, .help]
  | list => [.labelFilter, .catalog, .config, .help]
  | version => [.help]

structure RunOptions where
  labelFilter : Option String
  timeout : Option UInt64
  format : Option Render.Format
  output : Option String
  catalog : Option String
  config : Option String
  noColor : Bool
  verbose : Bool
  deriving DecidableEq, Repr

def RunOptions.none : RunOptions := ⟨.none, .none, .none, .none, .none, .none, false, false⟩

structure ListOptions where
  labelFilter : Option String
  catalog : Option String
  config : Option String
  deriving DecidableEq, Repr

/-- Listing goes by the same options as running. -/
def ListOptions.toRunOptions (o : ListOptions) : RunOptions :=
  { RunOptions.none with labelFilter := o.labelFilter, catalog := o.catalog, config := o.config }

inductive Command where
  | run (options : RunOptions)
  | list (options : ListOptions)
  | version
  deriving DecidableEq, Repr

/-- The options that decide about the settings, if the command has any. -/
def Command.options? : Command → Option RunOptions
  | run o => some o
  | list o => some o.toRunOptions
  | version => Option.none

/-- Why a command line names no command to carry out. -/
inductive Stop where
  | help
  | version
  | missingCommand
  | unknownCommand (name : String)
  | unknownArgument (argument : String)
  | missingValue (switch : Switch)
  | emptyPath (switch : Switch)
  | unknownFormat (name : String)
  | invalidNumber (text : String)
  | repeated (switch : Switch)
  | valueForFlag (switch : Switch)
  deriving DecidableEq, Repr

namespace Stop

/-- Help and the version are answers; everything else is a mistake. -/
def exitCode : Stop → Nat
  | help => 0
  | version => 0
  | _ => 2

def message : Stop → String
  | help => ""
  | version => ""
  | missingCommand => "a command is required: run, list or version"
  | unknownCommand name => "unrecognized command: " ++ name
  | unknownArgument argument => "unexpected argument: " ++ argument
  | missingValue switch => "a value is required for --" ++ switch.long
  | emptyPath switch => "a value is required for --" ++ switch.long
  | unknownFormat name => "invalid format: " ++ name ++ ", expected text, json or junit"
  | invalidNumber text => "invalid number of seconds: " ++ text
  | repeated switch => "--" ++ switch.long ++ " may not be used more than once"
  | valueForFlag switch => "--" ++ switch.long ++ " takes no value"

end Stop

def usage : String :=
  "Run labelled check groups and record their results\n\n" ++
  "Usage: checkrun <COMMAND>\n\n" ++
  "Commands:\n" ++
  "  run      Run the checks selected by the label filter\n" ++
  "  list     List the IDs of the checks selected by the label filter\n" ++
  "  version  Print version information\n\n" ++
  "Options of run:\n" ++
  "  -l, --label-filter <EXPR>  Label expression (default: all)\n" ++
  "  -t, --timeout <SECS>       Global timeout in seconds (default: 86400)\n" ++
  "  -f, --format <FORMAT>      Output format: text, json or junit\n" ++
  "  -o, --output <FILE>        Write the report to FILE instead of stdout\n" ++
  "      --catalog <FILE>       Extra catalog entries (.json or .toml)\n" ++
  "  -c, --config <FILE>        Configuration file (default: $CHECKRUN_CONFIG)\n" ++
  "      --no-color             Disable colored output\n" ++
  "  -v, --verbose              Include captured output of every check in the report\n\n" ++
  "Options of list: --label-filter, --catalog, --config\n"

end Conformance.CommandLine
